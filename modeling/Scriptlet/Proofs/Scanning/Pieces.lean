/-
# A token stands on its own

Which token a text begins with depends on the text behind it only as far as
that might still belong to the token.  So a token that was cut out of one text
is cut out of any other text in the same way, if what follows there is nothing
or one of the `breaks`, which no token goes on with.
-/
import Scriptlet.Token.Scan
import Mathlib.Data.List.TakeWhile

namespace Scriptlet

namespace Piece

/-- Characters that end whatever token stands before them. -/
def breaks : List Char := [' ', '\n', '(', ')', ',', ';']

/-- Nothing follows, or a character that ends every token. -/
def Broken (rest : List Char) : Prop := ∀ c ∈ rest.head?, c ∈ breaks

@[simp] theorem broken_nil : Broken [] := by
  intro c h
  cases h

@[simp] theorem broken_cons (c : Char) (rest : List Char) : Broken (c :: rest) ↔ c ∈ breaks := by
  simp [Broken]

theorem Broken.head_ne {rest : List Char} (h : Broken rest) {c : Char} (hc : c ∉ breaks) :
    rest.head? ≠ some c := fun head => hc (h c head)

/-! ## As far as a predicate holds -/

section

variable {p : Char → Bool}

theorem takeWhile_append {cs rest : List Char} (h : ∀ c ∈ cs, p c)
    (h' : ∀ c ∈ rest.head?, p c = false) : (cs ++ rest).takeWhile p = cs := by
  rw [List.takeWhile_append_of_pos h]
  cases rest with
  | nil => simp
  | cons c rest => rw [List.takeWhile_cons_of_neg (by simp [h' c rfl]), List.append_nil]

theorem dropWhile_append {cs rest : List Char} (h : ∀ c ∈ cs, p c)
    (h' : ∀ c ∈ rest.head?, p c = false) : (cs ++ rest).dropWhile p = rest := by
  rw [List.dropWhile_append_of_pos h]
  cases rest with
  | nil => rfl
  | cons c rest => rw [List.dropWhile_cons_of_neg (by simp [h' c rfl])]

/-- A class of characters that has no breaks in it ends at a break. -/
theorem Broken.ends {rest : List Char} (h : Broken rest) (hp : breaks.any p = false) :
    ∀ c ∈ rest.head?, p c = false := by
  intro c head
  have hc := List.any_eq_false.1 hp c (h c head)
  exact Bool.eq_false_iff.2 hc

end

/-! ## Numbers -/

/-- What a number goes on with after its first digits: nothing, or a point and
one digit at least. -/
inductive Fraction : List Char → Prop
  | none : Fraction []
  | some {d : Char} {ds : List Char} : d.isDigit → (∀ c ∈ ds, c.isDigit) →
      Fraction ('.' :: d :: ds)

theorem fraction_spec (rest : List Char) : Fraction (fraction rest) := by
  unfold fraction
  split
  case h_1 d rest =>
      split
      case isTrue h => exact .some h fun c => List.mem_takeWhile_imp
      case isFalse => exact .none
  case h_2 => exact .none

theorem fraction_append {cs rest : List Char} (h : Fraction cs) (hr : Broken rest) :
    fraction (cs ++ rest) = cs := by
  cases h with
  | none =>
      rw [List.nil_append]
      unfold fraction
      split
      · exact absurd rfl (hr.head_ne (by decide : '.' ∉ breaks))
      · rfl
  | @some d ds hd hds =>
      show (if d.isDigit then '.' :: d :: (ds ++ rest).takeWhile Char.isDigit else []) = _
      rw [if_pos hd, takeWhile_append hds (hr.ends (by decide))]

theorem numberTail_append {ds cs rest : List Char} (hds : ∀ c ∈ ds, c.isDigit)
    (h : Fraction cs) (hr : Broken rest) : numberTail (ds ++ cs ++ rest) = ds ++ cs := by
  have ends : ∀ c ∈ (cs ++ rest).head?, c.isDigit = false := by
    cases h with
    | none => exact hr.ends (by decide)
    | some =>
        intro c head
        cases head
        decide
  unfold numberTail
  rw [List.append_assoc, takeWhile_append hds ends, dropWhile_append hds ends,
    fraction_append h hr]

/-! ## The first character -/

/-- The signs, the quotes and the layout characters, with what they lead to. -/
def Lead.table : List (Char × Lead) :=
  [('(', .sign .leftParen), (')', .sign .rightParen), ('\x7b', .sign .leftBrace),
   ('\x7d', .sign .rightBrace), (',', .sign .comma), ('.', .sign .dot), ('-', .sign .minus),
   ('+', .sign .plus), (';', .sign .semicolon), ('*', .sign .star),
   ('!', .operator .bang .bangEqual), ('=', .operator .equal .equalEqual),
   ('<', .operator .less .lessEqual), ('>', .operator .greater .greaterEqual),
   ('/', .slash), ('"', .quote), ('\'', .quote), (' ', .blank), ('\r', .blank),
   ('\t', .blank), ('\n', .blank)]

/-- What is neither a sign nor layout is told apart by classes. -/
theorem lead_eq (c : Char) : lead c ∈ [.digit, .letter, .other] ∨ (c, lead c) ∈ Lead.table := by
  unfold lead
  split
  case h_22 =>
      left
      split
      · decide
      · split <;> decide
  all_goals
    right
    decide

theorem mem_table {c : Char} {l : Lead} (h : lead c = l) (single : l ∉ [.digit, .letter, .other]) :
    (c, l) ∈ Lead.table := by
  subst h
  exact (lead_eq c).resolve_left single

theorem lead_digit {c : Char} (h : lead c = .digit) : c.isDigit := by
  unfold lead at h
  split at h
  case h_22 =>
      split at h
      case isTrue digit => exact digit
      case isFalse => split at h <;> cases h
  all_goals cases h

theorem lead_of_digit {c : Char} (h : c.isDigit) : lead c = .digit := by
  unfold lead
  split
  case h_22 => rw [if_pos h]
  all_goals exact absurd h (by decide)

/-- No digit is a letter. -/
theorem isDigit_of_isLetter {c : Char} (h : isLetter c) : c.isDigit = false := by
  rw [Bool.eq_false_iff]
  intro digit
  have below : c.val ≤ '9'.val := of_decide_eq_true (Bool.and_eq_true_iff.1 digit).2
  rcases Bool.or_eq_true_iff.1 h with alpha | underscore
  · rcases Bool.or_eq_true_iff.1 alpha with upper | lower
    · have above : 'A'.val ≤ c.val := (of_decide_eq_true upper).1
      exact absurd (Nat.le_trans above below) (by decide)
    · have above : 'a'.val ≤ c.val := of_decide_eq_true (Bool.and_eq_true_iff.1 lower).1
      exact absurd (Nat.le_trans above below) (by decide)
  · rw [beq_iff_eq.1 underscore] at below
    exact absurd below (by decide)

theorem lead_of_letter {c : Char} (h : isLetter c) : lead c = .letter := by
  unfold lead
  split
  case h_22 => rw [isDigit_of_isLetter h, if_neg Bool.false_ne_true, if_pos h]
  all_goals exact absurd h (by decide)

theorem lead_letter {c : Char} (h : lead c = .letter) : isLetter c := by
  unfold lead at h
  split at h
  case h_22 =>
      split at h
      case isTrue => cases h
      case isFalse =>
          split at h
          case isTrue letter => exact letter
          case isFalse => cases h
  all_goals cases h

theorem lead_slash {c : Char} (h : lead c = .slash) : c = '/' := by
  simpa [Lead.table] using mem_table h (by decide)

theorem lead_quote {c : Char} (h : lead c = .quote) : c ∈ ['"', '\''] := by
  simpa [Lead.table] using mem_table h (by decide)

theorem lead_blank {c : Char} (h : lead c = .blank) : c ∈ [' ', '\t', '\r', '\n'] := by
  simpa [Lead.table, or_comm, or_assoc, or_left_comm] using mem_table h (by decide)

/-! ## The first piece -/

theorem first_chars (c : Char) (rest : List Char) : ∃ tail, (first c rest).chars = c :: tail := by
  unfold first
  cases h : lead c with
  | sign kind => exact ⟨[], rfl⟩
  | operator alone withEqual =>
      dsimp only
      split
      · exact ⟨['='], rfl⟩
      · exact ⟨[], rfl⟩
  | slash =>
      rw [lead_slash h]
      dsimp only
      unfold slashPiece
      split
      · exact ⟨_, rfl⟩
      · exact ⟨[], rfl⟩
  | quote =>
      dsimp only
      unfold stringPiece
      split
      · exact ⟨rest, rfl⟩
      · exact ⟨_, rfl⟩
  | blank => exact ⟨[], rfl⟩
  | digit => exact ⟨_, rfl⟩
  | letter => exact ⟨_, rfl⟩
  | other => exact ⟨[], rfl⟩

/-- A token that begins one text begins every text that goes on behind it with
a break. -/
theorem first_append {c : Char} {tail before rest : List Char} {kind : Token.Kind}
    (h : first c before = ⟨.token kind, c :: tail⟩) (hr : Broken rest) :
    first c (tail ++ rest) = ⟨.token kind, c :: tail⟩ := by
  unfold first at h ⊢
  cases hl : lead c with
  | sign kind' =>
      rw [hl] at h
      cases h
      rfl
  | operator alone withEqual =>
      rw [hl] at h
      dsimp only at h ⊢
      split at h
      · cases h
        rfl
      · cases h
        rw [List.nil_append, if_neg (hr.head_ne (by decide))]
  | slash =>
      rw [hl] at h
      dsimp only at h ⊢
      unfold slashPiece at h ⊢
      split at h
      · cases h
      · cases h
        rw [List.nil_append, if_neg (hr.head_ne (by decide))]
  | quote =>
      rw [hl] at h
      dsimp only at h ⊢
      unfold stringPiece at h ⊢
      split at h
      · cases h
      · cases h
        have inside : ∀ d ∈ before.takeWhile (· != c), (d != c) = true :=
          fun d => List.mem_takeWhile_imp
        have ends : ∀ d ∈ (c :: rest).head?, (d != c) = false := by
          intro d head
          cases head
          exact bne_self_eq_false c
        rw [List.append_assoc, List.singleton_append, dropWhile_append inside ends,
          takeWhile_append inside ends]
  | blank =>
      rw [hl] at h
      cases h
  | digit =>
      rw [hl] at h
      cases h
      have digits : ∀ d ∈ before.takeWhile Char.isDigit, d.isDigit :=
        fun d => List.mem_takeWhile_imp
      show (⟨_, c :: numberTail (numberTail before ++ rest)⟩ : Piece) = _
      unfold numberTail
      have := numberTail_append digits (fraction_spec (before.dropWhile Char.isDigit)) hr
      unfold numberTail at this
      rw [this]
  | letter =>
      rw [hl] at h
      have word : ∀ d ∈ before.takeWhile isWordChar, isWordChar d :=
        fun d => List.mem_takeWhile_imp
      have same : (before.takeWhile isWordChar ++ rest).takeWhile isWordChar =
          before.takeWhile isWordChar := takeWhile_append word (hr.ends (by decide))
      dsimp only at h ⊢
      unfold wordPiece at h ⊢
      cases h
      dsimp only
      rw [same]
  | other =>
      rw [hl] at h
      cases h

/-- Digits, and after them nothing or a point and digits, are one number. -/
theorem first_number {d : Char} {ds cs rest : List Char} (hd : d.isDigit)
    (hds : ∀ c ∈ ds, c.isDigit) (h : Fraction cs) (hr : Broken rest) :
    first d (ds ++ cs ++ rest) = ⟨.token .number, d :: (ds ++ cs)⟩ := by
  unfold first
  rw [lead_of_digit hd]
  dsimp only
  rw [numberTail_append hds h hr]

/-- A text between quotes that are not in it is one string. -/
theorem first_string {quote : Char} {cs : List Char} (hq : lead quote = .quote)
    (free : quote ∉ cs) (rest : List Char) :
    first quote (cs ++ [quote] ++ rest) = ⟨.token .string, quote :: (cs ++ [quote])⟩ := by
  have inside : ∀ c ∈ cs, (c != quote) = true := by
    intro c member
    rw [bne_iff_ne]
    rintro rfl
    exact free member
  have ends : ∀ c ∈ (quote :: rest).head?, (c != quote) = false := by
    intro c head
    cases head
    exact bne_self_eq_false quote
  unfold first
  rw [hq]
  dsimp only
  unfold stringPiece
  rw [List.append_assoc, List.singleton_append, dropWhile_append inside ends,
    takeWhile_append inside ends]

/-! ## One piece after another -/

theorem cutFrom_skip (cs rest : List Char) : cutFrom cs.length (cs ++ rest) = cut rest := by
  induction cs with
  | nil => rfl
  | cons c cs ih => exact ih

theorem cut_cons {c : Char} {tail rest : List Char} {shape : Shape}
    (h : first c (tail ++ rest) = ⟨shape, c :: tail⟩) :
    cut (c :: (tail ++ rest)) = ⟨shape, c :: tail⟩ :: cut rest := by
  unfold cut
  rw [cutFrom, h]
  exact congrArg _ (cutFrom_skip tail rest)

/-- Every piece of a text is the first one of some text. -/
theorem mem_cutFrom {p : Piece} : ∀ {source : List Char} {skip : Nat}, p ∈ cutFrom skip source →
    ∃ c rest, p = first c rest := by
  intro source
  induction source with
  | nil =>
      intro skip h
      cases skip <;> cases h
  | cons c rest ih =>
      intro skip h
      cases skip with
      | zero =>
          rcases List.mem_cons.1 h with here | later
          · exact ⟨c, rest, here⟩
          · exact ih later
      | succ skip => exact ih h

end Piece

end Scriptlet
