/-
# The errors of a text

What can be wrong with the characters of a text, said by an automaton that reads
them one by one from left to right.  Its mode tells code from string literals and
comments: a quote in code opens a literal, which the same quote closes, and two
slashes in code open a comment, which a newline closes.

A character is out of place in code if no lexeme starts with it and it is no
layout.  Those characters in their order, and then a literal that the text leaves
open, are the errors of the text (`errors`), and exactly they are reported.

Pieces and modes go together: behind a whole piece the automaton is in code again,
but for a slash or a comment that cannot go on and a literal that the text ends in
(`Between`).  That is what a piece preserves (`between_behind`).
-/
import Scriptlet.Proofs.Scanning.Lossless

namespace Scriptlet

open Piece

namespace Token

/-! ## Characters that start nothing -/

/-- The character starts no token and is no layout. -/
def Stray (c : Char) : Prop :=
  c ∉ blanks ∧ ∀ (kind : Kind) (tail : List Char) (literal : Option Literal),
    ¬ Lexeme kind (c :: tail) literal

theorem lead_of_stray {c : Char} (h : Stray c) : lead c = .other := by
  have starts : ∀ (tail : List Char) (kind : Kind), (first c tail).shape ≠ .token kind := by
    intro tail kind shape
    obtain ⟨tail', chars⟩ := first_chars c tail
    have lexeme := lexeme_of_first shape
    rw [chars] at lexeme
    exact h.2 _ _ _ lexeme
  cases lead : lead c with
  | sign kind =>
      refine (starts [] kind ?_).elim
      rw [first, lead]
  | operator alone withEqual =>
      refine (starts [] alone ?_).elim
      rw [first, lead]
      rfl
  | slash =>
      refine (starts [] .slash ?_).elim
      rw [first, lead]
      rfl
  | quote =>
      have closed := first_string lead List.not_mem_nil []
      exact (starts _ _ (congrArg Piece.shape closed)).elim
  | blank => exact absurd (lead_blank lead) h.1
  | digit =>
      refine (starts [] .number ?_).elim
      rw [first, lead]
  | letter =>
      refine (starts [] (Kind.ofWord (String.ofList [c])) ?_).elim
      rw [first, lead]
      rfl
  | other => rfl

theorem stray_of_lead {c : Char} (h : lead c = .other) : Stray c := by
  constructor
  · intro blank
    simp only [blanks, List.mem_cons, List.not_mem_nil, or_false] at blank
    rcases blank with rfl | rfl | rfl | rfl <;> cases h
  · intro kind tail literal lexeme
    have piece := lexeme.first.1
    rw [first, h] at piece
    cases piece

theorem stray_iff {c : Char} : Stray c ↔ lead c = .other := ⟨lead_of_stray, stray_of_lead⟩

instance (c : Char) : Decidable (Stray c) := decidable_of_iff _ stray_iff.symm

/-! ## Reading from left to right -/

/-- What the characters read so far leave a reader in. -/
inductive Mode where
  | code
  /-- In code, behind a slash. -/
  | slash
  /-- In a string literal that the quote opened. -/
  | quoted (quote : Char)
  | comment
deriving DecidableEq, Repr

namespace Mode

/-- A character is read in code. -/
def start (c : Char) : Mode :=
  if c = '/' then .slash else if c ∈ ['"', '\''] then .quoted c else .code

def next : Mode → Char → Mode
  | .code, c => start c
  | .slash, c => if c = '/' then .comment else start c
  | .quoted quote, c => if c = quote then .code else .quoted quote
  | .comment, c => if c = '\n' then .code else .comment

/-- The mode behind a text. -/
def behind (text : List Char) : Mode := text.foldl next .code

/-- Outside of string literals and comments. -/
def Outside (m : Mode) : Prop := m = .code ∨ m = .slash

instance (m : Mode) : Decidable m.Outside := inferInstanceAs (Decidable (_ ∨ _))

end Mode

/-- The character is out of place behind the text. -/
def OutOfPlace (before : List Char) (c : Char) : Prop := (Mode.behind before).Outside ∧ Stray c

instance (before : List Char) (c : Char) : Decidable (OutOfPlace before c) :=
  inferInstanceAs (Decidable (_ ∧ _))

/-- The characters out of place of a text that stands behind another one, each
with its line. -/
def strays (before : List Char) : List Char → List ScanError
  | [] => []
  | c :: rest =>
    let later := strays (before ++ [c]) rest
    if OutOfPlace before c then
      .unexpectedCharacter c (1 + before.count '\n') :: later
    else later

/-- The error of a text that ends in a string literal. -/
def unclosed (text : List Char) : List ScanError :=
  match Mode.behind text with
  | .quoted _ => [.unterminatedString (1 + text.count '\n')]
  | _ => []

/-- The errors of a text, in the order in which they are read. -/
def errors (text : List Char) : List ScanError := strays [] text ++ unclosed text

variable {before text text' rest tail after : List Char} {c quote : Char} {m m' : Mode}

theorem not_stray (h : lead c ≠ .other) : ¬ Stray c := fun stray => h (lead_of_stray stray)

namespace Mode

theorem behind_append (before text : List Char) :
    behind (before ++ text) = text.foldl next (behind before) := List.foldl_append

theorem start_of_lead (h : lead c ∉ [.slash, .quote]) : start c = .code := by
  have slash : c ≠ '/' := by
    rintro rfl
    exact h (by decide)
  have quote : c ∉ ['"', '\''] := by
    intro quoted
    simp only [List.mem_cons, List.not_mem_nil, or_false] at quoted
    rcases quoted with rfl | rfl <;> exact h (by decide)
  rw [start, if_neg slash, if_neg quote]

theorem start_of_quote (h : lead c = .quote) : start c = .quoted c := by
  have quoted := lead_quote h
  have slash : c ≠ '/' := by
    rintro rfl
    exact absurd quoted (by decide)
  rw [start, if_neg slash, if_pos quoted]

end Mode

open Mode

theorem strays_append (before text rest : List Char) :
    strays before (text ++ rest) = strays before text ++ strays (before ++ text) rest := by
  induction text generalizing before with
  | nil => rw [List.append_nil]; rfl
  | cons c text ih =>
      rw [List.cons_append, strays, strays, ih, List.append_assoc, List.singleton_append]
      split <;> rfl

/-- Behind the first text the second one is read without an error, and leaves the
reader in the mode `m`. -/
structure Passes (before text : List Char) (m : Mode) : Prop where
  mode : behind (before ++ text) = m
  none : strays before text = []

namespace Passes

theorem nil (h : behind before = m) : Passes before [] m :=
  ⟨by rwa [List.append_nil], rfl⟩

theorem append (h : Passes before text m) (h' : Passes (before ++ text) text' m') :
    Passes before (text ++ text') m' := by
  constructor
  · rw [← List.append_assoc]
    exact h'.mode
  · rw [strays_append, h.none, h'.none]
    rfl

/-- A character that may stand in code. -/
theorem one (h : (behind before).next c = m) (known : lead c ≠ .other) : Passes before [c] m := by
  constructor
  · rw [behind_append]
    exact h
  · rw [strays, if_neg fun stray => not_stray known stray.2]
    rfl

/-- Characters that do not change the mode. -/
theorem same (h : behind before = m) (stays : ∀ d ∈ text, m.next d = m)
    (known : m.Outside → ∀ d ∈ text, lead d ≠ .other) : Passes before text m := by
  induction text generalizing before with
  | nil => exact nil h
  | cons d text ih =>
      obtain ⟨here, stays⟩ := List.forall_mem_cons.1 stays
      have mode : behind (before ++ [d]) = m := by
        rw [behind_append, h]
        exact here
      have later := ih mode stays fun outside => (List.forall_mem_cons.1 (known outside)).2
      have none : ¬ OutOfPlace before d := by
        rintro ⟨outside, stray⟩
        rw [h] at outside
        exact not_stray (known outside d List.mem_cons_self) stray
      constructor
      · have whole := later.mode
        rwa [List.append_assoc] at whole
      · rw [strays, if_neg none]
        exact later.none

/-- Code without slashes and quotes. -/
theorem code (h : behind before = .code)
    (plain : ∀ d ∈ text, lead d ∉ [.slash, .quote, .other]) : Passes before text .code := by
  refine same h (fun d member => ?_) fun _ d member => ?_
  · have lead := plain d member
    simp only [List.mem_cons, not_or] at lead
    exact start_of_lead (by simp [lead])
  · have lead := plain d member
    simp only [List.mem_cons, not_or] at lead
    exact lead.2.2.1

end Passes

/-! ## Pieces -/

/-- The modes between two pieces.  A slash or a comment cannot go on there. -/
inductive Between : Mode → List Char → Prop
  | code {rest : List Char} : Between .code rest
  | slash {rest : List Char} : rest.head? ≠ some '/' → Between .slash rest
  | comment {rest : List Char} : (∀ c ∈ rest.head?, c = '\n') → Between .comment rest

/-- The first character of a piece is read in code. -/
theorem Between.next_eq (h : Between m (c :: rest)) : m.next c = start c := by
  cases h with
  | code => rfl
  | slash other =>
      have other : c ≠ '/' := fun same => other (congrArg some same)
      exact if_neg other
  | comment ends =>
      obtain rfl := ends c rfl
      rfl

theorem Between.outOfPlace_iff (h : Between (behind before) (c :: rest)) :
    OutOfPlace before c ↔ Stray c := by
  refine and_iff_right_of_imp fun stray => ?_
  cases mode : behind before with
  | code => exact .inl rfl
  | slash => exact .inr rfl
  | quoted quote =>
      rw [mode] at h
      cases h
  | comment =>
      rw [mode] at h
      cases h with
      | comment ends =>
          obtain rfl := ends c rfl
          exact absurd stray (not_stray (by decide))

theorem lead_of_isWordChar (h : isWordChar c) : lead c ∉ [.slash, .quote, .other] := by
  rw [isWordChar, Bool.or_eq_true] at h
  rcases h with letter | digit
  · rw [lead_of_letter letter]
    decide
  · rw [lead_of_digit digit]
    decide

theorem lead_of_numberTail (h : c ∈ numberTail rest) : lead c ∉ [.slash, .quote, .other] := by
  have digit : ∀ {d : Char}, d.isDigit → lead d ∉ [.slash, .quote, .other] := by
    intro d digit
    rw [lead_of_digit digit]
    decide
  rw [numberTail] at h
  rcases List.mem_append.1 h with whole | fractional
  · exact digit (List.mem_takeWhile_imp whole)
  · have places := fraction_spec (rest.dropWhile Char.isDigit)
    generalize fraction (rest.dropWhile Char.isDigit) = fr at fractional places
    cases places with
    | none => cases fractional
    | some place places =>
        simp only [List.mem_cons] at fractional
        rcases fractional with rfl | rfl | later
        · decide
        · exact digit place
        · exact digit (places c later)

/-- The start of a piece, which is in code. -/
theorem Between.first (h : Between (behind before) (c :: rest)) (known : lead c ≠ .other) :
    Passes before [c] (start c) := .one h.next_eq known

/-- A piece whose first character leads neither to a string nor to a comment. -/
theorem Between.plain (h : Between (behind before) (c :: rest))
    (lead : lead c ∉ [.slash, .quote, .other])
    (plain : ∀ d ∈ tail, Piece.lead d ∉ [.slash, .quote, .other]) :
    Passes before (c :: tail) .code := by
  simp only [List.mem_cons, List.not_mem_nil, or_false, not_or] at lead
  have start := start_of_lead (c := c) (by simp [lead])
  have here := h.first lead.2.2
  exact here.append (.code (here.mode.trans start) plain)

/-- A comment is read up to its end. -/
theorem Between.passes_comment (h : Between (behind before) ('/' :: rest))
    (line : ∀ d ∈ tail, d ≠ '\n') : Passes before ('/' :: '/' :: tail) .comment := by
  have here := h.first (by decide)
  have second : Passes (before ++ ['/']) ['/'] .comment := by
    refine .one ?_ (by decide)
    rw [here.mode]
    rfl
  have both := here.append second
  refine both.append (.same both.mode (fun d member => if_neg (line d member)) ?_)
  rintro (outside | outside) <;> cases outside

/-- A literal is read as long as its quote does not come. -/
theorem Between.passes_quoted (h : Between (behind before) (c :: rest)) (quoted : lead c = .quote)
    (free : c ∉ tail) : Passes before (c :: tail) (.quoted c) := by
  have here := h.first (by simp [quoted])
  rw [start_of_quote quoted] at here
  refine here.append (.same here.mode (fun d member => if_neg ?_) ?_)
  · rintro rfl
    exact free member
  · rintro (outside | outside) <;> cases outside

/-- What is neither a token nor a gap is out of place or an open literal. -/
theorem lead_of_unclean (h : ¬ (Piece.first c rest).Clean) :
    lead c = .other ∨ lead c = .quote ∧ c ∉ rest := by
  have token : ∀ kind chars, (⟨.token kind, chars⟩ : Piece).Clean := by simp [Clean]
  have gap : ∀ chars, (⟨.gap, chars⟩ : Piece).Clean := by simp [Clean]
  cases lead : lead c with
  | other => exact .inl rfl
  | quote =>
      refine .inr ⟨rfl, fun closed => h ?_⟩
      obtain ⟨inside, after, rfl, free⟩ := List.eq_append_cons_of_mem closed
      have string := first_string lead free after
      rw [List.append_assoc, List.singleton_append] at string
      rw [string]
      exact token _ _
  | operator alone withEqual =>
      refine absurd ?_ h
      rw [Piece.first, lead]
      dsimp only
      split <;> exact token _ _
  | slash =>
      refine absurd ?_ h
      rw [Piece.first, lead]
      dsimp only [slashPiece]
      split
      · exact gap _
      · exact token _ _
  | blank =>
      refine absurd ?_ h
      rw [Piece.first, lead]
      exact gap _
  | sign | digit | letter =>
      refine absurd ?_ h
      rw [Piece.first, lead]
      exact token _ _

/-- A token or a gap is read without an error, and stands between pieces. -/
theorem between_behind {shape : Shape} (between : Between (behind before) (c :: (tail ++ after)))
    (piece : Piece.first c (tail ++ after) = ⟨shape, c :: tail⟩)
    (clean : (⟨shape, c :: tail⟩ : Piece).Clean) :
    ∃ m, Passes before (c :: tail) m ∧ Between m after := by
  have whole := piece
  rw [Piece.first] at piece
  cases lead : lead c with
  | sign kind =>
      rw [lead] at piece
      cases piece
      exact ⟨_, between.plain (by simp [lead]) (List.forall_mem_nil _), .code⟩
  | operator alone withEqual =>
      rw [lead] at piece
      refine ⟨_, between.plain (by simp [lead]) ?_, .code⟩
      dsimp only at piece
      split at piece
      · cases piece
        exact List.forall_mem_singleton.2 (by decide)
      · cases piece
        exact List.forall_mem_nil _
  | slash =>
      obtain rfl := lead_slash lead
      by_cases comment : (tail ++ after).head? = some '/'
      case pos =>
          have gap : shape = .gap := by
            rw [lead] at piece
            dsimp only [slashPiece] at piece
            rw [if_pos comment] at piece
            exact (congrArg Piece.shape piece).symm
          subst gap
          obtain ⟨inside, rfl, free, ends⟩ := Gap.comment_of_first whole
          exact ⟨_, between.passes_comment fun d member same => free (same ▸ member), .comment ends⟩
      case neg =>
          rw [lead] at piece
          dsimp only [slashPiece] at piece
          rw [if_neg comment] at piece
          cases piece
          exact ⟨_, between.first (by decide), .slash comment⟩
  | quote =>
      rw [lead] at piece
      dsimp only at piece
      by_cases closed : c ∈ tail ++ after
      · obtain ⟨inside, rest, split, free⟩ := List.eq_append_cons_of_mem closed
        have string := first_string lead free rest
        rw [List.append_assoc, List.singleton_append, ← split, whole] at string
        obtain rfl : tail = inside ++ [c] := by simpa using congrArg Piece.chars string
        have passes := between.passes_quoted lead free
        have closes : Passes (before ++ c :: inside) [c] .code := by
          refine .one ?_ (by simp [lead])
          rw [passes.mode]
          exact if_pos rfl
        exact ⟨_, passes.append closes, .code⟩
      · rw [stringPiece_open c _ closed] at piece
        exact absurd (congrArg Piece.shape piece).symm clean.1
  | blank =>
      rw [lead] at piece
      cases piece
      exact ⟨_, between.plain (by simp [lead]) (List.forall_mem_nil _), .code⟩
  | digit =>
      rw [lead] at piece
      simp only [Piece.mk.injEq, List.cons.injEq, true_and] at piece
      refine ⟨_, between.plain (by simp [lead]) ?_, .code⟩
      intro d member
      rw [← piece.2] at member
      exact lead_of_numberTail member
  | letter =>
      rw [lead] at piece
      simp only [wordPiece, Piece.mk.injEq, List.cons.injEq, true_and] at piece
      refine ⟨_, between.plain (by simp [lead]) ?_, .code⟩
      intro d member
      rw [← piece.2] at member
      exact lead_of_isWordChar (List.mem_takeWhile_imp member)
  | other =>
      rw [lead] at piece
      injection piece with stray
      exact absurd stray.symm clean.2

/-! ## Texts -/

/-- A text behind a piece that may stand there has the errors of the rest. -/
theorem Passes.errors_append (h : Passes before text m) (rest : List Char) :
    strays before (text ++ rest) ++ unclosed (before ++ (text ++ rest)) =
      strays (before ++ text) rest ++ unclosed (before ++ text ++ rest) := by
  rw [strays_append, h.none, List.nil_append, ← List.append_assoc before]

/-- The errors that are reported from a piece on are those of the automaton. -/
theorem faults_eq (between : Between (behind before) text) :
    faults (1 + before.count '\n') text = strays before text ++ unclosed (before ++ text) := by
  induction text using cut_induction generalizing before with
  | nil =>
      have none : unclosed before = [] := by
        generalize mode : behind before = m at between
        cases between <;> rw [unclosed, mode]
      rw [List.append_nil, none]
      rfl
  | cons c tail after shape piece ih =>
      rw [faults_cons _ piece, line_append]
      by_cases clean : (⟨shape, c :: tail⟩ : Piece).Clean
      case pos =>
          obtain ⟨m, passes, between⟩ := between_behind between piece clean
          have none : errorOfPiece? (⟨shape, c :: tail⟩, 1 + (before ++ c :: tail).count '\n') =
              none := by
            cases shape with
            | token | gap => rfl
            | openString => exact absurd rfl clean.1
            | stray => exact absurd rfl clean.2
          rw [List.filterMap_cons_none none, ← List.cons_append, passes.errors_append, ← ih]
          · rfl
          · rwa [passes.mode]
      case neg =>
          rcases lead_of_unclean (piece ▸ clean) with lead | ⟨lead, free⟩
          case inl =>
              have alone := piece
              rw [Piece.first, lead] at alone
              cases alone
              have mode : behind (before ++ [c]) = .code := by
                rw [behind_append]
                exact between.next_eq.trans (start_of_lead (by simp [lead]))
              have between' : Between (behind (before ++ [c])) after := by
                rw [mode]
                exact .code
              have later := ih between'
              have inLine : (before ++ [c]).count '\n' = before.count '\n' := by
                have other : c ≠ '\n' := by
                  rintro rfl
                  cases lead
                rw [List.count_append, List.count_singleton, beq_false_of_ne other]
                rfl
              rw [later, List.nil_append, strays,
                if_pos (between.outOfPlace_iff.2 (stray_of_lead lead)), List.append_assoc before,
                inLine]
              rfl
          case inr =>
              have literal := piece
              rw [Piece.first, lead] at literal
              dsimp only at literal
              rw [stringPiece_open c _ free, Piece.mk.injEq, List.cons.injEq] at literal
              obtain ⟨rfl, -, whole⟩ := literal
              obtain rfl : after = [] := List.append_right_eq_self.1 whole
              rw [List.append_nil] at free between ⊢
              have passes := between.passes_quoted lead free
              rw [passes.none, unclosed, passes.mode]
              rfl

/-! ## Open literals -/

/-- A reader is in a literal behind a text if its quote was read in code and did
not come again. -/
theorem behind_eq_quoted_iff : behind text = .quoted quote ↔
    ∃ before inside, text = before ++ quote :: inside ∧ (behind before).Outside ∧
      quote ∈ ['"', '\''] ∧ quote ∉ inside := by
  constructor
  · intro mode
    induction text using List.reverseRecOn with
    | nil => cases mode
    | append_singleton text d ih =>
        rw [behind_append] at mode
        have opened : ∀ {c : Char}, start c = .quoted quote → c = quote ∧ c ∈ ['"', '\''] := by
          intro c opens
          rw [start] at opens
          split at opens
          · cases opens
          · split at opens
            case isTrue quoted =>
                cases opens
                exact ⟨rfl, quoted⟩
            case isFalse => cases opens
        cases was : behind text with
        | code =>
            rw [was] at mode
            obtain ⟨rfl, quoted⟩ := opened mode
            exact ⟨text, [], rfl, .inl was, quoted, List.not_mem_nil⟩
        | slash =>
            rw [was] at mode
            change (if d = '/' then _ else start d) = _ at mode
            split at mode
            · cases mode
            · obtain ⟨rfl, quoted⟩ := opened mode
              exact ⟨text, [], rfl, .inr was, quoted, List.not_mem_nil⟩
        | quoted quote' =>
            rw [was] at mode
            change (if d = quote' then _ else Mode.quoted quote') = _ at mode
            split at mode
            case isTrue => cases mode
            case isFalse other =>
                cases mode
                obtain ⟨before, inside, rfl, outside, quoted, free⟩ := ih was
                refine ⟨before, inside ++ [d], List.append_assoc _ _ _, outside, quoted, ?_⟩
                rw [List.mem_append, List.mem_singleton]
                exact not_or.2 ⟨free, Ne.symm other⟩
        | comment =>
            rw [was] at mode
            change (if d = '\n' then _ else Mode.comment) = _ at mode
            split at mode <;> cases mode
  · rintro ⟨before, inside, rfl, outside, quoted, free⟩
    have opens : behind (before ++ [quote]) = .quoted quote := by
      have start : start quote = .quoted quote := by
        simp only [List.mem_cons, List.not_mem_nil, or_false] at quoted
        rcases quoted with rfl | rfl <;> rfl
      have other : quote ≠ '/' := by
        rintro rfl
        exact absurd quoted (by decide)
      rw [behind_append]
      rcases outside with mode | mode
      · rw [mode]
        exact start
      · rw [mode]
        exact (if_neg other).trans start
    have passes : Passes (before ++ [quote]) inside (.quoted quote) := by
      refine .same opens (fun d member => if_neg ?_) ?_
      · rintro rfl
        exact free member
      · rintro (outside | outside) <;> cases outside
    have whole := passes.mode
    rwa [List.append_assoc] at whole

/-! ## All errors -/

theorem strays_eq_nil_iff : strays before text = [] ↔
    ∀ front c back, text = front ++ c :: back → ¬ OutOfPlace (before ++ front) c := by
  induction text generalizing before with
  | nil => exact iff_of_true rfl fun front c back split => absurd split (by simp)
  | cons d text ih =>
      rw [strays]
      constructor
      · intro none front c back split
        by_cases here : OutOfPlace before d
        · rw [if_pos here] at none
          cases none
        · rw [if_neg here] at none
          cases front with
          | nil =>
              cases split
              rwa [List.append_nil]
          | cons e front =>
              cases split
              have later := ih.1 none front c back rfl
              rwa [List.append_assoc] at later
      · intro none
        have here := none [] d text rfl
        rw [List.append_nil] at here
        rw [if_neg here, ih]
        rintro front c back rfl
        rw [List.append_assoc]
        exact none (d :: front) c back rfl

theorem unclosed_eq_nil_iff : unclosed text = [] ↔ ∀ quote, behind text ≠ .quoted quote := by
  rw [unclosed]
  split
  case h_1 quote mode => exact iff_of_false nofun fun other => other quote mode
  case h_2 other => exact iff_of_true rfl other

theorem errors_ne_nil_iff : errors text ≠ [] ↔
    (∃ before c after, text = before ++ c :: after ∧ OutOfPlace before c) ∨
      ∃ quote, behind text = .quoted quote := by
  rw [errors, ne_eq, List.append_eq_nil_iff, strays_eq_nil_iff, unclosed_eq_nil_iff, not_and_or]
  simp only [List.nil_append, not_forall, not_not, exists_prop]

theorem faults_eq_errors (text : List Char) : faults 1 text = errors text := by
  have start : Between (behind []) text := .code
  exact faults_eq start

/-- Scanning reports exactly the errors of a text.  It fails if and only if a
character is out of place or a literal is left open, and then gives all of these
in their order. -/
theorem scan_errors (source : String) :
    (∀ found, scan source = .error found ↔ found = errors source.toList ∧ found ≠ []) ∧
    ((∃ found, scan source = .error found) ↔
      (∃ before c after, source.toList = before ++ c :: after ∧ OutOfPlace before c) ∨
      ∃ before quote inside, source.toList = before ++ quote :: inside ∧
        (behind before).Outside ∧ quote ∈ ['"', '\''] ∧ quote ∉ inside) := by
  have reported : ∀ found, scan source = .error found ↔
      found = errors source.toList ∧ found ≠ [] := by
    intro found
    rw [scan_eq_ite, faults_eq_errors]
    split
    case isTrue none =>
        rw [none]
        exact iff_of_false nofun fun both => both.2 both.1
    case isFalse some =>
        rw [Except.error.injEq]
        constructor
        · rintro rfl
          exact ⟨rfl, some⟩
        · exact fun both => both.1.symm
  have open_iff : (∃ quote, behind source.toList = .quoted quote) ↔
      ∃ before quote inside, source.toList = before ++ quote :: inside ∧
        (behind before).Outside ∧ quote ∈ ['"', '\''] ∧ quote ∉ inside := by
    simp only [behind_eq_quoted_iff]
    exact exists_comm
  refine ⟨reported, ?_⟩
  rw [← open_iff, ← errors_ne_nil_iff]
  simp only [reported, exists_eq_left]

end Token

end Scriptlet
