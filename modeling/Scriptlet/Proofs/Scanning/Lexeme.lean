/-
# Tokens by their spelling

Which spellings are tokens, of which kind and with which value, said without a
reader and without any order of trial: a `Lexeme` is a sign, a reserved word, a
name, a number or a string literal.

    sign      → ( ) { } , . - + ; / * ! != = == > >= < <=
    word      → letter ( letter | digit )*        reserved, or else a name
    number    → digit+ ( "." digit+ )?
    string    → quote (any character but that quote)* quote

Cutting a text into pieces agrees with this in three ways.  A lexeme by itself is
cut as one piece of its kind (`Lexeme.first`), so a spelling has one kind and one
value.  What is cut as a token is a lexeme (`lexeme_of_first`).  And where no
comment starts, no lexeme that a text starts with goes beyond the first piece of
the text (`Lexeme.starts_first`), so that piece is the longest lexeme there.
-/
import Scriptlet.Proofs.Decimal.RoundTrip
import Scriptlet.Proofs.Scanning.Joined

namespace Scriptlet

open Piece

namespace Token

/-- The kinds of sign. -/
def Kind.signs : List Kind :=
  [leftParen, rightParen, leftBrace, rightBrace, comma, dot, minus, plus, semicolon, slash, star,
   bang, bangEqual, equal, equalEqual, greater, greaterEqual, less, lessEqual]

/-- The value that a reserved word stands for, if it stands for one. -/
def Kind.constant? : Kind → Option Literal
  | kwTrue => some (.boolean true)
  | kwFalse => some (.boolean false)
  | kwNil => some .nil
  | _ => none

/-- The double that is written as digits, the last `places` of which are behind
the point. -/
def numberOf (digits : List Char) (places : Nat) : Literal :=
  .number (Decimal.toFloat ⟨Nat.ofDigitChars 10 digits 0, -(places : Int)⟩)

/-- The spelling is that of a token of the given kind, which has the given
value. -/
inductive Lexeme : Kind → List Char → Option Literal → Prop
  | sign {kind : Kind} : kind ∈ Kind.signs → Lexeme kind kind.spelling.toList none
  | reserved {word : String} {kind : Kind} : (word, kind) ∈ Kind.reserved →
      Lexeme kind word.toList kind.constant?
  | name {c : Char} {cs : List Char} : isLetter c → (∀ d ∈ cs, isWordChar d) →
      (∀ entry ∈ Kind.reserved, entry.1.toList ≠ c :: cs) → Lexeme .identifier (c :: cs) none
  | whole {digits : List Char} : digits ≠ [] → (∀ d ∈ digits, d.isDigit) →
      Lexeme .number digits (some (numberOf digits 0))
  | fractional {digits places : List Char} : digits ≠ [] → places ≠ [] →
      (∀ d ∈ digits ++ places, d.isDigit) →
      Lexeme .number (digits ++ '.' :: places) (some (numberOf (digits ++ places) places.length))
  | string {quote : Char} {inside : List Char} : quote ∈ ['"', '\''] → quote ∉ inside →
      Lexeme .string (quote :: (inside ++ [quote])) (some (.string (String.ofList inside)))

/-! ## A lexeme by itself -/

/-- Read by hand, every sign and every reserved word is a piece. -/
theorem cut_signs : ∀ kind ∈ Kind.signs,
    cut kind.spelling.toList = [⟨.token kind, kind.spelling.toList⟩] ∧
      literalOf? kind kind.spelling.toList = none := by
  decide

theorem cut_reserved : ∀ entry ∈ Kind.reserved,
    cut entry.1.toList = [⟨.token entry.2, entry.1.toList⟩] ∧
      literalOf? entry.2 entry.1.toList = entry.2.constant? := by
  decide

theorem literalOf?_whole {digits : List Char} (h : ∀ d ∈ digits, d.isDigit) :
    literalOf? .number digits = some (numberOf digits 0) := by
  simp only [literalOf?, numberOf, Decimal.ofChars_whole h, Decimal.digitsValue_eq]
  rfl

theorem literalOf?_fractional {digits : List Char} (h : ∀ d ∈ digits, d.isDigit)
    (places : List Char) :
    literalOf? .number (digits ++ '.' :: places) =
      some (numberOf (digits ++ places) places.length) := by
  simp only [literalOf?, numberOf, Decimal.ofChars_point h, Decimal.digitsValue_eq]

variable {kind kind' : Kind} {c : Char} {cs tail chars rest : List Char}
  {literal literal' : Option Literal}

namespace Lexeme

theorem ne_nil (h : Lexeme kind chars literal) : chars ≠ [] := by
  have signs : ∀ kind ∈ Kind.signs, kind.spelling.toList ≠ [] := by decide
  have words : ∀ entry ∈ Kind.reserved, entry.1.toList ≠ [] := by decide
  cases h with
  | sign member => exact signs _ member
  | reserved member => exact words _ member
  | name => simp
  | whole some => exact some
  | fractional => simp
  | string => simp

theorem ne_eof (h : Lexeme kind chars literal) : kind ≠ .eof := by
  have signs : ∀ kind ∈ Kind.signs, kind ≠ .eof := by decide
  have words : ∀ entry ∈ Kind.reserved, entry.2 ≠ .eof := by decide
  cases h with
  | sign member => exact signs _ member
  | reserved member => exact words _ member
  | name | whole | fractional | string => exact nofun

/-- A lexeme by itself is cut as one piece of its kind, which has its value. -/
theorem first (h : Lexeme kind (c :: cs) literal) :
    Piece.first c cs = ⟨.token kind, c :: cs⟩ ∧ literal = literalOf? kind (c :: cs) := by
  have alone : ∀ {p : Piece}, cut (c :: cs) = [p] → Piece.first c cs = p :=
    fun same => (List.cons.inj same).1
  generalize spelled : c :: cs = chars at h
  cases h with
  | sign member =>
      obtain ⟨piece, value⟩ := cut_signs _ member
      exact ⟨alone (spelled ▸ piece), value.symm⟩
  | reserved member =>
      obtain ⟨piece, value⟩ := cut_reserved _ member
      exact ⟨alone (spelled ▸ piece), value.symm⟩
  | name letter word free =>
      cases spelled
      have kind : Kind.ofWord (String.ofList (c :: cs)) = .identifier := by
        have none : Kind.reserved.lookup (String.ofList (c :: cs)) = none := by
          rw [List.lookup_eq_none_iff]
          intro entry member
          rw [bne_iff_ne]
          intro same
          refine free entry member ?_
          rw [← same, String.toList_ofList]
        rw [Kind.ofWord, none]
        rfl
      have all : cs.takeWhile isWordChar = cs := List.takeWhile_eq_self_iff.2 word
      refine ⟨?_, rfl⟩
      simp only [Piece.first, lead_of_letter letter, wordPiece, all, kind]
  | whole some digits =>
      subst spelled
      obtain ⟨digit, digits'⟩ := List.forall_mem_cons.1 digits
      have piece := first_number digit digits' .none broken_nil
      simp only [List.append_nil] at piece
      exact ⟨piece, (literalOf?_whole digits).symm⟩
  | @fractional digits places some some' all =>
      obtain ⟨digits', places'⟩ := List.forall_mem_append.1 all
      have value := (literalOf?_fractional digits' places).symm
      obtain ⟨d, ds, rfl⟩ := List.exists_cons_of_ne_nil some
      obtain ⟨e, es, rfl⟩ := List.exists_cons_of_ne_nil some'
      cases spelled
      obtain ⟨digit, digits'⟩ := List.forall_mem_cons.1 digits'
      obtain ⟨place, places'⟩ := List.forall_mem_cons.1 places'
      have piece := first_number digit digits' (.some place places') broken_nil
      rw [List.append_nil] at piece
      exact ⟨piece, value⟩
  | string quoted free =>
      cases spelled
      have quote : lead c = .quote := by
        simp only [List.mem_cons, List.not_mem_nil, or_false] at quoted
        rcases quoted with rfl | rfl <;> rfl
      have piece := first_string quote free []
      rw [List.append_nil] at piece
      refine ⟨piece, ?_⟩
      simp only [literalOf?, List.tail_cons, List.dropLast_concat]

/-- A spelling has one kind and one value. -/
theorem unique (h : Lexeme kind chars literal) (h' : Lexeme kind' chars literal') :
    kind = kind' ∧ literal = literal' := by
  obtain ⟨c, cs, rfl⟩ := List.exists_cons_of_ne_nil h.ne_nil
  obtain ⟨piece, value⟩ := h.first
  obtain ⟨piece', value'⟩ := h'.first
  have same : kind = kind' := by
    have := piece.symm.trans piece'
    simpa using this
  exact ⟨same, by rw [value, value', same]⟩

end Lexeme

/-! ## What is cut as a token -/

theorem ofWord_reserved : ∀ entry ∈ Kind.reserved, Kind.ofWord entry.1 = entry.2 := by decide

theorem mem_signs_of_sign (h : lead c = .sign kind) : kind ∈ Kind.signs := by
  have listed := mem_table h (by simp)
  simp only [Lead.table, List.mem_cons, Prod.mk.injEq, Lead.sign.injEq, List.not_mem_nil,
    reduceCtorEq, and_false, or_false] at listed
  rcases listed with ⟨-, rfl⟩ | ⟨-, rfl⟩ | ⟨-, rfl⟩ | ⟨-, rfl⟩ | ⟨-, rfl⟩ | ⟨-, rfl⟩ | ⟨-, rfl⟩ |
    ⟨-, rfl⟩ | ⟨-, rfl⟩ | ⟨-, rfl⟩ <;> decide

theorem mem_signs_of_operator {alone withEqual : Kind} (h : lead c = .operator alone withEqual) :
    alone ∈ Kind.signs ∧ withEqual ∈ Kind.signs := by
  have listed := mem_table h (by simp)
  simp only [Lead.table, List.mem_cons, Prod.mk.injEq, Lead.operator.injEq, List.not_mem_nil,
    reduceCtorEq, and_false, or_false, false_or] at listed
  rcases listed with ⟨-, rfl, rfl⟩ | ⟨-, rfl, rfl⟩ | ⟨-, rfl, rfl⟩ | ⟨-, rfl, rfl⟩ <;> decide

theorem lexeme_of_word (letter : isLetter c) (word : ∀ d ∈ cs, isWordChar d) :
    Lexeme (Kind.ofWord (String.ofList (c :: cs))) (c :: cs)
      (literalOf? (Kind.ofWord (String.ofList (c :: cs))) (c :: cs)) := by
  by_cases free : ∀ entry ∈ Kind.reserved, entry.1.toList ≠ c :: cs
  · have name := Lexeme.name letter word free
    obtain ⟨piece, -⟩ := name.first
    simp only [Piece.first, lead_of_letter letter, wordPiece, Piece.mk.injEq,
      Shape.token.injEq, List.cons.injEq, true_and] at piece
    obtain ⟨kind, all⟩ := piece
    rw [all] at kind
    rw [kind]
    exact name
  · simp only [ne_eq, not_forall, not_not] at free
    obtain ⟨entry, member, spelled⟩ := free
    have word : String.ofList (c :: cs) = entry.1 := by rw [← spelled, String.ofList_toList]
    rw [word, ofWord_reserved entry member, ← spelled, (cut_reserved entry member).2]
    exact .reserved member

theorem lexeme_of_number (digits : ∀ d ∈ c :: cs, d.isDigit) (h : Fraction tail) :
    Lexeme .number (c :: cs ++ tail) (literalOf? .number (c :: cs ++ tail)) := by
  cases h with
  | none =>
      rw [List.append_nil, literalOf?_whole digits]
      exact .whole (List.cons_ne_nil c cs) digits
  | some place places =>
      rw [literalOf?_fractional digits]
      refine .fractional (List.cons_ne_nil c cs) (List.cons_ne_nil _ _) ?_
      exact List.forall_mem_append.2 ⟨digits, List.forall_mem_cons.2 ⟨place, places⟩⟩

theorem lexeme_of_sign (member : kind ∈ Kind.signs) (spelled : kind.spelling = String.ofList cs) :
    Lexeme kind cs (literalOf? kind cs) := by
  have chars : kind.spelling.toList = cs := by rw [spelled, String.toList_ofList]
  have value := (cut_signs kind member).2
  rw [chars] at value
  rw [value, ← chars]
  exact .sign member

theorem lexeme_of_string (quoted : c ∈ ['"', '\'']) (free : c ∉ cs) :
    Lexeme .string (c :: (cs ++ [c])) (literalOf? .string (c :: (cs ++ [c]))) := by
  have string := Lexeme.string quoted free
  rwa [string.first.2] at string

theorem lexeme_of_first (h : (Piece.first c rest).shape = .token kind) :
    Lexeme kind (Piece.first c rest).chars (literalOf? kind (Piece.first c rest).chars) := by
  simp only [Piece.first] at h ⊢
  cases lead : lead c with
  | sign kind' =>
      rw [lead] at h
      cases h
      exact lexeme_of_sign (mem_signs_of_sign lead) (spelling_of_sign lead)
  | operator alone withEqual =>
      rw [lead] at h
      dsimp only at h ⊢
      obtain ⟨member, member'⟩ := mem_signs_of_operator lead
      obtain ⟨spelled, spelled'⟩ := spelling_of_operator lead
      split at h
      case isTrue equal =>
          cases h
          rw [if_pos equal]
          exact lexeme_of_sign member' spelled'
      case isFalse other =>
          cases h
          rw [if_neg other]
          exact lexeme_of_sign member spelled
  | slash =>
      rw [lead] at h
      dsimp only [slashPiece] at h ⊢
      split at h
      case isTrue => cases h
      case isFalse other =>
          cases h
          rw [if_neg other]
          exact lexeme_of_sign (by decide) rfl
  | quote =>
      rw [lead] at h
      dsimp only [stringPiece] at h ⊢
      split at h
      case h_1 => cases h
      case h_2 =>
          cases h
          refine lexeme_of_string (lead_quote lead) fun inside => ?_
          have other := List.mem_takeWhile_imp inside
          exact absurd other (by simp)
  | digit =>
      rw [lead] at h
      cases h
      refine lexeme_of_number ?_ (fraction_spec _)
      exact List.forall_mem_cons.2 ⟨lead_digit lead, fun d => List.mem_takeWhile_imp⟩
  | letter =>
      rw [lead] at h
      cases h
      exact lexeme_of_word (lead_letter lead) fun d => List.mem_takeWhile_imp
  | blank =>
      rw [lead] at h
      cases h
  | other =>
      rw [lead] at h
      cases h

/-- So a token that scanning makes has the spelling and the value of its kind. -/
theorem Genuine.lexeme {t : Token} (h : t.Genuine) (real : t.kind ≠ .eof) :
    Lexeme t.kind t.lexeme.toList t.literal := by
  obtain ⟨c, tail, before, piece, same⟩ := h.first real
  have lexeme := lexeme_of_first (congrArg Piece.shape piece)
  rw [piece] at lexeme
  rw [← t.unlined_lexeme, ← t.unlined_literal, same, String.toList_ofList]
  exact lexeme

end Token

/-! ## The longest token -/

namespace Piece

variable {c : Char} {tail more : List Char} {kind : Token.Kind}

theorem numberTail_extends (h : numberTail tail = tail) : tail <+: numberTail (tail ++ more) := by
  have digits : ∀ d ∈ tail.takeWhile Char.isDigit, d.isDigit := fun d => List.mem_takeWhile_imp
  have fractional := fraction_spec (tail.dropWhile Char.isDigit)
  rw [numberTail] at h
  generalize tail.takeWhile Char.isDigit = ds at h digits
  generalize fraction (tail.dropWhile Char.isDigit) = fr at h fractional
  subst h
  cases fractional with
  | none =>
      rw [List.append_nil, numberTail, List.takeWhile_append_of_pos digits, List.append_assoc]
      exact List.prefix_append ds _
  | @some d es place places =>
      have ends : ∀ e ∈ ('.' :: d :: es ++ more).head?, e.isDigit = false := by
        intro e head
        cases head
        decide
      rw [List.append_assoc, numberTail, takeWhile_append digits ends, dropWhile_append digits ends]
      show ds ++ '.' :: d :: es <+: ds ++
        if d.isDigit then '.' :: d :: (es ++ more).takeWhile Char.isDigit else []
      rw [if_pos place, List.takeWhile_append_of_pos places]
      exact ⟨more.takeWhile Char.isDigit, by simp⟩

/-- A token that is a whole text still starts the piece that is cut off when the
text goes on, unless that makes a comment of it. -/
theorem first_extends (h : first c tail = ⟨.token kind, c :: tail⟩)
    (code : ¬ ['/', '/'] <+: c :: (tail ++ more)) :
    ∃ kind', (first c (tail ++ more)).shape = .token kind' ∧
      c :: tail <+: (first c (tail ++ more)).chars := by
  simp only [first] at h ⊢
  cases lead : lead c with
  | sign kind' =>
      rw [lead] at h
      cases h
      exact ⟨_, rfl, List.prefix_refl _⟩
  | operator alone withEqual =>
      rw [lead] at h
      dsimp only at h ⊢
      split at h
      case isTrue equal =>
          cases h
          exact ⟨_, rfl, List.prefix_refl _⟩
      case isFalse =>
          cases h
          split
          · exact ⟨_, rfl, List.prefix_append [c] ['=']⟩
          · exact ⟨_, rfl, List.prefix_refl _⟩
  | slash =>
      obtain rfl := lead_slash lead
      rw [lead] at h
      dsimp only [slashPiece] at h ⊢
      split at h
      case isTrue => cases h
      case isFalse =>
          cases h
          split
          case isTrue comment =>
              obtain ⟨rest, rfl⟩ := List.head?_eq_some_iff.1 comment
              exact absurd (List.prefix_append ['/', '/'] rest) code
          case isFalse => exact ⟨_, rfl, List.prefix_refl _⟩
  | quote =>
      rw [lead] at h
      dsimp only [stringPiece] at h
      split at h
      case h_1 => cases h
      case h_2 =>
          simp only [mk.injEq, Shape.token.injEq, List.cons.injEq, true_and] at h
          obtain ⟨rfl, closed⟩ := h
          have free : ∀ d ∈ tail.takeWhile (· != c), (d != c) = true := fun d =>
            List.mem_takeWhile_imp
          have whole : tail ++ more = tail.takeWhile (· != c) ++ c :: more := by
            nth_rewrite 1 [← closed]
            simp
          have piece := stringPiece_closed c more (tail.takeWhile (· != c))
          rw [← whole, List.takeWhile_eq_self_iff.2 free, closed] at piece
          simp only [piece]
          exact ⟨_, rfl, List.prefix_refl _⟩
  | digit =>
      rw [lead] at h
      simp only [mk.injEq, Shape.token.injEq, List.cons.injEq, true_and] at h
      exact ⟨_, rfl, List.prefix_cons_inj c |>.2 (numberTail_extends h.2)⟩
  | letter =>
      rw [lead] at h
      simp only [wordPiece, mk.injEq, Shape.token.injEq, List.cons.injEq, true_and] at h
      have word := List.takeWhile_eq_self_iff.1 h.2
      refine ⟨_, rfl, List.prefix_cons_inj c |>.2 ?_⟩
      rw [List.takeWhile_append_of_pos word]
      exact List.prefix_append tail _
  | blank =>
      rw [lead] at h
      cases h
  | other =>
      rw [lead] at h
      cases h

end Piece

namespace Token

variable {kind : Kind} {c : Char} {chars rest : List Char} {literal : Option Literal}

/-- Where no comment starts, a lexeme that a text starts with is at the start of
the first piece, and that is a token. -/
theorem Lexeme.starts_first (h : Lexeme kind chars literal) (starts : chars <+: c :: rest)
    (code : ¬ ['/', '/'] <+: c :: rest) :
    ∃ kind', (Piece.first c rest).shape = .token kind' ∧ chars <+: (Piece.first c rest).chars := by
  obtain ⟨d, tail, rfl⟩ := List.exists_cons_of_ne_nil h.ne_nil
  obtain ⟨more, whole⟩ := starts
  rw [List.cons_append] at whole
  cases whole
  exact first_extends h.first.1 code

end Token

end Scriptlet
