/-
# Texts one below the other

A newline ends whatever piece stands before it, except for a string literal that
is still open.  So when two texts are put one below the other, where no literal of
the first is left open, the pieces are those of the first, the newline, and those
of the second, whose lines are further down by as many as the first text has.
Tokens and errors are made of one piece each, so they come in the same order
(`scan_below`).
-/
import Scriptlet.Proofs.Scanning.Spells
import Scriptlet.Proofs.Tree.Relined

namespace Scriptlet

namespace Piece

/-! ## The first piece before a newline -/

section

variable {p : Char → Bool} {c : Char}

theorem takeWhile_closed (h : p c = false) (before more : List Char) :
    (before ++ c :: more).takeWhile p = before.takeWhile p := by
  induction before with
  | nil => rw [List.nil_append, List.takeWhile_cons_of_neg (by simp [h]), List.takeWhile_nil]
  | cons d before ih => rw [List.cons_append, List.takeWhile_cons, List.takeWhile_cons, ih]

theorem dropWhile_closed (h : p c = false) (before more : List Char) :
    (before ++ c :: more).dropWhile p = before.dropWhile p ++ c :: more := by
  induction before with
  | nil => rw [List.nil_append, List.dropWhile_cons_of_neg (by simp [h]), List.dropWhile_nil,
      List.nil_append]
  | cons d before ih =>
      rw [List.cons_append, List.dropWhile_cons, List.dropWhile_cons, ih]
      split <;> rfl

end

variable (c : Char) (before more : List Char)

theorem head?_closed (h : c ≠ '\n') :
    (before ++ '\n' :: more).head? = some c ↔ before.head? = some c := by
  cases before with
  | nil =>
      rw [List.nil_append, List.head?_cons, Option.some.injEq]
      exact ⟨fun same => absurd same.symm h, nofun⟩
  | cons d before => rfl

theorem fraction_closed : fraction (before ++ '\n' :: more) = fraction before := by
  cases before with
  | nil => rfl
  | cons d before =>
      by_cases point : d = '.'
      · subst point
        cases before with
        | nil => rfl
        | cons d before =>
            show (if d.isDigit then '.' :: d :: (before ++ '\n' :: more).takeWhile Char.isDigit
              else []) = if d.isDigit then '.' :: d :: before.takeWhile Char.isDigit else []
            rw [takeWhile_closed (by decide)]
      · have none : ∀ rest, fraction (d :: rest) = [] := by
          intro rest
          unfold fraction
          split
          case h_1 same => exact absurd (List.cons.inj same).1 point
          case h_2 => rfl
        rw [List.cons_append, none, none]

theorem numberTail_closed : numberTail (before ++ '\n' :: more) = numberTail before := by
  unfold numberTail
  rw [takeWhile_closed (by decide), dropWhile_closed (by decide), fraction_closed]

theorem slashPiece_closed : slashPiece (before ++ '\n' :: more) = slashPiece before := by
  unfold slashPiece
  rw [takeWhile_closed (by decide)]
  simp only [head?_closed '/' before more (by decide)]

theorem wordPiece_closed : wordPiece c (before ++ '\n' :: more) = wordPiece c before := by
  unfold wordPiece
  rw [takeWhile_closed (by decide)]

/-- A string literal that is closed does not depend on what comes after. -/
theorem stringPiece_closed (inside : List Char) : stringPiece c (inside ++ c :: more) =
    ⟨.token .string, c :: (inside.takeWhile (· != c) ++ [c])⟩ := by
  have ends : (c != c) = false := bne_self_eq_false c
  unfold stringPiece
  rw [dropWhile_closed (p := (· != c)) ends, takeWhile_closed (p := (· != c)) ends]
  split
  case h_1 none => exact absurd (List.append_eq_nil_iff.1 none).2 (List.cons_ne_nil _ _)
  case h_2 => rfl

/-- A string literal that is not closed takes the rest of the text. -/
theorem stringPiece_open (h : c ∉ before) : stringPiece c before = ⟨.openString, c :: before⟩ := by
  have all : ∀ d ∈ before, (d != c) = true := by
    intro d member
    exact bne_iff_ne.2 fun same => h (same ▸ member)
  unfold stringPiece
  rw [List.dropWhile_eq_nil_iff.2 all]

/-- The first piece of a text is the same with a newline and more behind the
text, unless the piece is a string literal that is still open. -/
theorem first_closed (h : (first c before).shape ≠ .openString) :
    first c (before ++ '\n' :: more) = first c before := by
  unfold first at h ⊢
  cases hl : lead c with
  | sign kind => rfl
  | operator alone withEqual =>
      simp only [head?_closed '=' before more (by decide)]
  | slash => exact slashPiece_closed before more
  | quote =>
      rw [hl] at h
      by_cases closed : c ∈ before
      · obtain ⟨inside, after, rfl⟩ := List.append_of_mem closed
        rw [List.append_assoc, List.cons_append]
        exact (stringPiece_closed c _ inside).trans (stringPiece_closed c _ inside).symm
      · exact absurd (congrArg Piece.shape (stringPiece_open c before closed)) h
  | blank => rfl
  | digit => exact congrArg (Piece.mk _ <| c :: ·) (numberTail_closed before more)
  | letter => exact wordPiece_closed c before more
  | other => rfl

/-! ## No character is lost -/

theorem fraction_starts : ∀ rest : List Char, fraction rest <+: rest := by
  intro rest
  unfold fraction
  split
  case h_1 d rest =>
      split
      · exact List.prefix_cons_inj '.' |>.2 (List.prefix_cons_inj d |>.2 (List.takeWhile_prefix _))
      · exact List.nil_prefix
  case h_2 => exact List.nil_prefix

theorem numberTail_starts (rest : List Char) : numberTail rest <+: rest := by
  have whole := List.prefix_append_right_inj (rest.takeWhile Char.isDigit) |>.2
    (fraction_starts (rest.dropWhile Char.isDigit))
  rwa [List.takeWhile_append_dropWhile] at whole

theorem stringPiece_starts (rest : List Char) : (stringPiece c rest).chars <+: c :: rest := by
  unfold stringPiece
  cases left : rest.dropWhile (· != c) with
  | nil => exact List.prefix_refl _
  | cons d after =>
      have ends := List.head?_dropWhile_not (· != c) rest
      rw [left] at ends
      obtain rfl : d = c := by simpa using ends
      refine List.prefix_cons_inj d |>.2 ⟨after, ?_⟩
      rw [List.append_assoc, List.singleton_append, ← left, List.takeWhile_append_dropWhile]

/-- The first piece of a text stands at its start. -/
theorem first_starts (rest : List Char) : (first c rest).chars <+: c :: rest := by
  have alone : [c] <+: c :: rest := List.prefix_cons_inj c |>.2 List.nil_prefix
  unfold first
  cases hl : lead c with
  | sign kind => exact alone
  | operator kind withEqual =>
      dsimp only
      split
      case isTrue equal =>
          cases rest with
          | nil => cases equal
          | cons d rest =>
              cases equal
              exact List.prefix_append [c, '='] rest
      case isFalse => exact alone
  | slash =>
      obtain rfl := lead_slash hl
      dsimp only
      unfold slashPiece
      split
      · exact List.prefix_cons_inj _ |>.2 (List.takeWhile_prefix _)
      · exact alone
  | quote => exact stringPiece_starts c rest
  | blank => exact alone
  | digit => exact List.prefix_cons_inj c |>.2 (numberTail_starts rest)
  | letter => exact List.prefix_cons_inj c |>.2 (List.takeWhile_prefix _)
  | other => exact alone

/-- The characters of the first piece, and those after it. -/
theorem first_split (rest : List Char) :
    ∃ tail after, rest = tail ++ after ∧ (first c rest).chars = c :: tail := by
  obtain ⟨tail, chars⟩ := first_chars c rest
  obtain ⟨after, whole⟩ := first_starts c rest
  rw [chars, List.cons_append] at whole
  exact ⟨tail, after, (List.cons.inj whole).2.symm, chars⟩

/-- The first piece does not go beyond its text. -/
theorem first_inside (rest : List Char) : (first c rest).chars.length - 1 ≤ rest.length := by
  obtain ⟨tail, after, whole, chars⟩ := first_split c rest
  rw [chars, whole, List.length_cons, List.length_append, Nat.add_sub_cancel]
  exact Nat.le_add_right _ _

theorem flatMap_cutFrom : ∀ (source : List Char) (skip : Nat),
    (cutFrom skip source).flatMap (·.chars) = source.drop skip := by
  intro source
  induction source with
  | nil =>
      intro skip
      cases skip <;> rfl
  | cons c rest ih =>
      intro skip
      cases skip with
      | zero =>
          obtain ⟨tail, after, rfl, chars⟩ := first_split c rest
          have behind := ih (first c (tail ++ after)).chars.length.pred
          rw [chars, List.length_cons, Nat.pred_succ, List.drop_left] at behind
          rw [cutFrom, List.flatMap_cons, chars, List.length_cons, Nat.add_sub_cancel, behind,
            List.drop_zero, List.cons_append]
      | succ skip => exact ih skip

/-- The pieces of a text hold all of its characters. -/
theorem flatMap_cut (source : List Char) : (cut source).flatMap (·.chars) = source :=
  flatMap_cutFrom source 0

/-- Induction over a text from its end, piece by piece. -/
@[elab_as_elim]
theorem cut_induction {motive : List Char → Prop} (nil : motive [])
    (cons : ∀ (c : Char) (tail after : List Char) (shape : Shape),
      first c (tail ++ after) = ⟨shape, c :: tail⟩ → motive after → motive (c :: (tail ++ after)))
    (source : List Char) : motive source := by
  suffices ∀ n (source : List Char), source.length ≤ n → motive source from
    this source.length source (Nat.le_refl _)
  intro n
  induction n with
  | zero =>
      intro source short
      rw [List.eq_nil_of_length_eq_zero (Nat.le_zero.1 short)]
      exact nil
  | succ n ih =>
      intro source short
      cases source with
      | nil => exact nil
      | cons c rest =>
          obtain ⟨tail, after, rfl, chars⟩ := first_split c rest
          rw [List.length_cons, List.length_append] at short
          refine cons c tail after (first c (tail ++ after)).shape ?_ (ih after (by omega))
          rw [← chars]

/-! ## Pieces of joined texts -/

def newline : Piece := ⟨.gap, ['\n']⟩

theorem cutFrom_closed : ∀ (before : List Char) (skip : Nat), skip ≤ before.length →
    (∀ p ∈ cutFrom skip before, p.shape ≠ .openString) →
    cutFrom skip (before ++ '\n' :: more) = cutFrom skip before ++ newline :: cut more := by
  intro before
  induction before with
  | nil =>
      intro skip less _
      obtain rfl := Nat.le_zero.1 less
      rfl
  | cons c rest ih =>
      intro skip less closed
      cases skip with
      | zero =>
          obtain ⟨here, later⟩ := List.forall_mem_cons.1 closed
          rw [List.cons_append, cutFrom, first_closed c rest more here]
          exact congrArg _ (ih _ (first_inside c rest) later)
      | succ skip => exact ih skip (Nat.le_of_succ_le_succ less) closed

/-- The pieces of a text whose string literals are all closed, before those of
another one below it. -/
theorem cut_joined {before : List Char} (closed : ∀ p ∈ cut before, p.shape ≠ .openString)
    (more : List Char) : cut (before ++ '\n' :: more) = cut before ++ newline :: cut more :=
  cutFrom_closed more before 0 (Nat.zero_le _) closed

/-- A string literal that takes the rest of a text has no quote there. -/
theorem quote_of_openString {rest : List Char} (h : (first c rest).shape = .openString) :
    lead c = .quote ∧ c ∉ rest := by
  unfold first at h
  cases hl : lead c with
  | quote =>
      rw [hl] at h
      refine ⟨rfl, fun member => ?_⟩
      obtain ⟨inside, after, rfl⟩ := List.append_of_mem member
      rw [stringPiece_closed] at h
      cases h
  | operator alone withEqual =>
      rw [hl] at h
      dsimp only at h
      split at h <;> cases h
  | slash =>
      rw [hl] at h
      dsimp only [slashPiece] at h
      split at h <;> cases h
  | sign | blank | digit | letter | other =>
      rw [hl] at h
      cases h

/-- A newline closes no string literal. -/
theorem openString_newline {rest : List Char} (h : (first c rest).shape = .openString) :
    (first c (rest ++ ['\n'])).shape = .openString := by
  obtain ⟨quote, free⟩ := quote_of_openString c h
  have other : c ≠ '\n' := by
    rintro rfl
    cases quote
  have free' : c ∉ rest ++ ['\n'] := by simp [free, other]
  unfold first
  rw [quote]
  exact congrArg shape (stringPiece_open c _ free')

theorem cutFrom_closed_of_newline : ∀ (before : List Char) (skip : Nat), skip ≤ before.length →
    (∀ p ∈ cutFrom skip (before ++ ['\n']), p.shape ≠ .openString) →
    ∀ p ∈ cutFrom skip before, p.shape ≠ .openString := by
  intro before
  induction before with
  | nil =>
      intro skip less _ p member
      obtain rfl := Nat.le_zero.1 less
      cases member
  | cons c rest ih =>
      intro skip less closed
      cases skip with
      | zero =>
          have here : (first c rest).shape ≠ .openString :=
            mt (openString_newline c) (closed _ List.mem_cons_self)
          rw [List.cons_append, cutFrom, first_closed c rest [] here] at closed
          obtain ⟨-, later⟩ := List.forall_mem_cons.1 closed
          exact List.forall_mem_cons.2 ⟨here, ih _ (first_inside c rest) later⟩
      | succ skip => exact ih skip (Nat.le_of_succ_le_succ less) closed

/-- If all string literals of a text are closed, so are those of the text without
its last newline. -/
theorem closed_of_newline {before : List Char}
    (closed : ∀ p ∈ cut (before ++ ['\n']), p.shape ≠ .openString) :
    ∀ p ∈ cut before, p.shape ≠ .openString :=
  cutFrom_closed_of_newline before 0 (Nat.zero_le _) closed

/-! ## Lines of joined texts -/

theorem withLines_append (pieces pieces' : List Piece) : ∀ line,
    withLines line (pieces ++ pieces') =
      withLines line pieces ++
        withLines (line + (pieces.flatMap (·.chars)).count '\n') pieces' := by
  induction pieces with
  | nil => exact fun _ => rfl
  | cons p pieces ih =>
      intro line
      rw [List.cons_append, withLines, ih, List.flatMap_cons, List.count_append, ← Nat.add_assoc]
      rfl

theorem withLines_add (pieces : List Piece) (k : Nat) : ∀ line,
    withLines (line + k) pieces = (withLines line pieces).map fun q => (q.1, q.2 + k) := by
  induction pieces with
  | nil => exact fun _ => rfl
  | cons p pieces ih =>
      intro line
      rw [withLines, Nat.add_right_comm, ih]
      rfl

theorem exists_mem_withLines {p : Piece} {pieces : List Piece} (h : p ∈ pieces) : ∀ line,
    ∃ line', (p, line') ∈ withLines line pieces := by
  induction pieces with
  | nil => cases h
  | cons q pieces ih =>
      intro line
      rcases List.mem_cons.1 h with rfl | later
      · exact ⟨_, List.mem_cons_self⟩
      · obtain ⟨line', member⟩ := ih later (line + q.newlines)
        exact ⟨line', List.mem_cons_of_mem _ member⟩

end Piece

/-- How many lines further down a text stands when it is put below the text
`a`. -/
def linesAbove (a : String) : Nat := a.toList.count '\n' + 1

def ScanError.relined (φ : Nat → Nat) : ScanError → ScanError
  | unterminatedString line => unterminatedString (φ line)
  | unexpectedCharacter character line => unexpectedCharacter character (φ line)

namespace Token

open Piece

/-- The tokens of a text that begins on the given line, without the one for its
end. -/
def words (line : Nat) (source : List Char) : List Token :=
  (withLines line (cut source)).filterMap ofPiece?

theorem clean_of_errorOfPiece? {p : Piece} {line : Nat} {source : List Char} {skip : Nat}
    (h : errorOfPiece? (p, line) = none) (member : p ∈ cutFrom skip source) : p.Clean := by
  obtain ⟨c, rest, rfl⟩ := mem_cutFrom member
  obtain ⟨tail, chars⟩ := first_chars c rest
  unfold errorOfPiece? at h
  dsimp only at h
  rw [chars] at h
  constructor <;> intro shape <;> rw [shape] at h <;> cases h

/-- The errors of a text that begins on the given line. -/
def faults (line : Nat) (source : List Char) : List ScanError :=
  (withLines line (cut source)).filterMap errorOfPiece?

theorem scan_eq_ite (source : String) : scan source =
    if faults 1 source.toList = [] then
      .ok (words 1 source.toList ++ [endOfFile (lastLine source.toList)])
    else .error (faults 1 source.toList) := by
  generalize scanned : scan source = result
  unfold scan at scanned
  dsimp only at scanned
  split at scanned
  case h_1 none => rw [faults, if_pos none, ← scanned, words]
  case h_2 some => rw [faults, if_neg some, ← scanned]

theorem scan_iff {source : String} {tokens : List Token} : scan source = .ok tokens ↔
    (∀ p ∈ cut source.toList, p.Clean) ∧
      tokens = words 1 source.toList ++ [endOfFile (lastLine source.toList)] := by
  unfold scan
  dsimp only
  constructor
  · intro h
    split at h
    case h_1 none =>
        cases h
        refine ⟨fun p member => ?_, rfl⟩
        obtain ⟨line, member'⟩ := exists_mem_withLines member 1
        exact clean_of_errorOfPiece? (List.filterMap_eq_nil_iff.1 none _ member') member
    case h_2 => cases h
  · rintro ⟨clean, rfl⟩
    rw [errors_withLines clean 1]
    rfl

theorem words_add (line k : Nat) (source : List Char) :
    words (line + k) source = (words line source).map (Token.relined (· + k)) := by
  have each : ∀ q, ofPiece? (q.1, q.2 + k) = (ofPiece? q).map (Token.relined (· + k)) := by
    intro q
    unfold ofPiece?
    cases q.1.shape <;> rfl
  unfold words
  rw [withLines_add, List.filterMap_map, List.map_filterMap]
  exact congrArg (List.filterMap · _) (funext each)

theorem errorOfPiece?_add (q : Piece × Nat) (k : Nat) :
    errorOfPiece? (q.1, q.2 + k) = (errorOfPiece? q).map (ScanError.relined (· + k)) := by
  obtain ⟨⟨shape, chars⟩, line⟩ := q
  cases shape with
  | token | gap | openString => rfl
  | stray => cases chars <;> rfl

theorem faults_add (line k : Nat) (source : List Char) :
    faults (line + k) source = (faults line source).map (ScanError.relined (· + k)) := by
  rw [faults, faults, withLines_add, List.filterMap_map, List.map_filterMap]
  exact congrArg (List.filterMap · _) (funext fun q => errorOfPiece?_add q k)

theorem errorOfPiece?_openString {p : Piece} (h : p.shape = .openString) (line : Nat) :
    errorOfPiece? (p, line) = some (.unterminatedString line) := by
  unfold errorOfPiece?
  rw [h]

section

variable {before : List Char} (closed : ∀ p ∈ cut before, p.shape ≠ .openString) (line : Nat)
  (more : List Char)

include closed

/-- The tokens of the second text stand behind those of the first one. -/
theorem words_joined : words line (before ++ '\n' :: more) =
    words line before ++ words (line + (before.count '\n' + 1)) more := by
  unfold words
  rw [cut_joined closed, withLines_append, List.filterMap_append, flatMap_cut, ← Nat.add_assoc]
  rfl

/-- So do the errors. -/
theorem faults_joined : faults line (before ++ '\n' :: more) =
    faults line before ++ faults (line + (before.count '\n' + 1)) more := by
  unfold faults
  rw [cut_joined closed, withLines_append, List.filterMap_append, flatMap_cut, ← Nat.add_assoc]
  rfl

end

theorem toList_joined (a b : String) : (a ++ "\n" ++ b).toList = a.toList ++ '\n' :: b.toList := by
  rw [String.toList_append, String.toList_append, List.append_assoc]
  rfl

/-- What is read of the tokens of a text. -/
theorem readable_eq_words {source : String} {tokens : List Token} (h : scan source = .ok tokens) :
    Grammar.readable tokens = words 1 source.toList := by
  obtain ⟨line, ends⟩ := readable_scan h
  have whole := ends.symm.trans (scan_iff.1 h).2
  exact (List.append_inj' whole rfl).1

/-- The tokens of a text without the one for its end. -/
theorem filter_scan {source : String} {tokens : List Token} (h : scan source = .ok tokens) :
    tokens.filter (·.kind ≠ .eof) = words 1 source.toList := by
  obtain ⟨front, line, ends, real⟩ := scan_ends h
  have whole := ends.symm.trans (scan_iff.1 h).2
  have all : front.filter (·.kind ≠ .eof) = front :=
    List.filter_eq_self.2 fun t member => decide_eq_true (real t member)
  rw [ends, List.filter_append, all, ← (List.append_inj' whole rfl).1]
  exact List.append_nil front

/-- Two texts that can be scanned can be scanned one below the other, as the
tokens of the first and those of the second further down. -/
theorem scan_joined {a b : String} {tokens tokens' : List Token} (ha : scan a = .ok tokens)
    (hb : scan b = .ok tokens') :
    ∃ joined, scan (a ++ "\n" ++ b) = .ok joined ∧
      Grammar.readable joined = Grammar.readable tokens ++
        (Grammar.readable tokens').map (Token.relined (· + linesAbove a)) := by
  have clean := (scan_iff.1 ha).1
  have closed : ∀ p ∈ cut a.toList, p.shape ≠ .openString := fun p member => (clean p member).1
  have scans : scan (a ++ "\n" ++ b) =
      .ok (words 1 (a ++ "\n" ++ b).toList ++ [endOfFile (lastLine (a ++ "\n" ++ b).toList)]) := by
    refine scan_iff.2 ⟨?_, rfl⟩
    rw [toList_joined, cut_joined closed]
    exact List.forall_mem_append.2 ⟨clean, List.forall_mem_cons.2 ⟨by decide, (scan_iff.1 hb).1⟩⟩
  refine ⟨_, scans, ?_⟩
  rw [readable_eq_words scans, readable_eq_words ha, readable_eq_words hb, toList_joined,
    words_joined closed, ← words_add]
  rfl

/-- A text that can be scanned can be scanned without its last newline, as the same
tokens. -/
theorem scan_of_newline {a : String} {tokens : List Token} (h : scan (a ++ "\n") = .ok tokens) :
    ∃ tokens', scan a = .ok tokens' ∧ Grammar.readable tokens' = Grammar.readable tokens := by
  have chars : (a ++ "\n").toList = a.toList ++ ['\n'] := String.toList_append
  have clean := (scan_iff.1 h).1
  rw [chars] at clean
  have closed := closed_of_newline fun p member => (clean p member).1
  rw [cut_joined closed] at clean
  have scans : scan a = .ok (words 1 a.toList ++ [endOfFile (lastLine a.toList)]) :=
    scan_iff.2 ⟨(List.forall_mem_append.1 clean).1, rfl⟩
  have none : ∀ line, words line [] = [] := fun _ => rfl
  refine ⟨_, scans, ?_⟩
  rw [readable_eq_words scans, readable_eq_words h, chars, words_joined closed, none,
    List.append_nil]

/-- A text in which no open string literal is reported has none. -/
theorem closed_of_scan {source : String}
    (h : ∀ errors, scan source = .error errors → ∀ line, .unterminatedString line ∉ errors) :
    ∀ p ∈ cut source.toList, p.shape ≠ .openString := by
  intro p member shape
  obtain ⟨line, member'⟩ := exists_mem_withLines member 1
  have reported : .unterminatedString line ∈ faults 1 source.toList :=
    List.mem_filterMap.2 ⟨(p, line), member', errorOfPiece?_openString shape line⟩
  have some : faults 1 source.toList ≠ [] := List.ne_nil_of_mem reported
  exact h _ (by rw [scan_eq_ite, if_neg some]) line reported

/-- Texts are scanned one below the other as they are by themselves.  Unless a string
literal is left open in the first, the errors of the first come before those of the
second.  If neither has any, the tokens of the first, but for the one that stands for its
end, come before those of the second.  All lines of the second are further down by as
many as the first has. -/
theorem scan_below {a : String}
    (closed : ∀ errors, scan a = .error errors → ∀ line, .unterminatedString line ∉ errors)
    (b : String) :
    scan (a ++ "\n" ++ b) = match scan a, scan b with
      | .ok tokens, .ok tokens' =>
          .ok (tokens.filter (·.kind ≠ .eof) ++ tokens'.map (Token.relined (· + linesAbove a)))
      | .ok _, .error errors => .error (errors.map (ScanError.relined (· + linesAbove a)))
      | .error errors, .ok _ => .error errors
      | .error errors, .error errors' =>
          .error (errors ++ errors'.map (ScanError.relined (· + linesAbove a))) := by
  have closed := closed_of_scan closed
  have line : lastLine (a ++ "\n" ++ b).toList = lastLine b.toList + linesAbove a := by
    rw [toList_joined, lastLine, lastLine, List.count_append, List.count_cons_self, linesAbove]
    omega
  have tokens : words 1 (a ++ "\n" ++ b).toList =
      words 1 a.toList ++ (words 1 b.toList).map (Token.relined (· + linesAbove a)) := by
    rw [toList_joined, words_joined closed, ← words_add]
    rfl
  have errors : faults 1 (a ++ "\n" ++ b).toList =
      faults 1 a.toList ++ (faults 1 b.toList).map (ScanError.relined (· + linesAbove a)) := by
    rw [toList_joined, faults_joined closed, ← faults_add]
    rfl
  rw [scan_eq_ite (a ++ "\n" ++ b), tokens, errors, line, scan_eq_ite a, scan_eq_ite b]
  by_cases none : faults 1 a.toList = []
  · by_cases none' : faults 1 b.toList = []
    · have front := filter_scan ((scan_eq_ite a).trans (if_pos none))
      rw [none, none', if_pos rfl, if_pos rfl]
      dsimp only
      rw [List.map_nil, List.append_nil, if_pos rfl, front, List.map_append, List.append_assoc]
      rfl
    · rw [none, List.nil_append, if_pos rfl, if_neg none',
        if_neg fun all => none' (List.map_eq_nil_iff.1 all)]
  · rw [if_neg none, if_neg fun all => none (List.append_eq_nil_iff.1 all).1]
    by_cases none' : faults 1 b.toList = []
    · rw [none', if_pos rfl, List.map_nil, List.append_nil]
    · rw [if_neg none']

/-- A half operator at the end of a line is not completed on the next one. -/
theorem scan_below_slash :
    scan "@ /" = .error [.unexpectedCharacter '@' 1] ∧
      scan "/ #" = .error [.unexpectedCharacter '#' 1] ∧
      scan ("@ /" ++ "\n" ++ "/ #") =
        .error [.unexpectedCharacter '@' 1, .unexpectedCharacter '#' 2] := by
  have above : scan "@ /" = .error [.unexpectedCharacter '@' 1] := by rfl
  have below : scan "/ #" = .error [.unexpectedCharacter '#' 1] := by rfl
  have closed : ∀ errors, scan "@ /" = .error errors →
      ∀ line, .unterminatedString line ∉ errors := by
    intro errors same line
    rw [above] at same
    cases same
    simp
  have joined := scan_below closed "/ #"
  rw [above, below] at joined
  exact ⟨above, below, joined.trans rfl⟩

end Token

end Scriptlet
