/-
# Scanning loses nothing and takes the longest token

The tokens of a text and the text determine each other but for layout.  A text
`Reads` as tokens if it is a gap, the first token, a gap, the second token, and so
on up to a last gap, where gaps are layout and comments, every token is the
longest lexeme where it stands, and its line is that of its end.  A text scans
exactly if it reads as some tokens, and then as those that scanning gives
(`scan_iff_reads`).
-/
import Scriptlet.Proofs.Scanning.Lexeme

namespace Scriptlet

open Piece

namespace Token

/-- The characters of layout. -/
def blanks : List Char := [' ', '\t', '\r', '\n']

/-- The text `gap` before `rest` is layout and comments.  A comment goes on until
a newline comes or the text ends. -/
inductive Gap : List Char → List Char → Prop
  | none {rest : List Char} : Gap [] rest
  | blank {c : Char} {gap rest : List Char} : c ∈ blanks → Gap gap rest → Gap (c :: gap) rest
  | comment {inside gap rest : List Char} : '\n' ∉ inside →
      (∀ c ∈ (gap ++ rest).head?, c = '\n') → Gap gap rest →
      Gap ('/' :: '/' :: (inside ++ gap)) rest

/-- Behind the text `before`, the token stands at the start of `rest`. -/
structure Stands (t : Token) (before rest : List Char) : Prop where
  lexeme : Lexeme t.kind t.lexeme.toList t.literal
  starts : t.lexeme.toList <+: rest
  longest : ∀ {kind : Kind} {chars : List Char} {literal : Option Literal},
    Lexeme kind chars literal → chars <+: rest → chars.length ≤ t.lexeme.toList.length
  /-- No comment starts there. -/
  code : ¬ ['/', '/'] <+: rest
  /-- The line is one more than the newlines up to the end of the token. -/
  line : t.line = 1 + (before ++ t.lexeme.toList).count '\n'

/-- Behind the text `before`, a text consists of tokens with gaps before, between
and behind them. -/
inductive Reads : List Char → List Char → List Token → Prop
  | ends {before gap : List Char} : Gap gap [] → Reads before gap []
  | token {before gap rest : List Char} {t : Token} {tokens : List Token} :
      Gap gap (t.lexeme.toList ++ rest) → t.Stands (before ++ gap) (t.lexeme.toList ++ rest) →
      Reads (before ++ gap ++ t.lexeme.toList) rest tokens →
      Reads before (gap ++ (t.lexeme.toList ++ rest)) (t :: tokens)

/-! ## Gaps -/

namespace Gap

variable {gap gap' rest : List Char}

theorem append (h : Gap gap (gap' ++ rest)) (h' : Gap gap' rest) : Gap (gap ++ gap') rest := by
  generalize behind : gap' ++ rest = text at h
  induction h with
  | none => exact h'
  | blank member _ ih => exact .blank member (ih behind)
  | @comment inside gap text free ends _ ih =>
      subst behind
      have whole := Gap.comment free (by rwa [← List.append_assoc] at ends) (ih rfl)
      rwa [← List.append_assoc] at whole

theorem cut (h : Gap gap rest) : ∃ pieces, (∀ p ∈ pieces, p.shape = .gap) ∧
    pieces.flatMap (·.chars) = gap ∧ Piece.cut (gap ++ rest) = pieces ++ Piece.cut rest := by
  induction h with
  | none => exact ⟨[], List.forall_mem_nil _, rfl, rfl⟩
  | @blank c gap rest member _ ih =>
      obtain ⟨pieces, gaps, chars, cuts⟩ := ih
      have piece : Piece.first c ([] ++ (gap ++ rest)) = ⟨.gap, [c]⟩ := by
        simp only [blanks, List.mem_cons, List.not_mem_nil, or_false] at member
        rcases member with rfl | rfl | rfl | rfl <;> rfl
      refine ⟨⟨.gap, [c]⟩ :: pieces, List.forall_mem_cons.2 ⟨rfl, gaps⟩, ?_, ?_⟩
      · rw [List.flatMap_cons, chars, List.singleton_append]
      · have cuts' := cut_cons piece
        rw [List.nil_append, cuts] at cuts'
        exact cuts'
  | @comment inside gap rest free ends _ ih =>
      obtain ⟨pieces, gaps, chars, cuts⟩ := ih
      have inside' : ∀ d ∈ '/' :: inside, (d != '\n') = true := by
        refine List.forall_mem_cons.2 ⟨by decide, fun d member => ?_⟩
        rw [bne_iff_ne]
        rintro rfl
        exact free member
      have ends' : ∀ d ∈ (gap ++ rest).head?, (d != '\n') = false := by
        intro d head
        rw [ends d head]
        rfl
      have piece : Piece.first '/' ('/' :: inside ++ (gap ++ rest)) =
          ⟨.gap, '/' :: '/' :: inside⟩ := by
        show slashPiece _ = _
        rw [slashPiece, takeWhile_append inside' ends']
        rfl
      refine ⟨⟨.gap, '/' :: '/' :: inside⟩ :: pieces, List.forall_mem_cons.2 ⟨rfl, gaps⟩, ?_, ?_⟩
      · rw [List.flatMap_cons, chars]
        rfl
      · have cuts' := cut_cons piece
        rw [cuts] at cuts'
        rw [List.cons_append, List.cons_append, List.append_assoc]
        exact cuts'

/-- A gap that begins with a slash is a comment, which goes on up to the end of
its line. -/
theorem comment_of_first {tail after : List Char}
    (h : Piece.first '/' (tail ++ after) = ⟨.gap, '/' :: tail⟩) :
    ∃ inside, tail = '/' :: inside ∧ '\n' ∉ inside ∧ ∀ c ∈ after.head?, c = '\n' := by
  have piece : slashPiece (tail ++ after) = ⟨.gap, '/' :: tail⟩ := h
  rw [slashPiece] at piece
  split at piece
  case isFalse => cases piece
  case isTrue comment =>
      have line : (tail ++ after).takeWhile (· != '\n') = tail := by
        simpa using piece
      have free : ∀ d ∈ tail, (d != '\n') = true := by
        intro d member
        rw [← line] at member
        exact List.mem_takeWhile_imp (p := (· != '\n')) member
      rw [List.takeWhile_append_of_pos free] at line
      have stops : after.takeWhile (· != '\n') = [] := List.append_right_eq_self.1 line
      have ends : ∀ d ∈ after.head?, d = '\n' := by
        intro d head
        obtain ⟨after', rfl⟩ := List.head?_eq_some_iff.1 head
        simpa [List.takeWhile_cons] using stops
      cases tail with
      | nil =>
          have newline : '/' = '\n' := ends '/' comment
          cases newline
      | cons d inside =>
          cases comment
          refine ⟨inside, rfl, fun member => ?_, ends⟩
          exact absurd (free '\n' (List.mem_cons_of_mem _ member)) (by decide)

theorem of_first {c : Char} {tail after : List Char}
    (h : Piece.first c (tail ++ after) = ⟨.gap, c :: tail⟩) : Gap (c :: tail) after := by
  cases lead : lead c with
  | blank =>
      rw [Piece.first, lead] at h
      cases h
      exact .blank (lead_blank lead) .none
  | slash =>
      obtain rfl := lead_slash lead
      obtain ⟨inside, rfl, free, ends⟩ := comment_of_first h
      have gap : Gap ('/' :: '/' :: (inside ++ [])) after := .comment free ends .none
      rwa [List.append_nil] at gap
  | sign kind =>
      rw [Piece.first, lead] at h
      cases h
  | operator alone withEqual =>
      rw [Piece.first, lead] at h
      dsimp only at h
      split at h <;> cases h
  | quote =>
      rw [Piece.first, lead] at h
      dsimp only [stringPiece] at h
      split at h <;> cases h
  | digit | letter | other =>
      rw [Piece.first, lead] at h
      cases h

end Gap

/-! ## Tokens -/

section

variable {before rest : List Char} {c : Char} {tail after : List Char} {t : Token}

theorem Stands.first (h : t.Stands before (c :: rest)) :
    Piece.first c rest = ⟨.token t.kind, t.lexeme.toList⟩ := by
  obtain ⟨kind, shape, prefixed⟩ := h.lexeme.starts_first h.starts h.code
  have lexeme := lexeme_of_first shape
  have short := h.longest lexeme (first_starts c rest)
  have chars := prefixed.eq_of_length_le short
  rw [← chars] at lexeme
  obtain ⟨same, -⟩ := lexeme.unique h.lexeme
  rw [same] at shape
  rw [← shape, chars]

theorem stands_of_first {kind : Kind}
    (h : Piece.first c (tail ++ after) = ⟨.token kind, c :: tail⟩) (before : List Char) :
    Stands ⟨kind, String.ofList (c :: tail), literalOf? kind (c :: tail),
      1 + (before ++ c :: tail).count '\n'⟩ before (c :: (tail ++ after)) := by
  have shape : (Piece.first c (tail ++ after)).shape = .token kind := by rw [h]
  have chars : (Piece.first c (tail ++ after)).chars = c :: tail := by rw [h]
  have lexeme := lexeme_of_first shape
  have spelled : (String.ofList (c :: tail)).toList = c :: tail := String.toList_ofList
  have code : ¬ ['/', '/'] <+: c :: (tail ++ after) := by
    rintro ⟨rest, comment⟩
    obtain ⟨rfl, slash⟩ := List.cons.inj comment
    have gap : (Piece.first '/' (tail ++ after)).shape = .gap := by
      rw [← show '/' :: rest = tail ++ after from slash]
      rfl
    exact absurd (gap.symm.trans shape) nofun
  rw [chars] at lexeme
  constructor
  · rwa [spelled]
  · rw [spelled]
    exact List.prefix_append (c :: tail) after
  · intro kind' chars' literal' other starts
    obtain ⟨-, -, prefixed⟩ := other.starts_first starts code
    rw [chars] at prefixed
    rw [spelled]
    exact prefixed.length_le
  · exact code
  · rw [spelled]

end

/-! ## Texts -/

section

variable {β : Type} {read : Piece × Nat → Option β}

/-- What is read off a text is read off its first piece and off the rest. -/
theorem filterMap_cons {c : Char} {tail after : List Char} {shape : Shape} (line : Nat)
    (h : Piece.first c (tail ++ after) = ⟨shape, c :: tail⟩) :
    (withLines line (cut (c :: (tail ++ after)))).filterMap read =
      [(⟨shape, c :: tail⟩, line + (c :: tail).count '\n')].filterMap read ++
        (withLines (line + (c :: tail).count '\n') (cut after)).filterMap read := by
  rw [cut_cons h, withLines, ← List.singleton_append, List.filterMap_append]
  rfl

theorem filterMap_gap (none : ∀ q, q.1.shape = .gap → read q = none) {gap rest : List Char}
    (h : Gap gap rest) (line : Nat) : (withLines line (cut (gap ++ rest))).filterMap read =
      (withLines (line + gap.count '\n') (cut rest)).filterMap read := by
  obtain ⟨pieces, gaps, chars, cuts⟩ := h.cut
  have none : (withLines line pieces).filterMap read = [] :=
    List.filterMap_eq_nil_iff.2 fun q member => none q (gaps q.1 (mem_withLines member))
  rw [cuts, withLines_append, List.filterMap_append, none, chars, List.nil_append]

end

theorem words_cons {c : Char} {tail after : List Char} {shape : Shape} (line : Nat)
    (h : Piece.first c (tail ++ after) = ⟨shape, c :: tail⟩) :
    words line (c :: (tail ++ after)) =
      [(⟨shape, c :: tail⟩, line + (c :: tail).count '\n')].filterMap ofPiece? ++
        words (line + (c :: tail).count '\n') after := filterMap_cons line h

theorem words_gap {gap rest : List Char} (h : Gap gap rest) (line : Nat) :
    words line (gap ++ rest) = words (line + gap.count '\n') rest := by
  refine filterMap_gap (fun q shape => ?_) h line
  rw [ofPiece?, shape]

theorem faults_cons {c : Char} {tail after : List Char} {shape : Shape} (line : Nat)
    (h : Piece.first c (tail ++ after) = ⟨shape, c :: tail⟩) :
    faults line (c :: (tail ++ after)) =
      [(⟨shape, c :: tail⟩, line + (c :: tail).count '\n')].filterMap errorOfPiece? ++
        faults (line + (c :: tail).count '\n') after := filterMap_cons line h

theorem faults_gap {gap rest : List Char} (h : Gap gap rest) (line : Nat) :
    faults line (gap ++ rest) = faults (line + gap.count '\n') rest := by
  refine filterMap_gap (fun q shape => ?_) h line
  rw [errorOfPiece?, shape]

theorem clean_gap {gap rest : List Char} (h : Gap gap rest) :
    (∀ p ∈ cut (gap ++ rest), p.Clean) ↔ ∀ p ∈ cut rest, p.Clean := by
  obtain ⟨pieces, gaps, -, cuts⟩ := h.cut
  have clean : ∀ p ∈ pieces, p.Clean := by
    intro p member
    simp [Clean, gaps p member]
  rw [cuts, List.forall_mem_append]
  exact and_iff_right clean

theorem line_append (before chars : List Char) :
    1 + before.count '\n' + chars.count '\n' = 1 + (before ++ chars).count '\n' := by
  rw [List.count_append, Nat.add_assoc]

namespace Reads

variable {before text : List Char} {tokens : List Token}

theorem behind {gap : List Char} (h : Reads (before ++ gap) text tokens) (space : Gap gap text) :
    Reads before (gap ++ text) tokens := by
  cases h with
  | ends space' =>
      have space : Gap gap (text ++ []) := by rwa [List.append_nil]
      exact .ends (space.append space')
  | @token _ gap' rest t tokens space' stands reads =>
      rw [List.append_assoc before] at stands reads
      rw [← List.append_assoc]
      exact .token (space.append space') stands reads

theorem cons {chars : List Char} {t : Token} (spelled : t.lexeme.toList = chars)
    (stands : t.Stands before (chars ++ text)) (h : Reads (before ++ chars) text tokens) :
    Reads before (chars ++ text) (t :: tokens) := by
  subst spelled
  have none : before ++ [] = before := List.append_nil before
  have reads : Reads before ([] ++ (t.lexeme.toList ++ text)) (t :: tokens) :=
    .token .none (none.symm ▸ stands) (none.symm ▸ h)
  rwa [List.nil_append] at reads

/-- What a text reads as are its words. -/
theorem words (h : Reads before text tokens) :
    (∀ p ∈ cut text, p.Clean) ∧ Token.words (1 + before.count '\n') text = tokens := by
  induction h with
  | @ends before gap space =>
      have clean := clean_gap space
      have same := words_gap space (1 + before.count '\n')
      rw [List.append_nil] at clean same
      exact ⟨clean.2 (List.forall_mem_nil _), same⟩
  | @token before gap rest t tokens space stands _ ih =>
      obtain ⟨clean, same⟩ := ih
      obtain ⟨c, tail, chars⟩ := List.exists_cons_of_ne_nil stands.lexeme.ne_nil
      have value := stands.lexeme
      have line := stands.line
      rw [chars] at stands space value line same ⊢
      have piece := stands.first
      rw [chars] at piece
      have made : ofPiece? (⟨.token t.kind, c :: tail⟩,
          1 + (before ++ gap ++ c :: tail).count '\n') = some t := by
        show some (Token.mk t.kind (String.ofList (c :: tail))
          (literalOf? t.kind (c :: tail)) _) = _
        rw [← value.first.2, ← chars, String.ofList_toList, chars, ← line]
      constructor
      · rw [clean_gap space, List.cons_append, cut_cons piece]
        exact List.forall_mem_cons.2 ⟨by simp [Clean], clean⟩
      · rw [words_gap space, List.cons_append, words_cons _ piece, line_append, line_append, same,
          List.filterMap_cons_some made]
        rfl

theorem ne_eof (h : Reads before text tokens) : ∀ t ∈ tokens, t.kind ≠ .eof := by
  induction h with
  | ends => exact List.forall_mem_nil _
  | token _ stands _ ih => exact List.forall_mem_cons.2 ⟨stands.lexeme.ne_eof, ih⟩

/-- A text whose pieces are all tokens and gaps reads as its words. -/
theorem of_clean (clean : ∀ p ∈ cut text, p.Clean) :
    Reads before text (Token.words (1 + before.count '\n') text) := by
  induction text using cut_induction generalizing before with
  | nil => exact .ends .none
  | cons c tail after shape piece ih =>
      rw [cut_cons piece] at clean
      obtain ⟨here, clean⟩ := List.forall_mem_cons.1 clean
      have reads : Reads (before ++ c :: tail) after _ := ih clean
      rw [words_cons _ piece, line_append]
      cases shape with
      | token kind =>
          have stands := stands_of_first piece before
          exact .cons String.toList_ofList stands reads
      | gap => exact reads.behind (.of_first piece)
      | openString => exact absurd rfl here.1
      | stray => exact absurd rfl here.2

end Reads

/-- A text scans exactly if it reads as tokens, and then as these, with one more
for the end. -/
theorem scan_iff_reads {source : String} {tokens : List Token} : scan source = .ok tokens ↔
    ∃ words, tokens = words ++ [endOfFile (1 + source.toList.count '\n')] ∧
      Reads [] source.toList words := by
  rw [scan_iff]
  constructor
  · rintro ⟨clean, rfl⟩
    exact ⟨_, rfl, .of_clean clean⟩
  · rintro ⟨words, rfl, reads⟩
    obtain ⟨clean, rfl⟩ := reads.words
    exact ⟨clean, rfl⟩

end Token

end Scriptlet
