/-
# Texts that spell tokens

A text spells a list of tokens if it is cut into pieces that are these tokens
and layout between them, whatever comes behind it.  Some texts only do so if
what comes behind does not run into them; `follow` says what may come.  Texts
are put together from smaller ones, and the lemma for that, `Spells.append`,
asks exactly that the second text may follow the first.

A token list is compared with the tokens of a text up to lines: the tokens here
are on line 0, where `Token.unlined` puts every token.
-/
import Scriptlet.Proofs.Parsing.Grammar
import Scriptlet.Proofs.Scanning.Pieces
import Scriptlet.Proofs.Tree.Lines

namespace Scriptlet

namespace Piece

/-- The token that a piece is, if it is one. -/
def token? (p : Piece) : Option Token := Token.ofPiece? (p, 0)

/-- The piece is a token or layout. -/
def Clean (p : Piece) : Prop := p.shape ≠ .openString ∧ p.shape ≠ .stray

instance (p : Piece) : Decidable p.Clean := inferInstanceAs (Decidable (_ ∧ _))

/-- Wherever the text stands, if what follows it is as it should be, it is cut
into the tokens and layout. -/
def Spells (follow : List Char → Prop) (text : String) (tokens : List Token) : Prop :=
  ∀ rest, follow rest → ∃ pieces, cut (text.toList ++ rest) = pieces ++ cut rest ∧
    (∀ p ∈ pieces, p.Clean) ∧ pieces.filterMap token? = tokens

/-- Anything may follow. -/
def Free (_ : List Char) : Prop := True

namespace Spells

variable {follow follow' : List Char → Prop} {text text' : String} {tokens tokens' : List Token}

theorem mono (h : Spells follow text tokens) (weaker : ∀ rest, follow' rest → follow rest) :
    Spells follow' text tokens := fun rest hr => h rest (weaker rest hr)

theorem free (h : Spells Free text tokens) : Spells follow text tokens :=
  h.mono fun _ _ => trivial

theorem empty : Spells follow "" [] := fun _ _ => ⟨[], rfl, by simp, rfl⟩

theorem append (h : Spells follow text tokens) (h' : Spells follow' text' tokens')
    (apart : ∀ rest, follow' rest → follow (text'.toList ++ rest)) :
    Spells follow' (text ++ text') (tokens ++ tokens') := by
  intro rest hr
  obtain ⟨pieces, cuts, clean, spelled⟩ := h (text'.toList ++ rest) (apart rest hr)
  obtain ⟨pieces', cuts', clean', spelled'⟩ := h' rest hr
  refine ⟨pieces ++ pieces', ?_, ?_, ?_⟩
  · rw [String.toList_append, List.append_assoc, cuts, cuts', List.append_assoc]
  · intro p member
    rcases List.mem_append.1 member with here | there
    · exact clean p here
    · exact clean' p there
  · rw [List.filterMap_append, spelled, spelled']

/-- A text that does not care what follows may be followed by any other. -/
theorem then' (h : Spells Free text tokens) (h' : Spells follow text' tokens') :
    Spells follow (text ++ text') (tokens ++ tokens') :=
  h.append h' fun _ _ => trivial

/-- A text that needs a break behind it may be followed by one that begins with
a break. -/
theorem before (h : Spells Broken text tokens) (h' : Spells follow text' tokens')
    (breaking : text'.toList.head?.any (· ∈ breaks)) :
    Spells follow (text ++ text') (tokens ++ tokens') := by
  refine h.append h' fun rest _ => ?_
  obtain ⟨c, head, member⟩ := (Option.any_eq_true _ _).1 breaking
  intro d first
  rw [List.head?_append, head] at first
  cases first
  exact of_decide_eq_true member

/-- A fixed text, whose last token nothing can go on with. -/
theorem fixed (ends : ∀ rest, cut (text.toList ++ rest) = cut text.toList ++ cut rest)
    (clean : ∀ p ∈ cut text.toList, p.Clean) :
    Spells Free text ((cut text.toList).filterMap token?) :=
  fun rest _ => ⟨cut text.toList, ends rest, clean, rfl⟩

/-- A text that is one token. -/
theorem one {c : Char} {tail : List Char} {kind : Token.Kind}
    (h : ∀ rest, follow rest → first c (tail ++ rest) = ⟨.token kind, c :: tail⟩) :
    Spells follow (String.ofList (c :: tail))
      [⟨kind, String.ofList (c :: tail), Token.literalOf? kind (c :: tail), 0⟩] := by
  intro rest hr
  refine ⟨[⟨.token kind, c :: tail⟩], ?_, ?_, rfl⟩
  · rw [String.toList_ofList, List.cons_append]
    exact cut_cons (h rest hr)
  · intro p member
    rw [List.mem_singleton.1 member]
    exact ⟨by simp, by simp⟩

end Spells

/-! ## Scanning a text that spells tokens -/

theorem filterMap_withLines (pieces : List Piece) : ∀ line,
    ((withLines line pieces).filterMap Token.ofPiece?).map Token.unlined =
      pieces.filterMap token? := by
  induction pieces with
  | nil =>
      intro line
      rfl
  | cons p pieces ih =>
      intro line
      have rest := ih (line + p.newlines)
      unfold withLines
      cases hs : p.shape with
      | token kind =>
          have here : Token.ofPiece? (p, line + p.newlines) =
              some ⟨kind, String.ofList p.chars, Token.literalOf? kind p.chars,
                line + p.newlines⟩ := by
            unfold Token.ofPiece?
            simp only [hs]
          have here' : p.token? =
              some ⟨kind, String.ofList p.chars, Token.literalOf? kind p.chars, 0⟩ := by
            unfold token? Token.ofPiece?
            simp only [hs]
          rw [List.filterMap_cons_some here, List.filterMap_cons_some here', List.map_cons, rest]
          rfl
      | _ =>
          have here : Token.ofPiece? (p, line + p.newlines) = none := by
            unfold Token.ofPiece?
            simp only [hs]
          have here' : p.token? = none := by
            unfold token? Token.ofPiece?
            simp only [hs]
          rw [List.filterMap_cons_none here, List.filterMap_cons_none here', rest]

/-- A text whose first token is not made of `=` begins with another character. -/
theorem Spells.head {follow : List Char → Prop} {text : String} {t : Token} {tokens : List Token}
    (h : Spells follow text (t :: tokens)) (ends : follow [])
    (other : t.kind ∉ [Token.Kind.equal, .equalEqual]) :
    ∃ c ∈ text.toList.head?, c ≠ '=' := by
  obtain ⟨pieces, cuts, -, spelled⟩ := h [] ends
  rw [List.append_nil] at cuts
  cases chars : text.toList with
  | nil =>
      rw [chars] at cuts
      rw [List.append_eq_nil_iff.1 cuts.symm |>.1] at spelled
      cases spelled
  | cons c tail =>
      refine ⟨c, rfl, ?_⟩
      rintro rfl
      rw [chars] at cuts
      have whole : cut ('=' :: tail) = pieces := cuts.trans (List.append_nil _)
      have piece : ∃ kind ∈ [Token.Kind.equal, .equalEqual],
          (first '=' tail).shape = .token kind := by
        show ∃ kind ∈ _, (if tail.head? = some '=' then _ else _ : Piece).shape = _
        split
        · exact ⟨.equalEqual, by decide, rfl⟩
        · exact ⟨.equal, by decide, rfl⟩
      obtain ⟨kind, member, shape⟩ := piece
      rw [← whole] at spelled
      unfold cut cutFrom at spelled
      dsimp only at spelled
      have made : token? (first '=' tail) = some ⟨kind, String.ofList (first '=' tail).chars,
          Token.literalOf? kind (first '=' tail).chars, 0⟩ := by
        unfold token? Token.ofPiece?
        simp only [shape]
      rw [List.filterMap_cons_some made] at spelled
      injection spelled with here
      rw [← here] at other
      exact other member

theorem errors_withLines {pieces : List Piece} (clean : ∀ p ∈ pieces, p.Clean) : ∀ line,
    (withLines line pieces).filterMap Token.errorOfPiece? = [] := by
  induction pieces with
  | nil =>
      intro line
      rfl
  | cons p pieces ih =>
      intro line
      have clean' := List.forall_mem_cons.1 clean
      unfold withLines
      have here : Token.errorOfPiece? (p, line + p.newlines) = none := by
        obtain ⟨closed, known⟩ := clean'.1
        unfold Token.errorOfPiece?
        split
        case h_1 h => exact absurd h closed
        case h_2 h _ => exact absurd h known
        case h_3 => rfl
      rw [List.filterMap_cons_none here]
      exact ih clean'.2 _

theorem mem_withLines {q : Piece × Nat} {pieces : List Piece} : ∀ {line : Nat},
    q ∈ withLines line pieces → q.1 ∈ pieces := by
  induction pieces with
  | nil =>
      intro line hq
      cases hq
  | cons p pieces ih =>
      intro line hq
      unfold withLines at hq
      rcases List.mem_cons.1 hq with rfl | later
      · exact List.mem_cons_self
      · exact List.mem_cons_of_mem _ (ih later)

theorem Spells.scan {follow : List Char → Prop} {text : String} {tokens : List Token}
    (h : Spells follow text tokens) (ends : follow []) :
    ∃ scanned, Token.scan text = .ok scanned ∧
      scanned.map Token.unlined = tokens ++ [Token.endOfFile 0] := by
  obtain ⟨pieces, cuts, clean, spelled⟩ := h [] ends
  have whole : cut text.toList = pieces := by
    rw [List.append_nil] at cuts
    rw [cuts]
    exact List.append_nil pieces
  refine ⟨(withLines 1 pieces).filterMap Token.ofPiece? ++
    [Token.endOfFile (Token.lastLine text.toList)], ?_, ?_⟩
  · unfold Token.scan
    dsimp only
    rw [whole, errors_withLines clean]
  · rw [List.map_append, filterMap_withLines, spelled]
    rfl

/-! ## Tokens that scanning makes -/

end Piece

/-- The token is one that scanning makes, from some text and on some line. -/
def Token.Genuine (t : Token) : Prop :=
  ∃ source tokens, Token.scan source = .ok tokens ∧ ∃ t' ∈ tokens, t'.unlined = t.unlined

namespace Token.Genuine

open Piece

variable {t : Token}

/-- Such a token has the spelling of a piece and the literal that belongs to it,
unless it stands for the end. -/
theorem first (h : t.Genuine) (real : t.kind ≠ .eof) : ∃ c tail before,
    Piece.first c before = ⟨.token t.kind, c :: tail⟩ ∧
      t.unlined = ⟨t.kind, String.ofList (c :: tail), literalOf? t.kind (c :: tail), 0⟩ := by
  obtain ⟨source, tokens, scanned, t', member, same⟩ := h
  have kind : t'.unlined.kind = t.unlined.kind := congrArg Token.kind same
  unfold Token.scan at scanned
  dsimp only at scanned
  split at scanned
  case h_2 => cases scanned
  cases scanned
  rcases List.mem_append.1 member with made | last
  · obtain ⟨⟨p, line⟩, inPieces, made⟩ := List.mem_filterMap.1 made
    obtain ⟨c, before, rfl⟩ := mem_cutFrom (mem_withLines inPieces)
    obtain ⟨tail, chars⟩ := first_chars c before
    unfold ofPiece? at made
    dsimp only at made
    rw [chars] at made
    cases hs : (Piece.first c before).shape with
    | token kind' =>
        rw [hs] at made
        cases made
        have kind : kind' = t.kind := kind
        subst kind
        refine ⟨c, tail, before, ?_, same.symm⟩
        rw [← hs, ← chars]
    | _ =>
        rw [hs] at made
        cases made
  · rw [List.mem_singleton.1 last] at kind
    exact absurd kind.symm real

/-- The token spells itself before a break. -/
theorem spells (h : t.Genuine) (real : t.kind ≠ .eof) : Spells Broken t.lexeme [t.unlined] := by
  obtain ⟨c, tail, before, piece, same⟩ := h.first real
  have lexeme : t.unlined.lexeme = String.ofList (c :: tail) := by rw [same]
  rw [← t.unlined_lexeme, lexeme, same]
  exact .one fun rest hr => first_append piece hr

end Token.Genuine

/-! ## Kinds that are spelled in one way -/

namespace Token

/-- The one spelling of a kind; nothing for the kinds that have many. -/
def Kind.spelling : Kind → String
  | leftParen => "("
  | rightParen => ")"
  | leftBrace => "\x7b"
  | rightBrace => "\x7d"
  | comma => ","
  | dot => "."
  | minus => "-"
  | plus => "+"
  | semicolon => ";"
  | slash => "/"
  | star => "*"
  | bang => "!"
  | bangEqual => "!="
  | equal => "="
  | equalEqual => "=="
  | greater => ">"
  | greaterEqual => ">="
  | less => "<"
  | lessEqual => "<="
  | kwAnd => "and"
  | kwClass => "class"
  | kwElse => "else"
  | kwFalse => "false"
  | kwFun => "fun"
  | kwFor => "for"
  | kwIf => "if"
  | kwNil => "nil"
  | kwOr => "or"
  | kwPrint => "print"
  | kwReturn => "return"
  | kwSuper => "super"
  | kwThis => "this"
  | kwTrue => "true"
  | kwVar => "var"
  | kwWhile => "while"
  | identifier | string | number | eof => ""

/-- The kinds that are spelled in many ways, or in none. -/
def Kind.free : List Kind := [identifier, string, number, eof]

/-- The token of a kind that is spelled in one way only. -/
def plain (kind : Kind) : Token :=
  ⟨kind, kind.spelling, literalOf? kind kind.spelling.toList, 0⟩

@[simp] theorem plain_kind (kind : Kind) : (plain kind).kind = kind := rfl

@[simp] theorem plain_unlined (kind : Kind) : (plain kind).unlined = plain kind := rfl

open Piece

theorem spelling_of_sign {c : Char} {kind : Kind} (h : lead c = .sign kind) :
    kind.spelling = String.ofList [c] := by
  have listed := mem_table h (by simp)
  simp [Lead.table] at listed
  rcases listed with ⟨rfl, rfl⟩ | ⟨rfl, rfl⟩ | ⟨rfl, rfl⟩ | ⟨rfl, rfl⟩ | ⟨rfl, rfl⟩ | ⟨rfl, rfl⟩ |
    ⟨rfl, rfl⟩ | ⟨rfl, rfl⟩ | ⟨rfl, rfl⟩ | ⟨rfl, rfl⟩ <;> rfl

theorem spelling_of_operator {c : Char} {alone withEqual : Kind}
    (h : lead c = .operator alone withEqual) :
    alone.spelling = String.ofList [c] ∧ withEqual.spelling = String.ofList [c, '='] := by
  have listed := mem_table h (by simp)
  simp [Lead.table] at listed
  rcases listed with ⟨rfl, rfl, rfl⟩ | ⟨rfl, rfl, rfl⟩ | ⟨rfl, rfl, rfl⟩ | ⟨rfl, rfl, rfl⟩ <;>
    exact ⟨rfl, rfl⟩

theorem spelling_of_word {word : String} (h : Kind.ofWord word ≠ .identifier) :
    (Kind.ofWord word).spelling = word := by
  have listed : ∀ entry ∈ Kind.reserved, entry.2.spelling = entry.1 := by decide
  unfold Kind.ofWord at h ⊢
  cases found : Kind.reserved.lookup word with
  | none =>
      rw [found] at h
      exact absurd rfl h
  | some kind =>
      obtain ⟨before, after, split, -⟩ := List.lookup_eq_some_iff.1 found
      refine listed (word, kind) ?_
      rw [split]
      exact List.mem_append_right _ List.mem_cons_self

/-- The end has no spelling. -/
theorem spelling_eof_ne (c : Char) (tail : List Char) :
    Kind.eof.spelling ≠ String.ofList (c :: tail) := by
  intro same
  have chars := congrArg String.toList same
  rw [String.toList_ofList] at chars
  exact absurd chars.symm (List.cons_ne_nil c tail)

/-- No piece of a text stands for its end. -/
theorem first_ne_eof (c : Char) (rest : List Char) : (first c rest).shape ≠ .token .eof := by
  unfold first
  cases hl : lead c with
  | sign kind =>
      have spelled := spelling_of_sign hl
      intro same
      cases same
      exact spelling_eof_ne _ _ spelled
  | operator alone withEqual =>
      obtain ⟨spelled, spelled'⟩ := spelling_of_operator hl
      intro same
      dsimp only at same
      split at same
      · cases same
        exact spelling_eof_ne _ _ spelled'
      · cases same
        exact spelling_eof_ne _ _ spelled
  | slash =>
      dsimp only
      unfold slashPiece
      split <;> simp
  | quote =>
      dsimp only
      unfold stringPiece
      split <;> simp
  | letter =>
      intro same
      injection same with word
      have reserved : Kind.ofWord (String.ofList (c :: rest.takeWhile isWordChar)) ≠
          .identifier := by
        rw [word]
        decide
      have spelled := spelling_of_word reserved
      rw [word] at spelled
      exact spelling_eof_ne _ _ spelled
  | blank | digit | other => simp

/-- The tokens of a text are its words, then the one that stands for its end. -/
theorem scan_ends {source : String} {tokens : List Token} (h : scan source = .ok tokens) :
    ∃ front line, tokens = front ++ [endOfFile line] ∧ ∀ t ∈ front, t.kind ≠ .eof := by
  unfold scan at h
  dsimp only at h
  split at h
  case h_2 => cases h
  cases h
  refine ⟨_, _, rfl, ?_⟩
  intro t made
  obtain ⟨⟨p, line⟩, inPieces, made⟩ := List.mem_filterMap.1 made
  obtain ⟨c, before, rfl⟩ := mem_cutFrom (mem_withLines inPieces)
  have real := first_ne_eof c before
  unfold ofPiece? at made
  split at made
  · rename_i kind hs
    cases made
    intro eof
    have eof : kind = .eof := eof
    rw [eof] at hs
    exact real hs
  · cases made

/-- Of the tokens of a text, the parser reads all but the last. -/
theorem readable_scan {source : String} {tokens : List Token} (h : scan source = .ok tokens) :
    ∃ line, tokens = Grammar.readable tokens ++ [endOfFile line] := by
  obtain ⟨front, line, rfl, real⟩ := scan_ends h
  refine ⟨line, ?_⟩
  have words : ∀ t ∈ front, decide (t.kind ≠ .eof) = true := by
    intro t member
    exact decide_eq_true (real t member)
  unfold Grammar.readable
  rw [List.takeWhile_append_of_pos words]
  simp [endOfFile]

theorem Genuine.plain {t : Token} (h : t.Genuine) (fixed : t.kind ∉ Kind.free) :
    t.unlined = Token.plain t.kind := by
  have real : t.kind ≠ .eof := by
    intro eof
    rw [eof] at fixed
    exact fixed (by decide)
  obtain ⟨c, tail, before, piece, same⟩ := h.first real
  have spelled : t.kind.spelling = String.ofList (c :: tail) := by
    unfold Piece.first at piece
    cases hl : lead c with
    | sign kind =>
        rw [hl] at piece
        cases piece
        exact spelling_of_sign hl
    | operator alone withEqual =>
        have both := spelling_of_operator hl
        rw [hl] at piece
        dsimp only at piece
        split at piece
        · cases piece
          exact both.2
        · cases piece
          exact both.1
    | slash =>
        rw [hl] at piece
        dsimp only at piece
        unfold slashPiece at piece
        split at piece
        · cases piece
        · injection piece with shape chars
          injection shape with kind
          rw [← kind, ← chars]
          rfl
    | quote =>
        rw [hl] at piece
        dsimp only at piece
        unfold stringPiece at piece
        split at piece
        · cases piece
        · injection piece with shape
          injection shape with kind
          rw [← kind] at fixed
          exact absurd (by decide : Kind.string ∈ Kind.free) fixed
    | letter =>
        rw [hl] at piece
        dsimp only at piece
        unfold wordPiece at piece
        injection piece with shape word
        injection shape with kind
        rw [← word, ← kind]
        refine spelling_of_word ?_
        intro name
        rw [← kind, name] at fixed
        exact fixed (by decide)
    | digit =>
        rw [hl] at piece
        injection piece with shape
        injection shape with kind
        rw [← kind] at fixed
        exact absurd (by decide : Kind.number ∈ Kind.free) fixed
    | blank | other =>
        rw [hl] at piece
        cases piece
  unfold Token.plain
  rw [same, spelled, String.toList_ofList]

end Token

end Scriptlet
