/-
# Cutting a text into pieces

A script is cut into pieces without losing a character: tokens, layout between
them, and whatever can be neither.  The first character decides what a piece
is, and the piece then goes on as far as it can.  Pieces know nothing of lines,
errors or literals; those are read off them afterwards, so that each can be
reasoned about alone.
-/
import Scriptlet.Token.Basic

namespace Scriptlet

/-- What a stretch of text is. -/
inductive Piece.Shape where
  /-- A whole token. -/
  | token (kind : Token.Kind)
  /-- A layout character or a comment. -/
  | gap
  /-- A string literal that the text ends before closing. -/
  | openString
  /-- A character that starts nothing. -/
  | stray
deriving DecidableEq, Repr

/-- A stretch of text with its shape. -/
structure Piece where
  shape : Piece.Shape
  chars : List Char
deriving DecidableEq, Repr

namespace Piece

/-- What the first character of a piece says about it. -/
inductive Lead where
  /-- A token of one character. -/
  | sign (kind : Token.Kind)
  /-- A token of one character that becomes another when `=` follows. -/
  | operator (alone withEqual : Token.Kind)
  | slash
  | quote
  | blank
  | digit
  | letter
  | other
deriving DecidableEq, Repr

/-- Letters and digits are those of ASCII, and `_` counts as a letter. -/
def isLetter (c : Char) : Bool := c.isAlpha || c == '_'

/-- The characters that a word goes on with. -/
def isWordChar (c : Char) : Bool := isLetter c || c.isDigit

def lead (c : Char) : Lead :=
  match c with
  | '(' => .sign .leftParen
  | ')' => .sign .rightParen
  | '\x7b' => .sign .leftBrace
  | '\x7d' => .sign .rightBrace
  | ',' => .sign .comma
  | '.' => .sign .dot
  | '-' => .sign .minus
  | '+' => .sign .plus
  | ';' => .sign .semicolon
  | '*' => .sign .star
  | '!' => .operator .bang .bangEqual
  | '=' => .operator .equal .equalEqual
  | '<' => .operator .less .lessEqual
  | '>' => .operator .greater .greaterEqual
  | '/' => .slash
  | '"' => .quote
  | '\'' => .quote
  | ' ' => .blank
  | '\r' => .blank
  | '\t' => .blank
  | '\n' => .blank
  | c => if c.isDigit then .digit else if isLetter c then .letter else .other

/-- The rest of a string literal opened by `quote`: everything up to the next
`quote`, which may be many lines away. -/
def stringPiece (quote : Char) (rest : List Char) : Piece :=
  match rest.dropWhile (· != quote) with
  | [] => ⟨.openString, quote :: rest⟩
  | _ :: _ => ⟨.token .string, quote :: (rest.takeWhile (· != quote) ++ [quote])⟩

/-- A point and digits, if a digit follows the point at once. -/
def fraction : List Char → List Char
  | '.' :: d :: rest => if d.isDigit then '.' :: d :: rest.takeWhile Char.isDigit else []
  | _ => []

/-- The rest of a number after its first digit. -/
def numberTail (rest : List Char) : List Char :=
  rest.takeWhile Char.isDigit ++ fraction (rest.dropWhile Char.isDigit)

/-- A comment runs up to the end of its line and leaves the newline. -/
def slashPiece (rest : List Char) : Piece :=
  if rest.head? = some '/' then ⟨.gap, '/' :: rest.takeWhile (· != '\n')⟩
  else ⟨.token .slash, ['/']⟩

def wordPiece (c : Char) (rest : List Char) : Piece :=
  let word := c :: rest.takeWhile isWordChar
  ⟨.token (.ofWord (String.ofList word)), word⟩

/-- The piece at the start of the text `c :: rest`. -/
def first (c : Char) (rest : List Char) : Piece :=
  match lead c with
  | .sign kind => ⟨.token kind, [c]⟩
  | .operator alone withEqual =>
    if rest.head? = some '=' then ⟨.token withEqual, [c, '=']⟩ else ⟨.token alone, [c]⟩
  | .slash => slashPiece rest
  | .quote => stringPiece c rest
  | .blank => ⟨.gap, [c]⟩
  | .digit => ⟨.token .number, c :: numberTail rest⟩
  | .letter => wordPiece c rest
  | .other => ⟨.stray, [c]⟩

/-- Cuts off piece after piece, once `skip` characters that belong to the last
piece have gone by. -/
def cutFrom : (skip : Nat) → List Char → List Piece
  | _, [] => []
  | skip + 1, _ :: rest => cutFrom skip rest
  | 0, c :: rest =>
    let piece := first c rest
    piece :: cutFrom (piece.chars.length - 1) rest

/-- The pieces of a text, in order. -/
def cut (source : List Char) : List Piece := cutFrom 0 source

/-- The newlines inside a piece. -/
def newlines (p : Piece) : Nat := p.chars.count '\n'

end Piece

end Scriptlet
