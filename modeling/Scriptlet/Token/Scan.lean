/-
# The tokens of a text

Scanning puts a line on every piece and then reads the tokens and the errors
off the pieces.  It never stops early: all errors of a text are reported
together, and only a text without any has tokens.
-/
import Scriptlet.Token.Piece

namespace Scriptlet

/-- What can be wrong with a text before grammar comes into it. -/
inductive ScanError where
  | unterminatedString (line : Nat)
  | unexpectedCharacter (character : Char) (line : Nat)
deriving DecidableEq, Repr

def ScanError.line : ScanError → Nat
  | .unterminatedString line => line
  | .unexpectedCharacter _ line => line

def ScanError.message : ScanError → String
  | .unterminatedString line => s!"[line {line}] Error: Unterminated string."
  | .unexpectedCharacter c line =>
    s!"[line {line}] Error: Unexpected character '" ++ String.singleton c ++ "'."

/-- Pairs every piece with the line on which it ends, the first character
being on line `line`. -/
def Piece.withLines (line : Nat) : List Piece → List (Piece × Nat)
  | [] => []
  | p :: ps => (p, line + p.newlines) :: withLines (line + p.newlines) ps

namespace Token

/-- The value that a token of the given kind and spelling stands for.  A string
literal is its spelling without the delimiters. -/
def literalOf? (kind : Kind) (chars : List Char) : Option Literal :=
  match kind with
  | .number => some (.number (Decimal.ofChars chars).toFloat)
  | .string => some (.string (String.ofList chars.tail.dropLast))
  | .kwTrue => some (.boolean true)
  | .kwFalse => some (.boolean false)
  | .kwNil => some .nil
  | _ => none

/-- The token that a piece is, if it is one. -/
def ofPiece? (p : Piece × Nat) : Option Token :=
  match p.1.shape with
  | .token kind => some ⟨kind, String.ofList p.1.chars, literalOf? kind p.1.chars, p.2⟩
  | _ => none

/-- The error that a piece is, if it is one. -/
def errorOfPiece? (p : Piece × Nat) : Option ScanError :=
  match p.1.shape, p.1.chars with
  | .openString, _ => some (.unterminatedString p.2)
  | .stray, c :: _ => some (.unexpectedCharacter c p.2)
  | _, _ => none

/-- The last line of a text, counted from 1. -/
def lastLine (source : List Char) : Nat := 1 + source.count '\n'

/-- The tokens of a text, closed by an end-of-file token, or all of its
errors. -/
def scan (source : String) : Except (List ScanError) (List Token) :=
  let pieces := Piece.withLines 1 (Piece.cut source.toList)
  match pieces.filterMap errorOfPiece? with
  | [] => .ok (pieces.filterMap ofPiece? ++ [endOfFile (lastLine source.toList)])
  | errors => .error errors

end Token

end Scriptlet
