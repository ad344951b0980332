/-
# Reading tokens

A `Cursor` is what the grammar rules share: the tokens still to be read and the
errors recorded so far.  A rule may fail, which leaves the cursor where the
rule stopped, or record an error and go on.

Nothing after the first end-of-file token is ever read, and a list without one
reads as if it had one, so the cursor holds neither: it holds the tokens before
it and the line that errors at the end report.  A reader that has the whole list
comes to the same (`Indexed.parse_eq`).
-/
import Scriptlet.Tree.SyntaxError

namespace Scriptlet

/-- The state of a parse. -/
structure Cursor where
  /-- The tokens before the end that are still to be read. -/
  rest : List Token
  /-- The line of the end. -/
  endLine : Nat
  /-- The number of tokens at the start, which no rule changes.  Every round of
  a loop reads a token, so no loop goes round more often than this. -/
  size : Nat
  /-- The errors so far, oldest first. -/
  errors : List SyntaxError
deriving DecidableEq, Repr

namespace Cursor

/-- The line that errors at the end of a token list report: the line of its
first end-of-file token, or else of its last token, or 1. -/
def endLineOf (tokens : List Token) : Nat :=
  match tokens.find? (·.kind = .eof), tokens.getLast? with
  | some eof, _ => eof.line
  | none, some last => last.line
  | none, none => 1

/-- A cursor before the first token. -/
def ofTokens (tokens : List Token) : Cursor :=
  let readable := tokens.takeWhile (·.kind ≠ .eof)
  ⟨readable, endLineOf tokens, readable.length, []⟩

/-- The token to be read next; at the end, an end-of-file token. -/
def current (c : Cursor) : Token := c.rest.headD (Token.endOfFile c.endLine)

end Cursor

/-! ## Recovery -/

/-- The kinds that begin a statement and end the search for one. -/
def Token.Kind.startsStatement (k : Token.Kind) : Bool :=
  k ∈ [.kwClass, .kwFun, .kwVar, .kwFor, .kwIf, .kwWhile, .kwPrint, .kwReturn]

/-- Skips tokens up to the start of a statement or past a semicolon; `last` is
the kind of the token skipped last. -/
def skipToStatement (last : Token.Kind) : List Token → List Token
  | [] => []
  | token :: rest =>
    if last = .semicolon || token.kind.startsStatement then token :: rest
    else skipToStatement token.kind rest

/-- Where to go on after an error.  One token is always skipped. -/
def synchronize : List Token → List Token
  | [] => []
  | token :: rest => skipToStatement token.kind rest

/-! ## Steps of a rule -/

/-- A grammar rule. -/
abbrev Parse := EStateM SyntaxError Cursor

namespace Parse

def current : Parse Token := fun c => .ok c.current c

/-- Fails at the current token. -/
def fail {α : Type} (cause : SyntaxError.Cause) : Parse α :=
  fun c => .error (.atToken cause c.current) c

/-- Fails at a token that has been read. -/
def failAt {α : Type} (cause : SyntaxError.Cause) (token : Token) : Parse α :=
  fun c => .error (.atToken cause token) c

/-- Reports an error at a token and goes on. -/
def record (cause : SyntaxError.Cause) (token : Token) : Parse Unit :=
  fun c => .ok () { c with errors := c.errors ++ [.atToken cause token] }

/-- Whether the current token is of the given kind. -/
def check (kind : Token.Kind) : Parse Bool := fun c => .ok (c.current.kind = kind) c

/-- Reads the current token. -/
def next : Parse Token := fun c => .ok c.current { c with rest := c.rest.tail }

/-- Reads the current token if its kind is among the wanted ones. -/
def accept? (wanted : List Token.Kind) : Parse (Option Token) := fun c =>
  match c.rest with
  | [] => .ok none c
  | token :: rest =>
    if token.kind ∈ wanted then .ok (some token) { c with rest := rest } else .ok none c

/-- Reads a token of the given kind, or fails. -/
def expect (kind : Token.Kind) (cause : SyntaxError.Cause) : Parse Token := do
  match ← accept? [kind] with
  | some token => pure token
  | none => fail cause

/-- Goes round as long as a token of a wanted kind comes next, and at most
`rounds` times. -/
def chainWithin {α : Type} (wanted : List Token.Kind) (step : α → Token → Parse α) :
    (rounds : Nat) → α → Parse α
  | 0, a => pure a
  | rounds + 1, a => do
    match ← accept? wanted with
    | some token => chainWithin wanted step rounds (← step a token)
    | none => pure a

/-- Goes round as long as a token of a wanted kind comes next. -/
def chain {α : Type} (wanted : List Token.Kind) (step : α → Token → Parse α) (a : α) :
    Parse α := fun c => chainWithin wanted step c.size a c

/-- Runs a rule; when it fails, its error is recorded and the cursor moves on
to where a statement may start. -/
def recovering {α : Type} (rule : Parse α) : Parse (Option α) := fun c =>
  match rule c with
  | .ok a c' => .ok (some a) c'
  | .error e c' => .ok none { c' with rest := synchronize c'.rest, errors := c'.errors ++ [e] }

/-- Runs a rule with recovery until the tokens end or `closing` comes next, at
most `rounds` times, and collects what it yields. -/
def manyWithin {α : Type} (closing : Option Token.Kind) (rule : Parse α) :
    (rounds : Nat) → Parse (List α)
  | 0 => pure []
  | rounds + 1 => fun c =>
    match c.rest with
    | [] => .ok [] c
    | token :: _ =>
      if closing = some token.kind then .ok [] c
      else (do
        let first ← recovering rule
        let others ← manyWithin closing rule rounds
        pure (first.toList ++ others) : Parse (List α)) c

/-- Runs a rule with recovery until the tokens end or `closing` comes next. -/
def many {α : Type} (closing : Option Token.Kind) (rule : Parse α) : Parse (List α) :=
  fun c => manyWithin closing rule c.size c

end Parse

end Scriptlet
