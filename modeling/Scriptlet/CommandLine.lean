/-
# The command line

What the program prints and how it exits, as functions of what it is given.  A
script is run once as a whole.  Without a script there is a dialogue: each line
of the input is a source of its own, all of them run in one session, and an
error in one does not end it.  The dialogue is a fold over the lines, so that it
can be held one line at a time.
-/
import Scriptlet.Session
import Scriptlet.Tree.Printer

namespace Scriptlet

namespace CommandLine

structure Options where
  /-- Print the tokens of a source before anything else. -/
  showTokens : Bool
  /-- Print the program of a source instead of running it. -/
  showTree : Bool
deriving DecidableEq, Repr

/-- How the program ends. -/
inductive Exit where
  | success
  /-- The script or the input could not be read. -/
  | usage
  /-- The script was rejected. -/
  | data
  /-- The script failed while it ran. -/
  | software
deriving DecidableEq, Repr

def Exit.code : Exit → UInt8
  | success => 0
  | usage => 64
  | data => 65
  | software => 70

def Exit.ofFailure : Failure → Exit
  | .scan _ | .parse _ => data
  | .runtime _ => software

/-- All that a run of the program shows.  There is no exit yet if the fuel ran
out first. -/
structure Transcript where
  exit : Option Exit
  stdout : ByteArray
  stderr : String

/-- How a failure is reported. -/
def report (failure : Failure) : String :=
  " *** An error occurred while running the script ***\n" ++ failure.message ++ "\n\n"

/-- Scans, parses and runs a source, and prints what the options ask for. -/
def runSource (fuel : Nat) (options : Options) (source : String) : Session Unit := do
  match Token.scan source with
  | .error errors => throw (.failed (.scan errors))
  | .ok tokens =>
    if options.showTokens then
      Session.write (String.join (tokens.map (·.text ++ "\n")))
    match Program.parse tokens with
    | .error errors => throw (.failed (.parse errors))
    | .ok program =>
      if options.showTree then Session.write program.written
      else Session.ofRun (interpretAll (some maxFrames) fuel program)

/-! ## Reading -/

/-- The text that some bytes encode, or why there is none. -/
def decode (bytes : ByteArray) : Except String String :=
  match String.fromUTF8? bytes with
  | some text => .ok text
  | none => .error "stream did not contain valid UTF-8"

/-- Cuts a list after every item with the given property. -/
def splitAfter {α : Type} (p : α → Bool) : List α → List (List α)
  | [] => []
  | a :: as =>
    if p a then [a] :: splitAfter p as
    else
      match splitAfter p as with
      | [] => [[a]]
      | first :: others => (a :: first) :: others

/-- The lines of an input, each with its newline. -/
def inputLines (input : ByteArray) : List (Except String String) :=
  (splitAfter (· == '\n'.toUInt8) input.toList).map fun line => decode line.toByteArray

/-! ## A script -/

/-- Runs the script read from `path`, or reports that it could not be read. -/
def runScript (clock : Clock) (fuel : Nat) (options : Options) (path : String)
    (script : Except String String) : Transcript :=
  match script with
  | .error reason =>
    ⟨some .usage, .empty, "Could not read script at '" ++ path ++ "': " ++ reason ++ "\n"⟩
  | .ok source =>
    match runSource fuel options source (.initial clock) with
    | .ok _ m => ⟨some .success, m.sink.written, ""⟩
    | .error (.failed failure) m => ⟨some (.ofFailure failure), m.sink.written, report failure⟩
    | .error .outOfFuel m => ⟨none, m.sink.written, ""⟩

/-! ## A dialogue -/

/-- What a dialogue is doing. -/
inductive Dialogue.Status where
  | waiting
  | ended (exit : Exit)
  | outOfFuel
deriving DecidableEq, Repr

/-- A dialogue between two lines.  What it has printed is in the machine's
output. -/
structure Dialogue where
  machine : Machine
  stderr : String
  status : Dialogue.Status

namespace Dialogue

/-- Prints as the program itself. -/
def say (text : String) (d : Dialogue) : Dialogue :=
  { d with machine := { d.machine with sink := d.machine.sink.write text.toUTF8 } }

def greeting : String := "Welcome to the interactive prompt for the finch interpreter.\n\n"

def sign : String := "> "

/-- A dialogue that waits for its first line. -/
def start (clock : Clock) : Dialogue := say sign (say greeting ⟨.initial clock, "", .waiting⟩)

/-- Runs a line and waits for the next one.  A line that cannot be read ends
the dialogue. -/
def answer (fuel : Nat) (options : Options) (d : Dialogue) (line : Except String String) :
    Dialogue :=
  match d with
  | ⟨machine, stderr, .waiting⟩ =>
    match line with
    | .error reason =>
      ⟨machine, stderr ++ "Could not read from stdin: " ++ reason ++ "\n", .ended .usage⟩
    | .ok source =>
      match runSource fuel options source machine with
      | .ok _ machine => say sign ⟨machine, stderr, .waiting⟩
      | .error (.failed failure) machine => say sign ⟨machine, stderr ++ report failure, .waiting⟩
      | .error .outOfFuel machine => ⟨machine, stderr, .outOfFuel⟩
  | d => d

/-- The end of the input. -/
def close (d : Dialogue) : Transcript :=
  let exit := match d.status with
    | .waiting => some .success
    | .ended exit => some exit
    | .outOfFuel => none
  ⟨exit, d.machine.sink.written, d.stderr⟩

end Dialogue

/-- A whole dialogue, given the lines of its input. -/
def converse (clock : Clock) (fuel : Nat) (options : Options)
    (lines : List (Except String String)) : Transcript :=
  (lines.foldl (Dialogue.answer fuel options) (.start clock)).close

end CommandLine

end Scriptlet
