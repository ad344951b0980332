/-
# The program

Runs a script, or holds a dialogue when no script is given:

    [SCRIPT] [--tokens] [--ast]

What is printed is decided in `Scriptlet.CommandLine`; here it is only passed
on.  A run is computed in one piece, so the clock that it is given shows the time
at which it begins whenever the run asks.
-/
import Scriptlet.CommandLine

namespace Scriptlet

open CommandLine

/-- The flags among the arguments. -/
def optionsOf (args : List String) : Options :=
  ⟨args.contains "--tokens", args.contains "--ast"⟩

/-- What the system says about a file that cannot be read. -/
def reasonOf : IO.Error → String
  | .noFileOrDirectory .. => "No such file or directory (os error 2)"
  | .permissionDenied .. => "Permission denied (os error 13)"
  | .inappropriateType .. => "Is a directory (os error 21)"
  | e => toString e

def exitCode (t : Transcript) : UInt32 := (t.exit.getD .software).code.toUInt32

/-- The contents of a file as text, if it can be read and is text. -/
def readText (path : String) : IO (Except String String) := do
  try
    pure (decode (← IO.FS.readBinFile path))
  catch e => pure (.error (reasonOf e))

/-- Passes on what a dialogue has said since `shown` bytes of it were shown on
either stream. -/
def showSince (shown : Nat × Nat) (d : Dialogue) : IO (Nat × Nat) := do
  let stdout := d.machine.sink.written
  let stderr := d.stderr.toUTF8
  (← IO.getStdout).write (stdout.extract shown.1 stdout.size)
  (← IO.getStdout).flush
  (← IO.getStderr).write (stderr.extract shown.2 stderr.size)
  (← IO.getStderr).flush
  pure (stdout.size, stderr.size)

/-- Reads a line with its newline, byte by byte so that nothing after it is
waited for; empty at the end of the input. -/
partial def readLine (stdin : IO.FS.Stream) (line : ByteArray) : IO ByteArray := do
  let byte ← stdin.read 1
  if byte.isEmpty then return line
  let line := line ++ byte
  if byte.toList = ['\n'.toUInt8] then return line
  readLine stdin line

/-- The dialogue from the given time on. -/
def atTime (now : Nat) (d : Dialogue) : Dialogue :=
  { d with machine := { d.machine with clock := .still now } }

/-- Holds a dialogue on the standard streams, which began at the time `start`. -/
partial def hold (start : Nat) (options : Options) (d : Dialogue) (shown : Nat × Nat) :
    IO UInt32 := do
  let shown ← showSince shown d
  if d.status ≠ .waiting then return exitCode d.close
  let line ← readLine (← IO.getStdin) .empty
  if line.isEmpty then return exitCode d.close
  let now := (← IO.monoMsNow) - start
  hold start options ((atTime now d).answer ampleFuel options (decode line)) shown

end Scriptlet

open Scriptlet CommandLine in
/-- The entry point. -/
def main (args : List String) : IO UInt32 := do
  let options := optionsOf args
  match args.find? (fun arg => !arg.startsWith "--") with
  | some path =>
    let t := runScript (.still 0) ampleFuel options path (← readText path)
    (← IO.getStdout).write t.stdout
    (← IO.getStdout).flush
    IO.eprint t.stderr
    pure (exitCode t)
  | none => hold (← IO.monoMsNow) options (.start (.still 0)) (0, 0)
