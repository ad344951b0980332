/-
# Output

Where printed text goes.  A sink may have room for a number of bytes only; what
fits is kept, even when it is part of a character, and the rest is refused.
-/

namespace Scriptlet

structure Sink where
  /-- The bytes taken so far. -/
  written : ByteArray
  /-- The bytes that still fit, if there is a limit. -/
  room : Option Nat

namespace Sink

/-- A sink without a limit that has taken nothing. -/
def empty : Sink := ⟨ByteArray.empty, none⟩

/-- What a full sink says when it refuses output. -/
def fullText : String := "sink full"

/-- Whether all of some bytes fit. -/
def fits (sink : Sink) (bytes : ByteArray) : Bool :=
  match sink.room with
  | none => true
  | some room => bytes.size ≤ room

/-- Takes as many bytes as fit. -/
def write (sink : Sink) (bytes : ByteArray) : Sink :=
  match sink with
  | ⟨written, none⟩ => ⟨written ++ bytes, none⟩
  | ⟨written, some room⟩ => ⟨written ++ bytes.extract 0 room, some (room - bytes.size)⟩

end Sink

end Scriptlet
