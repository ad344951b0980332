/-
# The clock

What time it is does not depend on what a program does.  So the readings of the
clock are given from outside, like the text that is run: one for each time that
a script asks.  Nothing is said about them here, not even that they grow.
-/

namespace Scriptlet

/-- What a clock is going to show, in milliseconds since the start: the reading
at `0` is for the next time that it is looked at, the one at `1` for the time
after that. -/
abbrev Clock := Nat → Nat

namespace Clock

/-- What the clock shows after it was looked at once more. -/
def later (clock : Clock) : Clock := fun n => clock (n + 1)

/-- A clock that always shows the same. -/
def still (now : Nat) : Clock := fun _ => now

/-- Looks at the clock. -/
def read {ε : Type} : EStateM ε Clock Nat := fun clock => .ok (clock 0) clock.later

end Clock

end Scriptlet
