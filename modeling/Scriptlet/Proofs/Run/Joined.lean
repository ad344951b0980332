/-
# Texts one below the other are run one after the other

Two sources that are programs are a program one below the other, and running it
is running the first and then, if that succeeds, the second on the machine that
is left.  What differs are the lines of the second source, which are further
down in the joined one (`execute_joined`).

Which lines are those?  An error after the seam may well report a line of the
first source, and functions of either may be left behind.  So the second source
is run once more with every line marked by where it comes from.  Since a run
does not look at lines, the marks tell of every line in the result which source
it came from, and both results are the marked one with the marks taken off: each
line at its place in the second source, or at its place in the joined one.
-/
import Scriptlet.Proofs.Parsing.Accepts
import Scriptlet.Proofs.Parsing.Moved
import Scriptlet.Proofs.Parsing.Relined
import Scriptlet.Proofs.Run.Relined
import Scriptlet.Proofs.Scanning.Joined

namespace Scriptlet

open Grammar

/-! ## Programs of joined texts -/

/-- A source is a program if its text is scanned and what is read is spelled by
the program. -/
theorem Program.ofSource_iff {source : String} {program : Program} :
    ofSource source = .ok program ↔
      ∃ tokens, Token.scan source = .ok tokens ∧ Spells tokens program := by
  unfold ofSource
  cases Token.scan source with
  | error errors => simp
  | ok tokens =>
    have parses := parse_iff tokens program
    dsimp only
    cases parsed : parse tokens with
    | error errors =>
      rw [parsed] at parses
      constructor
      · nofun
      · rintro ⟨_, same, spells⟩
        cases same
        exact absurd (parses.2 spells) nofun
    | ok program' =>
      rw [parsed] at parses
      constructor
      · intro same
        cases same
        exact ⟨tokens, rfl, parses.1 rfl⟩
      · rintro ⟨_, same, spells⟩
        cases same
        cases parses.2 spells
        rfl

/-- Two programs one below the other are the program of both, the second one
further down. -/
theorem Program.ofSource_joined {a b : String} {pa pb : Program} (ha : ofSource a = .ok pa)
    (hb : ofSource b = .ok pb) :
    ofSource (a ++ "\n" ++ b) = .ok (pa ++ pb.relined (· + linesAbove a)) := by
  obtain ⟨tokens, scans, spells⟩ := ofSource_iff.1 ha
  obtain ⟨tokens', scans', spells'⟩ := ofSource_iff.1 hb
  obtain ⟨joined, scans'', read⟩ := Token.scan_joined scans scans'
  refine ofSource_iff.2 ⟨joined, scans'', ?_⟩
  unfold Spells
  rw [read]
  exact spells.append spells'.relined

/-! ## Runs of joined programs -/

theorem interpretAll_append (frames : Option Nat) (fuel : Nat) (first second : Program) :
    interpretAll frames fuel (first ++ second) =
      interpretAll frames fuel first >>= fun _ => interpretAll frames fuel second := by
  induction first with
  | nil => exact (pure_bind (m := Run) () fun _ => interpretAll frames fuel second).symm
  | cons s rest ih =>
    rw [List.cons_append, interpretAll, interpretAll, ih, bind_assoc]

/-! ## Marks -/

namespace Mark

/-- The mark of a line in the text below. -/
def below (line : Nat) : Nat := 2 * line + 1

/-- The mark of any other line. -/
def other (line : Nat) : Nat := 2 * line

/-- The line behind a mark when lines of the text below are `k` further down. -/
def place (k mark : Nat) : Nat := mark / 2 + mark % 2 * k

theorem place_comp_below (k : Nat) : place k ∘ below = (· + k) := by
  funext line
  show (2 * line + 1) / 2 + (2 * line + 1) % 2 * k = line + k
  rw [Nat.mul_add_mod, Nat.mul_add_div Nat.two_pos]
  omega

theorem place_comp_other (k : Nat) : place k ∘ other = id := by
  funext line
  show 2 * line / 2 + 2 * line % 2 * k = line
  rw [Nat.mul_mod_right, Nat.mul_div_cancel_left _ Nat.two_pos, Nat.zero_mul, Nat.add_zero]

end Mark

/-- The failure with every line moved to the one that `φ` gives for it. -/
def Failure.relined (φ : Nat → Nat) : Failure → Failure
  | scan errors => scan (errors.map (ScanError.relined φ))
  | parse errors => parse (errors.map (SyntaxError.relined φ))
  | runtime error => runtime (error.relined φ)

namespace Session

/-- What a step of a session comes to, with every line moved. -/
def relined (φ : Nat → Nat) : EStateM.Result (Stop Failure) Machine Unit →
    EStateM.Result (Stop Failure) Machine Unit :=
  moved φ id (Failure.relined φ)

theorem ofRun_relined {φ : Nat → Nat} {run run' : Run Unit} (h : Run.Moves φ id run run')
    (m : Machine) : ofRun run' (m.relined φ) = relined φ (ofRun run m) := by
  unfold ofRun
  rw [h m]
  rcases run m with ⟨_, _⟩ | ⟨_ | _, _⟩ <;> rfl

theorem ofRun_bind {α β : Type} (run : Run α) (k : α → Run β) :
    ofRun (run >>= k) = ofRun run >>= fun a => ofRun (k a) := by
  funext m
  rw [bind_apply]
  unfold ofRun
  rw [bind_apply]
  rcases run m with ⟨_, _⟩ | ⟨_ | _, _⟩ <;> rfl

end Session

theorem execute_of_ofSource {source : String} {program : Program}
    (h : Program.ofSource source = .ok program) (fuel : Nat) :
    execute fuel source = Session.ofRun (interpretAll (some maxFrames) fuel program) := by
  unfold execute
  rw [h]
  rfl

/-- Taking the marks off a run of a marked program is running it on the lines
behind the marks. -/
theorem unmarked (k fuel : Nat) (program : Program) (m : Machine) :
    Session.relined (Mark.place k)
      (Session.ofRun (interpretAll (some maxFrames) fuel (program.relined Mark.below))
        (m.relined Mark.other)) =
      Session.ofRun (interpretAll (some maxFrames) fuel (program.relined (· + k))) m := by
  have moves := moves_interpretAll (Mark.place k) (some maxFrames) fuel
    (program.relined Mark.below)
  rw [← Session.ofRun_relined moves, Program.relined_relined, Machine.relined_relined,
    Mark.place_comp_below, Mark.place_comp_other, Machine.relined_id]

/-- Two programs one below the other are a program.  Running it stops where and
as the first one stops by itself; if that succeeds, it goes on like the second
one by itself on the machine that is left, but for the lines that come from the
second source, which are further down. -/
theorem execute_joined {a b : String} {pa pb : Program} (ha : Program.ofSource a = .ok pa)
    (hb : Program.ofSource b = .ok pb) (fuel : Nat) (m : Machine) :
    Program.ofSource (a ++ "\n" ++ b) = .ok (pa ++ pb.relined (· + linesAbove a)) ∧
    (∀ stop m', execute fuel a m = .error stop m' →
      execute fuel (a ++ "\n" ++ b) m = .error stop m') ∧
    ∀ m', execute fuel a m = .ok () m' →
      let marked := Session.ofRun
        (interpretAll (some maxFrames) fuel (pb.relined Mark.below)) (m'.relined Mark.other)
      execute fuel b m' = Session.relined (Mark.place 0) marked ∧
        execute fuel (a ++ "\n" ++ b) m = Session.relined (Mark.place (linesAbove a)) marked := by
  have joined := Program.ofSource_joined ha hb
  have run : execute fuel (a ++ "\n" ++ b) = execute fuel a >>= fun _ => Session.ofRun
      (interpretAll (some maxFrames) fuel (pb.relined (· + linesAbove a))) := by
    rw [execute_of_ofSource joined, interpretAll_append, Session.ofRun_bind,
      ← execute_of_ofSource ha]
  refine ⟨joined, fun stop m' stops => ?_, fun m' ends => ⟨?_, ?_⟩⟩
  · rw [run, bind_of_error stops]
  · have still : (fun line => line + 0) = id := rfl
    rw [unmarked, still, Program.relined_id, execute_of_ofSource hb]
  · rw [run, bind_of_ok ends, unmarked]

/-! ## A call across the seam -/

namespace Seam

/-- A function that calls what it is given. -/
def above : String := "fun f(g) \x7b\n  return g(); \x7d"

/-- A function that fails when it is called, and that call. -/
def below : String := "fun h() \x7b\n  return x; \x7d\nf(h);"

def programOf (source : String) : Program := (Program.ofSource source).toOption.getD []

theorem ofSource_programOf {source : String}
    (h : (Program.ofSource source).toOption.isSome) :
    Program.ofSource source = .ok (programOf source) := by
  unfold programOf
  cases read : Program.ofSource source with
  | ok program => rfl
  | error failure =>
    rw [read] at h
    cases h

/-- The machine that a source leaves, and what stopped it if anything did. -/
def ended : EStateM.Result (Stop Failure) Machine Unit → Machine × Option (Stop Failure)
  | .ok _ m => (m, none)
  | .error stop m => (m, some stop)

theorem eq_ok_of_ended {result : EStateM.Result (Stop Failure) Machine Unit}
    (h : (ended result).2 = none) : result = .ok () (ended result).1 := by
  cases result with
  | ok _ m => rfl
  | error stop m => cases h

end Seam

open Seam

/-- The source above has two lines, so the error of the source below, on line 2
there, is on line 4 of both together. -/
theorem call_across_seam :
    let m := (ended (execute 9 above (.initial (.still 0)))).1
    execute 9 above (.initial (.still 0)) = .ok () m ∧
    (ended (execute 9 below m)).2 = some (.failed (.runtime (.undefinedVariable "x" 2))) ∧
    (ended (execute 9 (above ++ "\n" ++ below) (.initial (.still 0)))).2 =
      some (.failed (.runtime (.undefinedVariable "x" 4))) := by
  intro m
  have readAbove : Program.ofSource above = .ok (programOf above) :=
    ofSource_programOf (by decide +kernel)
  have readBelow : Program.ofSource below = .ok (programOf below) :=
    ofSource_programOf (by decide +kernel)
  have ends : execute 9 above (.initial (.still 0)) = .ok () m := eq_ok_of_ended (by decide +kernel)
  obtain ⟨-, -, run⟩ := execute_joined readAbove readBelow 9 (.initial (.still 0))
  obtain ⟨alone, joined⟩ := run m ends
  have alone := congrArg (fun result => (ended result).2) alone
  have joined := congrArg (fun result => (ended result).2) joined
  exact ⟨ends, alone.trans (by decide +kernel), joined.trans (by decide +kernel)⟩

end Scriptlet
