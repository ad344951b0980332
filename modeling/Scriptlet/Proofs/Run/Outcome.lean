/-
# What a run gives and what it leaves

A run from a machine has an outcome, which is a value or what stopped it, and
leaves a machine in either case.
-/
import Scriptlet.Machine
import Scriptlet.Proofs.EStateM

namespace Scriptlet

instance decidableEqExcept {ε α : Type} [DecidableEq ε] [DecidableEq α] :
    DecidableEq (Except ε α)
  | .ok a, .ok b => decidable_of_iff (a = b) (Except.ok.injEq a b ▸ Iff.rfl)
  | .error e, .error e' => decidable_of_iff (e = e') (Except.error.injEq e e' ▸ Iff.rfl)
  | .ok _, .error _ | .error _, .ok _ => .isFalse nofun

namespace Run

variable {α β : Type}

/-- The value of the run, or why it stopped. -/
def outcome (run : Run α) (m : Machine) : Except (Stop RuntimeError) α :=
  match run m with
  | .ok a _ => .ok a
  | .error e _ => .error e

/-- The machine after the run, however it ended. -/
def after (run : Run α) (m : Machine) : Machine :=
  match run m with
  | .ok _ m' => m'
  | .error _ m' => m'

theorem after_of_ok {run : Run α} {m m' : Machine} {a : α} (ran : run m = .ok a m') :
    after run m = m' := by
  rw [after, ran]

theorem outcome_bind (run : Run α) (k : α → Run β) (m : Machine) :
    outcome (run >>= k) m =
      match outcome run m with
      | .ok a => outcome (k a) (after run m)
      | .error e => .error e := by
  unfold outcome after
  rw [bind_apply]
  cases run m <;> rfl

theorem after_bind (run : Run α) (k : α → Run β) (m : Machine) :
    after (run >>= k) m =
      match outcome run m with
      | .ok a => after (k a) (after run m)
      | .error _ => after run m := by
  unfold outcome after
  rw [bind_apply]
  cases run m <;> rfl

theorem after_lookup (id : ScopeId) (name : Token) (m : Machine) :
    after (lookup id name) m = m := by
  unfold after lookup
  cases m.scopes.get? id name.lexeme <;> rfl

theorem outcome_lookup (id : ScopeId) (name : Token) (m : Machine) :
    outcome (lookup id name) m =
      match m.scopes.get? id name.lexeme with
      | some value => .ok value
      | none => .error (.failed (.undefinedVariable name.lexeme name.line)) := by
  unfold outcome lookup
  cases m.scopes.get? id name.lexeme <;> rfl

theorem after_assign (id : ScopeId) (name : Token) (value : Value) (m : Machine) :
    after (assign id name value) m =
      match m.scopes.resolve id name.lexeme with
      | some home => m.define home name.lexeme value
      | none => m := by
  unfold after assign
  cases m.scopes.resolve id name.lexeme <;> rfl

theorem outcome_assign (id : ScopeId) (name : Token) (value : Value) (m : Machine) :
    outcome (assign id name value) m =
      match m.scopes.resolve id name.lexeme with
      | some _ => .ok ()
      | none => .error (.failed (.undefinedVariable name.lexeme name.line)) := by
  unfold outcome assign
  cases m.scopes.resolve id name.lexeme <;> rfl

/-- Only the clock is another one afterwards. -/
theorem after_native (f : Native) (arguments : List Value) (line : Nat) (m : Machine) :
    ∃ clock, after (native f arguments line) m = { m with clock } := by
  unfold after native
  cases f.apply arguments m.clock <;> exact ⟨_, rfl⟩

theorem outcome_native (f : Native) (arguments : List Value) (line : Nat) (m : Machine) :
    outcome (native f arguments line) m =
      match f.apply arguments m.clock with
      | .ok value _ => .ok value
      | .error fault _ => .error (.failed (.native f.name fault line)) := by
  unfold outcome native
  cases f.apply arguments m.clock <;> rfl

theorem outcome_print (text : String) (m : Machine) :
    outcome (print text) m =
      if m.sink.fits (text ++ "\n").toUTF8 then .ok ()
      else .error (.failed (.output Sink.fullText)) := by
  unfold outcome print
  by_cases fits : m.sink.fits (text ++ "\n").toUTF8
  · simp only [fits, if_true]
  · simp only [fits]
    rfl

theorem after_print (text : String) (m : Machine) :
    after (print text) m = { m with sink := m.sink.write (text ++ "\n").toUTF8 } := by
  unfold after print
  by_cases fits : m.sink.fits (text ++ "\n").toUTF8
  · simp only [fits, if_true]
  · simp only [fits]
    rfl

theorem outcome_inFrame (frames : Option Nat) (line : Nat) (body : Run α) (m : Machine) :
    outcome (inFrame frames line body) m =
      if frames.any (· ≤ m.callDepth) then .error (.failed (.stackOverflow line))
      else outcome body { m with callDepth := m.callDepth + 1 } := by
  by_cases full : frames.any (· ≤ m.callDepth)
  · simp only [outcome, inFrame, full, if_true, fail]
  · simp only [outcome, inFrame, full]
    cases body { m with callDepth := m.callDepth + 1 } <;> rfl

theorem after_inFrame (frames : Option Nat) (line : Nat) (body : Run α) (m : Machine) :
    after (inFrame frames line body) m =
      if frames.any (· ≤ m.callDepth) then m
      else { after body { m with callDepth := m.callDepth + 1 } with
        callDepth := m.callDepth } := by
  by_cases full : frames.any (· ≤ m.callDepth)
  · simp only [after, inFrame, full, if_true, fail]
  · simp only [after, inFrame, full]
    cases body { m with callDepth := m.callDepth + 1 } <;> rfl

end Run

end Scriptlet
