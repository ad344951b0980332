/-
# A run does not look at what has been printed

What has been printed cannot be read back and is never taken back.  So a run does
the same whatever stands in the sink already, and leaves it there, with its own
output behind it (`Appends`).  This is a property that evaluation keeps,
whether the sink has room for everything or not.
-/
import Scriptlet.Proofs.Run.Compositional

namespace Scriptlet

/-- The machine with other bytes in the place of what it has printed. -/
def Machine.withWritten (bytes : ByteArray) (m : Machine) : Machine :=
  { m with sink := { m.sink with written := bytes } }

@[simp] theorem Machine.withWritten_written (m : Machine) :
    m.withWritten m.sink.written = m := rfl

variable {α β ε : Type}

/-- The result on a machine with other bytes in the place of what is printed. -/
def resultWritten (bytes : ByteArray) :
    EStateM.Result ε Machine α → EStateM.Result ε Machine α
  | .ok a m => .ok a (m.withWritten bytes)
  | .error e m => .error e (m.withWritten bytes)

/-- From every machine there are bytes such that the run, whatever has been
printed, does what it does from there, and puts these bytes behind. -/
def Appends (run : EStateM ε Machine α) : Prop :=
  ∀ m, ∃ bytes, ∀ before, run (m.withWritten before) = resultWritten (before ++ bytes) (run m)

namespace Appends

/-- A run that does not touch the sink. -/
theorem silent {run : EStateM ε Machine α}
    (h : ∀ m bytes, run (Machine.withWritten bytes m) = resultWritten bytes (run m)) :
    Appends run := by
  intro m
  refine ⟨.empty, fun before => ?_⟩
  rw [ByteArray.append_empty]
  exact h m before

theorem pure (a : α) : Appends (Pure.pure a : EStateM ε Machine α) := silent fun _ _ => rfl

theorem bind {run : EStateM ε Machine α} {k : α → EStateM ε Machine β} (h : Appends run)
    (hk : ∀ a, Appends (k a)) : Appends (run >>= k) := by
  intro m
  obtain ⟨bytes, first⟩ := h m
  cases ran : run m with
  | ok a m' =>
    obtain ⟨bytes', second⟩ := hk a m'
    refine ⟨bytes ++ bytes', fun before => ?_⟩
    rw [bind_apply, bind_apply, first before, ran, ← ByteArray.append_assoc]
    exact second (before ++ bytes)
  | error e m' =>
    refine ⟨bytes, fun before => ?_⟩
    rw [bind_apply, bind_apply, first before, ran]
    rfl

theorem outOfFuel : Appends (Run.outOfFuel : Run α) := silent fun _ _ => rfl

theorem fail (e : RuntimeError) : Appends (Run.fail e : Run α) := silent fun _ _ => rfl

theorem openScope (outer : ScopeId) (bindings : Bindings) :
    Appends (Run.openScope outer bindings) := silent fun _ _ => rfl

theorem define (id : ScopeId) (name : String) (value : Value) :
    Appends (Run.define id name value) := silent fun _ _ => rfl

theorem newFunction (name : Token) (params : List Token) (body : List Stmt) (scope : ScopeId) :
    Appends (Run.newFunction name params body scope) := silent fun _ _ => rfl

theorem lookup (id : ScopeId) (name : Token) : Appends (Run.lookup id name) := by
  refine silent fun m bytes => ?_
  unfold Run.lookup Machine.withWritten
  dsimp only
  cases m.scopes.get? id name.lexeme <;> rfl

theorem assign (id : ScopeId) (name : Token) (value : Value) :
    Appends (Run.assign id name value) := by
  refine silent fun m bytes => ?_
  unfold Run.assign Machine.withWritten
  dsimp only
  cases m.scopes.resolve id name.lexeme <;> rfl

theorem native (f : Native) (arguments : List Value) (line : Nat) :
    Appends (Run.native f arguments line) := by
  refine silent fun m bytes => ?_
  have clock : (m.withWritten bytes).clock = m.clock := rfl
  unfold Run.native
  rw [clock]
  cases f.apply arguments m.clock <;> rfl

/-- A line goes behind what has been printed, as far as there is room. -/
theorem print (text : String) : Appends (Run.print text) := by
  rintro ⟨scopes, functions, depth, ⟨written, room⟩, clock⟩
  cases room with
  | none => exact ⟨(text ++ "\n").toUTF8, fun before => rfl⟩
  | some room =>
    refine ⟨(text ++ "\n").toUTF8.extract 0 room, fun before => ?_⟩
    by_cases fits : (text ++ "\n").toUTF8.size ≤ room
    · simp only [Run.print, Machine.withWritten, Sink.fits, Sink.write, fits, decide_true, if_true,
        resultWritten]
    · simp only [Run.print, Machine.withWritten, Sink.fits, Sink.write, fits, decide_false]
      rfl

theorem inFrame (frames : Option Nat) (line : Nat) {run : Run α} (h : Appends run) :
    Appends (Run.inFrame frames line run) := by
  intro m
  by_cases full : frames.any (· ≤ m.callDepth)
  · refine ⟨.empty, fun before => ?_⟩
    rw [ByteArray.append_empty]
    unfold Run.inFrame Machine.withWritten
    simp only [full, if_true]
    rfl
  · obtain ⟨bytes, body⟩ := h { m with callDepth := m.callDepth + 1 }
    refine ⟨bytes, fun before => ?_⟩
    have inside : run { m.withWritten before with callDepth := m.callDepth + 1 } = _ := body before
    have depth : (m.withWritten before).callDepth = m.callDepth := rfl
    unfold Run.inFrame
    simp only [depth, full, inside]
    cases run { m with callDepth := m.callDepth + 1 } <;> rfl

end Appends

/-- Evaluation puts its output behind what has been printed. -/
theorem appends_compositional (frames : Option Nat) :
    Run.Compositional frames frames fun _ run _ => Appends run where
  pure := .pure
  outOfFuel := .outOfFuel
  fail := .fail
  openScope := .openScope
  define := .define
  lookup := .lookup
  assign := .assign
  newFunction := .newFunction
  native := .native
  print _ := .print
  first _ h := h
  bind := .bind
  inFrame _ line h := h.inFrame frames line

namespace Appends

theorem ofExcept (result : Except RuntimeError α) : Appends (Run.ofExcept result) :=
  (appends_compositional none).ofExcept result

-- The relation does not look at what is told, so that has to be given.

theorem each {f : β → Run α} (h : ∀ b, Appends (f b)) (bs : List β) : Appends (Run.each f bs) :=
  @Run.Compositional.each _ _ _ _ _ (appends_compositional none) f (fun b => .silent (f b)) h bs

theorem sequence {f : Stmt → Run Flow} (h : ∀ s, Appends (f s)) (statements : List Stmt) :
    Appends (Run.sequence f statements) :=
  @Run.Compositional.sequence _ _ _ (appends_compositional none) f (fun s => .silent (f s)) h
    statements

theorem loop {condition : Run Value} {body : Run Flow} (hc : Appends condition)
    (hb : Appends body) (rounds : Nat) : Appends (Run.loop condition body rounds) :=
  @Run.Compositional.loop _ _ _ (appends_compositional none) condition (.silent condition) hc body
    (.silent body) hb rounds

theorem call {f : Stmt → ScopeId → Run Flow} (h : ∀ s scope, Appends (f s scope))
    (frames : Option Nat) (callee : Value) (arguments : List Value) (line : Nat) :
    Appends (Run.call frames f callee arguments line) :=
  @Run.Compositional.call _ _ _ (appends_compositional frames) f
    (fun s scope => .silent (f s scope)) h callee arguments line

end Appends

theorem appends_eval (frames : Option Nat) (fuel : Nat) (e : Expr) (scope : ScopeId) :
    Appends (eval frames fuel e scope) :=
  ((appends_compositional frames).eval_exec fuel).1 e scope

theorem appends_exec (frames : Option Nat) (fuel : Nat) (s : Stmt) (scope : ScopeId) :
    Appends (exec frames fuel s scope) :=
  ((appends_compositional frames).eval_exec fuel).2 s scope

theorem appends_interpretIn (frames : Option Nat) (fuel : Nat) (scope : ScopeId) (s : Stmt) :
    Appends (interpretIn frames fuel scope s) :=
  (appends_compositional frames).interpretIn fuel scope s

theorem appends_interpretAll (frames : Option Nat) (fuel : Nat) (program : Program) :
    Appends (interpretAll frames fuel program) :=
  (appends_compositional frames).interpretAll fuel program

/-- Running a source only puts bytes behind what has been printed. -/
theorem appends_execute (fuel : Nat) (source : String) : Appends (execute fuel source) := by
  unfold execute
  cases Program.ofSource source with
  | error failure => exact .silent fun _ _ => rfl
  | ok program =>
    intro m
    obtain ⟨bytes, runs⟩ := appends_interpretAll (some maxFrames) fuel program m
    refine ⟨bytes, fun before => ?_⟩
    show Session.ofRun _ (m.withWritten before) = resultWritten _ (Session.ofRun _ m)
    unfold Session.ofRun
    rw [runs before]
    rcases interpretAll (some maxFrames) fuel program m with ⟨_, _⟩ | ⟨_ | _, _⟩ <;> rfl

end Scriptlet
