/-
# The limit on active calls

A run with a limit on active calls does what the run without a limit does, up to
the first call that would be one too many.  `Run.Limited` says this of a run
with a limit, the same run without one, and the trace of the latter, and is one
of the relations that evaluation keeps.  It carries along that a run leaves the
number of active calls as it was, however it ends, for otherwise a call that
failed would count for what comes after it.
-/
import Scriptlet.Eval.Fuel
import Scriptlet.Proofs.Run.Compositional
import Scriptlet.Proofs.Run.Reachable

namespace Scriptlet

/-! ## Calls in a trace -/

/-- A call that is about to begin: its callee and arguments are evaluated, and
there are as many arguments as the callee takes. -/
structure Call where
  /-- The line of its closing parenthesis. -/
  line : Nat
  /-- The calls that are active around it. -/
  active : Nat
  /-- The machine right before. -/
  machine : Machine

def Call.deeper (c : Call) : Call := { c with active := c.active + 1 }

/-- The call that an event is, if it is one. -/
def Event.call? (e : Event) : Option Call :=
  match e.act with
  | .calls _ line => some ⟨line, e.active, e.machine⟩
  | _ => none

theorem Event.call?_deeper (e : Event) : e.deeper.call? = e.call?.map Call.deeper := by
  obtain ⟨act, active, m⟩ := e
  cases act <;> rfl

/-- The first call that is made when `limit` calls, or even more, are active
already, `depth` of them since before the run. -/
def overflow? (limit depth : Nat) (events : List Event) : Option Call :=
  (events.filterMap Event.call?).find? fun c => limit ≤ depth + c.active

section

variable {limit depth : Nat}

theorem overflow?_append (events rest : List Event) :
    overflow? limit depth (events ++ rest) =
      (overflow? limit depth events).or (overflow? limit depth rest) := by
  unfold overflow?
  rw [List.filterMap_append, List.find?_append]

/-- What is too deep inside of a call is too deep one call further out. -/
theorem overflow?_deeper (events : List Event) :
    overflow? limit depth (events.map Event.deeper) =
      (overflow? limit (depth + 1) events).map Call.deeper := by
  have calls : (events.map Event.deeper).filterMap Event.call? =
      (events.filterMap Event.call?).map Call.deeper := by
    rw [List.filterMap_map, List.map_filterMap]
    exact congrArg (List.filterMap · events) (funext Event.call?_deeper)
  unfold overflow?
  rw [calls, List.find?_map]
  congr 2
  funext c
  have shift : depth + (c.active + 1) = depth + 1 + c.active := by omega
  exact decide_eq_decide.2 (Iff.of_eq (congrArg (limit ≤ ·) shift))

end

namespace Run

variable {α β : Type} {limit : Nat}

/-- How a run ends at a call that is one too many: what was done until then
stays, but no call is active that was not before. -/
def overflowing (call : Call) (m : Machine) : EStateM.Result (Stop RuntimeError) Machine α :=
  .error (.failed (.stackOverflow call.line)) { call.machine with callDepth := m.callDepth }

/-- From `m`, the run with a limit does what the run that is told does, up to the
first call that is told and is one too many. -/
structure LimitedAt (limit : Nat) (limited : Run α) (unlimited : Told α) (m : Machine) :
    Prop where
  result : limited m =
    match overflow? limit m.callDepth (unlimited.events m) with
    | none => unlimited.run m
    | some call => overflowing call m
  callDepth : (after unlimited.run m).callDepth = m.callDepth
  /-- No call is made when more calls than the limit are active. -/
  exact : ∀ call ∈ overflow? limit m.callDepth (unlimited.events m),
    m.callDepth + call.active = limit

/-- With the limit, too, the number of active calls is what it was, however the
run ends. -/
theorem LimitedAt.callDepth_limited {limited : Run α} {unlimited : Told α} {m : Machine}
    (h : LimitedAt limit limited unlimited m) : (after limited m).callDepth = m.callDepth := by
  have result := h.result
  unfold after
  cases found : overflow? limit m.callDepth (unlimited.events m) with
  | none =>
    rw [found] at result
    rw [result]
    exact h.callDepth
  | some call =>
    rw [found] at result
    rw [result]
    rfl

/-- The run is limited from each machine that has no more calls active than the
limit. -/
def Limited (limit : Nat) (limited : Run α) (unlimited : Told α) : Prop :=
  ∀ m, m.callDepth ≤ limit → LimitedAt limit limited unlimited m

namespace Limited

/-! ## Runs without calls -/

/-- A run that makes no calls and keeps their number. -/
theorem silent {run : Run α} (h : ∀ m, (after run m).callDepth = m.callDepth) :
    Limited limit run (.silent run) :=
  fun m _ => ⟨rfl, h m, nofun⟩

/-- An act that is no call counts for nothing. -/
theorem first {limited : Run α} {unlimited : Told α} (h : Limited limit limited unlimited)
    {act : Act} (other : ∀ active m, (⟨act, active, m⟩ : Event).call? = none) :
    Limited limit limited (unlimited.first act) := by
  intro m hm
  have same : overflow? limit m.callDepth ((unlimited.first act).events m) =
      overflow? limit m.callDepth (unlimited.events m) := by
    unfold overflow? Told.first
    rw [List.filterMap_cons_none (other 0 m)]
  obtain ⟨result, callDepth, exact⟩ := h m hm
  refine ⟨?_, callDepth, ?_⟩
  · rwa [same]
  · rwa [same]

theorem lookup (id : ScopeId) (name : Token) :
    Limited limit (Run.lookup id name) (.silent (Run.lookup id name)) := by
  refine silent fun m => ?_
  rw [after_lookup]

theorem assign (id : ScopeId) (name : Token) (value : Value) :
    Limited limit (Run.assign id name value) (.silent (Run.assign id name value)) := by
  refine silent fun m => ?_
  rw [after_assign]
  cases m.scopes.resolve id name.lexeme <;> rfl

theorem newFunction (name : Token) (params : List Token) (body : List Stmt) (scope : ScopeId) :
    Limited limit (Run.newFunction name params body scope)
      (.newFunction name params body scope) := by
  intro m hm
  have made : Limited limit (Run.newFunction name params body scope)
      (.first (.creates ⟨m.functions, name, params, body, scope⟩)
        (.silent (Run.newFunction name params body scope))) :=
    (silent fun _ => rfl).first fun _ _ => rfl
  obtain ⟨result, callDepth, exact⟩ := made m hm
  exact ⟨result, callDepth, exact⟩

theorem native (f : Native) (arguments : List Value) (line : Nat) :
    Limited limit (Run.native f arguments line) (.silent (Run.native f arguments line)) := by
  refine silent fun m => ?_
  obtain ⟨clock, left⟩ := after_native f arguments line m
  rw [left]

theorem print (scope : ScopeId) (text : String) :
    Limited limit (Run.print text) (.print scope text) := by
  refine (silent fun m => ?_).first fun _ _ => rfl
  rw [after_print]

/-! ## Runs one after another -/

theorem bind {limited : Run α} {unlimited : Told α} {k : α → Run β} {k' : α → Told β}
    (h : Limited limit limited unlimited) (hk : ∀ a, Limited limit (k a) (k' a)) :
    Limited limit (limited >>= k) (unlimited >>= k') := by
  intro m hm
  obtain ⟨result, callDepth, exact⟩ := h m hm
  cases hu : unlimited.run m with
  | error e m' =>
    -- the rest is not reached, with or without the limit
    have depth : m'.callDepth = m.callDepth := by
      unfold after at callDepth
      rwa [hu] at callDepth
    have same : (unlimited >>= k').events m = unlimited.events m := Trace.next_error hu
    have run : (unlimited >>= k').run m = .error e m' := bind_of_error hu _
    rw [hu] at result
    refine ⟨?_, ?_, ?_⟩
    · rw [same, run, bind_apply, result]
      cases overflow? limit m.callDepth (unlimited.events m) <;> rfl
    · unfold after
      rw [run]
      exact depth
    · rwa [same]
  | ok a m' =>
    -- the rest starts with as many active calls, so its calls are counted alike
    have depth : m'.callDepth = m.callDepth := by
      unfold after at callDepth
      rwa [hu] at callDepth
    have both : (unlimited >>= k').events m = unlimited.events m ++ (k' a).events m' :=
      Trace.next_ok hu
    have run : (unlimited >>= k').run m = (k' a).run m' := bind_of_ok hu _
    obtain ⟨result', callDepth', exact'⟩ := hk a m' (depth ▸ hm)
    rw [depth] at result' callDepth' exact'
    rw [hu] at result
    refine ⟨?_, ?_, ?_⟩
    · rw [both, overflow?_append, run, bind_apply, result]
      cases overflow? limit m.callDepth (unlimited.events m) with
      | some call => rfl
      | none =>
        dsimp only [Option.none_or]
        rw [result']
        cases overflow? limit m.callDepth ((k' a).events m') with
        | none => rfl
        | some call =>
          unfold overflowing
          rw [depth]
    · unfold after at callDepth' ⊢
      rw [run]
      exact callDepth'
    · rw [both, overflow?_append]
      intro call found
      rcases Option.or_eq_some_iff.1 found with first | ⟨-, second⟩
      · exact exact call first
      · exact exact' call second

/-! ## Calls -/

theorem inFrame {body : Run α} {body' : Told α} (h : Limited limit body body') (f : Closure)
    (line : Nat) :
    Limited limit (Run.inFrame (some limit) line body) (body'.inFrame none f line) := by
  intro m hm
  have events_eq : (body'.inFrame none f line).events m = ⟨.calls f line, 0, m⟩ ::
      (body'.events { m with callDepth := m.callDepth + 1 }).map Event.deeper := rfl
  by_cases full : limit ≤ m.callDepth
  · -- the call itself is one too many
    have found : overflow? limit m.callDepth ((body'.inFrame none f line).events m) =
        some ⟨line, 0, m⟩ := by
      rw [events_eq]
      exact List.find?_cons_of_pos (decide_eq_true full)
    refine ⟨?_, ?_, ?_⟩
    · rw [found]
      unfold Run.inFrame
      rw [Option.any_some, decide_eq_true full]
      rfl
    · rw [Told.inFrame_run, after_inFrame]
      rfl
    · rw [found]
      intro call same
      cases same
      exact Nat.le_antisymm hm full
  · have inner := h { m with callDepth := m.callDepth + 1 } (Nat.lt_of_not_le full)
    have passed : overflow? limit m.callDepth ((body'.inFrame none f line).events m) =
        (overflow? limit (m.callDepth + 1)
          (body'.events { m with callDepth := m.callDepth + 1 })).map Call.deeper := by
      rw [events_eq, ← overflow?_deeper]
      exact List.find?_cons_of_neg (by simpa using full)
    refine ⟨?_, ?_, ?_⟩
    · rw [passed, Told.inFrame_run]
      unfold Run.inFrame
      rw [Option.any_some, decide_eq_false full]
      dsimp only [Option.any_none]
      rw [inner.result]
      cases overflow? limit (m.callDepth + 1)
          (body'.events { m with callDepth := m.callDepth + 1 }) with
      | none => rfl
      | some call => rfl
    · rw [Told.inFrame_run, after_inFrame]
      rfl
    · rw [passed]
      intro _ outer
      obtain ⟨call, found, rfl⟩ := Option.map_eq_some_iff.1 outer
      have exact := inner.exact call found
      dsimp only [Call.deeper] at exact ⊢
      omega

end Limited

/-- Evaluation with a limit follows evaluation without one. -/
theorem limited_compositional (limit : Nat) :
    Compositional (some limit) none fun _ => Limited limit where
  pure _ := .silent fun _ => rfl
  outOfFuel := .silent fun _ => rfl
  fail _ := .silent fun _ => rfl
  openScope _ _ := .silent fun _ => rfl
  define _ _ _ := .silent fun _ => rfl
  lookup := .lookup
  assign := .assign
  newFunction := .newFunction
  native := .native
  print := .print
  first {_ _ _ act} quiet h := by
    refine h.first fun _ _ => ?_
    cases act with
    | calls => cases quiet
    | _ => rfl
  bind := .bind
  inFrame f line h := h.inFrame f line

end Run

open Run

/-! ## At the top level -/

namespace Machine

/-- No call is active between the statements of the top level. -/
theorem Reachable.callDepth {m : Machine} (reached : m.Reachable) : m.callDepth = 0 := by
  obtain ⟨clock, leads⟩ := reached
  induction leads with
  | refl => rfl
  | @tail m _ _ step ih =>
    have allowed : m.callDepth ≤ maxFrames := by
      rw [ih]
      exact Nat.zero_le _
    cases step with
    | assign => exact (Limited.assign _ _ _ m allowed).callDepth.trans ih
    | run =>
      exact ((limited_compositional _).interpretIn _ _ _ m allowed).callDepth_limited.trans ih
    | _ => exact ih

end Machine

/-- The limit on active calls is exact, and leaves nothing behind. -/
theorem frame_limit_exact {m : Machine} (reached : m.Reachable) (fuel : Nat) (scope : ScopeId)
    (s : Stmt) :
    ((∀ call ∈ (interpretEvents none fuel scope s m).filterMap Event.call?,
        call.active < maxFrames) →
      interpretIn (some maxFrames) fuel scope s m = interpretIn none fuel scope s m) ∧
    (∀ call, ((interpretEvents none fuel scope s m).filterMap Event.call?).find?
        (maxFrames ≤ ·.active) = some call →
      call.active = maxFrames ∧ ∀ fuel' ≥ fuel, interpretIn (some maxFrames) fuel' scope s m =
        .error (.failed (.stackOverflow call.line)) { call.machine with callDepth := 0 }) ∧
    (after (interpretIn (some maxFrames) fuel scope s) m).callDepth = 0 := by
  have start := reached.callDepth
  have limited := (limited_compositional maxFrames).interpretIn fuel scope s m
    (start ▸ Nat.zero_le _)
  have first : overflow? maxFrames m.callDepth
      ((Told.interpretIn none fuel scope s).events m) =
      ((interpretEvents none fuel scope s m).filterMap Event.call?).find?
        (maxFrames ≤ ·.active) := by
    unfold overflow? interpretEvents
    simp only [start, Nat.zero_add]
  have result := limited.result
  rw [Told.interpretIn_run, first] at result
  refine ⟨fun few => ?_, fun call found => ?_, limited.callDepth_limited.trans start⟩
  · have none : ((interpretEvents none fuel scope s m).filterMap Event.call?).find?
        (maxFrames ≤ ·.active) = none :=
      List.find?_eq_none.2 fun call member => by simpa using few call member
    rwa [none] at result
  · have exact := limited.exact call (first.trans found)
    rw [found] at result
    dsimp only [overflowing] at result
    rw [start] at result exact
    refine ⟨(Nat.zero_add _).symm.trans exact, fun fuel' more => ?_⟩
    rcases extends_interpretIn more scope s m with out | same
    · rw [result] at out
      exact out.elim
    · exact same.trans result

/-! ## Calls inside a call -/

namespace Nested

/-- The text `fun inner() { }`. -/
def inner : Stmt := .function (.ofName "inner") [] []

/-- A function that calls the inner one on two lines. -/
def outer : Stmt := .function (.ofName "outer") []
  [.expression (.callOf "inner" 2), .expression (.callOf "inner" 3)]

/-- A function that calls itself on its second line. -/
def runaway : Stmt := .function (.ofName "runaway") [] [.expression (.callOf "runaway" 2)]

/-- The machine on which the functions are declared. -/
def declared : Machine :=
  after (interpretIn (some maxFrames) 1 Machine.globals runaway)
    (after (interpretIn (some maxFrames) 1 Machine.globals outer)
      (after (interpretIn (some maxFrames) 1 Machine.globals inner) (.initial (.still 0))))

theorem reachable_declared : declared.Reachable :=
  (((Machine.reachable_initial _).tail (.run (Machine.globals_lt_size _))).tail
    (.run (by decide +kernel))).tail (.run (by decide +kernel))

/-- The calls that a call of the outer function makes: its own, and both of the
inner one when one call is active. -/
theorem calls_outer : ((interpretEvents none 9 Machine.globals (.expression (.callOf "outer" 4))
    declared).filterMap Event.call?).map (fun call => (call.line, call.active)) =
      [(4, 0), (2, 1), (3, 1)] := by decide +kernel

end Nested

open Nested

/-- Of three calls no more than two are active at once, so they run as they do
without a limit, and no call is active afterwards. -/
theorem nested_calls_unlimited :
    declared.Reachable ∧
    interpretIn (some maxFrames) 9 Machine.globals (.expression (.callOf "outer" 4)) declared =
      interpretIn none 9 Machine.globals (.expression (.callOf "outer" 4)) declared ∧
    (after (interpretIn (some maxFrames) 9 Machine.globals (.expression (.callOf "outer" 4)))
      declared).callDepth = 0 := by
  obtain ⟨unlimited, -, none⟩ := frame_limit_exact reachable_declared 9 Machine.globals
    (.expression (.callOf "outer" 4))
  refine ⟨reachable_declared, unlimited fun call member => ?_, none⟩
  have shown : (call.line, call.active) ∈ [(4, 0), (2, 1), (3, 1)] := by
    rw [← calls_outer]
    exact List.mem_map_of_mem member
  have small : ∀ pair ∈ [(4, 0), (2, 1), (3, 1)], pair.2 < maxFrames := by decide
  exact small _ shown

/-- With room for three calls, the fourth is one too many. -/
example : outcome (interpretIn (some 3) 20 Machine.globals (.expression (.callOf "runaway" 4)))
    declared = .error (.failed (.stackOverflow 2)) := rfl

end Scriptlet
