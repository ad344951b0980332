/-
# Regimes that evaluation keeps

A discipline says in which scopes code may run, whatever code it is.  A regime
says which code may run where, and which functions may be around.  What it says
may depend on what came about before, such as the functions that scopes were
made for: that is a world, and worlds become others by what is done and told.
Its laws are about the direct parts of a piece of code and about single changes
to the scopes, and they are all that evaluation needs to keep it
(`heeds_eval_exec`).

Since the events in the trace of a run come about in worlds that become each
other by the acts in between (`Regime.Along`), what a regime says of two of them
that are far apart can be compared.  An error that a run fails with arises from code that the
regime lets run (`Regime.Arises`).
-/
import Scriptlet.Proofs.Run.Discipline

namespace Scriptlet

/-! ## Direct parts -/

/-- The expressions that stand directly in an expression. -/
def Expr.operands : Expr → List Expr
  | .assign _ value => [value]
  | .binary left _ right | .logical left _ right => [left, right]
  | .call callee _ arguments => callee :: arguments
  | .grouping inner => [inner]
  | .unary _ operand => [operand]
  | .literal _ | .identifier _ => []

namespace Stmt

/-- The expressions that stand directly in a statement. -/
def operands : Stmt → List Expr
  | .expression value | .print value | .var _ value => [value]
  | .ifThen condition _ | .ifElse condition _ _ | .whileLoop condition _ => [condition]
  | .returns _ value => value.toList
  | .block _ | .function _ _ _ => []

/-- The statements directly in a statement that run in the same scope. -/
def branches : Stmt → List Stmt
  | .ifThen _ thenBranch => [thenBranch]
  | .ifElse _ thenBranch elseBranch => [thenBranch, elseBranch]
  | .whileLoop _ body => [body]
  | _ => []

/-- The name that a statement declares itself. -/
def declares? : Stmt → Option Token
  | .function name _ _ | .var name _ => some name
  | _ => none

end Stmt

/-! ## Regimes -/

structure Regime where
  World : Type
  /-- What a world may have become by what was done when the acts were told. -/
  becomes : World → List Act → World → Prop
  /-- The scopes are such as may be in the world. -/
  holds : World → Scopes → Prop
  /-- The function may be around. -/
  fits : World → Closure → Prop
  evals : World → ScopeId → Expr → Prop
  runs : World → ScopeId → Stmt → Prop
  /-- The scope was made for a call of the function. -/
  enters : World → Closure → ScopeId → Prop
  /-- What is told alone changes nothing. -/
  refl : ∀ w acts, becomes w acts w
  trans : ∀ {a b c acts acts'}, becomes a acts b → becomes b acts' c →
    becomes a (acts ++ acts') c
  fits_becomes : ∀ {w w' acts f}, becomes w acts w' → fits w f → fits w' f
  evals_becomes : ∀ {w w' acts id e}, becomes w acts w' → evals w id e → evals w' id e
  runs_becomes : ∀ {w w' acts id s}, becomes w acts w' → runs w id s → runs w' id s
  evals_operand : ∀ {w id e part}, evals w id e → part ∈ e.operands → evals w id part
  runs_operand : ∀ {w id s part}, runs w id s → part ∈ s.operands → evals w id part
  runs_branch : ∀ {w id s part}, runs w id s → part ∈ s.branches → runs w id part
  runs_function : ∀ {w id name params body}, runs w id (.function name params body) →
    ∀ identity, fits w ⟨identity, name, params, body, id⟩
  bound : ∀ {w scopes id name f}, holds w scopes → evals w id (.identifier name) →
    scopes.get? id name.lexeme = some (.function f) → fits w f
  opens : ∀ {w scopes id statements}, holds w scopes → runs w id (.block statements) →
    ∃ w', becomes w [] w' ∧ holds w' (scopes.push ⟨[], some id⟩) ∧
      ∀ s ∈ statements, runs w' scopes.size s
  calls : ∀ {w scopes f arguments}, holds w scopes → fits w f →
    arguments.length = f.params.length → (∀ g, .function g ∈ arguments → fits w g) →
    ∃ w', becomes w [] w' ∧
      holds w' (scopes.push ⟨.ofLists (f.params.map (·.lexeme)) arguments, some f.scope⟩) ∧
      enters w' f scopes.size ∧ ∀ s ∈ f.body, runs w' scopes.size s
  declares : ∀ {w scopes id s name value}, holds w scopes → runs w id s →
    s.declares? = some name → (∀ f, value = .function f → fits w f) →
    ∃ w', becomes w [.declares id name] w' ∧ holds w' (scopes.define id name.lexeme value)
  rebinds : ∀ {w scopes id name e home value}, holds w scopes → evals w id (.assign name e) →
    scopes.resolve id name.lexeme = some home → (∀ f, value = .function f → fits w f) →
    ∃ w', becomes w [] w' ∧ holds w' (scopes.define home name.lexeme value)

namespace Regime

variable (r : Regime)

/-- What a world may have become by whatever was done. -/
def later (w w' : r.World) : Prop := ∃ acts, r.becomes w acts w'

theorem later_trans {a b c : r.World} (h : r.later a b) (h' : r.later b c) : r.later a c :=
  ⟨_, r.trans h.choose_spec h'.choose_spec⟩

theorem fits_later {w w' : r.World} {f : Closure} (h : r.later w w') (hf : r.fits w f) :
    r.fits w' f :=
  r.fits_becomes h.choose_spec hf

theorem evals_later {w w' : r.World} {id : ScopeId} {e : Expr} (h : r.later w w')
    (allowed : r.evals w id e) : r.evals w' id e :=
  r.evals_becomes h.choose_spec allowed

theorem runs_later {w w' : r.World} {id : ScopeId} {s : Stmt} (h : r.later w w')
    (allowed : r.runs w id s) : r.runs w' id s :=
  r.runs_becomes h.choose_spec allowed

/-- If the value is a function, it may be around. -/
def FitsValue (w : r.World) (value : Value) : Prop := ∀ f, value = .function f → r.fits w f

/-- What the flow carries may be around. -/
def FitsFlow (w : r.World) (flow : Flow) : Prop :=
  ∀ value, flow = .returned value → r.FitsValue w value

/-- What the regime says of an act, and of the scopes that there are then. -/
def Allows (w : r.World) (scopes : Scopes) : Act → Prop
  | .creates f => r.fits w f
  | .passes f arguments => arguments.length = f.params.length
  | .enters f scope => r.enters w f scope ∧ ∃ arguments, arguments.length = f.params.length ∧
      scopes[scope]? = some ⟨.ofLists (f.params.map (·.lexeme)) arguments, some f.scope⟩
  | _ => True

/-- Where an error can come from. -/
inductive Arises : RuntimeError → Prop
  | undefinedVariable {name : String} {line : Nat} : Arises (.undefinedVariable name line)
  | arityMismatch {expected found line : Nat} : Arises (.arityMismatch expected found line)
  | notCallable {line : Nat} : Arises (.notCallable line)
  | stackOverflow {line : Nat} : Arises (.stackOverflow line)
  | output {reason : String} : Arises (.output reason)
  | binary {w : r.World} {id : ScopeId} {left right : Expr} {operator : Token} {a b : Value}
      {e : RuntimeError} : r.evals w id (.binary left operator right) →
      a.binary operator b = .error e → Arises e
  | logical {w : r.World} {id : ScopeId} {left right : Expr} {operator : Token} {a : Value}
      {e : RuntimeError} : r.evals w id (.logical left operator right) →
      a.decides operator = .error e → Arises e
  | unary {w : r.World} {id : ScopeId} {operand : Expr} {operator : Token} {a : Value}
      {e : RuntimeError} : r.evals w id (.unary operator operand) →
      a.unary operator = .error e → Arises e
  | native {f : Native} {arguments : List Value} {clock clock' : Clock} {fault : NativeFault}
      {line : Nat} : arguments.length = f.arity →
      f.apply arguments clock = .error fault clock' → Arises (.native f.name fault line)

/-! ## Worlds along a trace -/

/-- The events come about one after the other, in worlds that become each other
by the acts of the events between them. -/
inductive Along : r.World → List Event → r.World → Prop
  | stop {w w' : r.World} : r.becomes w [] w' → Along w [] w'
  | event {w w₁ w₂ w' : r.World} {e : Event} {events : List Event} :
      r.becomes w [] w₁ → r.holds w₁ e.machine.scopes → r.Allows w₁ e.machine.scopes e.act →
      r.becomes w₁ [e.act] w₂ → Along w₂ events w' → Along w (e :: events) w'

variable {r} {w w' w'' : r.World} {events rest : List Event}

namespace Along

theorem becomes (h : r.Along w events w') : r.becomes w (events.map (·.act)) w' := by
  induction h with
  | stop before => exact before
  | event before _ _ told _ ih => exact r.trans before (r.trans told ih)

theorem later (h : r.Along w events w') : r.later w w' := ⟨_, h.becomes⟩

theorem after (before : r.becomes w [] w') (h : r.Along w' events w'') : r.Along w events w'' := by
  cases h with
  | stop last => exact .stop (r.trans before last)
  | event first holds allowed told rest =>
    exact .event (r.trans before first) holds allowed told rest

theorem append (h : r.Along w events w') (h' : r.Along w' rest w'') :
    r.Along w (events ++ rest) w'' := by
  induction h with
  | stop last => exact h'.after last
  | event before holds allowed told _ ih => exact .event before holds allowed told (ih h')

theorem split (h : r.Along w (events ++ rest) w'') :
    ∃ w', r.Along w events w' ∧ r.Along w' rest w'' := by
  induction events generalizing w with
  | nil => exact ⟨w, .stop (r.refl w []), h⟩
  | cons e events ih =>
    cases h with
    | event before holds allowed told tail =>
      obtain ⟨w', along, along'⟩ := ih tail
      exact ⟨w', .event before holds allowed told along, along'⟩

theorem deeper (h : r.Along w events w') : r.Along w (events.map Event.deeper) w' := by
  induction h with
  | stop last => exact .stop last
  | event before holds allowed told _ ih => exact .event before holds allowed told ih

/-- The world at an event in the middle. -/
theorem at_event {e : Event} (h : r.Along w (events ++ e :: rest) w'') :
    ∃ w₁, r.becomes w (events.map (·.act)) w₁ ∧ r.holds w₁ e.machine.scopes ∧
      r.Allows w₁ e.machine.scopes e.act ∧
      ∃ w₂, r.becomes w₁ [e.act] w₂ ∧ r.Along w₂ rest w'' := by
  obtain ⟨w', along, along'⟩ := h.split
  cases along' with
  | event before holds allowed told tail =>
    have all := r.trans along.becomes before
    rw [List.append_nil] at all
    exact ⟨_, all, holds, allowed, _, told, tail⟩

theorem allows (h : r.Along w events w') {e : Event} (member : e ∈ events) :
    ∃ w₁, r.Allows w₁ e.machine.scopes e.act := by
  obtain ⟨before, rest, rfl⟩ := List.append_of_mem member
  obtain ⟨w₁, -, -, allowed, -⟩ := h.at_event
  exact ⟨w₁, allowed⟩

end Along

namespace FitsValue

theorem later {value : Value} (h : r.FitsValue w value) (later : r.later w w') :
    r.FitsValue w' value :=
  fun f same => r.fits_later later (h f same)

/-- What leads nowhere in particular is no function. -/
theorem of_within {value : Value} (h : ∀ R, value.Within R) : r.FitsValue w value := by
  rintro f rfl
  have nowhere : Value.ClosesOver (fun _ => False) (.function f) := Value.closesOver_of_within h
  exact nowhere.elim

theorem nil : r.FitsValue w .nil := by
  intro f same
  cases same

end FitsValue

namespace FitsFlow

theorem normal : r.FitsFlow w .normal := by
  intro value same
  cases same

theorem returned {value : Value} (h : r.FitsValue w value) : r.FitsFlow w (.returned value) := by
  intro value' same
  cases same
  exact h

end FitsFlow

end Regime

/-! ## Runs -/

namespace Run

variable {r : Regime} {w : r.World} {α β : Type} {P : r.World → α → Prop}
  {Q : r.World → β → Prop} {m : Machine}

/-- From `m` and in the world `w`, the run keeps the regime, at every event that
it tells of as well, its value satisfies `P`, and its error arises from code that
may run. -/
structure HeedsAt (r : Regime) (w : r.World) (P : r.World → α → Prop) (told : Told α)
    (m : Machine) : Prop where
  world : ∃ w', r.Along w (told.events m) w' ∧ r.holds w' (after told.run m).scopes ∧
    ∀ a, outcome told.run m = .ok a → P w' a
  errors : ∀ e, outcome told.run m = .error (.failed e) → r.Arises e

namespace HeedsAt

/-! ## Runs that change nothing -/

/-- A run that leaves the scopes as they are, and that tells nothing. -/
theorem silent {run : Run α} (hm : r.holds w m.scopes) (same : (after run m).scopes = m.scopes)
    (value : ∀ a, outcome run m = .ok a → P w a)
    (errors : ∀ e, outcome run m = .error (.failed e) → r.Arises e) :
    HeedsAt r w P (.silent run) m :=
  ⟨⟨w, .stop (r.refl w []), same.symm ▸ hm, value⟩, errors⟩

theorem pure {a : α} (hm : r.holds w m.scopes) (ha : P w a) :
    HeedsAt r w P (Pure.pure a) m :=
  silent hm rfl (fun _ same => Except.ok.inj same ▸ ha) nofun

theorem outOfFuel (hm : r.holds w m.scopes) : HeedsAt r w P (.silent Run.outOfFuel) m :=
  silent hm rfl nofun nofun

theorem fail (hm : r.holds w m.scopes) {e : RuntimeError} (he : r.Arises e) :
    HeedsAt r w P (.silent (Run.fail e)) m := by
  refine silent hm rfl nofun fun e' same => ?_
  cases same
  exact he

theorem ofExcept (hm : r.holds w m.scopes) {result : Except RuntimeError α}
    (value : ∀ a, result = .ok a → P w a) (errors : ∀ e, result = .error e → r.Arises e) :
    HeedsAt r w P (.silent (Run.ofExcept result)) m := by
  cases result with
  | ok a => exact pure hm (value a rfl)
  | error e => exact fail hm (errors e rfl)

theorem checkArity (hm : r.holds w m.scopes) (expected found line : Nat) :
    HeedsAt r w (fun _ _ => found = expected) (.silent (Run.checkArity expected found line)) m := by
  unfold Run.checkArity
  split
  case isTrue same => exact pure hm same.symm
  case isFalse => exact fail hm .arityMismatch

/-- A native function that is passed as many arguments as it takes. -/
theorem native (hm : r.holds w m.scopes) {f : Native} {arguments : List Value}
    (arity : arguments.length = f.arity) (line : Nat) :
    HeedsAt r w r.FitsValue (.silent (Run.native f arguments line)) m := by
  obtain ⟨clock, left⟩ := after_native f arguments line m
  refine silent hm (by rw [left]) ?_ ?_
  · rw [outcome_native]
    intro value given
    split at given
    case h_1 applied =>
      cases given
      exact .of_within fun R => Native.within_of_apply applied
    case h_2 => cases given
  · rw [outcome_native]
    intro e failed
    split at failed
    case h_1 => cases failed
    case h_2 applied =>
      cases failed
      exact .native arity applied

/-! ## Runs that tell -/

theorem first {told : Told α} {act : Act} (hm : r.holds w m.scopes)
    (ha : r.Allows w m.scopes act) (h : HeedsAt r w P told m) :
    HeedsAt r w P (told.first act) m := by
  obtain ⟨⟨w', along, rest⟩, errors⟩ := h
  exact ⟨⟨w', .event (r.refl w []) hm ha (r.refl w _) along, rest⟩, errors⟩

theorem print (hm : r.holds w m.scopes) (id : ScopeId) (text : String) :
    HeedsAt r w (fun _ _ => True) (.print id text) m := by
  refine first hm trivial (silent hm (by rw [after_print]) (fun _ _ => trivial) fun e failed => ?_)
  rw [outcome_print] at failed
  split at failed
  · cases failed
  · cases failed
    exact .output

theorem lookup (hm : r.holds w m.scopes) {id : ScopeId} {name : Token}
    (allowed : r.evals w id (.identifier name)) :
    HeedsAt r w r.FitsValue (.lookup id name) m := by
  refine first hm trivial (silent hm ?_ ?_ ?_)
  · rw [after_lookup]
  · rw [outcome_lookup]
    cases got : m.scopes.get? id name.lexeme with
    | none =>
      intro value found
      cases found
    | some value =>
      rintro _ same f rfl
      cases same
      exact r.bound hm allowed got
  · rw [outcome_lookup]
    cases m.scopes.get? id name.lexeme with
    | none =>
      intro e same
      cases same
      exact .undefinedVariable
    | some value => nofun

theorem assign (hm : r.holds w m.scopes) {id : ScopeId} {name : Token} {e : Expr}
    (allowed : r.evals w id (.assign name e)) {value : Value} (hv : r.FitsValue w value) :
    HeedsAt r w (fun _ _ => True) (.assign id name value) m := by
  refine first hm trivial ?_
  have left := after_assign id name value m
  have ended := outcome_assign id name value m
  cases found : m.scopes.resolve id name.lexeme with
  | none =>
    rw [found] at left ended
    refine silent hm (congrArg _ left) (fun _ _ => trivial) ?_
    rw [ended]
    intro e same
    cases same
    exact .undefinedVariable
  | some home =>
    rw [found] at left ended
    obtain ⟨w', later, holds⟩ := r.rebinds hm allowed found hv
    refine ⟨⟨w', .stop later, ?_, fun _ _ => trivial⟩, ?_⟩
    · show r.holds w' (after (Run.assign id name value) m).scopes
      rw [left]
      exact holds
    · show ∀ e, outcome (Run.assign id name value) m = .error (.failed e) → r.Arises e
      rw [ended]
      nofun

/-- A declaration by a statement that may run. -/
theorem declare (hm : r.holds w m.scopes) {id : ScopeId} {s : Stmt} (hs : r.runs w id s)
    {name : Token} (own : s.declares? = some name) {value : Value} (hv : r.FitsValue w value) :
    HeedsAt r w (fun _ _ => True) (.define id name value) m := by
  obtain ⟨w', told, holds⟩ := r.declares hm hs own hv
  exact ⟨⟨w', .event (r.refl w []) hm trivial told (.stop (r.refl w' [])), holds,
    fun _ _ => trivial⟩, nofun⟩

theorem newFunction (hm : r.holds w m.scopes) {scope : ScopeId} {name : Token}
    {params : List Token} {body : List Stmt} (hs : r.runs w scope (.function name params body)) :
    HeedsAt r w r.FitsValue (.newFunction name params body scope) m := by
  have made : r.fits w ⟨m.functions, name, params, body, scope⟩ := r.runs_function hs _
  refine ⟨⟨w, .event (r.refl w []) hm made (r.refl w _) (.stop (r.refl w [])), hm, ?_⟩, nofun⟩
  rintro _ same f rfl
  cases same
  exact made

/-! ## Runs one after another -/

theorem bind {told : Told α} {k : α → Told β} (h : HeedsAt r w P told m)
    (hk : ∀ w' a, r.later w w' → r.holds w' (after told.run m).scopes → P w' a →
      HeedsAt r w' Q (k a) (after told.run m)) :
    HeedsAt r w Q (told >>= k) m := by
  obtain ⟨⟨w', along, holds, value⟩, errors⟩ := h
  rcases Trace.next_cases told.events told.run (fun a => (k a).events) (fun a => (k a).run) m with
    ⟨e, ended, stops, same, events⟩ | ⟨a, gives, goesOn, left, events⟩
  · constructor
    · rw [Told.bind_run, Told.bind_events, same, events, stops]
      exact ⟨w', along, holds, nofun⟩
    · rw [Told.bind_run, stops]
      intro error failed
      cases failed
      exact errors error ended
  · obtain ⟨⟨w'', along', holds', value'⟩, errors'⟩ := hk w' a along.later holds (value a gives)
    constructor
    · rw [Told.bind_run, Told.bind_events, events, left, goesOn]
      exact ⟨w'', along.append along', holds', value'⟩
    · rw [Told.bind_run, goesOn]
      exact errors'

theorem each {id : ScopeId} {f : Expr → Told Value}
    (h : ∀ e w m, r.holds w m.scopes → r.evals w id e → HeedsAt r w r.FitsValue (f e) m)
    (es : List Expr) :
    ∀ w m, r.holds w m.scopes → (∀ e ∈ es, r.evals w id e) →
      HeedsAt r w (fun w values => values.length = es.length ∧ ∀ v ∈ values, r.FitsValue w v)
        (.each f es) m := by
  induction es with
  | nil => exact fun w m hm _ => pure hm ⟨rfl, List.forall_mem_nil _⟩
  | cons e es ih =>
    intro w m hm allowed
    obtain ⟨he, hes⟩ := List.forall_mem_cons.1 allowed
    refine (h e w m hm he).bind fun w' v later holds hv => ?_
    have others := ih w' _ holds fun e member => r.evals_later later (hes e member)
    refine others.bind fun w'' vs later' holds' hvs => pure holds' ⟨congrArg (· + 1) hvs.1, ?_⟩
    exact List.forall_mem_cons.2 ⟨hv.later later', hvs.2⟩

theorem sequence (id : ScopeId) {f : Stmt → Told Flow}
    (h : ∀ s w m, r.holds w m.scopes → r.runs w id s → HeedsAt r w r.FitsFlow (f s) m)
    (statements : List Stmt) :
    ∀ w m, r.holds w m.scopes → (∀ s ∈ statements, r.runs w id s) →
      HeedsAt r w r.FitsFlow (.sequence f statements) m := by
  induction statements with
  | nil => exact fun w m hm _ => pure hm .normal
  | cons s statements ih =>
    intro w m hm allowed
    obtain ⟨hs, hrest⟩ := List.forall_mem_cons.1 allowed
    refine (h s w m hm hs).bind fun w' flow later holds hflow => ?_
    cases flow with
    | normal => exact ih w' _ holds fun s member => r.runs_later later (hrest s member)
    | returned value => exact pure holds hflow

/-- What a statement returns may be around, and without it `nil` may. -/
theorem flowValue {told : Told Flow} (h : HeedsAt r w r.FitsFlow told m) :
    HeedsAt r w r.FitsValue (do Pure.pure (← told).value) m := by
  refine h.bind fun w' flow _ holds hflow => pure holds ?_
  cases flow with
  | normal => exact .nil
  | returned value => exact hflow value rfl

theorem loop {c : Told Value} {b : Told Flow}
    (hc : ∀ w' m, r.later w w' → r.holds w' m.scopes → HeedsAt r w' r.FitsValue c m)
    (hb : ∀ w' m, r.later w w' → r.holds w' m.scopes → HeedsAt r w' r.FitsFlow b m)
    (rounds : Nat) :
    ∀ w' m, r.later w w' → r.holds w' m.scopes →
      HeedsAt r w' r.FitsFlow (.loop c b rounds) m := by
  induction rounds with
  | zero => exact fun w' m _ hm => outOfFuel hm
  | succ rounds ih =>
    intro w₁ m since hm
    refine (hc w₁ m since hm).bind fun w₂ value later holds _ => ?_
    have since' := r.later_trans since later
    split
    · refine (hb w₂ _ since' holds).bind fun w₃ flow later' holds' hflow => ?_
      cases flow with
      | normal => exact ih w₃ _ (r.later_trans since' later') holds'
      | returned value => exact pure holds' hflow
    · exact pure holds .normal

/-! ## Blocks and calls -/

/-- Code that runs in a new scope, in the world that there is with it. -/
theorem enclosed {w' : r.World} (later : r.becomes w [] w') {outer : ScopeId} {bindings : Bindings}
    {code : ScopeId → Told α}
    (h : HeedsAt r w' P (code m.scopes.size) (m.addScope ⟨bindings, some outer⟩).2) :
    HeedsAt r w P (Told.openScope outer bindings >>= code) m := by
  obtain ⟨⟨w'', along, rest⟩, errors⟩ := h
  exact ⟨⟨w'', along.after later, rest⟩, errors⟩

theorem inFrame {told : Told α} (hm : r.holds w m.scopes) (frames : Option Nat) (f : Closure)
    (line : Nat) (h : HeedsAt r w P told { m with callDepth := m.callDepth + 1 }) :
    HeedsAt r w P (told.inFrame frames f line) m := by
  obtain ⟨⟨w', along, holds, value⟩, errors⟩ := h
  have calls : r.Allows w m.scopes (.calls f line) := trivial
  by_cases full : frames.any (· ≤ m.callDepth)
  · refine ⟨⟨w, ?_, ?_, ?_⟩, ?_⟩
    · rw [Told.inFrame_events, if_pos full]
      exact .event (r.refl w []) hm calls (r.refl w _) (.stop (r.refl w []))
    · rwa [Told.inFrame_run, after_inFrame, if_pos full]
    · rw [Told.inFrame_run, outcome_inFrame, if_pos full]
      nofun
    · rw [Told.inFrame_run, outcome_inFrame, if_pos full]
      intro e same
      cases same
      exact .stackOverflow
  · refine ⟨⟨w', ?_, ?_, ?_⟩, ?_⟩
    · rw [Told.inFrame_events, if_neg full]
      exact .event (r.refl w []) hm calls (r.refl w _) along.deeper
    · rwa [Told.inFrame_run, after_inFrame, if_neg full]
    · rwa [Told.inFrame_run, outcome_inFrame, if_neg full]
    · rwa [Told.inFrame_run, outcome_inFrame, if_neg full]

section

variable {f : Stmt → ScopeId → Told Flow}

theorem block (h : ∀ s id w m, r.holds w m.scopes → r.runs w id s →
      HeedsAt r w r.FitsFlow (f s id) m)
    (hm : r.holds w m.scopes) {id : ScopeId} {statements : List Stmt}
    (hs : r.runs w id (.block statements)) :
    HeedsAt r w r.FitsFlow
      (do
        let inner ← Told.openScope id []
        Told.sequence (fun statement => f statement inner) statements) m := by
  obtain ⟨w', later, holds, allowed⟩ := r.opens hm hs
  refine enclosed later (sequence m.scopes.size ?_ statements w' _ holds allowed)
  exact fun s w m hm hs => h s _ w m hm hs

/-- A call, if the statements of function bodies keep the regime. -/
theorem call (h : ∀ s id w m, r.holds w m.scopes → r.runs w id s →
      HeedsAt r w r.FitsFlow (f s id) m)
    (frames : Option Nat) (hm : r.holds w m.scopes) {callee : Value}
    (hcallee : r.FitsValue w callee) {arguments : List Value}
    (harguments : ∀ v ∈ arguments, r.FitsValue w v) (line : Nat) :
    HeedsAt r w r.FitsValue (.call frames f callee arguments line) m := by
  cases callee with
  | function g =>
    refine (checkArity hm g.arity arguments.length line).bind fun w₁ _ later holds arity => ?_
    refine first holds arity (inFrame holds frames g line ?_)
    have given : ∀ f, Value.function f ∈ arguments → r.fits w₁ f := fun f member =>
      (harguments _ member).later later f rfl
    obtain ⟨w₂, later', holds', entered, allowed⟩ :=
      r.calls holds (hcallee.later later g rfl) arity given
    refine enclosed later' (first holds' ⟨entered, arguments, arity, ?_⟩ ?_)
    · exact Array.getElem?_push_size
    · refine flowValue (sequence _ ?_ g.body w₂ _ holds' allowed)
      exact fun s w m hm hs => h s _ w m hm hs
  | native g =>
    refine (checkArity hm g.arity arguments.length line).bind fun w₁ _ _ holds arity => ?_
    exact native holds arity line
  | _ => exact fail hm .notCallable

end

end HeedsAt

end Run

/-! ## Evaluation -/

open Run

/-- Evaluation and execution keep every regime that lets the code run, at once
because each calls the other. -/
theorem heeds_eval_exec (r : Regime) (frames : Option Nat) : ∀ fuel,
    (∀ e id w m, r.holds w m.scopes → r.evals w id e →
      HeedsAt r w r.FitsValue (Told.eval frames fuel e id) m) ∧
      ∀ s id w m, r.holds w m.scopes → r.runs w id s →
        HeedsAt r w r.FitsFlow (Told.exec frames fuel s id) m := by
  intro fuel
  induction fuel with
  | zero => exact ⟨fun _ _ _ _ hm _ => .outOfFuel hm, fun _ _ _ _ hm _ => .outOfFuel hm⟩
  | succ fuel ih =>
    obtain ⟨he, hs⟩ := ih
    constructor
    · intro e id w m hm allowed
      have part : ∀ part ∈ e.operands, r.evals w id part :=
        fun _ => r.evals_operand allowed
      cases e with
      | assign name value =>
        have first := he value id w m hm (part value List.mem_cons_self)
        refine first.bind fun w' v later holds hv => ?_
        have assigned := HeedsAt.assign holds (r.evals_later later allowed) hv
        exact assigned.bind fun _ _ later holds _ => .pure holds (hv.later later)
      | binary left operator right =>
        have first := he left id w m hm (part left List.mem_cons_self)
        refine first.bind fun w' a later holds _ => ?_
        have right' := r.evals_later later
          (part right (List.mem_cons_of_mem _ List.mem_cons_self))
        refine (he right id w' _ holds right').bind fun _ b _ holds _ => ?_
        exact .ofExcept holds
          (fun _ computed => .of_within fun R => Value.within_of_binary computed)
          fun _ failed => .binary allowed failed
      | call callee paren arguments =>
        obtain ⟨hcallee, harguments⟩ := List.forall_mem_cons.1 part
        refine (he callee id w m hm hcallee).bind fun w' g later holds hg => ?_
        have others := HeedsAt.each (fun e w m hm => he e id w m hm) arguments w' _ holds
          fun e member => r.evals_later later (harguments e member)
        refine others.bind fun w'' vs later' holds' hvs => ?_
        exact .call hs frames holds' (hg.later later') hvs.2 paren.line
      | grouping inner => exact he inner id w m hm (part inner List.mem_cons_self)
      | literal value =>
        exact .pure hm (.of_within fun R => Value.within_ofLiteral R value)
      | logical left operator right =>
        have first := he left id w m hm (part left List.mem_cons_self)
        refine first.bind fun w' a later holds ha => ?_
        have decided : HeedsAt r w' (fun _ _ => True)
            (.silent (Run.ofExcept (a.decides operator))) _ :=
          .ofExcept holds (fun _ _ => trivial) fun _ failed => .logical allowed failed
        refine decided.bind fun w'' decided later' holds' _ => ?_
        split
        · exact .pure holds' (ha.later later')
        · have right' := r.evals_later (r.later_trans later later')
            (part right (List.mem_cons_of_mem _ List.mem_cons_self))
          exact he right id w'' _ holds' right'
      | unary operator operand =>
        have first := he operand id w m hm (part operand List.mem_cons_self)
        refine first.bind fun w' a _ holds _ => ?_
        exact .ofExcept holds
          (fun _ computed => .of_within fun R => Value.within_of_unary computed)
          fun _ failed => .unary allowed failed
      | identifier name => exact .lookup hm allowed
    · intro s id w m hm allowed
      have part : ∀ part ∈ s.operands, r.evals w id part := fun _ => r.runs_operand allowed
      have branch : ∀ part ∈ s.branches, r.runs w id part := fun _ => r.runs_branch allowed
      cases s with
      | block statements => exact .block hs hm allowed
      | expression value =>
        have first := he value id w m hm (part value List.mem_cons_self)
        exact first.bind fun _ _ _ holds _ => .pure holds .normal
      | function name params body =>
        refine (HeedsAt.newFunction hm allowed).bind fun w' f later holds hf => ?_
        have declared := HeedsAt.declare holds (r.runs_later later allowed) rfl hf
        exact declared.bind fun _ _ _ holds _ => .pure holds .normal
      | ifThen condition thenBranch =>
        have first := he condition id w m hm (part condition List.mem_cons_self)
        refine first.bind fun w' v later holds _ => ?_
        split
        · exact hs thenBranch id w' _ holds
            (r.runs_later later (branch thenBranch List.mem_cons_self))
        · exact .pure holds .normal
      | ifElse condition thenBranch elseBranch =>
        have first := he condition id w m hm (part condition List.mem_cons_self)
        refine first.bind fun w' v later holds _ => ?_
        split
        · exact hs thenBranch id w' _ holds
            (r.runs_later later (branch thenBranch List.mem_cons_self))
        · exact hs elseBranch id w' _ holds
            (r.runs_later later (branch elseBranch (List.mem_cons_of_mem _ List.mem_cons_self)))
      | print value =>
        have first := he value id w m hm (part value List.mem_cons_self)
        refine first.bind fun w' v _ holds _ => ?_
        exact (HeedsAt.print holds id v.text).bind fun _ _ _ holds _ => .pure holds .normal
      | returns keyword value =>
        cases value with
        | none => exact .pure hm (.returned .nil)
        | some value =>
          have first := he value id w m hm (part value List.mem_cons_self)
          exact first.bind fun _ _ _ holds hv => .pure holds (.returned hv)
      | var name initial =>
        have first := he initial id w m hm (part initial List.mem_cons_self)
        refine first.bind fun w' v later holds hv => ?_
        have declared := HeedsAt.declare holds (r.runs_later later allowed) rfl hv
        exact declared.bind fun _ _ _ holds _ => .pure holds .normal
      | whileLoop condition body =>
        refine .loop (fun w' m later holds => ?_) (fun w' m later holds => ?_) fuel w m
          ⟨[], r.refl w []⟩ hm
        · exact he condition id w' m holds
            (r.evals_later later (part condition List.mem_cons_self))
        · exact hs body id w' m holds (r.runs_later later (branch body List.mem_cons_self))

theorem heeds_interpretIn (r : Regime) (frames : Option Nat) (fuel : Nat) {w : r.World}
    {m : Machine} (hm : r.holds w m.scopes) {id : ScopeId} {s : Stmt} (hs : r.runs w id s) :
    HeedsAt r w r.FitsValue (Told.interpretIn frames fuel id s) m := by
  obtain ⟨he, hx⟩ := heeds_eval_exec r frames fuel
  cases s with
  | expression value => exact he value id w m hm (r.runs_operand hs List.mem_cons_self)
  | _ =>
    refine HeedsAt.flowValue ?_
    exact hx _ id w m hm hs

theorem heeds_interpretAll (r : Regime) (frames : Option Nat) (fuel : Nat) (program : Program) :
    ∀ w m, r.holds w m.scopes → (∀ s ∈ program, r.runs w Machine.globals s) →
      HeedsAt r w (fun _ _ => True) (Told.interpretAll frames fuel program) m := by
  induction program with
  | nil => exact fun w m hm _ => .pure hm trivial
  | cons s rest ih =>
    intro w m hm allowed
    obtain ⟨hs, hrest⟩ := List.forall_mem_cons.1 allowed
    refine (heeds_interpretIn r frames fuel hm hs).bind fun w' _ later holds _ => ?_
    exact ih w' _ holds fun s member => r.runs_later later (hrest s member)

theorem along_history (r : Regime) (frames : Option Nat) (fuel : Nat) (programs : List Program) :
    ∀ w m, r.holds w m.scopes → (∀ p ∈ programs, ∀ s ∈ p, r.runs w Machine.globals s) →
      ∃ w', r.Along w (history frames fuel programs m) w' := by
  induction programs with
  | nil => exact fun w m _ _ => ⟨w, .stop (r.refl w [])⟩
  | cons program rest ih =>
    intro w m hm allowed
    obtain ⟨hp, hrest⟩ := List.forall_mem_cons.1 allowed
    obtain ⟨w', along, holds, -⟩ := (heeds_interpretAll r frames fuel program w m hm hp).world
    rw [Told.interpretAll_run] at holds
    obtain ⟨w'', along'⟩ := ih w' _ holds fun p member s inside =>
      r.runs_later along.later (hrest p member s inside)
    exact ⟨w'', along.append along'⟩

/-! ## Kinds of code -/

/-- A kind of code is a property of expressions and statements that goes over to
their parts, the bodies of functions included. -/
structure CodeKind where
  expr : Expr → Prop
  stmt : Stmt → Prop
  expr_operand : ∀ {e part}, expr e → part ∈ e.operands → expr part
  stmt_operand : ∀ {s part}, stmt s → part ∈ s.operands → expr part
  branch : ∀ {s part}, stmt s → part ∈ s.branches → stmt part
  block : ∀ {statements}, stmt (.block statements) → ∀ s ∈ statements, stmt s
  function : ∀ {name params body}, stmt (.function name params body) → ∀ s ∈ body, stmt s

namespace CodeKind

/-- Of the scopes in `S`, which lead nowhere else and which all scopes still to
be made belong to, each binds only functions that close over one of them and
have a body of the kind. -/
structure Stored (k : CodeKind) (S : ScopeId → Prop) (scopes : Scopes) : Prop where
  fresh : ∀ id, scopes.size ≤ id → S id
  outer : ∀ {id outer}, S id → scopes.outer? id = some outer → S outer
  bound : ∀ {id name f}, S id → scopes.local? id name = some (.function f) →
    S f.scope ∧ ∀ s ∈ f.body, k.stmt s

namespace Stored

variable {k : CodeKind} {S : ScopeId → Prop} {scopes : Scopes}

theorem define (h : k.Stored S scopes) (id : ScopeId) (name : String) {value : Value}
    (hv : ∀ f, value = .function f → S f.scope ∧ ∀ s ∈ f.body, k.stmt s) :
    k.Stored S (scopes.define id name value) where
  fresh other there := h.fresh other (Scopes.size_define scopes id name value ▸ there)
  outer inside link := h.outer inside ((Scopes.outer?_define ..).symm.trans link)
  bound := by
    intro other key f inside bound
    rcases Scopes.eq_or_local?_of_local?_define bound with same | before
    · exact hv f same.symm
    · exact h.bound inside before

theorem push (h : k.Stored S scopes) {bindings : Bindings} {outer : ScopeId} (ho : S outer)
    (hb : ∀ name f, bindings.get? name = some (.function f) →
      S f.scope ∧ ∀ s ∈ f.body, k.stmt s) :
    k.Stored S (scopes.push ⟨bindings, some outer⟩) where
  fresh := by
    intro id there
    rw [Array.size_push] at there
    exact h.fresh id (Nat.le_of_succ_le there)
  outer := by
    intro id further inside link
    rw [Scopes.outer?_push] at link
    split at link
    · cases link
      exact ho
    · exact h.outer inside link
  bound := by
    intro id name f inside bound
    rw [Scopes.local?_push] at bound
    split at bound
    · exact hb name f bound
    · exact h.bound inside bound

end Stored

/-- To run code of one kind only, in the given scopes, which needs no worlds. -/
def regime (k : CodeKind) (S : ScopeId → Prop) : Regime where
  World := Unit
  becomes _ _ _ := True
  holds _ := k.Stored S
  fits _ f := S f.scope ∧ ∀ s ∈ f.body, k.stmt s
  evals _ id e := S id ∧ k.expr e
  runs _ id s := S id ∧ k.stmt s
  enters _ _ _ := True
  refl _ _ := trivial
  trans _ _ := trivial
  fits_becomes _ h := h
  evals_becomes _ h := h
  runs_becomes _ h := h
  evals_operand h member := ⟨h.1, k.expr_operand h.2 member⟩
  runs_operand h member := ⟨h.1, k.stmt_operand h.2 member⟩
  runs_branch h member := ⟨h.1, k.branch h.2 member⟩
  runs_function h _ := ⟨h.1, k.function h.2⟩
  bound h allowed got := by
    obtain ⟨home, found, here⟩ := Option.bind_eq_some_iff.1 got
    exact h.bound ((Scopes.nearest_of_resolve found).1.closed h.outer allowed.1) here
  opens h hs := by
    refine ⟨(), trivial, h.push hs.1 fun _ _ bound => absurd bound Bindings.get?_nil_ne, ?_⟩
    exact fun s member => ⟨h.fresh _ (Nat.le_refl _), k.block hs.2 s member⟩
  calls h hf _ harguments := by
    refine ⟨(), trivial, h.push hf.1 fun _ g bound => ?_, trivial, fun s member => ?_⟩
    · exact harguments g (Bindings.mem_of_get?_ofLists bound)
    · exact ⟨h.fresh _ (Nat.le_refl _), hf.2 s member⟩
  declares h _ _ hv := ⟨(), trivial, h.define _ _ hv⟩
  rebinds h _ _ hv := ⟨(), trivial, h.define _ _ hv⟩

end CodeKind

end Scriptlet
