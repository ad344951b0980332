/-
# Disciplines that evaluation keeps

A discipline is a property of the scopes that evaluation can rely on throughout:
it holds at every moment, it says in which scopes code may run, and it says what
scopes may have become when code has run.  Its laws are about single changes to
the scopes, and they are all that evaluation needs to keep it
(`obeys_eval_exec`), whatever the code is and however the run ends.

A statement may declare names in its own scope and an expression in none, so
what may become of scopes depends on whether there is such a scope, `own`.  The
scopes that blocks and calls make are gone from sight when they end: what was
declared in them counts for nothing outside (`leave`).
-/
import Scriptlet.Proofs.Run.Compositional
import Scriptlet.Proofs.Run.Reachable
import Scriptlet.Proofs.Scopes.Changes
import Scriptlet.Proofs.Scopes.Within

namespace Scriptlet

structure Discipline where
  /-- Holds of the scopes at every moment. -/
  holds : Scopes → Prop
  /-- Code may run in the scope, and functions may close over it. -/
  allows : Scopes → ScopeId → Prop
  /-- What scopes may become when code runs that may declare names in `own`. -/
  later : (own : Option ScopeId) → Scopes → Scopes → Prop
  refl : ∀ own scopes, later own scopes scopes
  trans : ∀ {own a b c}, later own a b → later own b c → later own a c
  widen : ∀ {own a b}, later none a b → later own a b
  allows_later : ∀ {own a b id}, later own a b → allows a id → allows b id
  bound : ∀ {scopes id name value}, holds scopes → scopes.local? id name = some value →
    value.ClosesOver (allows scopes)
  opens : ∀ {scopes outer bindings}, holds scopes → allows scopes outer →
    (∀ name value, Bindings.get? name bindings = some value → value.ClosesOver (allows scopes)) →
    holds (scopes.push ⟨bindings, some outer⟩) ∧
      allows (scopes.push ⟨bindings, some outer⟩) scopes.size
  leave : ∀ {scopes scope scopes'}, later (some scopes.size) (scopes.push scope) scopes' →
    later none scopes scopes'
  declares : ∀ {scopes id name value}, holds scopes → allows scopes id →
    value.ClosesOver (allows scopes) →
    holds (scopes.define id name value) ∧ later (some id) scopes (scopes.define id name value)
  rebinds : ∀ {scopes id name value}, holds scopes → (scopes.local? id name).isSome →
    value.ClosesOver (allows scopes) →
    holds (scopes.define id name value) ∧ later none scopes (scopes.define id name value)

/-- If the flow carries a function, it closes over a scope of the given kind. -/
def Flow.ClosesOver (p : ScopeId → Prop) : Flow → Prop
  | .normal => True
  | .returned value => value.ClosesOver p

namespace Value

variable {p q : ScopeId → Prop} {left right v : Value}

theorem ClosesOver.mono (h : v.ClosesOver p) (hpq : ∀ id, p id → q id) : v.ClosesOver q := by
  cases v with
  | function f => exact hpq f.scope h
  | _ => trivial

/-- What leads nowhere in particular closes over no scope. -/
theorem closesOver_of_within (h : ∀ R, v.Within R) : v.ClosesOver p := by
  have := h ⟨p, fun _ => True⟩
  cases v with
  | function f => exact this.1
  | _ => trivial

end Value

namespace Run

variable {d : Discipline} {own : Option ScopeId} {α β : Type} {P : Scopes → α → Prop}
  {Q : Scopes → β → Prop} {m : Machine}

/-- From `m`, the run keeps the discipline, at every event that it tells of as
well, and its value satisfies `P`. -/
structure ObeysAt (d : Discipline) (own : Option ScopeId) (P : Scopes → α → Prop) (told : Told α)
    (m : Machine) : Prop where
  holds : d.holds (after told.run m).scopes
  later : d.later own m.scopes (after told.run m).scopes
  value : ∀ a, outcome told.run m = .ok a → P (after told.run m).scopes a
  events : ∀ e ∈ told.events m, d.holds e.machine.scopes ∧ d.allows e.machine.scopes e.act.scope

/-- What an expression evaluates to fits the discipline. -/
abbrev FitValue (d : Discipline) (scopes : Scopes) (value : Value) : Prop :=
  value.ClosesOver (d.allows scopes)

/-- What a statement returns fits the discipline. -/
abbrev FitFlow (d : Discipline) (scopes : Scopes) (flow : Flow) : Prop :=
  flow.ClosesOver (d.allows scopes)

namespace ObeysAt

/-! ## Runs that change nothing -/

/-- A run that leaves the scopes as they are, and that tells nothing. -/
theorem silent {run : Run α} (hm : d.holds m.scopes) (same : (after run m).scopes = m.scopes)
    (value : ∀ a, outcome run m = .ok a → P m.scopes a) : ObeysAt d own P (.silent run) m := by
  constructor
  · show d.holds (after run m).scopes
    rwa [same]
  · show d.later own m.scopes (after run m).scopes
    rw [same]
    exact d.refl own m.scopes
  · show ∀ a, outcome run m = .ok a → P (after run m).scopes a
    rwa [same]
  · exact List.forall_mem_nil _

theorem pure {a : α} (hm : d.holds m.scopes) (ha : P m.scopes a) :
    ObeysAt d own P (Pure.pure a) m :=
  silent hm rfl fun _ same => Except.ok.inj same ▸ ha

theorem outOfFuel (hm : d.holds m.scopes) : ObeysAt d own P (.silent Run.outOfFuel) m :=
  silent hm rfl nofun

theorem fail (hm : d.holds m.scopes) (e : RuntimeError) :
    ObeysAt d own P (.silent (Run.fail e)) m :=
  silent hm rfl nofun

theorem ofExcept (hm : d.holds m.scopes) {r : Except RuntimeError α}
    (hr : ∀ a, r = .ok a → P m.scopes a) : ObeysAt d own P (.silent (Run.ofExcept r)) m := by
  cases r with
  | ok a => exact pure hm (hr a rfl)
  | error e => exact fail hm e

theorem checkArity (hm : d.holds m.scopes) (expected found line : Nat) :
    ObeysAt d none (fun _ _ => True) (.silent (Run.checkArity expected found line)) m := by
  unfold Run.checkArity
  split
  · exact pure hm trivial
  · exact fail hm _

theorem native (hm : d.holds m.scopes) (f : Native) (arguments : List Value) (line : Nat) :
    ObeysAt d own (FitValue d) (.silent (Run.native f arguments line)) m := by
  obtain ⟨clock, left⟩ := after_native f arguments line m
  refine silent hm (by rw [left]) fun value given => ?_
  rw [outcome_native] at given
  split at given
  case h_1 applied =>
    cases given
    exact Value.closesOver_of_within fun R => Native.within_of_apply applied
  case h_2 => cases given

theorem first {told : Told α} {act : Act} (h : ObeysAt d own P told m) (hm : d.holds m.scopes)
    (ha : d.allows m.scopes act.scope) : ObeysAt d own P (told.first act) m :=
  ⟨h.holds, h.later, h.value, List.forall_mem_cons.2 ⟨⟨hm, ha⟩, h.events⟩⟩

theorem print (hm : d.holds m.scopes) {id : ScopeId} (hid : d.allows m.scopes id)
    (text : String) : ObeysAt d own (fun _ _ => True) (.print id text) m :=
  first (silent hm (by rw [after_print]) fun _ _ => trivial) hm hid

theorem newFunction (hm : d.holds m.scopes) {scope : ScopeId} (hs : d.allows m.scopes scope)
    (name : Token) (params : List Token) (body : List Stmt) :
    ObeysAt d own (FitValue d) (.newFunction name params body scope) m := by
  have made : ObeysAt d own (FitValue d)
      (.silent (Run.newFunction name params body scope)) m :=
    silent hm rfl fun _ same => Except.ok.inj same ▸ hs
  exact ⟨made.holds, made.later, made.value, List.forall_mem_singleton.2 ⟨hm, hs⟩⟩

theorem lookup (hm : d.holds m.scopes) {id : ScopeId} (hid : d.allows m.scopes id)
    (name : Token) : ObeysAt d own (FitValue d) (.lookup id name) m := by
  refine first (silent hm ?_ fun value found => ?_) hm hid
  · rw [after_lookup]
  · rw [outcome_lookup] at found
    cases got : m.scopes.get? id name.lexeme with
    | none =>
      rw [got] at found
      cases found
    | some v =>
      rw [got] at found
      cases found
      obtain ⟨home, -, here⟩ := Option.bind_eq_some_iff.1 got
      exact d.bound hm here

/-! ## Runs that change scopes -/

theorem widen {told : Told α} (h : ObeysAt d none P told m) : ObeysAt d own P told m :=
  { h with later := d.widen h.later }

theorem assign (hm : d.holds m.scopes) {id : ScopeId} (hid : d.allows m.scopes id)
    (name : Token) {value : Value} (hv : FitValue d m.scopes value) :
    ObeysAt d none (fun _ _ => True) (.assign id name value) m := by
  refine first ?_ hm hid
  have left := after_assign id name value m
  cases found : m.scopes.resolve id name.lexeme with
  | none =>
    rw [found] at left
    exact silent hm (congrArg _ left) fun _ _ => trivial
  | some home =>
    rw [found] at left
    have changed : (after (Run.assign id name value) m).scopes =
        m.scopes.define home name.lexeme value := congrArg _ left
    obtain ⟨holds, later⟩ := d.rebinds hm (Scopes.bound_of_resolve found) hv
    rw [← changed] at holds later
    exact ⟨holds, later, fun _ _ => trivial, List.forall_mem_nil _⟩

/-- A declaration in the scope that code runs in. -/
theorem define (hm : d.holds m.scopes) {id : ScopeId} (hid : d.allows m.scopes id)
    (name : Token) {value : Value} (hv : FitValue d m.scopes value) :
    ObeysAt d (some id) (fun _ _ => True) (.define id name value) m := by
  have ⟨holds, later⟩ := @d.declares m.scopes id name.lexeme value hm hid hv
  have defined : ObeysAt d (some id) (fun _ _ => True)
      (.silent (Run.define id name.lexeme value)) m :=
    ⟨holds, later, fun _ _ => trivial, List.forall_mem_nil _⟩
  exact first defined hm hid

/-! ## Runs one after another -/

theorem bind {told : Told α} {k : α → Told β} (h : ObeysAt d own P told m)
    (hk : ∀ a, P (after told.run m).scopes a → ObeysAt d own Q (k a) (after told.run m)) :
    ObeysAt d own Q (told >>= k) m := by
  rcases Trace.next_cases told.events told.run (fun a => (k a).events) (fun a => (k a).run) m with
    ⟨e, -, stops, same, ended⟩ | ⟨a, gives, goesOn, left, both⟩
  · constructor
    · rw [Told.bind_run, same]
      exact h.holds
    · rw [Told.bind_run, same]
      exact h.later
    · intro b given
      cases stops.symm.trans given
    · rw [Told.bind_events, ended]
      exact h.events
  · have second := hk a (h.value a gives)
    constructor
    · rw [Told.bind_run, left]
      exact second.holds
    · rw [Told.bind_run, left]
      exact d.trans h.later second.later
    · rw [Told.bind_run, goesOn, left]
      exact second.value
    · rw [Told.bind_events, both]
      exact List.forall_mem_append.2 ⟨h.events, second.events⟩

theorem each {id : ScopeId} {f : β → Told Value}
    (h : ∀ b m, d.holds m.scopes → d.allows m.scopes id → ObeysAt d own (FitValue d) (f b) m)
    (bs : List β) : ∀ m, d.holds m.scopes → d.allows m.scopes id →
      ObeysAt d own (fun scopes values => ∀ v ∈ values, FitValue d scopes v) (.each f bs) m := by
  induction bs with
  | nil => exact fun m hm _ => pure hm (List.forall_mem_nil _)
  | cons b bs ih =>
    intro m hm hid
    have first := h b m hm hid
    refine first.bind fun v hv => ?_
    have others := ih _ first.holds (d.allows_later first.later hid)
    refine others.bind fun vs hvs => pure others.holds ?_
    exact List.forall_mem_cons.2 ⟨hv.mono fun _ => d.allows_later others.later, hvs⟩

theorem sequence {id : ScopeId} {f : Stmt → Told Flow}
    (h : ∀ s m, d.holds m.scopes → d.allows m.scopes id → ObeysAt d own (FitFlow d) (f s) m)
    (statements : List Stmt) : ∀ m, d.holds m.scopes → d.allows m.scopes id →
      ObeysAt d own (FitFlow d) (.sequence f statements) m := by
  induction statements with
  | nil => exact fun m hm _ => pure hm trivial
  | cons s statements ih =>
    intro m hm hid
    have first := h s m hm hid
    refine first.bind fun flow hflow => ?_
    cases flow with
    | normal => exact ih _ first.holds (d.allows_later first.later hid)
    | returned value => exact pure first.holds hflow

/-- What a statement returns is a value that fits, and without it `nil` is one. -/
theorem flowValue {told : Told Flow} (h : ObeysAt d own (FitFlow d) told m) :
    ObeysAt d own (FitValue d) (do Pure.pure (← told).value) m := by
  refine h.bind fun flow hflow => pure h.holds ?_
  cases flow with
  | normal => trivial
  | returned value => exact hflow

theorem loop {id : ScopeId} {c : Told Value} {b : Told Flow}
    (hc : ∀ m, d.holds m.scopes → d.allows m.scopes id → ObeysAt d own (FitValue d) c m)
    (hb : ∀ m, d.holds m.scopes → d.allows m.scopes id → ObeysAt d own (FitFlow d) b m)
    (rounds : Nat) : ∀ m, d.holds m.scopes → d.allows m.scopes id →
      ObeysAt d own (FitFlow d) (.loop c b rounds) m := by
  induction rounds with
  | zero => exact fun m hm _ => outOfFuel hm
  | succ rounds ih =>
    intro m hm hid
    have first := hc m hm hid
    have hid' := d.allows_later first.later hid
    refine first.bind fun value _ => ?_
    split
    · have second := hb _ first.holds hid'
      refine second.bind fun flow hflow => ?_
      cases flow with
      | normal => exact ih _ second.holds (d.allows_later second.later hid')
      | returned value => exact pure second.holds hflow
    · exact pure first.holds trivial

/-! ## Scopes of blocks and calls -/

/-- Code that runs in a new scope, which nobody sees when it has ended. -/
theorem enclosed (hm : d.holds m.scopes) {outer : ScopeId} (ho : d.allows m.scopes outer)
    {bindings : Bindings}
    (hb : ∀ name value, bindings.get? name = some value → FitValue d m.scopes value)
    {code : ScopeId → Told α}
    (h : ∀ id m, d.holds m.scopes → d.allows m.scopes id → ObeysAt d (some id) P (code id) m) :
    ObeysAt d none P (Told.openScope outer bindings >>= code) m := by
  obtain ⟨holds, allows⟩ := d.opens hm ho hb
  have inner := h m.scopes.size (m.addScope ⟨bindings, some outer⟩).2 holds allows
  exact ⟨inner.holds, d.leave inner.later, inner.value, inner.events⟩

theorem inFrame {told : Told α} (hm : d.holds m.scopes) (frames : Option Nat)
    {f : Closure} (hf : d.allows m.scopes f.scope) (line : Nat)
    (h : ObeysAt d own P told { m with callDepth := m.callDepth + 1 }) :
    ObeysAt d own P (told.inFrame frames f line) m := by
  constructor
  · rw [Told.inFrame_run, after_inFrame]
    split
    · exact hm
    · exact h.holds
  · rw [Told.inFrame_run, after_inFrame]
    split
    · exact d.refl own m.scopes
    · exact h.later
  · rw [Told.inFrame_run, after_inFrame, outcome_inFrame]
    split
    · nofun
    · exact h.value
  · refine List.forall_mem_cons.2 ⟨⟨hm, hf⟩, ?_⟩
    split
    · exact List.forall_mem_nil _
    · exact List.forall_mem_map.2 h.events

section

variable {f : Stmt → ScopeId → Told Flow}

/-- A block, which declares no name outside. -/
theorem block (h : ∀ s id m, d.holds m.scopes → d.allows m.scopes id →
      ObeysAt d (some id) (FitFlow d) (f s id) m)
    (hm : d.holds m.scopes) {id : ScopeId} (hid : d.allows m.scopes id)
    (statements : List Stmt) :
    ObeysAt d none (FitFlow d)
      (do
        let inner ← Told.openScope id []
        Told.sequence (fun statement => f statement inner) statements) m := by
  refine enclosed hm hid (fun _ _ bound => absurd bound Bindings.get?_nil_ne) ?_
  intro inner m hm hinner
  exact sequence (fun s m hm hinner => h s inner m hm hinner) statements m hm hinner

/-- The body of a function, in a new scope for its parameters. -/
theorem body (h : ∀ s id m, d.holds m.scopes → d.allows m.scopes id →
      ObeysAt d (some id) (FitFlow d) (f s id) m)
    (hm : d.holds m.scopes) {g : Closure} (hg : d.allows m.scopes g.scope)
    {arguments : List Value} (harguments : ∀ v ∈ arguments, FitValue d m.scopes v) :
    ObeysAt d none (FitValue d)
      (do
        let scope ← Told.openScope g.scope (.ofLists (g.params.map (·.lexeme)) arguments)
        Told.first (.enters g scope) do
          let flow ← Told.sequence (fun statement => f statement scope) g.body
          Pure.pure flow.value) m := by
  refine enclosed hm hg (fun name value bound => ?_) fun id m hm hid => ?_
  · exact harguments value (Bindings.mem_of_get?_ofLists bound)
  · refine ObeysAt.first ?_ hm hid
    exact (sequence (fun s m hm hid => h s id m hm hid) g.body m hm hid).flowValue

/-- A call keeps the discipline if the statements of function bodies do. -/
theorem call (h : ∀ s id m, d.holds m.scopes → d.allows m.scopes id →
      ObeysAt d (some id) (FitFlow d) (f s id) m)
    (frames : Option Nat) (hm : d.holds m.scopes) {callee : Value}
    (hcallee : FitValue d m.scopes callee) {arguments : List Value}
    (harguments : ∀ v ∈ arguments, FitValue d m.scopes v) (line : Nat) :
    ObeysAt d none (FitValue d) (.call frames f callee arguments line) m := by
  cases callee with
  | function g =>
    have checked := checkArity hm g.arity arguments.length line
    refine checked.bind fun _ _ => ?_
    have placed := d.allows_later checked.later hcallee
    refine (inFrame checked.holds frames placed line (body h ?_ ?_ fun v hv => ?_)).first
      checked.holds placed
    · exact checked.holds
    · exact placed
    · exact (harguments v hv).mono fun _ => d.allows_later checked.later
  | native g =>
    have checked := checkArity hm g.arity arguments.length line
    exact checked.bind fun _ _ => native checked.holds g arguments line
  | _ => exact fail hm _

end

end ObeysAt

end Run

/-! ## Evaluation -/

open Run

/-- Evaluation and execution keep every discipline, at once because each calls
the other. -/
theorem obeys_eval_exec (d : Discipline) (frames : Option Nat) : ∀ fuel,
    (∀ e id m, d.holds m.scopes → d.allows m.scopes id →
      ObeysAt d none (FitValue d) (.eval frames fuel e id) m) ∧
      ∀ s id m, d.holds m.scopes → d.allows m.scopes id →
        ObeysAt d (some id) (FitFlow d) (.exec frames fuel s id) m := by
  intro fuel
  induction fuel with
  | zero => exact ⟨fun _ _ _ hm _ => .outOfFuel hm, fun _ _ _ hm _ => .outOfFuel hm⟩
  | succ fuel ih =>
    obtain ⟨he, hs⟩ := ih
    constructor
    · intro e id m hm hid
      cases e with
      | assign name value =>
        have first := he value id m hm hid
        refine first.bind fun v hv => ?_
        have second := ObeysAt.assign first.holds (d.allows_later first.later hid) name hv
        exact second.bind fun _ _ =>
          .pure second.holds (hv.mono fun _ => d.allows_later second.later)
      | binary left operator right =>
        have first := he left id m hm hid
        refine first.bind fun v _ => ?_
        have second := he right id _ first.holds (d.allows_later first.later hid)
        exact second.bind fun w _ => .ofExcept second.holds fun a computed =>
          Value.closesOver_of_within fun R => Value.within_of_binary computed
      | call callee paren arguments =>
        have first := he callee id m hm hid
        refine first.bind fun f hf => ?_
        have others := ObeysAt.each (fun a m hm hid => he a id m hm hid) arguments _ first.holds
          (d.allows_later first.later hid)
        refine others.bind fun vs hvs => ?_
        exact .call hs frames others.holds (hf.mono fun _ => d.allows_later others.later) hvs
          paren.line
      | grouping inner => exact he inner id m hm hid
      | literal value =>
        exact .pure hm (Value.closesOver_of_within fun R => Value.within_ofLiteral R value)
      | logical left operator right =>
        have first := he left id m hm hid
        refine first.bind fun v hv => ?_
        have second : ObeysAt d none (fun _ _ => True) _ _ :=
          .ofExcept first.holds fun _ (_ : v.decides operator = _) => trivial
        refine second.bind fun decided _ => ?_
        split
        · exact .pure second.holds (hv.mono fun _ => d.allows_later second.later)
        · exact he right id _ second.holds
            (d.allows_later second.later (d.allows_later first.later hid))
      | unary operator operand =>
        have first := he operand id m hm hid
        exact first.bind fun v _ => .ofExcept first.holds fun a computed =>
          Value.closesOver_of_within fun R => Value.within_of_unary computed
      | identifier name => exact .lookup hm hid name
    · intro s id m hm hid
      cases s with
      | block statements => exact ObeysAt.widen (.block hs hm hid statements)
      | expression value =>
        have first : ObeysAt d (some id) _ _ m := (he value id m hm hid).widen
        exact first.bind fun _ _ => .pure first.holds trivial
      | function name params body =>
        have made : ObeysAt d (some id) _ _ m := .newFunction hm hid name params body
        refine made.bind fun f hf => ?_
        have second := ObeysAt.define made.holds (d.allows_later made.later hid) name hf
        exact second.bind fun _ _ => .pure second.holds trivial
      | ifThen condition thenBranch =>
        have first : ObeysAt d (some id) _ _ m := (he condition id m hm hid).widen
        refine first.bind fun v _ => ?_
        split
        · exact hs thenBranch id _ first.holds (d.allows_later first.later hid)
        · exact .pure first.holds trivial
      | ifElse condition thenBranch elseBranch =>
        have first : ObeysAt d (some id) _ _ m := (he condition id m hm hid).widen
        refine first.bind fun v _ => ?_
        split
        · exact hs thenBranch id _ first.holds (d.allows_later first.later hid)
        · exact hs elseBranch id _ first.holds (d.allows_later first.later hid)
      | print value =>
        have first : ObeysAt d (some id) _ _ m := (he value id m hm hid).widen
        refine first.bind fun v _ => ?_
        have second : ObeysAt d (some id) _ _ _ :=
          .print first.holds (d.allows_later first.later hid) v.text
        exact second.bind fun _ _ => .pure second.holds trivial
      | returns keyword value =>
        cases value with
        | none => exact .pure hm trivial
        | some value =>
          have first : ObeysAt d (some id) _ _ m := (he value id m hm hid).widen
          exact first.bind fun _ hv => .pure first.holds hv
      | var name initial =>
        have first : ObeysAt d (some id) _ _ m := (he initial id m hm hid).widen
        refine first.bind fun v hv => ?_
        have second := ObeysAt.define first.holds (d.allows_later first.later hid) name hv
        exact second.bind fun _ _ => .pure second.holds trivial
      | whileLoop condition body =>
        exact .loop (fun m hm hid => (he condition id m hm hid).widen)
          (fun m hm hid => hs body id m hm hid) fuel m hm hid

/-- Executing a block declares nothing outside. -/
theorem obeys_block (d : Discipline) (frames : Option Nat) (fuel : Nat) {m : Machine}
    (hm : d.holds m.scopes) {id : ScopeId} (hid : d.allows m.scopes id)
    (statements : List Stmt) :
    ObeysAt d none (FitFlow d) (.exec frames fuel (.block statements) id) m := by
  cases fuel with
  | zero => exact .outOfFuel hm
  | succ fuel => exact .block (obeys_eval_exec d frames fuel).2 hm hid statements

theorem obeys_interpretIn (d : Discipline) (frames : Option Nat) (fuel : Nat) {m : Machine}
    (hm : d.holds m.scopes) {id : ScopeId} (hid : d.allows m.scopes id) (s : Stmt) :
    ObeysAt d (some id) (FitValue d) (.interpretIn frames fuel id s) m := by
  obtain ⟨he, hs⟩ := obeys_eval_exec d frames fuel
  cases s with
  | expression value => exact (he value id m hm hid).widen
  | _ => exact (hs _ id m hm hid).flowValue

end Scriptlet
