/-
# Evaluation stays within a region

A run is within a region when, from two machines that agree on the region, it
has the same outcome, leaves machines that agree on the region again, and writes
no scope outside.  Its value must lead into the region too, since what is done
with it next has to stay there as well.  Everything that evaluation is put
together from is within each region that covers the machine, and so evaluation
is: what it cannot reach it neither writes nor reads.
-/
import Scriptlet.Eval
import Scriptlet.Proofs.Run.Outcome
import Scriptlet.Proofs.Scopes.Agree

namespace Scriptlet

/-- What a statement returns leads into the region only. -/
def Flow.Within (R : Region) : Flow → Prop
  | .normal => True
  | .returned value => value.Within R

/-! ## Values computed from values -/

namespace Value

variable {R : Region} {left right v : Value}

theorem within_of_onNumbers {line : Nat} {operation : Float → Float → Except RuntimeError Value}
    (ho : ∀ a b, operation a b = .ok v → v.Within R)
    (h : onNumbers line operation left right = .ok v) : v.Within R := by
  unfold onNumbers at h
  split at h
  · exact ho _ _ h
  · cases h

theorem within_of_binary {operator : Token} (h : left.binary operator right = .ok v) :
    v.Within R := by
  unfold binary at h
  dsimp only at h
  split at h
  · unfold plus at h
    split at h <;> cases h <;> trivial
  case h_4 =>
    refine within_of_onNumbers (fun a b hv => ?_) h
    split at hv <;> cases hv
    trivial
  case h_9 | h_10 | h_11 => cases h <;> trivial
  all_goals exact within_of_onNumbers (fun a b hv => by cases hv; trivial) h

theorem within_of_unary {operator : Token} (h : right.unary operator = .ok v) : v.Within R := by
  unfold unary at h
  split at h <;> cases h <;> trivial

end Value

theorem Native.within_of_apply {R : Region} {f : Native} {arguments : List Value} {v : Value}
    {clock clock' : Clock} (h : f.apply arguments clock = .ok v clock') : v.Within R := by
  unfold apply at h
  split at h <;> cases h <;> trivial

theorem Value.within_ofLiteral (R : Region) (literal : Literal) :
    (Value.ofLiteral literal).Within R := by
  cases literal <;> trivial

namespace Run

/-- From two machines that agree on the region, the run does the same as far as
the region goes, and nothing outside of it. -/
structure Steady {α : Type} (R : Region) (P : α → Prop) (run : Run α) (m m' : Machine) :
    Prop where
  outcome : outcome run m' = outcome run m
  value : ∀ a, Run.outcome run m = .ok a → P a
  covers : R.Covers (after run m)
  agree : (after run m).AgreeOn R.scopes (after run m')
  kept : ∀ id, ¬ R.scopes id → (after run m).scopes[id]? = m.scopes[id]?
  kept' : ∀ id, ¬ R.scopes id → (after run m').scopes[id]? = m'.scopes[id]?

/-- Only what the run does from the two machines matters. -/
theorem Steady.congr {α : Type} {R : Region} {P : α → Prop} {run other : Run α} {m m' : Machine}
    (h : Steady R P other m m') (hm : run m = other m) (hm' : run m' = other m') :
    Steady R P run m m' := by
  obtain ⟨outcome, value, covers, agree, kept, kept'⟩ := h
  constructor <;> simp only [Run.outcome, after, hm, hm'] <;> assumption

/-- The run stays in the region, and its value satisfies `P`. -/
def Within {α : Type} (R : Region) (P : α → Prop) (run : Run α) : Prop :=
  ∀ m m', R.Covers m → m.AgreeOn R.scopes m' → Steady R P run m m'

namespace Within

variable {R : Region} {α β : Type} {P : α → Prop} {Q : β → Prop}

/-! ## Runs that change nothing -/

theorem pure {a : α} (ha : P a) : Within R P (Pure.pure a : Run α) := by
  intro m m' hc h
  exact ⟨rfl, fun _ hb => Except.ok.inj hb ▸ ha, hc, h, fun _ _ => rfl, fun _ _ => rfl⟩

theorem fail (e : RuntimeError) : Within R P (Run.fail e : Run α) := by
  intro m m' hc h
  exact ⟨rfl, nofun, hc, h, fun _ _ => rfl, fun _ _ => rfl⟩

theorem outOfFuel : Within R P (Run.outOfFuel : Run α) := by
  intro m m' hc h
  exact ⟨rfl, nofun, hc, h, fun _ _ => rfl, fun _ _ => rfl⟩

theorem ofExcept {r : Except RuntimeError α} (hr : ∀ a, r = .ok a → P a) :
    Within R P (Run.ofExcept r) := by
  cases r with
  | ok a => exact pure (hr a rfl)
  | error e => exact fail e

theorem checkArity (expected found line : Nat) :
    Within R (fun _ => True) (Run.checkArity expected found line) := by
  unfold Run.checkArity
  split
  · exact pure trivial
  · exact fail _

theorem lookup {id : ScopeId} {name : Token} (hid : R.scopes id) (hn : R.names name.lexeme) :
    Within R (Value.Within R) (Run.lookup id name) := by
  intro m m' hc h
  have hg := h.get? hc.closed hid name.lexeme
  cases hv : m.scopes.get? id name.lexeme with
  | none =>
    refine (fail (.undefinedVariable name.lexeme name.line) m m' hc h).congr ?_ ?_
    · simp only [Run.lookup, hv]
    · simp only [Run.lookup, hg, hv]
  | some value =>
    refine (pure (hc.closed.within_of_get? hid hn hv) m m' hc h).congr ?_ ?_
    · simp only [Run.lookup, hv]
      rfl
    · simp only [Run.lookup, hg, hv]
      rfl

/-! ## Runs that change the machine -/

theorem openScope {outer : ScopeId} (ho : R.scopes outer) {bindings : Bindings}
    (hb : ∀ name value, bindings.get? name = some value → value.Within R) :
    Within R R.scopes (Run.openScope outer bindings) := by
  intro m m' hc h
  refine ⟨congrArg Except.ok h.size, ?_, hc.addScope ?_ hb, h.addScope _, ?_, ?_⟩
  · intro id hid
    exact hc.fresh id (Nat.le_of_eq (Except.ok.inj hid))
  · intro id hid
    exact Option.some.inj hid ▸ ho
  · intro id hid
    exact (Machine.getElem?_addScope ..).trans (if_neg fun he => hid (hc.fresh id (Nat.le_of_eq he.symm)))
  · intro id hid
    exact (Machine.getElem?_addScope ..).trans
      (if_neg fun he => hid (hc.fresh id (Nat.le_of_eq (he.trans h.size).symm)))

theorem define {id : ScopeId} (hid : R.scopes id) (name : String) {value : Value}
    (hv : value.Within R) : Within R (fun _ => True) (Run.define id name value) := by
  intro m m' hc h
  refine ⟨rfl, fun _ _ => trivial, hc.define hv id name, h.define id name value, ?_, ?_⟩
  · intro other ho
    exact (Machine.getElem?_define ..).trans (if_neg fun (he : id = other) => ho (he ▸ hid))
  · intro other ho
    exact (Machine.getElem?_define ..).trans (if_neg fun (he : id = other) => ho (he ▸ hid))

theorem assign {id : ScopeId} (hid : R.scopes id) (name : Token) {value : Value}
    (hv : value.Within R) : Within R (fun _ => True) (Run.assign id name value) := by
  intro m m' hc h
  have hr := h.resolve hc.closed hid name.lexeme
  cases hh : m.scopes.resolve id name.lexeme with
  | none =>
    refine (fail (.undefinedVariable name.lexeme name.line) m m' hc h).congr ?_ ?_
    · simp only [Run.assign, hh]
    · simp only [Run.assign, hr, hh]
  | some home =>
    refine (define (hc.closed.of_resolve hid hh) name.lexeme hv m m' hc h).congr ?_ ?_
    · simp only [Run.assign, hh, Run.define]
    · simp only [Run.assign, hr, hh, Run.define]

theorem newFunction {scope : ScopeId} (hs : R.scopes scope) (name : Token)
    (params : List Token) {body : List Stmt} (hb : ∀ n ∈ Stmt.namesAll body, R.names n) :
    Within R (Value.Within R) (Run.newFunction name params body scope) := by
  intro m m' hc h
  refine ⟨?_, ?_, ⟨hc.closed, hc.fresh⟩, ?_, fun _ _ => rfl, fun _ _ => rfl⟩
  · show Except.ok (Value.function ⟨m'.functions, name, params, body, scope⟩) = _
    rw [h.functions]
    rfl
  · intro value hv
    exact Except.ok.inj hv ▸ ⟨hs, hb⟩
  · exact { h with functions := congrArg (· + 1) h.functions }

/-- Only the clock is looked at, and both machines have the same. -/
theorem native (f : Native) (arguments : List Value) (line : Nat) :
    Within R (Value.Within R) (Run.native f arguments line) := by
  intro m m' hc h
  obtain ⟨clock, left⟩ := after_native f arguments line m
  obtain ⟨clock', left'⟩ := after_native f arguments line m'
  constructor
  · rw [outcome_native, outcome_native, h.clock]
  · intro value given
    rw [outcome_native] at given
    split at given
    case h_1 applied =>
      cases given
      exact Native.within_of_apply applied
    case h_2 => cases given
  · rw [left]
    exact ⟨hc.closed, hc.fresh⟩
  · unfold after Run.native
    rw [h.clock]
    cases f.apply arguments m.clock <;> exact { h with clock := rfl }
  · exact fun _ _ => by rw [left]
  · exact fun _ _ => by rw [left']

theorem print (text : String) : Within R (fun _ => True) (Run.print text) := by
  intro m m' hc h
  constructor
  · rw [outcome_print, outcome_print, h.sink]
  · exact fun _ _ => trivial
  · rw [after_print]
    exact ⟨hc.closed, hc.fresh⟩
  · rw [after_print, after_print, h.sink]
    exact { h with sink := rfl }
  · exact fun _ _ => by rw [after_print]
  · exact fun _ _ => by rw [after_print]

/-- A frame more or less is no change to the scopes. -/
theorem inFrame {run : Run α} (h : Within R P run) (frames : Option Nat) (line : Nat) :
    Within R P (Run.inFrame frames line run) := by
  intro m m' hc ha
  have inner := h { m with callDepth := m.callDepth + 1 } { m' with callDepth := m'.callDepth + 1 }
    ⟨hc.closed, hc.fresh⟩ { ha with callDepth := congrArg (· + 1) ha.callDepth }
  constructor
  · rw [outcome_inFrame, outcome_inFrame, inner.outcome, ha.callDepth]
  · intro a ho
    rw [outcome_inFrame] at ho
    split at ho
    · cases ho
    · exact inner.value a ho
  · rw [after_inFrame]
    split
    · exact hc
    · exact ⟨inner.covers.closed, inner.covers.fresh⟩
  · rw [after_inFrame, after_inFrame, ha.callDepth]
    split
    · exact ha
    · rw [ha.callDepth] at inner
      exact { inner.agree with callDepth := rfl }
  · intro id hid
    rw [after_inFrame]
    split
    · rfl
    · exact inner.kept id hid
  · intro id hid
    rw [after_inFrame]
    split
    · rfl
    · exact inner.kept' id hid

/-! ## Runs one after another -/

theorem bind {run : Run α} {k : α → Run β} (h : Within R P run)
    (hk : ∀ a, P a → Within R Q (k a)) : Within R Q (run >>= k) := by
  intro m m' hc ha
  have first := h m m' hc ha
  cases ho : Run.outcome run m with
  | error e =>
    have ho' := first.outcome.trans ho
    refine ⟨?_, ?_, ?_, ?_, ?_, ?_⟩ <;> simp only [outcome_bind, after_bind, ho, ho']
    · nofun
    · exact first.covers
    · exact first.agree
    · exact first.kept
    · exact first.kept'
  | ok a =>
    have ho' := first.outcome.trans ho
    have second := hk a (first.value a ho) _ _ first.covers first.agree
    refine ⟨?_, ?_, ?_, ?_, ?_, ?_⟩ <;> simp only [outcome_bind, after_bind, ho, ho']
    · exact second.outcome
    · exact second.value
    · exact second.covers
    · exact second.agree
    · exact fun id hid => (second.kept id hid).trans (first.kept id hid)
    · exact fun id hid => (second.kept' id hid).trans (first.kept' id hid)

theorem each {f : β → Run α} {bs : List β} (h : ∀ b ∈ bs, Within R P (f b)) :
    Within R (fun as => ∀ a ∈ as, P a) (Run.each f bs) := by
  induction bs with
  | nil => exact pure nofun
  | cons b bs ih =>
    obtain ⟨hb, hbs⟩ := List.forall_mem_cons.1 h
    exact hb.bind fun a ha => (ih hbs).bind fun as has =>
      pure (List.forall_mem_cons.2 ⟨ha, has⟩)

theorem sequence {f : Stmt → Run Flow} {statements : List Stmt}
    (h : ∀ s ∈ statements, Within R (Flow.Within R) (f s)) :
    Within R (Flow.Within R) (Run.sequence f statements) := by
  induction statements with
  | nil => exact pure trivial
  | cons s statements ih =>
    obtain ⟨hs, hrest⟩ := List.forall_mem_cons.1 h
    refine hs.bind fun flow hflow => ?_
    cases flow with
    | normal => exact ih hrest
    | returned value => exact pure hflow

theorem loop {condition : Run Value} {body : Run Flow}
    (hc : Within R (Value.Within R) condition) (hb : Within R (Flow.Within R) body) :
    ∀ rounds, Within R (Flow.Within R) (Run.loop condition body rounds) := by
  intro rounds
  induction rounds with
  | zero => exact outOfFuel
  | succ rounds ih =>
    refine hc.bind fun v _ => ?_
    split
    · refine hb.bind fun flow hflow => ?_
      cases flow with
      | normal => exact ih
      | returned value => exact pure hflow
    · exact pure trivial

/-- A call stays in each region that its callee and its arguments lead into, if
the statements of function bodies do. -/
theorem call {f : Stmt → ScopeId → Run Flow}
    (h : ∀ s id, (∀ n ∈ s.names, R.names n) → R.scopes id → Within R (Flow.Within R) (f s id))
    (frames : Option Nat) {callee : Value} (hcallee : callee.Within R) {arguments : List Value}
    (harguments : ∀ v ∈ arguments, v.Within R) (line : Nat) :
    Within R (Value.Within R) (Run.call frames f callee arguments line) := by
  cases callee with
  | function closure =>
    obtain ⟨hscope, hnames⟩ := hcallee
    refine (checkArity _ _ _).bind fun _ _ => inFrame ?_ _ _
    refine (openScope hscope fun _ value hv => ?_).bind fun id hid => ?_
    · exact harguments value (Bindings.mem_of_get?_ofLists hv)
    refine (sequence fun s hs => h s id (fun n hn => ?_) hid).bind fun flow hflow => ?_
    · exact hnames n (Stmt.names_subset hs hn)
    · cases flow with
      | normal => exact pure trivial
      | returned value => exact pure hflow
  | native f =>
    exact (checkArity _ _ _).bind fun _ _ => native f arguments line
  | _ => exact fail _

end Within

end Run

/-! ## Evaluation -/

open Run

/-- Evaluation and execution stay in each region that holds the scope and the
names of the code, at once because each calls the other. -/
theorem within_eval_exec (R : Region) (frames : Option Nat) : ∀ fuel,
    (∀ e id, (∀ n ∈ e.names, R.names n) → R.scopes id →
      Within R (Value.Within R) (eval frames fuel e id)) ∧
      ∀ s id, (∀ n ∈ s.names, R.names n) → R.scopes id →
        Within R (Flow.Within R) (exec frames fuel s id) := by
  intro fuel
  induction fuel with
  | zero =>
    constructor
    · intro e id _ _
      rw [eval]
      exact .outOfFuel
    · intro s id _ _
      rw [exec]
      exact .outOfFuel
  | succ fuel ih =>
    obtain ⟨he, hs⟩ := ih
    constructor
    · intro e id hn hid
      cases e with
      | assign name value =>
        obtain ⟨-, hn⟩ := List.forall_mem_cons.1 hn
        exact (he value id hn hid).bind fun v hv =>
          (Within.assign hid name hv).bind fun _ _ => .pure hv
      | binary left operator right =>
        obtain ⟨hl, hr⟩ := List.forall_mem_append.1 hn
        exact (he left id hl hid).bind fun _ _ => (he right id hr hid).bind fun _ _ =>
          .ofExcept fun _ => Value.within_of_binary
      | call callee paren arguments =>
        obtain ⟨hc, ha⟩ := List.forall_mem_append.1 hn
        refine (he callee id hc hid).bind fun f hf => ?_
        refine (Within.each fun a h => he a id (fun n hn => ?_) hid).bind fun vs hvs => ?_
        · exact ha n (Expr.names_subset h hn)
        · exact .call hs frames hf hvs _
      | grouping inner => exact he inner id hn hid
      | literal value => exact .pure (Value.within_ofLiteral R value)
      | logical left operator right =>
        obtain ⟨hl, hr⟩ := List.forall_mem_append.1 hn
        refine (he left id hl hid).bind fun v hv => ?_
        refine (Within.ofExcept (P := fun _ => True) fun _ _ => trivial).bind fun decided _ => ?_
        split
        · exact .pure hv
        · exact he right id hr hid
      | unary operator operand =>
        exact (he operand id hn hid).bind fun _ _ => .ofExcept fun _ => Value.within_of_unary
      | identifier name => exact .lookup hid (hn _ List.mem_cons_self)
    · intro s id hn hid
      cases s with
      | block statements =>
        have hb : ∀ name value, Bindings.get? name [] = some value → value.Within R := nofun
        refine (Within.openScope hid hb).bind fun inner hinner => ?_
        exact .sequence fun s h => hs s inner (fun n hm => hn n (Stmt.names_subset h hm)) hinner
      | expression value => exact (he value id hn hid).bind fun _ _ => .pure trivial
      | function name params body =>
        obtain ⟨-, hb⟩ := List.forall_mem_cons.1 hn
        exact (Within.newFunction hid name params hb).bind fun f hf =>
          (Within.define hid _ hf).bind fun _ _ => .pure trivial
      | ifThen condition thenBranch =>
        obtain ⟨hc, ht⟩ := List.forall_mem_append.1 hn
        refine (he condition id hc hid).bind fun _ _ => ?_
        split
        · exact hs thenBranch id ht hid
        · exact .pure trivial
      | ifElse condition thenBranch elseBranch =>
        obtain ⟨hc, hn⟩ := List.forall_mem_append.1 hn
        obtain ⟨ht, he'⟩ := List.forall_mem_append.1 hn
        refine (he condition id hc hid).bind fun _ _ => ?_
        split
        · exact hs thenBranch id ht hid
        · exact hs elseBranch id he' hid
      | print value =>
        exact (he value id hn hid).bind fun v _ => (Within.print v.text).bind fun _ _ => .pure trivial
      | returns keyword value =>
        cases value with
        | none => exact .pure trivial
        | some value => exact (he value id hn hid).bind fun _ hv => .pure hv
      | var name initial =>
        obtain ⟨-, hi⟩ := List.forall_mem_cons.1 hn
        exact (he initial id hi hid).bind fun v hv =>
          (Within.define hid _ hv).bind fun _ _ => .pure trivial
      | whileLoop condition body =>
        obtain ⟨hc, hb⟩ := List.forall_mem_append.1 hn
        exact .loop (he condition id hc hid) (hs body id hb hid) fuel

end Scriptlet
