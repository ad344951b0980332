/-
# More fuel changes no finished result

`Run.Extends r r'` says that `r'` does whatever `r` does, from every machine
from which `r` does not run out of fuel.  Every combinator that evaluation is
written with keeps the relation, so evaluation with more fuel extends evaluation
with less (`extends_eval`, `extends_exec`): a value, an error, the output and
the bindings do not depend on the fuel once there is enough of it.
-/
import Scriptlet.Proofs.EStateM
import Scriptlet.Session

namespace Scriptlet

/-- A result that stands for no end of the run. -/
def IsOutOfFuel {α : Type} : EStateM.Result (Stop RuntimeError) Machine α → Prop
  | .error .outOfFuel _ => True
  | _ => False

namespace Run

/-- The run `r'` agrees with `r` wherever `r` does not run out of fuel. -/
def Extends {α : Type} (r r' : Run α) : Prop :=
  ∀ m, IsOutOfFuel (r m) ∨ r' m = r m

namespace Extends

theorem refl {α : Type} (r : Run α) : Extends r r := fun _ => .inr rfl

theorem bind {α β : Type} {r r' : Run α} {k k' : α → Run β} (h : Extends r r')
    (hk : ∀ a, Extends (k a) (k' a)) : Extends (r >>= k) (r' >>= k') := by
  intro m
  rw [bind_apply, bind_apply]
  rcases h m with h | h
  · left
    generalize r m = x at h ⊢
    cases x with
    | ok a m' => exact h.elim
    | error e m' => cases e <;> exact h
  · rw [h]
    cases r m with
    | ok a m' => exact hk a m'
    | error e m' => exact .inr rfl

theorem each {α β : Type} {f f' : α → Run β} (h : ∀ a, Extends (f a) (f' a)) :
    ∀ as, Extends (Run.each f as) (Run.each f' as)
  | [] => refl _
  | a :: as => (h a).bind fun _ => (each h as).bind fun _ => refl _

theorem sequence {f f' : Stmt → Run Flow} (h : ∀ s, Extends (f s) (f' s)) :
    ∀ statements, Extends (Run.sequence f statements) (Run.sequence f' statements)
  | [] => refl _
  | s :: statements => (h s).bind fun
    | .normal => sequence h statements
    | .returned _ => refl _

/-- A loop may also be given more rounds. -/
theorem loop {c c' : Run Value} {b b' : Run Flow} (hc : Extends c c') (hb : Extends b b') :
    ∀ rounds more, Extends (Run.loop c b rounds) (Run.loop c' b' (rounds + more))
  | 0, _ => fun _ => .inl trivial
  | rounds + 1, more => by
    rw [Nat.add_right_comm]
    refine hc.bind fun v => ?_
    split
    · exact hb.bind fun
        | .normal => loop hc hb rounds more
        | .returned _ => refl _
    · exact refl _

theorem inFrame {α : Type} {r r' : Run α} (frames : Option Nat) (line : Nat)
    (h : Extends r r') : Extends (Run.inFrame frames line r) (Run.inFrame frames line r') := by
  intro m
  unfold Run.inFrame
  by_cases full : frames.any (· ≤ m.callDepth)
  · exact .inr (by simp [full])
  · simp only [full]
    rcases h { m with callDepth := m.callDepth + 1 } with h | h
    · left
      generalize r { m with callDepth := m.callDepth + 1 } = x at h
      rcases x with _ | ⟨_ | _, _⟩ <;> simp_all [IsOutOfFuel]
    · exact .inr (by simp [h])

theorem call {f f' : Stmt → ScopeId → Run Flow} (h : ∀ s id, Extends (f s id) (f' s id))
    (frames : Option Nat) (callee : Value) (arguments : List Value) (line : Nat) :
    Extends (Run.call frames f callee arguments line)
      (Run.call frames f' callee arguments line) := by
  unfold Run.call
  split
  · exact (refl _).bind fun _ => inFrame _ _ <| (refl _).bind fun _ =>
      (sequence (fun s => h s _) _).bind fun _ => refl _
  · exact refl _
  · exact refl _

end Extends

end Run

open Run

/-- Evaluation and execution with more fuel, at once because each calls the
other. -/
theorem extends_add (frames : Option Nat) (more : Nat) : ∀ fuel,
    (∀ e id, Extends (eval frames fuel e id) (eval frames (fuel + more) e id)) ∧
      ∀ s id, Extends (exec frames fuel s id) (exec frames (fuel + more) s id) := by
  intro fuel
  induction fuel with
  | zero =>
    exact ⟨fun _ _ _ => .inl (by simp [eval, outOfFuel, IsOutOfFuel]),
      fun _ _ _ => .inl (by simp [exec, outOfFuel, IsOutOfFuel])⟩
  | succ fuel ih =>
    obtain ⟨he, hs⟩ := ih
    rw [Nat.add_right_comm]
    constructor
    · intro e id
      cases e with
      | assign name value => exact (he _ _).bind fun _ => .refl _
      | binary left operator right =>
        exact (he _ _).bind fun _ => (he _ _).bind fun _ => .refl _
      | call callee paren arguments =>
        exact (he _ _).bind fun _ =>
          (Extends.each (fun a => he a id) arguments).bind fun _ => .call hs _ _ _ _
      | grouping inner => exact he inner id
      | literal value => exact .refl _
      | logical left operator right =>
        refine (he _ _).bind fun _ => (Extends.refl _).bind fun _ => ?_
        split
        · exact .refl _
        · exact he _ _
      | unary operator operand => exact (he _ _).bind fun _ => .refl _
      | identifier name => exact .refl _
    · intro s id
      cases s with
      | block statements =>
        exact (Extends.refl _).bind fun inner => .sequence (fun s => hs s inner) statements
      | expression value => exact (he _ _).bind fun _ => .refl _
      | function name params body => exact .refl _
      | ifThen condition thenBranch =>
        refine (he _ _).bind fun _ => ?_
        split
        · exact hs _ _
        · exact .refl _
      | ifElse condition thenBranch elseBranch =>
        refine (he _ _).bind fun _ => ?_
        split
        · exact hs _ _
        · exact hs _ _
      | print value => exact (he _ _).bind fun _ => .refl _
      | returns keyword value =>
        cases value with
        | none => exact .refl _
        | some value => exact (he _ _).bind fun _ => .refl _
      | var name initial => exact (he _ _).bind fun _ => .refl _
      | whileLoop condition body => exact .loop (he condition id) (hs body id) fuel more

theorem extends_eval {frames : Option Nat} {fuel fuel' : Nat} (h : fuel ≤ fuel') (e : Expr)
    (id : ScopeId) : Extends (eval frames fuel e id) (eval frames fuel' e id) := by
  obtain ⟨more, rfl⟩ := Nat.exists_eq_add_of_le h
  exact (extends_add frames more fuel).1 e id

theorem extends_exec {frames : Option Nat} {fuel fuel' : Nat} (h : fuel ≤ fuel') (s : Stmt)
    (id : ScopeId) : Extends (exec frames fuel s id) (exec frames fuel' s id) := by
  obtain ⟨more, rfl⟩ := Nat.exists_eq_add_of_le h
  exact (extends_add frames more fuel).2 s id

/-! ## Statements at the top level -/

theorem extends_interpretIn {frames : Option Nat} {fuel fuel' : Nat} (h : fuel ≤ fuel')
    (id : ScopeId) (s : Stmt) :
    Extends (interpretIn frames fuel id s) (interpretIn frames fuel' id s) := by
  cases s with
  | expression value => exact extends_eval h value id
  | _ => exact (extends_exec h _ id).bind fun _ => .refl _

theorem extends_interpretAll {frames : Option Nat} {fuel fuel' : Nat} (h : fuel ≤ fuel') :
    ∀ program, Extends (interpretAll frames fuel program) (interpretAll frames fuel' program)
  | [] => .refl _
  | s :: rest => (extends_interpretIn h Machine.globals s).bind fun _ => extends_interpretAll h rest

end Scriptlet
