/-
# Relations that evaluation keeps

Evaluation is written with a few operations on the machine and a few ways to put
runs together.  So what can be said of each of the operations, and is kept by
putting runs together, holds of evaluation as a whole.  It is said here of a run
with one limit on frames and of the run of the same code, with another limit
perhaps, that tells of itself (`Run.Compositional`).  A property of single runs is
one of these relations that looks at one of the two only.

The first of these relations is that both runs are the same.  It says that a trace
is a trace of evaluation (`Told.eval_run`): the calls, the arguments and the scopes
that it tells of are those of `Run.call` (`Told.call_run`).
-/
import Scriptlet.Proofs.Run.Trace

namespace Scriptlet

/-- The act is neither a call nor a print. -/
def Act.quiet : Act → Bool
  | calls .. | prints .. => false
  | _ => true

namespace Run

/-- The relation holds between the operations on the machine, and is kept by
putting runs together and by telling of a quiet act before. -/
structure Compositional (frames frames' : Option Nat)
    (R : (α : Type) → Run α → Told α → Prop) : Prop where
  pure : ∀ {α : Type} (a : α), R α (Pure.pure a) (Pure.pure a)
  outOfFuel : ∀ {α : Type}, R α Run.outOfFuel (.silent Run.outOfFuel)
  fail : ∀ {α : Type} (e : RuntimeError), R α (Run.fail e) (.silent (Run.fail e))
  openScope : ∀ outer bindings,
    R ScopeId (Run.openScope outer bindings) (.openScope outer bindings)
  define : ∀ id name value, R Unit (Run.define id name value) (.silent (Run.define id name value))
  lookup : ∀ id name, R Value (Run.lookup id name) (.silent (Run.lookup id name))
  assign : ∀ id name value, R Unit (Run.assign id name value) (.silent (Run.assign id name value))
  newFunction : ∀ name params body scope,
    R Value (Run.newFunction name params body scope) (.newFunction name params body scope)
  native : ∀ f arguments line,
    R Value (Run.native f arguments line) (.silent (Run.native f arguments line))
  print : ∀ scope text, R Unit (Run.print text) (.print scope text)
  first : ∀ {α : Type} {run : Run α} {told : Told α} {act : Act}, act.quiet = true →
    R α run told → R α run (told.first act)
  bind : ∀ {α β : Type} {run : Run α} {told : Told α} {k : α → Run β} {k' : α → Told β},
    R α run told → (∀ a, R β (k a) (k' a)) → R β (run >>= k) (told >>= k')
  inFrame : ∀ {α : Type} {run : Run α} {told : Told α} (f : Closure) (line : Nat),
    R α run told → R α (Run.inFrame frames line run) (told.inFrame frames' f line)

namespace Compositional

variable {frames frames' : Option Nat} {R : (α : Type) → Run α → Told α → Prop} {α β : Type}

/-! ## Putting runs together -/

theorem ofExcept (c : Compositional frames frames' R) (r : Except RuntimeError α) :
    R α (Run.ofExcept r) (.silent (Run.ofExcept r)) := by
  cases r with
  | ok a => exact c.pure a
  | error e => exact c.fail e

theorem checkArity (c : Compositional frames frames' R) (expected found line : Nat) :
    R Unit (Run.checkArity expected found line) (.silent (Run.checkArity expected found line)) := by
  unfold Run.checkArity
  split
  · exact c.pure ()
  · exact c.fail _

theorem each (c : Compositional frames frames' R) {f : β → Run α} {f' : β → Told α}
    (h : ∀ b, R α (f b) (f' b)) : ∀ bs, R (List α) (Run.each f bs) (Told.each f' bs)
  | [] => c.pure []
  | b :: bs => c.bind (h b) fun _ => c.bind (c.each h bs) fun _ => c.pure _

theorem sequence (c : Compositional frames frames' R) {f : Stmt → Run Flow} {f' : Stmt → Told Flow}
    (h : ∀ s, R Flow (f s) (f' s)) : ∀ statements,
      R Flow (Run.sequence f statements) (Told.sequence f' statements)
  | [] => c.pure Flow.normal
  | s :: statements => c.bind (h s) fun
    | .normal => c.sequence h statements
    | .returned value => c.pure (Flow.returned value)

theorem loop (c : Compositional frames frames' R) {condition : Run Value}
    {condition' : Told Value} (hc : R Value condition condition') {body : Run Flow}
    {body' : Told Flow} (hb : R Flow body body') : ∀ rounds,
      R Flow (Run.loop condition body rounds) (Told.loop condition' body' rounds)
  | 0 => c.outOfFuel
  | rounds + 1 => c.bind hc fun value => by
    split
    · exact c.bind hb fun
        | .normal => c.loop hc hb rounds
        | .returned value => c.pure (Flow.returned value)
    · exact c.pure Flow.normal

theorem call (c : Compositional frames frames' R) {f : Stmt → ScopeId → Run Flow}
    {f' : Stmt → ScopeId → Told Flow} (h : ∀ s id, R Flow (f s id) (f' s id))
    (callee : Value) (arguments : List Value) (line : Nat) :
    R Value (Run.call frames f callee arguments line)
      (Told.call frames' f' callee arguments line) := by
  cases callee with
  | function g =>
    refine c.bind (c.checkArity _ _ _) fun _ => c.first rfl (c.inFrame g line ?_)
    refine c.bind (c.openScope _ _) fun scope => c.first rfl ?_
    exact c.bind (c.sequence (fun s => h s scope) g.body) fun flow => c.pure flow.value
  | native g => exact c.bind (c.checkArity _ _ _) fun _ => c.native g arguments line
  | _ => exact c.fail _

/-! ## Evaluation -/

/-- Evaluation and execution, at once because each calls the other. -/
theorem eval_exec (c : Compositional frames frames' R) : ∀ fuel,
    (∀ e id, R Value (eval frames fuel e id) (Told.eval frames' fuel e id)) ∧
      ∀ s id, R Flow (exec frames fuel s id) (Told.exec frames' fuel s id) := by
  intro fuel
  induction fuel with
  | zero => exact ⟨fun _ _ => c.outOfFuel, fun _ _ => c.outOfFuel⟩
  | succ fuel ih =>
    obtain ⟨he, hs⟩ := ih
    constructor
    · intro e id
      cases e with
      | assign name value =>
        refine c.bind (he value id) fun v => c.bind ?_ fun _ => c.pure v
        exact c.first rfl (c.assign id name v)
      | binary left operator right =>
        exact c.bind (he left id) fun _ => c.bind (he right id) fun _ => c.ofExcept _
      | call callee paren arguments =>
        exact c.bind (he callee id) fun f =>
          c.bind (c.each (fun a => he a id) arguments) fun vs => c.call hs f vs paren.line
      | grouping inner => exact he inner id
      | literal value => exact c.pure _
      | logical left operator right =>
        refine c.bind (he left id) fun v => c.bind (c.ofExcept _) fun decided => ?_
        split
        · exact c.pure v
        · exact he right id
      | unary operator operand => exact c.bind (he operand id) fun _ => c.ofExcept _
      | identifier name => exact c.first rfl (c.lookup id name)
    · intro s id
      cases s with
      | block statements =>
        exact c.bind (c.openScope _ _) fun inner => c.sequence (fun s => hs s inner) statements
      | expression value => exact c.bind (he value id) fun _ => c.pure _
      | function name params body =>
        refine c.bind (c.newFunction name params body id) fun f => c.bind ?_ fun _ => c.pure _
        exact c.first rfl (c.define _ _ _)
      | ifThen condition thenBranch =>
        refine c.bind (he condition id) fun _ => ?_
        split
        · exact hs thenBranch id
        · exact c.pure _
      | ifElse condition thenBranch elseBranch =>
        refine c.bind (he condition id) fun _ => ?_
        split
        · exact hs thenBranch id
        · exact hs elseBranch id
      | print value =>
        exact c.bind (he value id) fun v => c.bind (c.print id v.text) fun _ => c.pure _
      | returns keyword value =>
        cases value with
        | none => exact c.pure _
        | some value => exact c.bind (he value id) fun _ => c.pure _
      | var name initial =>
        refine c.bind (he initial id) fun v => c.bind ?_ fun _ => c.pure _
        exact c.first rfl (c.define _ _ _)
      | whileLoop condition body => exact c.loop (he condition id) (hs body id) fuel

theorem interpretIn (c : Compositional frames frames' R) (fuel : Nat) (id : ScopeId) (s : Stmt) :
    R Value (interpretIn frames fuel id s) (Told.interpretIn frames' fuel id s) := by
  obtain ⟨he, hs⟩ := c.eval_exec fuel
  cases s with
  | expression value => exact he value id
  | _ => exact c.bind (hs _ id) fun flow => c.pure flow.value

theorem interpretAll (c : Compositional frames frames' R) (fuel : Nat) : ∀ program,
    R Unit (interpretAll frames fuel program) (Told.interpretAll frames' fuel program)
  | [] => c.pure ()
  | s :: rest => c.bind (c.interpretIn fuel Machine.globals s) fun _ => c.interpretAll fuel rest

end Compositional

/-! ## Traces are of evaluation -/

/-- Putting together runs that tell of themselves is putting together the runs. -/
theorem told_compositional (frames : Option Nat) :
    Compositional frames frames fun _ run told => told.run = run where
  pure _ := rfl
  outOfFuel := rfl
  fail _ := rfl
  openScope _ _ := rfl
  define _ _ _ := rfl
  lookup _ _ := rfl
  assign _ _ _ := rfl
  newFunction _ _ _ _ := rfl
  native _ _ _ := rfl
  print _ _ := rfl
  first _ same := same
  bind same rest := by
    cases same
    cases funext rest
    rfl
  inFrame _ line same := congrArg (Run.inFrame frames line) same

end Run

namespace Told

open Run

variable (frames : Option Nat) (fuel : Nat)

/-- What is told of a call is told of `Run.call`: of its check that there are as
many arguments as parameters, of its frame, of the scope that it makes for the
parameters, and of the body that it runs there. -/
theorem call_run (exec : Stmt → ScopeId → Told Flow) (callee : Value) (arguments : List Value)
    (line : Nat) : (call frames exec callee arguments line).run =
      Run.call frames (fun s id => (exec s id).run) callee arguments line :=
  (told_compositional frames).call (fun _ _ => rfl) callee arguments line

theorem eval_run (e : Expr) (id : ScopeId) :
    (eval frames fuel e id).run = Scriptlet.eval frames fuel e id :=
  ((told_compositional frames).eval_exec fuel).1 e id

theorem exec_run (s : Stmt) (id : ScopeId) :
    (exec frames fuel s id).run = Scriptlet.exec frames fuel s id :=
  ((told_compositional frames).eval_exec fuel).2 s id

theorem interpretIn_run (id : ScopeId) (s : Stmt) :
    (interpretIn frames fuel id s).run = Scriptlet.interpretIn frames fuel id s :=
  (told_compositional frames).interpretIn fuel id s

theorem interpretAll_run (program : Program) :
    (interpretAll frames fuel program).run = Scriptlet.interpretAll frames fuel program :=
  (told_compositional frames).interpretAll fuel program

end Told

end Scriptlet
