/-
# A run does not look at lines

Lines go through a run untouched: from the tokens of a program into the errors
that it stops with and the functions that it leaves behind, and nothing is
decided by them.  So if all lines are moved before a run, in the program and in
everything the machine holds, the run is the same but for the lines, which are
moved in its result (`moves_eval_exec`).
-/
import Scriptlet.Session
import Scriptlet.Proofs.Run.Outcome
import Scriptlet.Proofs.Scopes.Changes
import Scriptlet.Proofs.Tree.Relined

namespace Scriptlet

/-! ## Moving the lines of a machine -/

/-- The function with every token on the line that `φ` gives for its own. -/
def Closure.relined (φ : Nat → Nat) (f : Closure) : Closure :=
  { f with
    name := f.name.relined φ
    params := f.params.map (Token.relined φ)
    body := Stmt.relinedAll φ f.body }

def Value.relined (φ : Nat → Nat) : Value → Value
  | .function f => .function (f.relined φ)
  | value => value

def Bindings.relined (φ : Nat → Nat) (bindings : Bindings) : Bindings :=
  bindings.map fun (name, value) => (name, value.relined φ)

def Scope.relined (φ : Nat → Nat) (scope : Scope) : Scope :=
  { scope with bindings := scope.bindings.relined φ }

def Scopes.relined (φ : Nat → Nat) (scopes : Scopes) : Scopes := scopes.map (Scope.relined φ)

/-- The machine with every token of every function on the line that `φ` gives
for its own. -/
def Machine.relined (φ : Nat → Nat) (m : Machine) : Machine :=
  { m with scopes := m.scopes.relined φ }

def Flow.relined (φ : Nat → Nat) : Flow → Flow
  | .normal => .normal
  | .returned value => .returned (value.relined φ)

/-- The error with the line that `φ` gives for its own. -/
def RuntimeError.relined (φ : Nat → Nat) : RuntimeError → RuntimeError
  | undefinedVariable name line => undefinedVariable name (φ line)
  | arityMismatch expected found line => arityMismatch expected found (φ line)
  | invalidOperand fault line => invalidOperand fault (φ line)
  | divisionByZero line => divisionByZero (φ line)
  | notCallable line => notCallable (φ line)
  | stackOverflow line => stackOverflow (φ line)
  | native name fault line => native name fault (φ line)
  | output reason => output reason

def Stop.map {ε ε' : Type} (f : ε → ε') : Stop ε → Stop ε'
  | failed error => failed (f error)
  | outOfFuel => outOfFuel

/-- A result with its lines moved: `f` and `g` move those of the value and of
the error. -/
def moved {α β ε : Type} (φ : Nat → Nat) (f : α → β) (g : ε → ε) :
    EStateM.Result (Stop ε) Machine α → EStateM.Result (Stop ε) Machine β
  | .ok a m => .ok (f a) (m.relined φ)
  | .error e m => .error (e.map g) (m.relined φ)

variable {φ ψ : Nat → Nat}

/-! ## Twice and not at all -/

theorem Value.relined_relined (value : Value) :
    (value.relined φ).relined ψ = value.relined (ψ ∘ φ) := by
  cases value with
  | function f =>
    have bodies : Stmt.relinedAll ψ (Stmt.relinedAll φ f.body) = Stmt.relinedAll (ψ ∘ φ) f.body :=
      Stmt.relinedAll_relinedAll fun s _ => s.relined_relined
    simp only [relined, Closure.relined, Token.relined_relined, List.map_map, bodies]
    rfl
  | _ => rfl

theorem Value.relined_id (value : Value) : value.relined id = value := by
  cases value with
  | function f =>
    have bodies : Stmt.relinedAll id f.body = f.body :=
      Stmt.relinedAll_id fun s _ => s.relined_id
    have params : f.params.map (Token.relined id) = f.params := List.map_id' f.params
    simp only [relined, Closure.relined, Token.relined_id, bodies, params]
  | _ => rfl

theorem Scope.relined_relined (scope : Scope) :
    (scope.relined φ).relined ψ = scope.relined (ψ ∘ φ) := by
  unfold relined Bindings.relined
  rw [List.map_map]
  simp only [Function.comp_def, Value.relined_relined]

theorem Scope.relined_id (scope : Scope) : scope.relined id = scope := by
  unfold relined Bindings.relined
  simp only [Value.relined_id, List.map_id']

theorem Machine.relined_relined (m : Machine) :
    (m.relined φ).relined ψ = m.relined (ψ ∘ φ) := by
  unfold relined Scopes.relined
  rw [Array.map_map]
  simp only [Function.comp_def, Scope.relined_relined]

theorem Machine.relined_id (m : Machine) : m.relined id = m := by
  have scopes : m.scopes.map (Scope.relined id) = m.scopes :=
    Array.map_id'' Scope.relined_id m.scopes
  unfold relined Scopes.relined
  rw [scopes]

/-! ## Scopes -/

namespace Bindings

theorem get?_relined (name : String) (bindings : Bindings) :
    get? name (bindings.relined φ) = (bindings.get? name).map (Value.relined φ) := by
  induction bindings with
  | nil => rfl
  | cons binding rest ih =>
    obtain ⟨key, value⟩ := binding
    show (if key = name then _ else get? name (relined φ rest)) = Option.map _ (if _ then _ else _)
    split
    · rfl
    · exact ih

theorem insert_relined (φ : Nat → Nat) (name : String) (value : Value) (bindings : Bindings) :
    insert name (value.relined φ) (bindings.relined φ) =
      (bindings.insert name value).relined φ := by
  induction bindings with
  | nil => rfl
  | cons binding rest ih =>
    obtain ⟨key, old⟩ := binding
    show (if key = name then _ else (key, old.relined φ) :: insert _ _ (relined φ rest)) =
      relined φ (if key = name then _ else _)
    split
    · rfl
    · rw [ih]
      rfl

theorem ofLists_relined (names : List String) (values : List Value) :
    ofLists names (values.map (Value.relined φ)) = (ofLists names values).relined φ := by
  unfold ofLists
  rw [List.zip_map_right, List.foldl_map]
  suffices ∀ (pairs : List (String × Value)) (bindings : Bindings),
      pairs.foldl (fun bindings pair => bindings.insert pair.1 (pair.2.relined φ))
        (bindings.relined φ) =
      (pairs.foldl (fun bindings pair => bindings.insert pair.1 pair.2) bindings).relined φ from
    this _ []
  intro pairs
  induction pairs with
  | nil => exact fun _ => rfl
  | cons pair pairs ih =>
    intro bindings
    rw [List.foldl_cons, List.foldl_cons, insert_relined, ih]

end Bindings

namespace Scopes

variable (φ : Nat → Nat) (scopes : Scopes) (id : ScopeId) (name : String)

theorem size_relined : (scopes.relined φ).size = scopes.size := Array.size_map

theorem local?_relined : (scopes.relined φ).local? id name =
    (scopes.local? id name).map (Value.relined φ) := by
  unfold local? relined
  rw [Array.getElem?_map]
  cases scopes[id]? with
  | none => rfl
  | some scope => exact Bindings.get?_relined name scope.bindings

theorem outer?_relined : (scopes.relined φ).outer? id = scopes.outer? id := by
  unfold outer? relined
  rw [Array.getElem?_map]
  cases scopes[id]? <;> rfl

theorem resolve_relined : (scopes.relined φ).resolve id name = scopes.resolve id name := by
  unfold resolve
  rw [size_relined]
  suffices ∀ steps id, (scopes.relined φ).resolveWithin name steps id =
      scopes.resolveWithin name steps id from this _ id
  intro steps
  induction steps with
  | zero => exact fun _ => rfl
  | succ steps ih =>
    intro id
    rw [resolveWithin_succ, resolveWithin_succ, local?_relined, outer?_relined, Option.isSome_map,
      funext ih]

theorem get?_relined : (scopes.relined φ).get? id name =
    (scopes.get? id name).map (Value.relined φ) := by
  unfold get?
  rw [resolve_relined]
  cases scopes.resolve id name with
  | none => rfl
  | some home => exact local?_relined φ scopes home name

theorem define_relined (value : Value) : (scopes.relined φ).define id name (value.relined φ) =
    (scopes.define id name value).relined φ := by
  unfold define relined
  refine Array.ext_getElem? fun other => ?_
  rw [Array.getElem?_modify, Array.getElem?_map, Array.getElem?_map, Array.getElem?_modify]
  split
  · cases scopes[other]? with
    | none => rfl
    | some scope =>
      have bindings := Bindings.insert_relined φ name value scope.bindings
      exact congrArg (fun bindings => some (Scope.mk bindings scope.enclosing)) bindings
  · rfl

theorem push_relined (scope : Scope) :
    relined φ (scopes.push scope) = (scopes.relined φ).push (scope.relined φ) :=
  Array.map_push

end Scopes

/-! ## Values -/

/-- What is computed from values alone, with its lines moved. -/
def movedExcept {α β : Type} (φ : Nat → Nat) (f : α → β) :
    Except RuntimeError α → Except RuntimeError β
  | .ok a => .ok (f a)
  | .error e => .error (e.relined φ)

namespace Value

variable (value left right : Value) (operator : Token)

theorem isTruthy_relined : (value.relined φ).isTruthy = value.isTruthy := by
  cases value <;> rfl

theorem text_relined : (value.relined φ).text = value.text := by
  cases value <;> rfl

theorem ofLiteral_relined (literal : Literal) :
    (ofLiteral literal).relined φ = ofLiteral literal := by
  cases literal <;> rfl

theorem equals_relined : (left.relined φ).equals (right.relined φ) = left.equals right := by
  cases left <;> cases right <;> rfl

theorem onNumbers_relined (line : Nat)
    {operation operation' : Float → Float → Except RuntimeError Value}
    (h : ∀ a b, operation' a b = movedExcept φ (relined φ) (operation a b)) :
    onNumbers (φ line) operation' (left.relined φ) (right.relined φ) =
      movedExcept φ (relined φ) (onNumbers line operation left right) := by
  cases left <;> cases right <;> first | exact h _ _ | rfl

theorem plus_relined (line : Nat) : plus (φ line) (left.relined φ) (right.relined φ) =
    movedExcept φ (relined φ) (plus line left right) := by
  cases left <;> cases right <;> rfl

theorem binary_relined : (left.relined φ).binary (operator.relined φ) (right.relined φ) =
    movedExcept φ (relined φ) (left.binary operator right) := by
  unfold binary
  dsimp only [Token.relined_kind, Token.relined_line, Token.relined_lexeme]
  rw [equals_relined]
  split
  case h_1 => exact plus_relined left right operator.line
  case h_4 =>
    refine onNumbers_relined left right operator.line fun a b => ?_
    split <;> rfl
  all_goals first | exact onNumbers_relined left right operator.line fun _ _ => rfl | rfl

theorem unary_relined : (value.relined φ).unary (operator.relined φ) =
    movedExcept φ (relined φ) (value.unary operator) := by
  unfold unary
  rw [isTruthy_relined, Token.relined_kind, Token.relined_line, Token.relined_lexeme]
  cases value <;> cases operator.kind <;> rfl

theorem decides_relined : (value.relined φ).decides (operator.relined φ) =
    movedExcept φ id (value.decides operator) := by
  unfold decides
  rw [isTruthy_relined, Token.relined_kind, Token.relined_line, Token.relined_lexeme]
  split <;> rfl

end Value

theorem Native.apply_relined (f : Native) (arguments : List Value) :
    f.apply (arguments.map (Value.relined φ)) = (f.apply arguments).map (Value.relined φ) := by
  rcases arguments with _ | ⟨value, _ | ⟨value', rest⟩⟩
  · cases f <;> rfl
  · cases f with
    | clock => rfl
    | squareRoot => cases value <;> rfl
    | textOf => exact congrArg (fun text => pure (Value.string text)) value.text_relined
  · cases f with
    | clock => rfl
    | squareRoot => cases value <;> rfl
    | textOf => rfl

namespace Run

variable {α β α' β' : Type} {f : α → α'} {g : β → β'} {run : Run α} {run' : Run α'}

/-- The second run is the first with all lines moved, from a machine with its
lines moved; `f` moves those of the value. -/
def Moves (φ : Nat → Nat) (f : α → α') (run : Run α) (run' : Run α') : Prop :=
  ∀ m, run' (m.relined φ) = moved φ f (RuntimeError.relined φ) (run m)

namespace Moves

theorem pure (a : α) : Moves φ f (Pure.pure a) (Pure.pure (f a)) := fun _ => rfl

theorem outOfFuel : Moves φ f Run.outOfFuel Run.outOfFuel := fun _ => rfl

theorem normal : Moves φ (Flow.relined φ) (Pure.pure .normal) (Pure.pure .normal) :=
  pure Flow.normal

theorem returned (value : Value) : Moves φ (Flow.relined φ) (Pure.pure (.returned value))
    (Pure.pure (.returned (value.relined φ))) :=
  pure (Flow.returned value)

theorem fail (e : RuntimeError) : Moves φ f (Run.fail e) (Run.fail (e.relined φ)) := fun _ => rfl

theorem ofExcept (result : Except RuntimeError α) :
    Moves φ f (Run.ofExcept result) (Run.ofExcept (movedExcept φ f result)) := by
  cases result with
  | ok a => exact pure a
  | error e => exact fail e

theorem openScope (outer : ScopeId) (bindings : Bindings) :
    Moves φ id (Run.openScope outer bindings) (Run.openScope outer (bindings.relined φ)) := by
  intro m
  have added := Scopes.push_relined φ m.scopes ⟨bindings, some outer⟩
  have count := Scopes.size_relined φ m.scopes
  show EStateM.Result.ok (m.relined φ).scopes.size
    { m with scopes := (m.scopes.relined φ).push (Scope.relined φ ⟨bindings, some outer⟩) } = _
  rw [← added]
  exact congrArg (EStateM.Result.ok · _) count

theorem define (scope : ScopeId) (name : String) (value : Value) :
    Moves φ id (Run.define scope name value) (Run.define scope name (value.relined φ)) := by
  intro m
  have changed := Scopes.define_relined φ m.scopes scope name value
  show EStateM.Result.ok ()
    { m with scopes := (m.scopes.relined φ).define scope name (value.relined φ) } = _
  rw [changed]
  rfl

theorem lookup (scope : ScopeId) (name : Token) :
    Moves φ (Value.relined φ) (Run.lookup scope name) (Run.lookup scope (name.relined φ)) := by
  intro m
  have found : (m.relined φ).scopes.get? scope (name.relined φ).lexeme = _ :=
    Scopes.get?_relined φ m.scopes scope name.lexeme
  unfold Run.lookup
  rw [found]
  cases m.scopes.get? scope name.lexeme <;> rfl

theorem assign (scope : ScopeId) (name : Token) (value : Value) :
    Moves φ id (Run.assign scope name value)
      (Run.assign scope (name.relined φ) (value.relined φ)) := by
  intro m
  have found : (m.relined φ).scopes.resolve scope (name.relined φ).lexeme = _ :=
    Scopes.resolve_relined φ m.scopes scope name.lexeme
  unfold Run.assign
  rw [found]
  cases m.scopes.resolve scope name.lexeme with
  | none => rfl
  | some home => exact define home name.lexeme value m

theorem newFunction (name : Token) (params : List Token) (body : List Stmt) (scope : ScopeId) :
    Moves φ (Value.relined φ) (Run.newFunction name params body scope)
      (Run.newFunction (name.relined φ) (params.map (Token.relined φ)) (Stmt.relinedAll φ body)
        scope) :=
  fun _ => rfl

theorem native (f : Native) (arguments : List Value) (line : Nat) :
    Moves φ (Value.relined φ) (Run.native f arguments line)
      (Run.native f (arguments.map (Value.relined φ)) (φ line)) := by
  intro m
  have clock : (m.relined φ).clock = m.clock := rfl
  unfold Run.native
  rw [Native.apply_relined, clock, EStateM.map]
  cases f.apply arguments m.clock <;> rfl

theorem print (text : String) : Moves φ id (Run.print text) (Run.print text) := by
  intro m
  unfold Run.print
  show (if m.sink.fits _ then _ else _) = moved φ _ _ (if m.sink.fits _ then _ else _)
  split <;> rfl

theorem checkArity (expected found line : Nat) :
    Moves φ id (Run.checkArity expected found line) (Run.checkArity expected found (φ line)) := by
  unfold Run.checkArity
  split
  · exact pure ()
  · exact fail _

/-! ## Runs one after another -/

theorem bind {k : α → Run β} {k' : α' → Run β'} (h : Moves φ f run run')
    (hk : ∀ a, Moves φ g (k a) (k' (f a))) : Moves φ g (run >>= k) (run' >>= k') := by
  intro m
  rw [bind_apply, bind_apply, h m]
  cases run m with
  | ok a m' => exact hk a m'
  | error e m' => rfl

/-- If what comes first gives nothing that lines are in. -/
theorem andThen {k : α → Run β} {k' : α → Run β'} {run' : Run α} (h : Moves φ id run run')
    (hk : ∀ a, Moves φ g (k a) (k' a)) : Moves φ g (run >>= k) (run' >>= k') :=
  h.bind hk

theorem each {ι ι' : Type} {move : ι → ι'} {run : ι → Run α} {run' : ι' → Run α'}
    (h : ∀ i, Moves φ f (run i) (run' (move i))) (is : List ι) :
    Moves φ (List.map f) (Run.each run is) (Run.each run' (is.map move)) := by
  induction is with
  | nil => exact pure []
  | cons i is ih => exact (h i).bind fun a => ih.bind fun as => pure (a :: as)

theorem sequence {exec exec' : Stmt → Run Flow}
    (h : ∀ s, Moves φ (Flow.relined φ) (exec s) (exec' (s.relined φ))) (statements : List Stmt) :
    Moves φ (Flow.relined φ) (Run.sequence exec statements)
      (Run.sequence exec' (Stmt.relinedAll φ statements)) := by
  induction statements with
  | nil => exact normal
  | cons s statements ih =>
    refine (h s).bind fun flow => ?_
    cases flow with
    | normal => exact ih
    | returned value => exact returned value

theorem loop {c c' : Run Value} {b b' : Run Flow} (hc : Moves φ (Value.relined φ) c c')
    (hb : Moves φ (Flow.relined φ) b b') (rounds : Nat) :
    Moves φ (Flow.relined φ) (Run.loop c b rounds) (Run.loop c' b' rounds) := by
  induction rounds with
  | zero => exact outOfFuel
  | succ rounds ih =>
    refine hc.bind fun value => ?_
    rw [value.isTruthy_relined]
    split
    · refine hb.bind fun flow => ?_
      cases flow with
      | normal => exact ih
      | returned value => exact returned value
    · exact normal

theorem inFrame (frames : Option Nat) (line : Nat) (h : Moves φ f run run') :
    Moves φ f (Run.inFrame frames line run) (Run.inFrame frames (φ line) run') := by
  intro m
  unfold Run.inFrame
  dsimp only
  show (if frames.any (· ≤ m.callDepth) then _ else _) = moved φ f _ (if _ then _ else _)
  split
  · rfl
  · have body : run' { m.relined φ with callDepth := (m.relined φ).callDepth + 1 } = _ :=
      h { m with callDepth := m.callDepth + 1 }
    rw [body]
    cases run { m with callDepth := m.callDepth + 1 } <;> rfl

theorem call {exec exec' : Stmt → ScopeId → Run Flow}
    (h : ∀ s scope, Moves φ (Flow.relined φ) (exec s scope) (exec' (s.relined φ) scope))
    (frames : Option Nat) (callee : Value) (arguments : List Value) (line : Nat) :
    Moves φ (Value.relined φ) (Run.call frames exec callee arguments line)
      (Run.call frames exec' (callee.relined φ) (arguments.map (Value.relined φ)) (φ line)) := by
  cases callee with
  | function f =>
    have names : (f.relined φ).params.map (·.lexeme) = f.params.map (·.lexeme) := by
      show (f.params.map _).map _ = _
      rw [List.map_map]
      rfl
    have arity : (f.relined φ).arity = f.arity := List.length_map _
    show Moves φ (Value.relined φ) _ (Run.checkArity (f.relined φ).arity _ _ >>= fun _ => _)
    rw [arity, List.length_map]
    refine (checkArity f.arity arguments.length line).andThen fun _ => ?_
    refine inFrame frames line ?_
    rw [names, Bindings.ofLists_relined]
    refine (openScope f.scope _).andThen fun scope => ?_
    refine (sequence (fun s => h s scope) f.body).bind fun flow => ?_
    cases flow <;> exact pure _
  | native f =>
    show Moves φ (Value.relined φ) _ (Run.checkArity _ _ _ >>= fun _ => _)
    rw [List.length_map]
    exact (checkArity f.arity arguments.length line).andThen fun _ => native f arguments line
  | _ => exact fail _

end Moves

end Run

/-! ## Evaluation -/

open Run

/-- Evaluation and execution, at once because each calls the other. -/
theorem moves_eval_exec (φ : Nat → Nat) (frames : Option Nat) : ∀ fuel,
    (∀ e scope, Moves φ (Value.relined φ) (eval frames fuel e scope)
      (eval frames fuel (e.relined φ) scope)) ∧
    ∀ s scope, Moves φ (Flow.relined φ) (exec frames fuel s scope)
      (exec frames fuel (s.relined φ) scope) := by
  intro fuel
  induction fuel with
  | zero => exact ⟨fun _ _ => .outOfFuel, fun _ _ => .outOfFuel⟩
  | succ fuel ih =>
    obtain ⟨he, hs⟩ := ih
    constructor
    · intro e scope
      cases e with
      | assign name value =>
        refine (he value scope).bind fun v => ?_
        exact (Moves.assign scope name v).andThen fun _ => .pure v
      | binary left operator right =>
        refine (he left scope).bind fun l => (he right scope).bind fun r => ?_
        rw [Value.binary_relined]
        exact .ofExcept _
      | call callee paren arguments =>
        refine (he callee scope).bind fun function => ?_
        rw [Expr.relinedAll_eq]
        refine (Moves.each (fun e => he e scope) arguments).bind fun values => ?_
        exact .call hs frames function values paren.line
      | grouping inner => exact he inner scope
      | literal value =>
        have same : Moves φ (Value.relined φ) (Pure.pure (.ofLiteral value)) _ := .pure _
        rwa [Value.ofLiteral_relined] at same
      | logical left operator right =>
        refine (he left scope).bind fun l => ?_
        rw [Value.decides_relined]
        refine (Moves.ofExcept _).andThen fun decided => ?_
        split
        · exact .pure l
        · exact he right scope
      | unary operator operand =>
        refine (he operand scope).bind fun v => ?_
        rw [Value.unary_relined]
        exact .ofExcept _
      | identifier name => exact .lookup scope name
    · intro s scope
      cases s with
      | block statements =>
        refine (Moves.openScope scope []).andThen fun inner => ?_
        exact .sequence (fun s => hs s inner) statements
      | expression value => exact (he value scope).bind fun _ => .normal
      | function name params body =>
        refine (Moves.newFunction name params body scope).bind fun f => ?_
        exact (Moves.define scope name.lexeme f).andThen fun _ => .normal
      | ifThen condition thenBranch =>
        refine (he condition scope).bind fun v => ?_
        rw [v.isTruthy_relined]
        split
        · exact hs thenBranch scope
        · exact .normal
      | ifElse condition thenBranch elseBranch =>
        refine (he condition scope).bind fun v => ?_
        rw [v.isTruthy_relined]
        split
        · exact hs thenBranch scope
        · exact hs elseBranch scope
      | print value =>
        refine (he value scope).bind fun v => ?_
        rw [v.text_relined]
        exact (Moves.print v.text).andThen fun _ => .normal
      | returns keyword value =>
        cases value with
        | none => exact .returned .nil
        | some value => exact (he value scope).bind fun v => .returned v
      | var name initial =>
        refine (he initial scope).bind fun v => ?_
        exact (Moves.define scope name.lexeme v).andThen fun _ => .normal
      | whileLoop condition body => exact .loop (he condition scope) (hs body scope) fuel

theorem moves_interpretIn (φ : Nat → Nat) (frames : Option Nat) (fuel : Nat) (scope : ScopeId)
    (s : Stmt) : Moves φ (Value.relined φ) (interpretIn frames fuel scope s)
      (interpretIn frames fuel scope (s.relined φ)) := by
  obtain ⟨he, hs⟩ := moves_eval_exec φ frames fuel
  cases s with
  | expression value => exact he value scope
  | _ =>
    refine (hs _ scope).bind fun flow => ?_
    cases flow <;> exact .pure _

theorem moves_interpretAll (φ : Nat → Nat) (frames : Option Nat) (fuel : Nat)
    (program : Program) :
    Moves φ id (interpretAll frames fuel program)
      (interpretAll frames fuel (program.relined φ)) := by
  induction program with
  | nil => exact .pure ()
  | cons s rest ih => exact (moves_interpretIn φ frames fuel Machine.globals s).bind fun _ => ih

end Scriptlet
