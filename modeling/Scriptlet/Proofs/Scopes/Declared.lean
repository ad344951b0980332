/-
# Only declarations create names

A scope defines a name if it binds the name itself.  Assignments never change
which names a scope defines, and what blocks and calls declare is declared in
scopes of their own.  So an expression leaves the names of every scope as they
are, and a statement adds to its own scope the names that it declares there
itself: `declared` collects them from one run, and is empty for blocks and
expressions.

No name is ever taken from a scope, whatever is done to a machine, and no scope
comes to lie inside another one than before.  Therefore what resolves once
resolves for good.
-/
import Scriptlet.Proofs.Run.Discipline

namespace Scriptlet

namespace Scopes

/-- The scope itself defines the name. -/
def Binds (scopes : Scopes) (id : ScopeId) (name : String) : Prop :=
  (scopes.local? id name).isSome

section

variable {scopes : Scopes} {id other : ScopeId} {name key : String} {value : Value}

theorem Binds.lt_size (h : scopes.Binds id name) : id < scopes.size := by
  obtain ⟨value, bound⟩ := Option.isSome_iff_exists.1 h
  exact Region.lt_size_of_local? bound

theorem binds_push_iff {scope : Scope} (h : id < scopes.size) :
    Binds (scopes.push scope) id name ↔ scopes.Binds id name := by
  unfold Binds
  rw [local?_push, if_neg (Nat.ne_of_lt h)]

theorem binds_define_iff (h : id < scopes.size) :
    (scopes.define id name value).Binds other key ↔
      scopes.Binds other key ∨ other = id ∧ key = name := by
  unfold Binds
  by_cases same : id = other
  · subst same
    rw [local?_define_self h]
    split
    case isTrue here => simp only [Option.isSome_some, here, and_self, or_true]
    case isFalse ne => simp only [Ne.symm ne, and_false, or_false]
  · rw [local?_define_ne same]
    simp only [Ne.symm same, false_and, or_false]

end

/-! ## Names stay -/

/-- The scopes `b` are what the scopes `a` have grown to: they have all names
that were there, and lie inside each other as before. -/
structure Grows (a b : Scopes) : Prop where
  size_le : a.size ≤ b.size
  outer : ∀ {id outer}, a.outer? id = some outer → b.outer? id = some outer
  binds : ∀ {id name}, a.Binds id name → b.Binds id name

namespace Grows

variable {a b c : Scopes}

theorem refl (a : Scopes) : Grows a a := ⟨Nat.le_refl _, id, id⟩

theorem trans (h : Grows a b) (h' : Grows b c) : Grows a c :=
  ⟨Nat.le_trans h.size_le h'.size_le, h'.outer ∘ h.outer, h'.binds ∘ h.binds⟩

theorem push (a : Scopes) (scope : Scope) : Grows a (a.push scope) where
  size_le := by
    rw [Array.size_push]
    exact Nat.le_add_right _ _
  outer := by
    intro id outer link
    have there : id ≠ a.size := by
      rintro rfl
      rw [outer?_of_size_le (Nat.le_refl _)] at link
      cases link
    rwa [outer?_push, if_neg there]
  binds h := (binds_push_iff h.lt_size).2 h

theorem define (a : Scopes) (id : ScopeId) (name : String) (value : Value) :
    Grows a (a.define id name value) where
  size_le := Nat.le_of_eq (size_define a id name value).symm
  outer link := (outer?_define a id name value _).trans link
  binds := by
    intro other key h
    by_cases there : id < a.size
    · exact (binds_define_iff there).2 (.inl h)
    · have same : id ≠ other := fun same => there (same ▸ h.lt_size)
      unfold Binds
      rwa [local?_define_ne same]

/-- A search that finds a binding still does, though maybe a nearer one. -/
theorem resolveWithin (h : Grows a b) (name : String) : ∀ steps steps' id, steps ≤ steps' →
    (a.resolveWithin name steps id).isSome → (b.resolveWithin name steps' id).isSome := by
  intro steps
  induction steps with
  | zero => exact fun _ _ _ => nofun
  | succ steps ih =>
    intro steps' id less found
    obtain ⟨steps', rfl⟩ := Nat.exists_eq_add_of_lt less
    rw [resolveWithin_succ] at found ⊢
    split
    case isTrue => rfl
    case isFalse unbound =>
      have unbound' : ¬ (a.local? id name).isSome := fun bound => unbound (h.binds bound)
      rw [if_neg unbound'] at found
      cases link : a.outer? id with
      | none =>
        rw [link] at found
        cases found
      | some outer =>
        rw [link] at found
        rw [h.outer link]
        exact ih _ outer (Nat.le_add_right _ _) found

/-- What resolves still resolves. -/
theorem resolve (h : Grows a b) {id : ScopeId} {name : String}
    (found : (a.resolve id name).isSome) : (b.resolve id name).isSome :=
  h.resolveWithin name a.size b.size id h.size_le found

end Grows

/-! ## Names stay the same -/

/-- Every scope of `a` has the same names in `b`. -/
def SameNames (a b : Scopes) : Prop :=
  ∀ id < a.size, ∀ name, b.Binds id name ↔ a.Binds id name

/-- Grown scopes with the same names, but perhaps for those of the scope
`own`. -/
structure Kept (own : Option ScopeId) (a b : Scopes) : Prop extends Grows a b where
  names : ∀ id < a.size, own ≠ some id → ∀ name, b.Binds id name → a.Binds id name

theorem Kept.sameNames {a b : Scopes} (h : Kept none a b) : SameNames a b :=
  fun id there name => ⟨h.names id there nofun name, h.binds⟩

theorem closesOver_true {value : Value} : value.ClosesOver fun _ => True := by
  cases value <;> trivial

/-- The discipline to leave the names of others alone. -/
def kept : Discipline where
  holds _ := True
  allows _ _ := True
  later := Kept
  refl own a := ⟨.refl a, fun _ _ _ _ => id⟩
  trans h h' :=
    { h.toGrows.trans h'.toGrows with
      names := fun id there other name bound => h.names id there other name <|
        h'.names id (Nat.lt_of_lt_of_le there h.size_le) other name bound }
  widen h := { h with names := fun id there _ => h.names id there nofun }
  allows_later _ _ := trivial
  bound _ _ := closesOver_true
  opens _ _ _ := ⟨trivial, trivial⟩
  leave {a scope _} h :=
    { (Grows.push a scope).trans h.toGrows with
      names := fun id there _ name bound => by
        have inside : id < (a.push scope).size := by
          rw [Array.size_push]
          exact Nat.lt_succ_of_lt there
        -- the scope that was made is none of those that were there
        have other : some a.size ≠ some id := fun same =>
          Nat.ne_of_gt there (Option.some.inj same)
        exact (binds_push_iff there).1 (h.names id inside other name bound) }
  declares {a id name value} _ _ _ := by
    refine ⟨trivial, .define a id name value, fun other _ ne key bound => ?_⟩
    unfold Binds at bound
    rwa [local?_define_ne fun same => ne (congrArg some same)] at bound
  rebinds {a id name value} _ here _ := by
    refine ⟨trivial, .define a id name value, fun other _ _ key bound => ?_⟩
    rcases (binds_define_iff (Binds.lt_size here)).1 bound with before | ⟨rfl, rfl⟩
    · exact before
    · exact here

end Scopes

/-! ## The names that a statement declares -/

open Run Scopes Trace

/-- The names that a run of a statement declares in its own scope, by statements
that it runs directly there. -/
def declared (frames : Option Nat) : (fuel : Nat) → Stmt → ScopeId → Trace String
  | 0, _, _ => nothing
  | _ + 1, .function name _ _, _ => fun _ => [name.lexeme]
  | fuel + 1, .var name initial, scope =>
    nothing.next (eval frames fuel initial scope) fun _ _ => [name.lexeme]
  | fuel + 1, .ifThen condition thenBranch, scope =>
    nothing.next (eval frames fuel condition scope) fun value =>
      if value.isTruthy then declared frames fuel thenBranch scope else nothing
  | fuel + 1, .ifElse condition thenBranch elseBranch, scope =>
    nothing.next (eval frames fuel condition scope) fun value =>
      if value.isTruthy then declared frames fuel thenBranch scope
      else declared frames fuel elseBranch scope
  | fuel + 1, .whileLoop condition body, scope =>
    loop nothing (eval frames fuel condition scope) (declared frames fuel body scope)
      (exec frames fuel body scope) fuel
  | _ + 1, .block _, _ | _ + 1, .expression _, _ | _ + 1, .print _, _ | _ + 1, .returns _ _, _ =>
    nothing

/-- From `m`, the run makes the given scope define the names that are told, and
has no other scope define another name. -/
structure DeclaresAt {α : Type} (scope : ScopeId) (run : Run α) (names : Trace String)
    (m : Machine) : Prop where
  size_le : m.scopes.size ≤ (after run m).scopes.size
  names : ∀ id < m.scopes.size, ∀ name, (after run m).scopes.Binds id name ↔
    m.scopes.Binds id name ∨ id = scope ∧ name ∈ names m

namespace DeclaresAt

variable {α β : Type} {scope : ScopeId} {run : Run α} {names : Trace String} {m : Machine}

/-- A run that keeps all names declares none. -/
theorem none (h : Kept none m.scopes (after run m).scopes) : DeclaresAt scope run nothing m where
  size_le := h.size_le
  names id there name := by
    rw [h.sameNames id there name]
    simp only [nothing, List.not_mem_nil, and_false, or_false]

theorem pure {a : α} : DeclaresAt scope (Pure.pure a) nothing m := none (kept.refl _ m.scopes)

theorem outOfFuel : DeclaresAt scope (Run.outOfFuel : Run α) nothing m :=
  none (kept.refl _ m.scopes)

theorem print (text : String) : DeclaresAt scope (Run.print text) nothing m := by
  refine none ?_
  rw [after_print]
  exact kept.refl _ m.scopes

theorem define {name : String} {value : Value} :
    DeclaresAt scope (Run.define scope name value) (fun _ => [name]) m where
  size_le := (Grows.define m.scopes scope name value).size_le
  names := by
    intro id there key
    show (m.scopes.define scope name value).Binds id key ↔ _
    by_cases here : scope < m.scopes.size
    · rw [binds_define_iff here, List.mem_singleton]
    · have ne : scope ≠ id := fun same => here (same ▸ there)
      unfold Binds
      rw [local?_define_ne ne]
      simp only [Ne.symm ne, false_and, or_false]

theorem bind {k : α → Run β} {rest : α → Trace String} (h : DeclaresAt scope run names m)
    (hk : ∀ a, DeclaresAt scope (k a) (rest a) (after run m)) :
    DeclaresAt scope (run >>= k) (names.next run rest) m := by
  rcases next_cases names run rest k m with ⟨e, -, -, same, told⟩ | ⟨a, -, -, left, told⟩
  · constructor
    · rw [same]
      exact h.size_le
    · rw [same, told]
      exact h.names
  · have second := hk a
    constructor
    · rw [left]
      exact Nat.le_trans h.size_le second.size_le
    · intro id there name
      rw [left, second.names id (Nat.lt_of_lt_of_le there h.size_le) name,
        h.names id there name, told, List.mem_append, or_assoc, ← and_or_left]

/-- What comes last may declare nothing. -/
theorem last {k : α → Run β} (h : DeclaresAt scope run names m)
    (hk : ∀ a, DeclaresAt scope (k a) nothing (after run m)) :
    DeclaresAt scope (run >>= k) names m := by
  rw [← next_nothing names run]
  exact h.bind hk

theorem loop {c : Run Value} {b : Run Flow} (hc : ∀ m, DeclaresAt scope c nothing m)
    (hb : ∀ m, DeclaresAt scope b names m) (rounds : Nat) :
    ∀ m, DeclaresAt scope (Run.loop c b rounds) (Trace.loop nothing c names b rounds) m := by
  induction rounds with
  | zero => exact fun _ => outOfFuel
  | succ rounds ih =>
    intro m
    refine (hc m).bind fun value => ?_
    split
    · refine (hb _).bind fun flow => ?_
      cases flow with
      | normal => exact ih _
      | returned value => exact pure
    · exact pure

end DeclaresAt

theorem kept_eval (frames : Option Nat) (fuel : Nat) (e : Expr) (scope : ScopeId) (m : Machine) :
    Kept none m.scopes (after (eval frames fuel e scope) m).scopes := by
  rw [← Told.eval_run]
  exact ((obeys_eval_exec kept frames fuel).1 e scope m trivial trivial).later

theorem kept_block (frames : Option Nat) (fuel : Nat) (statements : List Stmt) (scope : ScopeId)
    (m : Machine) :
    Kept none m.scopes (after (exec frames fuel (.block statements) scope) m).scopes := by
  rw [← Told.exec_run]
  exact (obeys_block kept frames fuel trivial trivial statements).later

/-- A statement declares what `declared` tells of it. -/
theorem declaresAt_exec (frames : Option Nat) (scope : ScopeId) : ∀ fuel s m,
    DeclaresAt scope (exec frames fuel s scope) (declared frames fuel s scope) m := by
  intro fuel
  induction fuel with
  | zero => exact fun _ _ => .outOfFuel
  | succ fuel ih =>
    have evaluated : ∀ e m, DeclaresAt scope (eval frames fuel e scope) nothing m :=
      fun e m => .none (kept_eval frames fuel e scope m)
    intro s m
    cases s with
    | block statements => exact .none (kept_block frames (fuel + 1) statements scope m)
    | expression value => exact (evaluated value m).last fun _ => .pure
    | function name params body =>
      have made : DeclaresAt scope (Run.newFunction name params body scope) nothing m :=
        .none (kept.refl _ m.scopes)
      exact made.bind fun _ => DeclaresAt.define.last fun _ => .pure
    | ifThen condition thenBranch =>
      refine (evaluated condition m).bind fun value => ?_
      split
      · exact ih thenBranch _
      · exact .pure
    | ifElse condition thenBranch elseBranch =>
      refine (evaluated condition m).bind fun value => ?_
      split
      · exact ih thenBranch _
      · exact ih elseBranch _
    | print value =>
      refine (evaluated value m).last fun v => ?_
      exact (DeclaresAt.print v.text).last fun _ => .pure
    | returns keyword value =>
      cases value with
      | none => exact .pure
      | some value => exact (evaluated value m).last fun _ => .pure
    | var name initial =>
      exact (evaluated initial m).bind fun _ => DeclaresAt.define.last fun _ => .pure
    | whileLoop condition body =>
      exact .loop (evaluated condition) (ih body) fuel m

/-- Scopes grow whatever is done to a machine. -/
theorem Machine.Leads.grows {m m' : Machine} (h : m.Leads m') : Grows m.scopes m'.scopes := by
  induction h with
  | refl => exact .refl _
  | tail _ step ih =>
    refine ih.trans ?_
    cases step with
    | scope => exact .push _ _
    | define => exact .define _ _ _ _
    | assign =>
      exact (ObeysAt.assign (d := kept) trivial trivial _ closesOver_true).later.toGrows
    | run =>
      rw [← Told.interpretIn_run]
      exact (obeys_interpretIn kept _ _ trivial trivial _).later.toGrows
    | output => exact .refl _

theorem Machine.Reachable.globals_lt_size {m : Machine} (h : m.Reachable) :
    globals < m.scopes.size := by
  obtain ⟨clock, leads⟩ := h
  exact Nat.lt_of_lt_of_le (Machine.globals_lt_size clock) leads.grows.size_le

/-- Expressions and blocks leave the names of every scope as they are, however
they end; any other statement adds to its own scope the names that it declares
there.  Whatever is done to a machine, no scope loses a name, and a name that
resolves from a scope keeps resolving. -/
theorem only_declarations_bind (frames : Option Nat) (fuel : Nat) (m : Machine) :
    (∀ e scope, SameNames m.scopes (after (eval frames fuel e scope) m).scopes) ∧
    (∀ statements scope,
      SameNames m.scopes (after (exec frames fuel (.block statements) scope) m).scopes) ∧
    (∀ s scope, ∀ id < m.scopes.size, ∀ name,
      (after (exec frames fuel s scope) m).scopes.Binds id name ↔
        m.scopes.Binds id name ∨ id = scope ∧ name ∈ declared frames fuel s scope m) ∧
    ∀ m', m.Leads m' → ∀ id name, (m.scopes.Binds id name → m'.scopes.Binds id name) ∧
      ((m.scopes.resolve id name).isSome → (m'.scopes.resolve id name).isSome) := by
  refine ⟨fun e scope => ?_, fun statements scope => ?_, fun s scope => ?_,
    fun m' leads id name => ?_⟩
  · exact (kept_eval frames fuel e scope m).sameNames
  · exact (kept_block frames fuel statements scope m).sameNames
  · exact (declaresAt_exec frames scope fuel s m).names
  · exact ⟨leads.grows.binds, leads.grows.resolve⟩

/-! ## A declaration that fails -/

namespace Unfinished

/-- The text `fun f() { var a; b; }`. -/
def function : Stmt := .function (.ofName "f") []
  [.var (.ofName "a") (.literal .nil), .expression (.identifier (.ofName "b"))]

/-- The text `var x = f();`. -/
def declaration : Stmt := .var (.ofName "x") (.callOf "f" 1)

/-- The machine on which the function has been declared. -/
def machine : Machine :=
  after (exec (some maxFrames) 9 function Machine.globals) (.initial (.still 0))

end Unfinished

open Unfinished

/-- The call binds `a` in a scope of its own before it fails, and the
declaration that waits for it binds nothing. -/
theorem unfinished_declaration :
    outcome (exec (some maxFrames) 9 declaration Machine.globals) machine =
      .error (.failed (.undefinedVariable "b" 1)) ∧
    machine.scopes.SameNames
      (after (exec (some maxFrames) 9 declaration Machine.globals) machine).scopes := by
  obtain ⟨-, -, names, -⟩ := only_declarations_bind (some maxFrames) 9 machine
  have none : declared (some maxFrames) 9 declaration Machine.globals machine = [] := by
    decide +kernel
  refine ⟨rfl, fun id there name => ?_⟩
  rw [names declaration Machine.globals id there name, none]
  simp only [List.not_mem_nil, and_false, or_false]

end Scriptlet
