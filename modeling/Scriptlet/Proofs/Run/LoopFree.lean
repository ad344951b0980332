/-
# Only loops go on forever

Code without loops ends, no matter how its functions call each other: a call
opens a frame, of which there are only so many, and inside of a frame evaluation
goes down the tree of one function body.  So with `frames` left and no body
higher than `size`, fuel for `frames * (size + 1)` steps and the height of the
code at hand is enough.

The bodies that come to run are not those of the code alone, for functions are
fetched from scopes, passed on and returned.  That each of them is free of loops
and no higher than `size` is a regime (`CodeKind.regime`), which the scopes
within reach keep.
-/
import Scriptlet.Eval.Fuel
import Scriptlet.Proofs.Run.Regime
import Scriptlet.Proofs.Scopes.Reach
import Mathlib.Data.List.MinMax

namespace Scriptlet

/-! ## Heights -/

namespace Expr

mutual

/-- The most nodes below each other in the expression. -/
def height : Expr → Nat
  | .assign _ value => value.height + 1
  | .binary left _ right => max left.height right.height + 1
  | .call callee _ arguments => max callee.height (heightAll arguments) + 1
  | .grouping inner => inner.height + 1
  | .literal _ => 1
  | .logical left _ right => max left.height right.height + 1
  | .unary _ operand => operand.height + 1
  | .identifier _ => 1

def heightAll : List Expr → Nat
  | [] => 0
  | e :: es => max e.height (heightAll es)

end

theorem heightAll_le_iff {es : List Expr} {size : Nat} :
    heightAll es ≤ size ↔ ∀ e ∈ es, e.height ≤ size := by
  induction es with
  | nil => simp [heightAll]
  | cons e es ih => rw [heightAll, Nat.max_le, ih, List.forall_mem_cons]

theorem height_eq (e : Expr) : e.height = heightAll e.operands + 1 := by
  cases e <;> simp [height, heightAll, operands]

/-- What stands directly in an expression is less high. -/
theorem height_operand {e part : Expr} (h : part ∈ e.operands) : part.height < e.height := by
  rw [height_eq e]
  exact Nat.lt_succ_of_le (heightAll_le_iff.1 (Nat.le_refl _) part h)

end Expr

namespace Stmt

mutual

/-- The most nodes below each other in the statement. -/
def height : Stmt → Nat
  | .block statements => heightAll statements + 1
  | .expression value => value.height + 1
  | .function _ _ body => heightAll body + 1
  | .ifThen condition thenBranch => max condition.height thenBranch.height + 1
  | .ifElse condition thenBranch elseBranch =>
      max condition.height (max thenBranch.height elseBranch.height) + 1
  | .print value => value.height + 1
  | .returns _ none => 1
  | .returns _ (some value) => value.height + 1
  | .var _ initial => initial.height + 1
  | .whileLoop condition body => max condition.height body.height + 1

def heightAll : List Stmt → Nat
  | [] => 0
  | s :: ss => max s.height (heightAll ss)

end

theorem heightAll_le_iff {ss : List Stmt} {size : Nat} :
    heightAll ss ≤ size ↔ ∀ s ∈ ss, s.height ≤ size := by
  induction ss with
  | nil => simp [heightAll]
  | cons s ss ih => rw [heightAll, Nat.max_le, ih, List.forall_mem_cons]

/-- The statements directly in a statement, wherever they run. -/
def parts : Stmt → List Stmt
  | .block statements => statements
  | .function _ _ body => body
  | s => s.branches

theorem height_eq (s : Stmt) :
    s.height = max (Expr.heightAll s.operands) (heightAll s.parts) + 1 := by
  cases s with
  | returns keyword value =>
    cases value <;> simp [height, heightAll, Expr.heightAll, operands, parts, branches]
  | _ => simp [height, heightAll, Expr.heightAll, operands, parts, branches]

theorem height_operand {s : Stmt} {part : Expr} (h : part ∈ s.operands) :
    part.height < s.height := by
  rw [height_eq s]
  have below := Expr.heightAll_le_iff.1 (Nat.le_refl _) part h
  exact Nat.lt_succ_of_le (Nat.le_trans below (Nat.le_max_left _ _))

theorem height_part {s part : Stmt} (h : part ∈ s.parts) : part.height < s.height := by
  rw [height_eq s]
  have below := heightAll_le_iff.1 (Nat.le_refl _) part h
  exact Nat.lt_succ_of_le (Nat.le_trans below (Nat.le_max_right _ _))

theorem mem_parts_of_branches {s part : Stmt} (h : part ∈ s.branches) : part ∈ s.parts := by
  cases s with
  | block | function => cases h
  | _ => exact h

/-! ## Loops -/

mutual

/-- There is no loop in the statement, functions in it included. -/
def loopFree : Stmt → Bool
  | .block statements => loopFreeAll statements
  | .function _ _ body => loopFreeAll body
  | .ifThen _ thenBranch => thenBranch.loopFree
  | .ifElse _ thenBranch elseBranch => thenBranch.loopFree && elseBranch.loopFree
  | .whileLoop _ _ => false
  | .expression _ | .print _ | .returns _ _ | .var _ _ => true

def loopFreeAll : List Stmt → Bool
  | [] => true
  | s :: ss => s.loopFree && loopFreeAll ss

end

theorem loopFreeAll_iff {ss : List Stmt} :
    loopFreeAll ss = true ↔ ∀ s ∈ ss, s.loopFree = true := by
  induction ss with
  | nil => simp [loopFreeAll]
  | cons s ss ih => rw [loopFreeAll, Bool.and_eq_true, ih, List.forall_mem_cons]

theorem loopFree_part {s part : Stmt} (free : s.loopFree = true) (h : part ∈ s.parts) :
    part.loopFree = true := by
  cases s with
  | block | function => exact loopFreeAll_iff.1 free part h
  | ifThen =>
    cases List.mem_singleton.1 h
    exact free
  | ifElse condition thenBranch elseBranch =>
    obtain ⟨hthen, helse⟩ := Bool.and_eq_true_iff.1 free
    have both : ∀ branch ∈ [thenBranch, elseBranch], branch.loopFree = true :=
      List.forall_mem_cons.2 ⟨hthen, List.forall_mem_singleton.2 helse⟩
    exact both part h
  | whileLoop => cases free
  | expression | print | returns | var => cases h

theorem bounded_part {s part : Stmt} {size : Nat} (h : s.loopFree = true ∧ s.height ≤ size)
    (member : part ∈ s.parts) : part.loopFree = true ∧ part.height ≤ size :=
  ⟨loopFree_part h.1 member, Nat.le_trans (Nat.le_of_lt (height_part member)) h.2⟩

end Stmt

/-- Code without loops that is no higher than `size`. -/
def boundedCode (size : Nat) : CodeKind where
  expr e := e.height ≤ size
  stmt s := s.loopFree = true ∧ s.height ≤ size
  expr_operand h member := Nat.le_trans (Nat.le_of_lt (Expr.height_operand member)) h
  stmt_operand h member := Nat.le_trans (Nat.le_of_lt (Stmt.height_operand member)) h.2
  branch h member := Stmt.bounded_part h (Stmt.mem_parts_of_branches member)
  block {statements} h _ := Stmt.bounded_part (s := .block statements) h
  function {name params body} h _ := Stmt.bounded_part (s := .function name params body) h

/-- To run such code in the given scopes. -/
abbrev bounded (S : ScopeId → Prop) (size : Nat) : Regime := (boundedCode size).regime S

/-! ## Runs that end -/

namespace Run

variable {α β : Type} {r : Regime} {w : r.World} {m : Machine}

/-- From `m`, the run ends before its fuel does, with as many calls active as
there were. -/
structure EndsAt (told : Told α) (m : Machine) : Prop where
  ends : outcome told.run m ≠ .error .outOfFuel
  callDepth : (after told.run m).callDepth = m.callDepth

namespace EndsAt

theorem pure (a : α) (m : Machine) : EndsAt (Pure.pure a) m := ⟨nofun, rfl⟩

theorem fail (e : RuntimeError) (m : Machine) : EndsAt (.silent (Run.fail e : Run α)) m :=
  ⟨nofun, rfl⟩

theorem ofExcept (result : Except RuntimeError α) (m : Machine) :
    EndsAt (.silent (Run.ofExcept result)) m := by
  cases result with
  | ok a => exact pure a m
  | error e => exact fail e m

theorem checkArity (expected found line : Nat) (m : Machine) :
    EndsAt (.silent (Run.checkArity expected found line)) m := by
  unfold Run.checkArity
  split
  · exact pure () m
  · exact fail _ m

theorem native (f : Native) (arguments : List Value) (line : Nat) (m : Machine) :
    EndsAt (.silent (Run.native f arguments line)) m := by
  constructor
  · show outcome (Run.native f arguments line) m ≠ _
    rw [outcome_native]
    cases f.apply arguments m.clock <;> nofun
  · obtain ⟨clock, left⟩ := after_native f arguments line m
    exact congrArg (·.callDepth) left

/-- What is told makes no difference. -/
theorem first {told : Told α} (h : EndsAt told m) {act : Act} : EndsAt (told.first act) m :=
  ⟨h.ends, h.callDepth⟩

theorem lookup (id : ScopeId) (name : Token) (m : Machine) : EndsAt (.lookup id name) m := by
  constructor
  · show outcome (Run.lookup id name) m ≠ _
    rw [outcome_lookup]
    cases m.scopes.get? id name.lexeme <;> nofun
  · exact congrArg (·.callDepth) (after_lookup id name m)

theorem assign (id : ScopeId) (name : Token) (value : Value) (m : Machine) :
    EndsAt (.assign id name value) m := by
  constructor
  · show outcome (Run.assign id name value) m ≠ _
    rw [outcome_assign]
    cases m.scopes.resolve id name.lexeme <;> nofun
  · show (after (Run.assign id name value) m).callDepth = _
    rw [after_assign]
    cases m.scopes.resolve id name.lexeme <;> rfl

theorem print (scope : ScopeId) (text : String) (m : Machine) : EndsAt (.print scope text) m := by
  constructor
  · show outcome (Run.print text) m ≠ _
    rw [outcome_print]
    split <;> nofun
  · exact congrArg (·.callDepth) (after_print text m)

theorem bind {told : Told α} (h : EndsAt told m) {next : α → Told β}
    (hn : ∀ a, outcome told.run m = .ok a → EndsAt (next a) (after told.run m)) :
    EndsAt (told >>= next) m := by
  have ended := outcome_bind told.run (fun a => (next a).run) m
  have left := after_bind told.run (fun a => (next a).run) m
  cases ran : outcome told.run m with
  | error e =>
    rw [ran] at ended left
    refine ⟨fun out => h.ends ?_, ?_⟩
    · cases ended.symm.trans out
      exact ran
    · rw [Told.bind_run, left]
      exact h.callDepth
  | ok a =>
    rw [ran] at ended left
    have second := hn a ran
    refine ⟨?_, ?_⟩
    · rw [Told.bind_run, ended]
      exact second.ends
    · rw [Told.bind_run, left]
      exact second.callDepth.trans h.callDepth

/-- What comes last may end in any case. -/
theorem last {told : Told α} (h : EndsAt told m) {next : α → Told β}
    (hn : ∀ a m, EndsAt (next a) m) : EndsAt (told >>= next) m :=
  h.bind fun a _ => hn a _

/-- A run that keeps a regime, and then one that ends where the regime holds. -/
theorem within {told : Told α} (h : EndsAt told m) {P : r.World → α → Prop}
    (heeds : HeedsAt r w P told m) {next : α → Told β}
    (hn : ∀ w' a, r.later w w' → r.holds w' (after told.run m).scopes → P w' a →
      (after told.run m).callDepth = m.callDepth → EndsAt (next a) (after told.run m)) :
    EndsAt (told >>= next) m := by
  obtain ⟨w', along, holds, value⟩ := heeds.world
  exact h.bind fun a ran => hn w' a along.later holds (value a ran) h.callDepth

theorem each {id : ScopeId} {depth : Nat} {f : Expr → Told Value}
    (heeds : ∀ e w m, r.holds w m.scopes → r.evals w id e → HeedsAt r w r.FitsValue (f e) m)
    (es : List Expr)
    (h : ∀ e ∈ es, ∀ w m, r.holds w m.scopes → r.evals w id e → m.callDepth = depth →
      EndsAt (f e) m) :
    ∀ w m, r.holds w m.scopes → (∀ e ∈ es, r.evals w id e) → m.callDepth = depth →
      EndsAt (.each f es) m := by
  induction es with
  | nil => exact fun _ m _ _ _ => pure [] m
  | cons e es ih =>
    intro w m hm allowed start
    obtain ⟨he, hes⟩ := List.forall_mem_cons.1 allowed
    obtain ⟨ends, others⟩ := List.forall_mem_cons.1 h
    refine (ends w m hm he start).within (heeds e w m hm he) fun w' v later holds _ same => ?_
    have rest := ih others w' _ holds (fun e member => r.evals_later later (hes e member))
      (same.trans start)
    exact rest.last fun vs m => pure _ m

theorem sequence {id : ScopeId} {depth : Nat} {f : Stmt → Told Flow}
    (heeds : ∀ s w m, r.holds w m.scopes → r.runs w id s → HeedsAt r w r.FitsFlow (f s) m)
    (statements : List Stmt)
    (h : ∀ s ∈ statements, ∀ w m, r.holds w m.scopes → r.runs w id s → m.callDepth = depth →
      EndsAt (f s) m) :
    ∀ w m, r.holds w m.scopes → (∀ s ∈ statements, r.runs w id s) → m.callDepth = depth →
      EndsAt (.sequence f statements) m := by
  induction statements with
  | nil => exact fun _ m _ _ _ => pure Flow.normal m
  | cons s statements ih =>
    intro w m hm allowed start
    obtain ⟨hs, hrest⟩ := List.forall_mem_cons.1 allowed
    obtain ⟨ends, others⟩ := List.forall_mem_cons.1 h
    refine (ends w m hm hs start).within (heeds s w m hm hs) fun w' flow later holds _ same => ?_
    cases flow with
    | normal =>
      exact ih others w' _ holds (fun s member => r.runs_later later (hrest s member))
        (same.trans start)
    | returned value => exact pure _ _

/-- Code that runs in a new scope. -/
theorem enclosed {outer : ScopeId} {bindings : Bindings} {code : ScopeId → Told α}
    (h : EndsAt (code m.scopes.size) (m.addScope ⟨bindings, some outer⟩).2) :
    EndsAt (Told.openScope outer bindings >>= code) m :=
  ⟨h.ends, h.callDepth⟩

/-- With a frame left, a call ends if its body does. -/
theorem inFrame {told : Told α} {limit : Nat} (f : Closure) (line : Nat)
    (h : m.callDepth < limit → EndsAt told { m with callDepth := m.callDepth + 1 }) :
    EndsAt (told.inFrame (some limit) f line) m := by
  by_cases full : (some limit).any (· ≤ m.callDepth)
  · constructor
    · rw [Told.inFrame_run, outcome_inFrame, if_pos full]
      nofun
    · rw [Told.inFrame_run, after_inFrame, if_pos full]
  · have free : m.callDepth < limit := by simpa using full
    constructor
    · rw [Told.inFrame_run, outcome_inFrame, if_neg full]
      exact (h free).ends
    · rw [Told.inFrame_run, after_inFrame, if_neg full]

theorem call {f : Stmt → ScopeId → Told Flow} (hm : r.holds w m.scopes) {callee : Value}
    (hcallee : r.FitsValue w callee) {arguments : List Value}
    (harguments : ∀ v ∈ arguments, r.FitsValue w v) {limit : Nat} (line : Nat)
    (h : m.callDepth < limit → ∀ (g : Closure) w' m' id, r.holds w' m'.scopes →
      (∀ s ∈ g.body, r.runs w' id s) → m'.callDepth = m.callDepth + 1 →
      EndsAt (.sequence (fun s => f s id) g.body) m') :
    EndsAt (.call (some limit) f callee arguments line) m := by
  cases callee with
  | function g =>
    have checked := HeedsAt.checkArity hm g.arity arguments.length line
    refine (checkArity _ _ _ m).within checked fun w₁ _ later holds arity same => first ?_
    refine inFrame g line fun free => ?_
    have given : ∀ f, Value.function f ∈ arguments → r.fits w₁ f := fun f member =>
      (harguments _ member).later later f rfl
    obtain ⟨w₂, -, holds', -, allowed⟩ := r.calls holds (hcallee.later later g rfl) arity given
    refine enclosed (first ?_)
    exact (h (same ▸ free) g w₂ _ _ holds' allowed (congrArg (· + 1) same)).last
      fun flow m => pure _ m
  | native g =>
    exact (checkArity g.arity arguments.length line m).last fun _ m => native g arguments line m
  | _ => exact fail _ m

end EndsAt

end Run

/-! ## Fuel -/

/-- There is fuel for code of the given height and for as many calls inside each
other as there are frames left. -/
def Machine.Fuelled (limit size : Nat) (m : Machine) (fuel height : Nat) : Prop :=
  (limit - m.callDepth) * (size + 1) + height ≤ fuel

namespace Machine.Fuelled

variable {limit size fuel height height' : Nat} {m m' : Machine}

/-- A part of the code takes one step less. -/
theorem part (h : m.Fuelled limit size (fuel + 1) height) (less : height' < height) :
    m.Fuelled limit size fuel height' := by
  unfold Fuelled at h ⊢
  omega

/-- In a new frame there is fuel for a whole function body. -/
theorem frame (h : m.Fuelled limit size (fuel + 1) height) (positive : 0 < height)
    (free : m.callDepth < limit) (fits : height' ≤ size) :
    Fuelled limit size { m with callDepth := m.callDepth + 1 } fuel height' := by
  obtain ⟨frames, left⟩ := Nat.exists_eq_add_of_lt free
  have before : limit - m.callDepth = frames + 1 := by omega
  have inside : limit - (m.callDepth + 1) = frames := by omega
  unfold Fuelled at h ⊢
  rw [before, Nat.succ_mul] at h
  dsimp only
  rw [inside]
  omega

theorem ne_zero (h : m.Fuelled limit size fuel height) (positive : 0 < height) : fuel ≠ 0 := by
  unfold Fuelled at h
  omega

theorem congr (h : m.Fuelled limit size fuel height) (same : m'.callDepth = m.callDepth) :
    m'.Fuelled limit size fuel height := by
  unfold Fuelled at h ⊢
  rwa [same]

end Machine.Fuelled

/-! ## Evaluation -/

open Run

/-- Code without loops ends if there is fuel for it. -/
theorem ends_eval_exec (S : ScopeId → Prop) (limit size : Nat) : ∀ fuel,
    (∀ e id w m, (bounded S size).holds w m.scopes → (bounded S size).evals w id e →
      m.Fuelled limit size fuel e.height → EndsAt (Told.eval (some limit) fuel e id) m) ∧
    ∀ s id w m, (bounded S size).holds w m.scopes → (bounded S size).runs w id s →
      m.Fuelled limit size fuel s.height → EndsAt (Told.exec (some limit) fuel s id) m := by
  intro fuel
  induction fuel with
  | zero =>
    constructor
    · intro e _ _ m _ _ fuelled
      exact absurd rfl (fuelled.ne_zero (e.height_eq ▸ Nat.succ_pos _))
    · intro s _ _ m _ _ fuelled
      exact absurd rfl (fuelled.ne_zero (s.height_eq ▸ Nat.succ_pos _))
  | succ fuel ih =>
    obtain ⟨he, hs⟩ := ih
    obtain ⟨heeds, heeds'⟩ := heeds_eval_exec (bounded S size) (some limit) fuel
    constructor
    · intro e id w m hm allowed fuelled
      have part : ∀ part ∈ e.operands, (bounded S size).evals w id part ∧
          m.Fuelled limit size fuel part.height := fun part member =>
        ⟨Regime.evals_operand _ allowed member, fuelled.part (Expr.height_operand member)⟩
      cases e with
      | assign name value =>
        obtain ⟨allowed', fuelled'⟩ := part value List.mem_cons_self
        refine (he value id w m hm allowed' fuelled').last fun v m => ?_
        exact (EndsAt.assign id name v m).last fun _ m => .pure v m
      | binary left operator right =>
        obtain ⟨⟨hl, fl⟩, others⟩ := List.forall_mem_cons.1 part
        obtain ⟨hr, fr⟩ := others right List.mem_cons_self
        refine (he left id w m hm hl fl).within (heeds left id w m hm hl) ?_
        intro w' a later holds _ same
        exact (he right id w' _ holds hr (fr.congr same)).last fun b m => .ofExcept _ m
      | call callee paren arguments =>
        obtain ⟨⟨hc, fc⟩, others⟩ := List.forall_mem_cons.1 part
        refine (he callee id w m hm hc fc).within (heeds callee id w m hm hc) ?_
        intro w' f later holds hf same
        have harguments : ∀ e ∈ arguments, (bounded S size).evals w' id e :=
          fun e member => (others e member).1
        have evaluated := HeedsAt.each (fun e w m => heeds e id w m) arguments w' _ holds harguments
        have ended : EndsAt _ _ := EndsAt.each (fun e w m => heeds e id w m) arguments
          (fun e member w m hm allowed start => he e id w m hm allowed
            ((others e member).2.congr start)) w' _ holds harguments same
        refine ended.within evaluated fun w'' vs later' holds' hvs same' => ?_
        refine .call holds' (hf.later later') hvs.2 paren.line ?_
        intro free g w₁ m₁ id₁ hm₁ hg start
        refine EndsAt.sequence (fun s w m => heeds' s id₁ w m) g.body ?_ w₁ m₁ hm₁ hg start
        intro s _ w₂ m₂ hm₂ hs₂ depth
        have outside := same'.trans same
        refine hs s id₁ w₂ m₂ hm₂ hs₂ ((fuelled.frame ?_ (outside ▸ free) hs₂.2.2).congr ?_)
        · exact Nat.succ_pos _
        · rw [depth, outside]
      | grouping inner =>
        obtain ⟨allowed', fuelled'⟩ := part inner List.mem_cons_self
        exact he inner id w m hm allowed' fuelled'
      | literal value => exact .pure _ m
      | logical left operator right =>
        obtain ⟨⟨hl, fl⟩, others⟩ := List.forall_mem_cons.1 part
        obtain ⟨hr, fr⟩ := others right List.mem_cons_self
        refine (he left id w m hm hl fl).within (heeds left id w m hm hl) ?_
        intro w' a later holds _ same
        rcases a.decides operator with error | decided
        · exact .fail error _
        · show EndsAt (if decided then Pure.pure a else Told.eval (some limit) fuel right id) _
          split
          · exact .pure a _
          · exact he right id w' _ holds hr (fr.congr same)
      | unary operator operand =>
        obtain ⟨allowed', fuelled'⟩ := part operand List.mem_cons_self
        exact (he operand id w m hm allowed' fuelled').last fun v m => .ofExcept _ m
      | identifier name => exact .lookup id name m
    · intro s id w m hm allowed fuelled
      have operand : ∀ part ∈ s.operands, (bounded S size).evals w id part ∧
          m.Fuelled limit size fuel part.height := fun part member =>
        ⟨Regime.runs_operand _ allowed member, fuelled.part (Stmt.height_operand member)⟩
      have branch : ∀ part ∈ s.branches, (bounded S size).runs w id part ∧
          m.Fuelled limit size fuel part.height := fun part member =>
        ⟨Regime.runs_branch _ allowed member,
          fuelled.part (Stmt.height_part (Stmt.mem_parts_of_branches member))⟩
      cases s with
      | block statements =>
        obtain ⟨w', -, holds, inside⟩ := (bounded S size).opens hm allowed
        refine .enclosed (EndsAt.sequence (fun s w m => heeds' s _ w m) statements ?_ w' _ holds
          inside rfl)
        intro s member w₁ m₁ hm₁ hs₁ same
        exact hs s _ w₁ m₁ hm₁ hs₁ ((fuelled.part (Stmt.height_part member)).congr same)
      | expression value =>
        obtain ⟨allowed', fuelled'⟩ := operand value List.mem_cons_self
        exact (he value id w m hm allowed' fuelled').last fun _ m => .pure _ m
      | function name params body => exact ⟨nofun, rfl⟩
      | ifThen condition thenBranch =>
        obtain ⟨hc, fc⟩ := operand condition List.mem_cons_self
        obtain ⟨ht, ft⟩ := branch thenBranch List.mem_cons_self
        refine (he condition id w m hm hc fc).within (heeds condition id w m hm hc) ?_
        intro w' value later holds _ same
        split
        · exact hs thenBranch id w' _ holds ht (ft.congr same)
        · exact .pure _ _
      | ifElse condition thenBranch elseBranch =>
        obtain ⟨hc, fc⟩ := operand condition List.mem_cons_self
        obtain ⟨⟨ht, ft⟩, others⟩ := List.forall_mem_cons.1 branch
        obtain ⟨hx, fx⟩ := others elseBranch List.mem_cons_self
        refine (he condition id w m hm hc fc).within (heeds condition id w m hm hc) ?_
        intro w' value later holds _ same
        split
        · exact hs thenBranch id w' _ holds ht (ft.congr same)
        · exact hs elseBranch id w' _ holds hx (fx.congr same)
      | print value =>
        obtain ⟨allowed', fuelled'⟩ := operand value List.mem_cons_self
        refine (he value id w m hm allowed' fuelled').last fun v m => ?_
        exact (EndsAt.print id v.text m).last fun _ m => .pure _ m
      | returns keyword value =>
        cases value with
        | none => exact .pure _ m
        | some value =>
          obtain ⟨allowed', fuelled'⟩ := operand value List.mem_cons_self
          exact (he value id w m hm allowed' fuelled').last fun v m => .pure _ m
      | var name initial =>
        obtain ⟨allowed', fuelled'⟩ := operand initial List.mem_cons_self
        exact (he initial id w m hm allowed' fuelled').last fun v m => ⟨nofun, rfl⟩
      | whileLoop => cases allowed.2.1

theorem ends_interpretAll (S : ScopeId → Prop) (limit size fuel : Nat) : ∀ program w m,
    (bounded S size).holds w m.scopes →
    (∀ s ∈ program, (bounded S size).runs w Machine.globals s) →
    (∀ s ∈ program, m.Fuelled limit size fuel s.height) →
    EndsAt (Told.interpretAll (some limit) fuel program) m := by
  obtain ⟨he, hs⟩ := ends_eval_exec S limit size fuel
  intro program
  induction program with
  | nil => exact fun _ m _ _ _ => .pure () m
  | cons s rest ih =>
    intro w m hm allowed fuelled
    obtain ⟨hs', hrest⟩ := List.forall_mem_cons.1 allowed
    obtain ⟨fs, frest⟩ := List.forall_mem_cons.1 fuelled
    have ended : EndsAt (Told.interpretIn (some limit) fuel Machine.globals s) m := by
      cases s with
      | expression value =>
        refine he value Machine.globals w m hm (Regime.runs_operand _ hs' List.mem_cons_self) ?_
        exact Nat.le_trans (Nat.add_le_add_left (Nat.le_succ _) _) fs
      | _ => exact (hs _ Machine.globals w m hm hs' fs).last fun flow m => .pure _ m
    refine ended.within (heeds_interpretIn (bounded S size) (some limit) fuel hm hs') ?_
    intro w' _ later holds _ same
    exact ih w' _ holds hrest fun s member => (frest s member).congr same

/-! ## Machines of a given height -/

/-- The height of the body, if the value is a function. -/
def Value.height : Value → Nat
  | .function f => Stmt.heightAll f.body
  | _ => 0

/-- The height of the highest function body that is bound. -/
def Scopes.height (scopes : Scopes) : Nat :=
  ((scopes.toList.flatMap (·.bindings)).map (·.2.height)).foldr max 0

theorem Scopes.height_le {scopes : Scopes} {id : ScopeId} {name : String} {value : Value}
    (h : scopes.local? id name = some value) : value.height ≤ scopes.height := by
  obtain ⟨scope, there, bound⟩ := Option.bind_eq_some_iff.1 h
  have member : scope ∈ scopes.toList := Array.mem_toList_iff.2 (Array.mem_of_getElem? there)
  refine List.le_max_of_le' 0 (List.mem_map.2 ⟨(name, value), ?_, rfl⟩) (Nat.le_refl _)
  exact List.mem_flatMap.2 ⟨scope, member, Bindings.mem_of_get? bound⟩

/-- A machine on which no function within reach of the global scope has a loop. -/
theorem Machine.bounded_holds {m : Machine} {size : Nat}
    (stored : ∀ id name f, m.scopes.Reach [globals] id →
      m.scopes.local? id name = some (.function f) → Stmt.loopFreeAll f.body = true)
    (low : m.scopes.height ≤ size) :
    (bounded (Region.reached m.scopes [globals]).scopes size).holds () m.scopes where
  fresh _ there := .inr there
  outer inside link := by
    obtain ⟨scope, there, around⟩ := Option.bind_eq_some_iff.1 link
    exact (Region.closed_reached [globals]).enclosing inside there around
  bound {id name f} inside here := by
    refine ⟨((Region.closed_reached [globals]).bound inside trivial here).1, fun s member => ?_⟩
    have reached : m.scopes.Reach [globals] id := by
      rcases inside with reached | made
      · exact reached
      · exact absurd (Region.lt_size_of_local? here) (Nat.not_lt.2 made)
    refine ⟨Stmt.loopFreeAll_iff.1 (stored id name f reached here) s member, ?_⟩
    exact Stmt.heightAll_le_iff.1 (Nat.le_trans (Scopes.height_le here) low) s member

/-- Code without loops ends, with success or with an error, on every machine on
which no function within reach of the global scope has a loop.  It takes no more
fuel than the frames that are left and the height of the code tell, and more of
it makes no difference. -/
theorem loopFree_terminates {m : Machine}
    (stored : ∀ id name f, m.scopes.Reach [Machine.globals] id →
      m.scopes.local? id name = some (.function f) → Stmt.loopFreeAll f.body = true)
    {program : Program} (free : Stmt.loopFreeAll program = true) :
    let size := max m.scopes.height (Stmt.heightAll program)
    ∃ result, ((∃ m', result = .ok () m') ∨ ∃ e m', result = .error (.failed e) m') ∧
      ∀ fuel ≥ (maxFrames - m.callDepth) * (size + 1) + size,
        interpretAll (some maxFrames) fuel program m = result := by
  intro size
  have holds := Machine.bounded_holds stored (Nat.le_max_left _ _ : m.scopes.height ≤ size)
  have low : ∀ s ∈ program, s.height ≤ size :=
    Stmt.heightAll_le_iff.1 (Nat.le_max_right _ _)
  have allowed : ∀ s ∈ program, (bounded (Region.reached m.scopes [Machine.globals]).scopes
      size).runs () Machine.globals s := fun s member =>
    ⟨.inl (.root List.mem_cons_self), Stmt.loopFreeAll_iff.1 free s member, low s member⟩
  have ended := (ends_interpretAll _ maxFrames size
    ((maxFrames - m.callDepth) * (size + 1) + size) program () m holds allowed
    fun s member => Nat.add_le_add_left (low s member) _).ends
  rw [Told.interpretAll_run] at ended
  refine ⟨_, ?_, fun fuel more => (extends_interpretAll more program m).resolve_left fun out => ?_⟩
  · unfold outcome at ended
    generalize interpretAll _ _ program m = result at ended
    rcases result with ⟨⟨⟩, m'⟩ | ⟨_ | _, m'⟩
    · exact .inl ⟨m', rfl⟩
    · exact .inr ⟨_, m', rfl⟩
    · exact absurd rfl ended
  · unfold outcome at ended
    generalize interpretAll _ _ program m = result at ended out
    rcases result with _ | ⟨_ | _, m'⟩
    · exact out
    · exact out
    · exact ended rfl

/-! ## A function that calls itself -/

namespace Runaway

/-- A function that calls itself on its second line, and a call of it. -/
def program : Program :=
  [.function (.ofName "f") [] [.expression (.callOf "f" 2)], .expression (.callOf "f" 3)]

/-- A machine with six frames left. -/
def machine : Machine := { Machine.initial (.still 0) with callDepth := 250 }

end Runaway

open Runaway

/-- Only native functions are bound, and there is no loop.  The function calls
itself until the frames are used up, for which fuel for six calls is enough. -/
theorem runaway_terminates :
    (∀ id name f, machine.scopes.Reach [Machine.globals] id →
      machine.scopes.local? id name = some (.function f) → Stmt.loopFreeAll f.body = true) ∧
    Stmt.loopFreeAll program = true ∧
    ∃ m', ∀ fuel ≥ 34, interpretAll (some maxFrames) fuel program machine =
      .error (.failed (.stackOverflow 2)) m' := by
  have stored : ∀ id name f, machine.scopes.Reach [Machine.globals] id →
      machine.scopes.local? id name = some (.function f) → Stmt.loopFreeAll f.body = true := by
    intro id name f _ bound
    obtain ⟨g, same⟩ := @Machine.native_of_initial (.still 0) id name _ bound
    cases same
  have free : Stmt.loopFreeAll program = true := rfl
  obtain ⟨result, -, same⟩ := loopFree_terminates stored free
  have enough : (maxFrames - machine.callDepth) *
      (max machine.scopes.height (Stmt.heightAll program) + 1) +
      max machine.scopes.height (Stmt.heightAll program) = 34 := by decide +kernel
  rw [enough] at same
  have ended : outcome (interpretAll (some maxFrames) 34 program) machine =
      .error (.failed (.stackOverflow 2)) := by decide +kernel
  unfold outcome at ended
  rw [same 34 (Nat.le_refl _)] at ended
  rcases result with _ | ⟨e, m'⟩
  · cases ended
  · cases ended
    exact ⟨stored, free, m', same⟩

end Scriptlet
