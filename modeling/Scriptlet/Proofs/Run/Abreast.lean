/-
# Two runs abreast

Two runs of the same code, on machines of which the second has more blank scopes, do the
same step by step and with the same fuel: they have the same output, give values that
are the same up to the scopes that functions close over, stop at the same error or at the
same point, and leave machines that compare as they did (`Run.Abreast`).  Each
combinator that evaluation is written with keeps that.

All that must not be is that a statement declares a name in a scope of the second machine
that is not in the first.  The names that a statement declares where it runs are its own
(`Stmt.ownNames`); code in a scope that both have may have any.
-/
import Scriptlet.Eval
import Scriptlet.Proofs.Run.Follows
import Scriptlet.Proofs.Scopes.Padded

namespace Scriptlet

/-- The names that the statement can declare in the scope that it runs in. -/
def Stmt.ownNames : Stmt → List String
  | .function name _ _ | .var name _ => [name.lexeme]
  | .ifThen _ thenBranch => thenBranch.ownNames
  | .ifElse _ thenBranch elseBranch => thenBranch.ownNames ++ elseBranch.ownNames
  | .whileLoop _ body => body.ownNames
  | .block _ | .expression _ | .print _ | .returns _ _ => []

namespace Run

variable {α β γ δ : Type}

/-- Both runs have come to an end, with results that are alike or for the same reason, and
have left machines of which the second is the first with blank scopes in between. -/
inductive Level (W : Padding) (R : Padding → α → β → Prop) : Result α → Result β → Prop
  | ok {a : α} {b : β} {m m' : Machine} : m.Padded W m' → R W a b → Level W R (.ok a m) (.ok b m')
  | stopped {stop : Stop RuntimeError} {m m' : Machine} : m.Padded W m' →
      Level W R (.error stop m) (.error stop m')

/-- The runs do the same, one on a machine and one on the same with blank scopes in
between. -/
def Abreast (W : Padding) (R : Padding → α → β → Prop) (run : Run α) (run' : Run β) : Prop :=
  ∀ ⦃m m'⦄, m.Padded W m' → ∃ W', W ≤ W' ∧ Level W' R (run m) (run' m')

namespace Abreast

variable {W : Padding} {R : Padding → α → β → Prop} {S : Padding → γ → δ → Prop}

theorem pure {a : α} {b : β} (related : R W a b) : Abreast W R (Pure.pure a) (Pure.pure b) :=
  fun _ _ padded => ⟨W, le_refl W, .ok padded related⟩

theorem fail (e : RuntimeError) : Abreast W R (Run.fail e) (Run.fail e) :=
  fun _ _ padded => ⟨W, le_refl W, .stopped padded⟩

theorem outOfFuel : Abreast W R Run.outOfFuel Run.outOfFuel :=
  fun _ _ padded => ⟨W, le_refl W, .stopped padded⟩

theorem ofExcept {result : Except RuntimeError α} {R : Padding → α → α → Prop}
    (h : ∀ a, result = .ok a → R W a a) :
    Abreast W R (Run.ofExcept result) (Run.ofExcept result) := by
  cases result with
  | ok a => exact pure (h a rfl)
  | error e => exact fail e

theorem bind {run : Run α} {run' : Run β} (h : Abreast W R run run') {k : α → Run γ}
    {k' : β → Run δ} (hk : ∀ {W' a b}, W ≤ W' → R W' a b → Abreast W' S (k a) (k' b)) :
    Abreast W S (run >>= k) (run' >>= k') := by
  intro m m' padded
  obtain ⟨W', le, level⟩ := h padded
  generalize first : run m = result, first' : run' m' = result' at level
  cases level with
  | ok padded' related =>
    obtain ⟨W'', le', level'⟩ := hk le related padded'
    rw [bind_of_ok first, bind_of_ok first']
    exact ⟨W'', le_trans le le', level'⟩
  | stopped padded' =>
    rw [bind_of_error first, bind_of_error first']
    exact ⟨W', le, .stopped padded'⟩

theorem checkArity (expected found line : Nat) :
    Abreast W (fun _ => Eq) (Run.checkArity expected found line)
      (Run.checkArity expected found line) := by
  unfold Run.checkArity
  split
  · exact pure rfl
  · exact fail _

theorem openScope {outer outer' : ScopeId} (shown : W.shown outer outer')
    {bindings bindings' : Bindings}
    (hb : ∀ name, Option.Rel (Value.Padded W) (bindings.get? name) (bindings'.get? name)) :
    Abreast W Padding.home (Run.openScope outer bindings) (Run.openScope outer' bindings') := by
  intro m m' padded
  obtain ⟨W', le, new, padded'⟩ := padded.addScope shown hb
  exact ⟨W', le, .ok padded' new⟩

/-- The second run may go on in a blank scope of its own. -/
theorem blank {run : Run α} {id id' : ScopeId} (shown : W.shown id id') {k' : ScopeId → Run β}
    (h : ∀ {W' own}, W ≤ W' → W'.shown id own → Abreast W' R run (k' own)) :
    Abreast W R run (Run.openScope id' [] >>= k') := by
  intro m m' padded
  obtain ⟨W', le, new, padded'⟩ := padded.addBlank shown
  obtain ⟨W'', le', level⟩ := h le new padded'
  exact ⟨W'', le_trans le le', level⟩

theorem define {id id' : ScopeId} (paired : W.home id id') (name : String) {value value' : Value}
    (hv : value.Padded W value') :
    Abreast W (fun _ => Eq) (Run.define id name value) (Run.define id' name value') :=
  fun _ _ padded => ⟨W, le_refl W, .ok (padded.define paired name hv) rfl⟩

theorem lookup {id id' : ScopeId} (shown : W.shown id id') (name : Token) :
    Abreast W Value.Padded (Run.lookup id name) (Run.lookup id' name) := by
  intro m m' padded
  have found := padded.get? shown name.lexeme
  refine ⟨W, le_refl W, ?_⟩
  unfold Run.lookup
  generalize m.scopes.get? id name.lexeme = value,
    m'.scopes.get? id' name.lexeme = value' at found ⊢
  cases found with
  | some related => exact .ok padded related
  | none => exact .stopped padded

theorem assign {id id' : ScopeId} (shown : W.shown id id') (name : Token) {value value' : Value}
    (hv : value.Padded W value') :
    Abreast W (fun _ => Eq) (Run.assign id name value) (Run.assign id' name value') := by
  intro m m' padded
  have found := padded.resolve shown name.lexeme
  refine ⟨W, le_refl W, ?_⟩
  unfold Run.assign
  generalize m.scopes.resolve id name.lexeme = home,
    m'.scopes.resolve id' name.lexeme = home' at found ⊢
  cases found with
  | some homes => exact .ok (padded.define homes name.lexeme hv) rfl
  | none => exact .stopped padded

theorem newFunction (name : Token) (params : List Token) (body : List Stmt) {id id' : ScopeId}
    (shown : W.shown id id') : Abreast W Value.Padded (Run.newFunction name params body id)
      (Run.newFunction name params body id') := by
  intro m m' padded
  refine ⟨W, le_refl W, ?_⟩
  have made := padded.withFunctions (m.functions + 1)
  unfold Run.newFunction
  rw [← padded.functions]
  exact .ok made (.function shown)

theorem print (text : String) : Abreast W (fun _ => Eq) (Run.print text) (Run.print text) := by
  intro m m' padded
  refine ⟨W, le_refl W, ?_⟩
  have padded' := padded.withSink (m.sink.write (text ++ "\n").toUTF8)
  unfold Run.print
  rw [← padded.sink]
  dsimp only
  split
  · exact .ok padded' rfl
  · exact .stopped padded'

theorem inFrame (frames : Option Nat) (line : Nat) {run : Run α} {run' : Run β}
    (h : Abreast W R run run') :
    Abreast W R (Run.inFrame frames line run) (Run.inFrame frames line run') := by
  intro m m' padded
  by_cases full : frames.any (· ≤ m.callDepth)
  · have full' : frames.any (· ≤ m'.callDepth) := padded.callDepth ▸ full
    refine ⟨W, le_refl W, ?_⟩
    rw [Run.inFrame, Run.inFrame, if_pos full, if_pos full']
    exact .stopped padded
  · have free' : ¬ frames.any (· ≤ m'.callDepth) := padded.callDepth ▸ full
    obtain ⟨W', le, level⟩ := h (padded.withCallDepth (m.callDepth + 1))
    refine ⟨W', le, ?_⟩
    rw [inFrame_eq_leaveFrame full, inFrame_eq_leaveFrame free', ← padded.callDepth]
    generalize run { m with callDepth := m.callDepth + 1 } = result,
      run' { m' with callDepth := m.callDepth + 1 } = result' at level ⊢
    cases level with
    | ok padded' related => exact .ok (padded'.withCallDepth _) related
    | stopped padded' => exact .stopped (padded'.withCallDepth _)

theorem each {ι : Type} {run : ι → Run Value} {run' : ι → Run Value} {items : List ι}
    (h : ∀ {W'}, W ≤ W' → ∀ i, Abreast W' Value.Padded (run i) (run' i)) :
    Abreast W (fun W => List.Forall₂ (Value.Padded W)) (Run.each run items)
      (Run.each run' items) := by
  induction items generalizing W with
  | nil => exact pure .nil
  | cons i items ih =>
    refine (h (le_refl W) i).bind fun le related => ?_
    refine (ih fun le' => h (le_trans le le')).bind fun le' relateds => ?_
    exact pure (.cons (related.mono le') relateds)

theorem sequence {exec exec' : Stmt → Run Flow} {statements : List Stmt}
    (h : ∀ {W'}, W ≤ W' → ∀ s, Abreast W' Flow.Padded (exec s) (exec' s)) :
    Abreast W Flow.Padded (Run.sequence exec statements) (Run.sequence exec' statements) := by
  induction statements generalizing W with
  | nil => exact pure .normal
  | cons s statements ih =>
    refine (h (le_refl W) s).bind fun le flows => ?_
    cases flows with
    | normal => exact ih fun le' => h (le_trans le le')
    | returned related => exact pure (.returned related)

theorem loop {c c' : Run Value} {b b' : Run Flow}
    (hc : ∀ {W'}, W ≤ W' → Abreast W' Value.Padded c c')
    (hb : ∀ {W'}, W ≤ W' → Abreast W' Flow.Padded b b') (rounds : Nat) :
    Abreast W Flow.Padded (Run.loop c b rounds) (Run.loop c' b' rounds) := by
  induction rounds generalizing W with
  | zero => exact outOfFuel
  | succ rounds ih =>
    refine (hc (le_refl W)).bind fun le v => ?_
    rw [v.isTruthy]
    split
    · refine (hb le).bind fun le' flows => ?_
      have later := le_trans le le'
      cases flows with
      | normal => exact ih (fun le' => hc (le_trans later le')) fun le' => hb (le_trans later le')
      | returned related => exact pure (.returned related)
    · exact pure .normal

theorem native (f : Native) (line : Nat) {arguments arguments' : List Value}
    (related : List.Forall₂ (Value.Padded W) arguments arguments') :
    Abreast W Value.Padded (Run.native f arguments line) (Run.native f arguments' line) := by
  intro m m' padded
  refine ⟨W, le_refl W, ?_⟩
  unfold Run.native
  rw [Value.apply_padded f related, ← padded.clock]
  cases applied : f.apply arguments m.clock with
  | ok value clock =>
    have same : value.Padded W value :=
      Value.padded_of_within fun _ => Native.within_of_apply applied
    exact .ok (padded.withClock clock) same
  | error fault clock => exact .stopped (padded.withClock clock)

/-- The bodies run in new scopes that both machines have. -/
theorem call {exec : Stmt → ScopeId → Run Flow}
    (h : ∀ {W' id id'}, W'.home id id' → ∀ s, Abreast W' Flow.Padded (exec s id) (exec s id'))
    (frames : Option Nat) {callee callee' : Value} (callees : callee.Padded W callee')
    {arguments arguments' : List Value}
    (related : List.Forall₂ (Value.Padded W) arguments arguments') (line : Nat) :
    Abreast W Value.Padded (Run.call frames exec callee arguments line)
      (Run.call frames exec callee' arguments' line) := by
  cases callees with
  | @function f scope shown =>
    unfold Run.call
    dsimp only
    rw [← related.length_eq]
    refine (checkArity _ _ _).bind fun le _ => inFrame frames line ?_
    have arguments := related.imp fun _ _ padded => padded.mono le
    have bindings := Bindings.rel_ofLists (f.params.map (·.lexeme)) arguments
    refine (openScope (Padding.shown_mono le shown) bindings).bind fun _ inner => ?_
    refine (sequence fun le => h (Padding.home_mono le inner)).bind fun _ flows => ?_
    exact pure flows.value
  | plain none =>
    cases callee with
    | function f => exact absurd rfl (none f)
    | native f =>
      unfold Run.call
      dsimp only
      rw [← related.length_eq]
      refine (checkArity _ _ _).bind fun le _ => ?_
      exact native f line (related.imp fun _ _ padded => padded.mono le)
    | _ => exact fail _

end Abreast

end Run

/-! ## Evaluation -/

open Run

/-- Evaluation goes abreast in scopes that show the same, and so does execution of what
declares no name there; in scopes that both machines have, any statement may run. -/
theorem abreast_eval_exec (frames : Option Nat) : ∀ fuel,
    (∀ {W id id'} e, W.shown id id' →
      Abreast W Value.Padded (eval frames fuel e id) (eval frames fuel e id')) ∧
    (∀ {W id id'} s, W.shown id id' → (s.ownNames = [] ∨ W.home id id') →
      Abreast W Flow.Padded (exec frames fuel s id) (exec frames fuel s id')) := by
  intro fuel
  induction fuel with
  | zero => exact ⟨fun _ _ => .outOfFuel, fun _ _ _ => .outOfFuel⟩
  | succ fuel ih =>
    obtain ⟨he, hs⟩ := ih
    constructor
    · intro W id id' e shown
      cases e with
      | assign name value =>
        refine (he value shown).bind fun le v => ?_
        refine (Abreast.assign (Padding.shown_mono le shown) name v).bind fun le' _ => ?_
        exact .pure (v.mono le')
      | binary left operator right =>
        refine (he left shown).bind fun le l => ?_
        refine (he right (Padding.shown_mono le shown)).bind fun le' r => ?_
        rw [(l.mono le').binary r]
        exact .ofExcept fun _ ok => Value.padded_of_within fun _ => Value.within_of_binary ok
      | call callee paren arguments =>
        refine (he callee shown).bind fun le f => ?_
        refine (Abreast.each fun le' e =>
          he e (Padding.shown_mono (le_trans le le') shown)).bind fun le' vs => ?_
        exact .call (fun home s => hs s (Padding.shown_of_home _ home) (.inr home)) frames
          (f.mono le') vs _
      | grouping inner => exact he inner shown
      | literal value =>
        exact .pure (Value.padded_of_within fun R => Value.within_ofLiteral R value)
      | logical left operator right =>
        refine (he left shown).bind @fun W' l l' le v => ?_
        have decided : Abreast W' (fun _ => Eq) (ofExcept (l.decides operator))
            (ofExcept (l.decides operator)) := .ofExcept fun _ _ => rfl
        rw [v.decides]
        refine decided.bind fun le' same => ?_
        subst same
        split
        · exact .pure (v.mono le')
        · exact he right (Padding.shown_mono (le_trans le le') shown)
      | unary operator operand =>
        refine (he operand shown).bind fun le v => ?_
        rw [v.unary]
        exact .ofExcept fun _ ok => Value.padded_of_within fun _ => Value.within_of_unary ok
      | identifier name => exact .lookup shown name
    · intro W id id' s shown allowed
      cases s with
      | block statements =>
        refine (Abreast.openScope shown fun _ => .none).bind fun _ inner => ?_
        exact .sequence fun le s => hs s (Padding.shown_mono le (Padding.shown_of_home _ inner))
          (.inr (Padding.home_mono le inner))
      | expression value => exact (he value shown).bind fun _ _ => .pure .normal
      | function name params body =>
        have home := allowed.resolve_left nofun
        refine (Abreast.newFunction name params body shown).bind fun le f => ?_
        exact (Abreast.define (Padding.home_mono le home) _ f).bind fun _ _ => .pure .normal
      | ifThen condition thenBranch =>
        refine (he condition shown).bind fun le v => ?_
        rw [v.isTruthy]
        split
        · exact hs thenBranch (Padding.shown_mono le shown)
            (allowed.imp_right (Padding.home_mono le))
        · exact .pure .normal
      | ifElse condition thenBranch elseBranch =>
        have branches : (thenBranch.ownNames = [] ∧ elseBranch.ownNames = []) ∨ W.home id id' :=
          allowed.imp_left List.append_eq_nil_iff.1
        refine (he condition shown).bind fun le v => ?_
        rw [v.isTruthy]
        split
        · exact hs thenBranch (Padding.shown_mono le shown)
            (branches.imp And.left (Padding.home_mono le))
        · exact hs elseBranch (Padding.shown_mono le shown)
            (branches.imp And.right (Padding.home_mono le))
      | print value =>
        refine (he value shown).bind fun _ v => ?_
        rw [v.text]
        exact (Abreast.print _).bind fun _ _ => .pure .normal
      | returns keyword value =>
        cases value with
        | none => exact .pure (.returned (Value.padded_of_within fun _ => trivial))
        | some value => exact (he value shown).bind fun _ v => .pure (.returned v)
      | var name initial =>
        have home := allowed.resolve_left nofun
        refine (he initial shown).bind fun le v => ?_
        exact (Abreast.define (Padding.home_mono le home) _ v).bind fun _ _ => .pure .normal
      | whileLoop condition body =>
        exact .loop (fun le => he condition (Padding.shown_mono le shown))
          (fun le => hs body (Padding.shown_mono le shown)
            (allowed.imp_right (Padding.home_mono le))) fuel

end Scriptlet
