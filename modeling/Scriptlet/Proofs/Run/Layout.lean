/-
# Layout makes no difference to a run

Two programs that are the same when bare do the same on machines that are twins,
functions and all that they close over included.  Every pair of parentheses takes
some fuel, so the one program follows the other with enough of it, however much
that is.  Parentheses of the first program are harmless, because there is less
fuel inside of them, and the induction is on that fuel; those of the second one
are stripped off before its node is looked at.
-/
import Scriptlet.Proofs.Run.Follows

namespace Scriptlet

/-! ## Evaluation -/

open Run

section

variable {W : Pairing}

/-- Parentheses take some fuel and do nothing else. -/
theorem follows_core {run : Run Value} {frames : Option Nat} {scope : ScopeId} (e : Expr)
    (h : Follows W Value.Twin run fun fuel => eval frames fuel e.core scope) :
    Follows W Value.Twin run fun fuel => eval frames fuel e scope := by
  induction e with
  | grouping inner ih => exact (ih h).succ
  | _ => exact h

/-- Evaluation and execution, at once because each calls the other. -/
theorem follows_eval_exec (frames : Option Nat) : ∀ fuel,
    (∀ {W : Pairing} {e e' scope scope'}, e.bare = e'.bare → W.scopes scope scope' →
      Follows W Value.Twin (eval frames fuel e scope) fun fuel => eval frames fuel e' scope') ∧
    ∀ {W : Pairing} {s s' scope scope'}, s.bare = s'.bare → W.scopes scope scope' →
      Follows W Flow.Twin (exec frames fuel s scope) fun fuel => exec frames fuel s' scope' := by
  have appendsE := appends_eval frames
  have appendsS := appends_exec frames
  intro fuel
  induction fuel with
  | zero =>
    exact ⟨fun _ _ => .outOfFuel _ fun fuel => appendsE fuel _ _,
      fun _ _ => .outOfFuel _ fun fuel => appendsS fuel _ _⟩
  | succ fuel ih =>
    obtain ⟨he, hs⟩ := ih
    constructor
    · intro W e e' scope scope' same paired
      by_cases grouped : ∃ inner, e = .grouping inner
      · obtain ⟨inner, rfl⟩ := grouped
        exact he same paired
      refine follows_core e' (.succ ?_)
      have shape := Expr.twin_of_bare same fun inner grouping => grouped ⟨inner, grouping⟩
      generalize e'.core = core at shape ⊢
      cases shape with
      | assign sameName sameValue =>
        refine (he sameValue paired).bind (fun _ _ => ?_) fun le v => ?_
        · exact (Appends.assign _ _ _).bind fun _ => .pure _
        · refine (Mirrors.assign (Pairing.scopes_mono le paired) sameName v).bind fun le' _ => ?_
          exact (Mirrors.pure (v.mono le')).follows
      | binary sameLeft sameOperator sameRight =>
        refine (he sameLeft paired).bind (fun fuel _ => ?_) fun le l => ?_
        · exact (appendsE fuel _ _).bind fun _ => .ofExcept _
        · refine (he sameRight (Pairing.scopes_mono le paired)).bind (fun _ _ => ?_) fun le' r => ?_
          · exact .ofExcept _
          · exact (Mirrors.ofExcept ((l.mono le').binary r sameOperator)).follows
      | call sameCallee sameParen sameArguments =>
        have appendsCall := fun fuel => Appends.call (appendsS fuel) frames
        refine (he sameCallee paired).bind (fun fuel _ => ?_) fun le function => ?_
        · have appendsEach := Appends.each fun e => appendsE fuel e scope'
          exact (appendsEach _).bind fun _ => appendsCall _ _ _ _
        · have equal := forall₂_of_map_eq sameArguments
          have arguments := Follows.each (R := Value.Twin) .mono
            (fun fuel e => appendsE fuel e scope')
            (fun le' same => he same (Pairing.scopes_mono (le_trans le le') paired)) equal
          refine arguments.bind (fun _ _ => appendsCall _ _ _ _) fun le' values => ?_
          exact .call appendsS hs frames (function.mono le') values _ _
      | literal value => exact (Mirrors.pure (Value.twin_ofLiteral W value)).follows
      | logical sameLeft sameOperator sameRight =>
        refine (he sameLeft paired).bind (fun fuel l => ?_) fun le l => ?_
        · refine (Appends.ofExcept _).bind fun decided => ?_
          split
          · exact .pure _
          · exact appendsE fuel _ _
        · have decided := l.decides sameOperator
          refine (Mirrors.ofExcept (R := fun _ => Eq) decided).bind fun le' same => ?_
          subst same
          split
          · exact (Mirrors.pure (l.mono le')).follows
          · exact he sameRight (Pairing.scopes_mono (le_trans le le') paired)
      | unary sameOperator sameOperand =>
        refine (he sameOperand paired).bind (fun _ _ => ?_) fun le v => ?_
        · exact .ofExcept _
        · exact (Mirrors.ofExcept (v.unary sameOperator)).follows
      | identifier sameName => exact (Mirrors.lookup paired sameName).follows
    · intro W s s' scope scope' same paired
      refine .succ ?_
      cases Stmt.twin_of_bare same with
      | block sameStatements =>
        refine (Mirrors.openScope paired fun _ => .none).bind fun _ inner => ?_
        exact .sequence (fun fuel s => appendsS fuel s _)
          (fun le same => hs same (Pairing.scopes_mono le inner)) sameStatements
      | expression sameValue =>
        refine (he sameValue paired).bind (fun _ _ => .pure _) fun _ _ => ?_
        exact (Mirrors.pure .normal).follows
      | function sameName sameParams sameBody =>
        refine (Mirrors.newFunction sameName sameParams sameBody paired).bind fun le f => ?_
        refine (Mirrors.define (Pairing.scopes_mono le paired) sameName f).bind fun _ _ => ?_
        exact (Mirrors.pure .normal).follows
      | ifThen sameCondition sameThen =>
        refine (he sameCondition paired).bind (fun fuel _ => ?_) fun le v => ?_
        · split
          · exact appendsS fuel _ _
          · exact .pure _
        · rw [v.isTruthy]
          split
          · exact hs sameThen (Pairing.scopes_mono le paired)
          · exact (Mirrors.pure .normal).follows
      | ifElse sameCondition sameThen sameElse =>
        refine (he sameCondition paired).bind (fun fuel _ => ?_) fun le v => ?_
        · split
          · exact appendsS fuel _ _
          · exact appendsS fuel _ _
        · rw [v.isTruthy]
          split
          · exact hs sameThen (Pairing.scopes_mono le paired)
          · exact hs sameElse (Pairing.scopes_mono le paired)
      | print sameValue =>
        refine (he sameValue paired).bind (fun _ v => ?_) fun _ v => ?_
        · exact (Appends.print v.text).bind fun _ => .pure _
        · rw [v.text]
          exact (Mirrors.print _).bind fun _ _ => (Mirrors.pure .normal).follows
      | returnsNil => exact (Mirrors.pure (.returned .nil)).follows
      | returns sameValue =>
        refine (he sameValue paired).bind (fun _ _ => .pure _) fun _ v => ?_
        exact (Mirrors.pure (.returned v)).follows
      | var sameName sameInitial =>
        refine (he sameInitial paired).bind (fun _ _ => ?_) fun le v => ?_
        · exact (Appends.define _ _ _).bind fun _ => .pure _
        · refine (Mirrors.define (Pairing.scopes_mono le paired) sameName v).bind fun _ _ => ?_
          exact (Mirrors.pure .normal).follows
      | whileLoop sameCondition sameBody =>
        exact (Follows.loop (fun fuel => appendsE fuel _ _) (fun fuel => appendsS fuel _ _)
          (fun le => he sameCondition (Pairing.scopes_mono le paired))
          (fun le => hs sameBody (Pairing.scopes_mono le paired)) fuel)

theorem follows_interpretIn (frames : Option Nat) (fuel : Nat) {s s' : Stmt}
    {scope scope' : ScopeId} (same : s.bare = s'.bare) (paired : W.scopes scope scope') :
    Follows W Value.Twin (interpretIn frames fuel scope s) fun fuel =>
      interpretIn frames fuel scope' s' := by
  obtain ⟨he, hs⟩ := follows_eval_exec frames fuel
  have executed := hs same paired
  cases Stmt.twin_of_bare same with
  | expression sameValue => exact he sameValue paired
  | _ =>
    refine executed.bind (fun _ _ => .pure _) fun _ flows => ?_
    exact (Mirrors.pure flows.value).follows

theorem follows_statements (frames : Option Nat) (fuel : Nat) {ss ss' : List Stmt}
    {scope scope' : ScopeId} (same : ss.map Stmt.bare = ss'.map Stmt.bare)
    (paired : W.scopes scope scope') :
    Follows W (fun W => List.Forall₂ (Value.Twin W))
      (Run.each (interpretIn frames fuel scope) ss) fun fuel =>
        Run.each (interpretIn frames fuel scope') ss' :=
  .each (R := Value.Twin) .mono (fun fuel s => appends_interpretIn frames fuel scope' s)
    (fun le same => follows_interpretIn frames fuel same (Pairing.scopes_mono le paired))
    (forall₂_of_map_eq same)

theorem follows_interpretAll (frames : Option Nat) (fuel : Nat) {program program' : Program}
    (same : program.bare = program'.bare) (paired : W.scopes Machine.globals Machine.globals) :
    Follows W (fun _ => Eq) (interpretAll frames fuel program) fun fuel =>
      interpretAll frames fuel program' := by
  induction program generalizing W program' with
  | nil =>
    cases List.map_eq_nil_iff.1 same.symm
    exact (Mirrors.pure rfl).follows
  | cons s rest ih =>
    obtain ⟨s', rest', rfl, first, sameRest⟩ := List.map_eq_cons_iff.1 same.symm
    have head := follows_interpretIn frames fuel first.symm paired
    refine head.bind (fun fuel _ => ?_) fun le _ => ?_
    · exact appends_interpretAll frames fuel rest'
    · exact ih sameRest.symm (Pairing.scopes_mono le paired)

end

/-! ## Two programs -/

/-- On machines that are twins the programs do the same, in paired scopes and in
the global ones: they print the same, give the same values or stop with the same
error, up to functions and lines, and leave twins. -/
def Program.RunsAs (program program' : Program) : Prop :=
  ∀ {W m m'}, m.Twin W m' → ∀ frames,
    (∀ {scope scope'}, W.scopes scope scope' →
      Run.Alike W (fun W => List.Forall₂ (Value.Twin W))
        (fun fuel => Run.each (interpretIn frames fuel scope) program)
        (fun fuel => Run.each (interpretIn frames fuel scope') program') m m') ∧
    (W.scopes Machine.globals Machine.globals →
      Run.Alike W (fun _ => Eq) (fun fuel => interpretAll frames fuel program)
        (fun fuel => interpretAll frames fuel program') m m')

theorem Program.runsAs_of_bare {program program' : Program} (same : program.bare = program'.bare) :
    program.RunsAs program' := by
  intro W m m' twins frames
  constructor
  · intro scope scope' paired
    have forth := fun fuel => follows_statements frames fuel same paired twins
    have back := fun fuel =>
      follows_statements (W := W.swap) frames fuel same.symm paired twins.swap
    exact .of_followsAt (fun le => .each (fun s => extends_interpretIn le scope' s) program') forth
      back
  · intro paired
    have forth := fun fuel => follows_interpretAll frames fuel same paired twins
    have back := fun fuel =>
      follows_interpretAll (W := W.swap) frames fuel same.symm paired twins.swap
    exact .of_followsAt (fun le => extends_interpretAll le program') forth back

/-- Neither parentheses that are not needed nor lines make a difference to a run.
Programs that are the same without them run as each other, on any machines that
are twins, functions on them included; so do programs that are the same up to
lines, such as one that was written out and the one that is read from that. -/
theorem layout_irrelevant (program program' : Program) :
    (program.bare = program'.bare → program.RunsAs program') ∧
      (program.unlined = program'.unlined → program.RunsAs program') :=
  ⟨Program.runsAs_of_bare, fun same => Program.runsAs_of_bare (Program.bare_of_unlined same)⟩

/-! ## A program spread over lines -/

namespace Spread

/-- The text `fun f() { return "a"; } print f(); x;`. -/
def plain : Program :=
  [.function (.ofName "f") []
    [.returns ⟨.kwReturn, "return", none, 1⟩ (some (.literal (.string "a")))],
   .print (.callOf "f" 1), .expression (.identifier (.ofName "x"))]

/-- The text with more parentheses, `fun f() { return (("a")); } print (f()); (x);`, and on
four lines. -/
def spread : Program :=
  [.function (.ofName "f") []
    [.returns ⟨.kwReturn, "return", none, 2⟩
      (some (.grouping (.grouping (.literal (.string "a")))))],
   .print (.grouping (.callOf "f" 3)),
   .expression (.grouping (.identifier ⟨.identifier, "x", none, 4⟩))]

instance decidableIsOutOfFuel {α : Type} (result : Result α) : Decidable (IsOutOfFuel result) :=
  match result with
  | .ok _ _ => .isFalse id
  | .error (.failed _) _ => .isFalse id
  | .error .outOfFuel _ => .isTrue trivial

end Spread

open Spread

/-- Both print what the function returns and stop at the variable that is not
there, if on different lines. -/
theorem spread_runs_as_plain :
    plain.bare = spread.bare ∧
    (Run.after (interpretAll (some maxFrames) 9 spread) (.initial (.still 0))).sink.written =
      "a\n".toUTF8 ∧
    ∃ W, Run.Ends W (fun _ => Eq) (interpretAll (some maxFrames) 9 plain (.initial (.still 0)))
      (interpretAll (some maxFrames) 9 spread (.initial (.still 0))) := by
  have same : plain.bare = spread.bare := rfl
  obtain ⟨-, global⟩ := (layout_irrelevant plain spread).1 same
    (Machine.twin_initial (.still 0)) (some maxFrames)
  have alike := global ⟨rfl, Machine.globals_lt_size _⟩
  have finished : ¬ IsOutOfFuel (interpretAll (some maxFrames) 9 plain (.initial (.still 0))) := by
    decide +kernel
  have finished' :
      ¬ IsOutOfFuel (interpretAll (some maxFrames) 9 spread (.initial (.still 0))) := by
    decide +kernel
  obtain ⟨W, -, ends⟩ := alike.ends finished finished'
  exact ⟨same, by decide +kernel, W, ends⟩

end Scriptlet
