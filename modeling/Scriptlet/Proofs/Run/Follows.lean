/-
# One run follows another

Two runs on machines that are twins may do the same and not take the same fuel
for it.  So what is said of the one run, which has some fuel, is said of the
other with enough of it: `Run.Follows` says that the other ends as the one does,
with whatever fuel there is from some amount on.  Each combinator that evaluation
is written with keeps it.  Runs to which fuel is nothing are a simple case
(`Run.Mirrors`).

A run that is not over yet when its fuel is used up has printed something, too,
and the other one prints that as well, if not with the same fuel.  For this it
matters that what comes later only adds to the output (`Appends`).

Two runs that follow each other are `Run.Alike`.
-/
import Scriptlet.Eval.Fuel
import Scriptlet.Proofs.Run.Appends
import Scriptlet.Proofs.Run.Paired

namespace Scriptlet

/-! ## Output -/

/-- What the one sink has taken, the other has taken first. -/
def Sink.Within (sink sink' : Sink) : Prop := ∃ more, sink'.written = sink.written ++ more

namespace Sink.Within

variable {sink sink' sink'' : Sink}

theorem refl (sink : Sink) : sink.Within sink := ⟨.empty, ByteArray.append_empty.symm⟩

theorem trans (h : sink.Within sink') (h' : sink'.Within sink'') : sink.Within sink'' := by
  obtain ⟨more, h⟩ := h
  obtain ⟨more', h'⟩ := h'
  exact ⟨more ++ more', by rw [h', h, ByteArray.append_assoc]⟩

end Sink.Within

/-- A run only adds to the output. -/
theorem Appends.within {α : Type} {run : Run α} (h : Appends run) (m : Machine) :
    m.sink.Within (Run.after run m).sink := by
  obtain ⟨bytes, same⟩ := h m
  have here := same m.sink.written
  rw [Machine.withWritten_written] at here
  refine ⟨bytes, ?_⟩
  unfold Run.after
  cases ran : run m with
  | ok a m' =>
    rw [ran] at here
    injection here with _ left
    exact congrArg (·.sink.written) left
  | error e m' =>
    rw [ran] at here
    injection here with _ left
    exact congrArg (·.sink.written) left

namespace Run

variable {α β γ δ : Type}

theorem within_bind (run : Run α) {k : α → Run β} (hk : ∀ a, Appends (k a)) (m : Machine) :
    (after run m).sink.Within (after (run >>= k) m).sink := by
  rw [after_bind]
  split
  · exact (hk _).within _
  · exact .refl _

/-! ## Results -/

/-- What comes of a run, with the machine that it leaves. -/
abbrev Result (α : Type) : Type := EStateM.Result (Stop RuntimeError) Machine α

theorem forall₂_of_map_eq {f : α → β} {g : γ → β} {as : List α} {cs : List γ}
    (same : as.map f = cs.map g) : List.Forall₂ (fun a c => f a = g c) as cs := by
  have equal : List.Forall₂ Eq (as.map f) (cs.map g) := same ▸ List.forall₂_refl _
  rwa [List.forall₂_map_left_iff, List.forall₂_map_right_iff] at equal

theorem eq_error_of_isOutOfFuel {result : Result α} (out : IsOutOfFuel result) :
    ∃ m, result = .error .outOfFuel m := by
  rcases result with _ | ⟨_ | _, m⟩
  · exact out.elim
  · exact out.elim
  · exact ⟨m, rfl⟩

/-- The result of a call, back in the frame that it was made from. -/
def leaveFrame (depth : Nat) : Result α → Result α
  | .ok a m => .ok a { m with callDepth := depth }
  | .error e m => .error e { m with callDepth := depth }

theorem inFrame_eq_leaveFrame {frames : Option Nat} {m : Machine}
    (free : ¬ frames.any (· ≤ m.callDepth)) (line : Nat) (run : Run α) :
    inFrame frames line run m =
      leaveFrame m.callDepth (run { m with callDepth := m.callDepth + 1 }) :=
  if_neg free

/-! ## How two runs end -/

/-- What is said of two values, with a pairing of the machines that come with
them. -/
abbrev Likeness (α β : Type) : Type := Pairing → α → β → Prop

/-- Both runs have ended, with results that are alike or with the same error up
to its line, and have left machines that are twins. -/
inductive Ends (W : Pairing) (R : Likeness α β) : Result α → Result β → Prop
  | ok {a : α} {b : β} {m m' : Machine} : m.Twin W m' → R W a b → Ends W R (.ok a m) (.ok b m')
  | failed {e e' : RuntimeError} {m m' : Machine} : m.Twin W m' → e.unlined = e'.unlined →
      Ends W R (.error (.failed e) m) (.error (.failed e') m')

variable {W : Pairing} {R : Likeness α β} {S : Likeness γ δ}

theorem Ends.not_outOfFuel {result : Result α} {result' : Result β} (h : Ends W R result result') :
    ¬ IsOutOfFuel result ∧ ¬ IsOutOfFuel result' := by
  cases h <;> exact ⟨id, id⟩

theorem Ends.sink {run : Run α} {run' : Run β} {m m' : Machine}
    (h : Ends W R (run m) (run' m')) : (after run' m').sink = (after run m).sink := by
  unfold after
  generalize run m = result, run' m' = result' at h
  cases h with
  | ok twins _ => exact twins.sink.symm
  | failed twins _ => exact twins.sink.symm

theorem Ends.leaveFrame {result : Result α} {result' : Result β} (h : Ends W R result result')
    (depth : Nat) : Ends W R (leaveFrame depth result) (leaveFrame depth result') := by
  cases h with
  | ok twins related => exact .ok (twins.withCallDepth depth) related
  | failed twins same => exact .failed (twins.withCallDepth depth) same

/-- One run from `m` and another one, with different fuel, from `m'`. -/
inductive FollowsAt (W : Pairing) (R : Likeness α β) (run : Run α) (runs : Nat → Run β)
    (m m' : Machine) : Prop
  /-- The first is not over, and what it has printed the second prints with enough
  fuel, too. -/
  | running : IsOutOfFuel (run m) → (enough : Nat) →
      (∀ fuel ≥ enough, (after run m).sink.Within (after (runs fuel) m').sink) →
      FollowsAt W R run runs m m'
  /-- The first is over, and with enough fuel the second ends alike. -/
  | ended {W' : Pairing} {result : Result β} : W ≤ W' → (enough : Nat) →
      (∀ fuel ≥ enough, runs fuel m' = result) → Ends W' R (run m) result →
      FollowsAt W R run runs m m'

/-- Whatever the one run does, the other one does if it has enough fuel. -/
def Follows (W : Pairing) (R : Likeness α β) (run : Run α) (runs : Nat → Run β) : Prop :=
  ∀ ⦃m m'⦄, m.Twin W m' → FollowsAt W R run runs m m'

/-- The same, for runs to which fuel is nothing. -/
def Mirrors (W : Pairing) (R : Likeness α β) (run : Run α) (run' : Run β) : Prop :=
  ∀ ⦃m m'⦄, m.Twin W m' → ∃ W', W ≤ W' ∧ Ends W' R (run m) (run' m')

theorem FollowsAt.bind {run : Run α} {runs : Nat → Run β} {k : α → Run γ} {ks : Nat → β → Run δ}
    {m m' : Machine} {W' : Pairing} {result : Result β} {enough : Nat} (le : W ≤ W')
    (settled : ∀ fuel ≥ enough, runs fuel m' = result)
    (ends : Ends W' R (run m) result)
    (hk : ∀ {W a b}, W' ≤ W → R W a b → Follows W S (k a) fun fuel => ks fuel b) :
    FollowsAt W S (run >>= k) (fun fuel => runs fuel >>= ks fuel) m m' := by
  generalize first : run m = r at ends
  cases ends with
  | failed twins same =>
    refine .ended le enough (fun fuel more => bind_of_error (settled fuel more) _) ?_
    rw [bind_of_error first]
    exact .failed twins same
  | ok twins related =>
    rename_i a b m₁ m₁'
    have onward : ∀ fuel ≥ enough, (runs fuel >>= ks fuel) m' = ks fuel b m₁' :=
      fun fuel more => bind_of_ok (settled fuel more) _
    rcases hk (le_refl _) related twins with ⟨out, enough', within⟩ | ⟨le', enough', settled', ends⟩
    · refine .running ?_ (max enough enough') fun fuel more => ?_
      · rwa [bind_of_ok first]
      · obtain ⟨more, more'⟩ := Nat.max_le.1 more
        unfold after at within ⊢
        rw [bind_of_ok first, onward fuel more]
        exact within fuel more'
    · rw [← bind_of_ok first k] at ends
      refine .ended (le_trans le le') (max enough enough') (fun fuel more => ?_) ends
      obtain ⟨more, more'⟩ := Nat.max_le.1 more
      exact (onward fuel more).trans (settled' fuel more')

namespace Mirrors

variable {run : Run α} {run' : Run β}

theorem follows (h : Mirrors W R run run') : Follows W R run fun _ => run' := by
  intro m m' twins
  obtain ⟨W', le, ends⟩ := h twins
  exact .ended le 0 (fun _ _ => rfl) ends

theorem bind (h : Mirrors W R run run') {k : α → Run γ} {ks : Nat → β → Run δ}
    (hk : ∀ {W' a b}, W ≤ W' → R W' a b → Follows W' S (k a) fun fuel => ks fuel b) :
    Follows W S (run >>= k) fun fuel => run' >>= ks fuel := by
  intro m m' twins
  obtain ⟨W', le, ends⟩ := h twins
  exact .bind le (fun fuel (_ : fuel ≥ 0) => rfl) ends fun le' => hk (le_trans le le')

theorem pure {a : α} {b : β} (related : R W a b) :
    Mirrors W R (Pure.pure a) (Pure.pure b) :=
  fun _ _ twins => ⟨W, le_refl W, .ok twins related⟩

theorem fail {e e' : RuntimeError} (same : e.unlined = e'.unlined) :
    Mirrors W R (Run.fail e) (Run.fail e') :=
  fun _ _ twins => ⟨W, le_refl W, .failed twins same⟩

theorem ofExcept {result : Except RuntimeError α} {result' : Except RuntimeError β}
    (h : UpToLine (R W) result result') :
    Mirrors W R (Run.ofExcept result) (Run.ofExcept result') := by
  cases h with
  | ok related => exact pure related
  | error same => exact fail same

theorem checkArity {expected expected' found found' : Nat} (line line' : Nat)
    (he : expected = expected') (hf : found = found') :
    Mirrors W (fun _ => Eq) (Run.checkArity expected found line)
      (Run.checkArity expected' found' line') := by
  subst he hf
  unfold Run.checkArity
  split
  · exact pure rfl
  · exact fail rfl

theorem openScope {outer outer' : ScopeId} (paired : W.scopes outer outer')
    {bindings bindings' : Bindings} (hb : bindings.Twin W bindings') :
    Mirrors W Pairing.scopes (Run.openScope outer bindings) (Run.openScope outer' bindings') := by
  intro m m' twins
  obtain ⟨W', le, new, twins'⟩ := twins.addScope paired hb
  exact ⟨W', le, .ok twins' new⟩

theorem define {id id' : ScopeId} (paired : W.scopes id id') {name name' : Token}
    (same : name.unlined = name'.unlined) {value value' : Value} (hv : value.Twin W value') :
    Mirrors W (fun _ => Eq) (Run.define id name.lexeme value)
      (Run.define id' name'.lexeme value') := by
  intro m m' twins
  rw [Token.lexeme_eq same]
  exact ⟨W, le_refl W, .ok (twins.define paired name'.lexeme hv) rfl⟩

theorem lookup {id id' : ScopeId} (paired : W.scopes id id') {name name' : Token}
    (same : name.unlined = name'.unlined) :
    Mirrors W Value.Twin (Run.lookup id name) (Run.lookup id' name') := by
  intro m m' twins
  have found := twins.get? paired name'.lexeme
  refine ⟨W, le_refl W, ?_⟩
  unfold Run.lookup
  rw [Token.lexeme_eq same]
  generalize m.scopes.get? id name'.lexeme = value,
    m'.scopes.get? id' name'.lexeme = value' at found ⊢
  cases found with
  | some related => exact .ok twins related
  | none => exact .failed twins rfl

theorem assign {id id' : ScopeId} (paired : W.scopes id id') {name name' : Token}
    (same : name.unlined = name'.unlined) {value value' : Value} (hv : value.Twin W value') :
    Mirrors W (fun _ => Eq) (Run.assign id name value) (Run.assign id' name' value') := by
  intro m m' twins
  have found := twins.resolve paired name'.lexeme
  refine ⟨W, le_refl W, ?_⟩
  unfold Run.assign
  rw [Token.lexeme_eq same]
  generalize m.scopes.resolve id name'.lexeme = home,
    m'.scopes.resolve id' name'.lexeme = home' at found ⊢
  cases found with
  | some homes => exact .ok (twins.define homes name'.lexeme hv) rfl
  | none => exact .failed twins rfl

theorem newFunction {name name' : Token} {params params' : List Token} {body body' : List Stmt}
    {scope scope' : ScopeId} (sameName : name.unlined = name'.unlined)
    (sameParams : params.map Token.unlined = params'.map Token.unlined)
    (sameBody : body.map Stmt.bare = body'.map Stmt.bare) (paired : W.scopes scope scope') :
    Mirrors W Value.Twin (Run.newFunction name params body scope)
      (Run.newFunction name' params' body' scope') := by
  intro m m' twins
  obtain ⟨W', le, new, twins'⟩ := twins.newFunction sameName sameParams sameBody paired
  exact ⟨W', le, .ok twins' (.function new)⟩

theorem native {values values' : List Value} (h : List.Forall₂ (Value.Twin W) values values')
    (f : Native) (line line' : Nat) :
    Mirrors W Value.Twin (Run.native f values line) (Run.native f values' line') := by
  intro m m' twins
  have applied := Native.apply_twin h f m.clock
  refine ⟨W, le_refl W, ?_⟩
  unfold Run.native
  rw [← twins.clock]
  generalize f.apply values m.clock = result, f.apply values' m.clock = result' at applied ⊢
  cases applied with
  | ok related => exact .ok (twins.withClock _) related
  | error => exact .failed (twins.withClock _) rfl

theorem print (text : String) : Mirrors W (fun _ => Eq) (Run.print text) (Run.print text) := by
  intro m m' twins
  refine ⟨W, le_refl W, ?_⟩
  have twins' := twins.withSink (m.sink.write (text ++ "\n").toUTF8)
  unfold Run.print
  rw [← twins.sink]
  dsimp only
  split
  · exact .ok twins' rfl
  · exact .failed twins' rfl

end Mirrors

namespace Follows

variable {run : Run α} {runs : Nat → Run β}

theorem outOfFuel (runs : Nat → Run β) (appends : ∀ fuel, Appends (runs fuel)) :
    Follows W R (Run.outOfFuel : Run α) runs := by
  intro m m' twins
  refine .running trivial 0 fun fuel _ => ?_
  rw [show (after (Run.outOfFuel : Run α) m).sink = m'.sink from twins.sink]
  exact (appends fuel).within m'

/-- One step that takes fuel may be taken first. -/
theorem succ (h : Follows W R run fun fuel => runs (fuel + 1)) : Follows W R run runs := by
  intro m m' twins
  have shift : ∀ {fuel enough}, fuel ≥ enough + 1 → fuel - 1 + 1 = fuel ∧ fuel - 1 ≥ enough := by
    omega
  rcases h twins with ⟨out, enough, within⟩ | ⟨le, enough, settled, ends⟩
  · refine .running out (enough + 1) fun fuel more => ?_
    obtain ⟨same, more⟩ := shift more
    exact same ▸ within (fuel - 1) more
  · refine .ended le (enough + 1) (fun fuel more => ?_) ends
    obtain ⟨same, more⟩ := shift more
    exact same ▸ settled (fuel - 1) more

/-- So may one that takes fuel be left out. -/
theorem more (h : Follows W R run runs) : Follows W R run fun fuel => runs (fuel + 1) := by
  intro m m' twins
  rcases h twins with ⟨out, enough, within⟩ | ⟨le, enough, settled, ends⟩
  · exact .running out enough fun fuel more => within (fuel + 1) (Nat.le_succ_of_le more)
  · exact .ended le enough (fun fuel more => settled (fuel + 1) (Nat.le_succ_of_le more)) ends

theorem bind (h : Follows W R run runs) {k : α → Run γ} {ks : Nat → β → Run δ}
    (appends : ∀ fuel b, Appends (ks fuel b))
    (hk : ∀ {W' a b}, W ≤ W' → R W' a b → Follows W' S (k a) fun fuel => ks fuel b) :
    Follows W S (run >>= k) fun fuel => runs fuel >>= ks fuel := by
  intro m m' twins
  rcases h twins with ⟨out, enough, within⟩ | ⟨le, enough, settled, ends⟩
  · obtain ⟨m₁, first⟩ := eq_error_of_isOutOfFuel out
    have both := bind_of_error first k
    refine .running (both ▸ trivial) enough fun fuel more => ?_
    have same : after (run >>= k) m = after run m := by
      unfold after
      rw [both, first]
    rw [same]
    exact (within fuel more).trans (within_bind (runs fuel) (appends fuel) m')
  · exact .bind le settled ends fun le' => hk (le_trans le le')

theorem each {ι ι' : Type} {P : ι → ι' → Prop} {run : ι → Run α} {runs : Nat → ι' → Run β}
    (mono : ∀ {W W' a b}, R W a b → W ≤ W' → R W' a b)
    (appends : ∀ fuel i', Appends (runs fuel i'))
    (h : ∀ {W' i i'}, W ≤ W' → P i i' → Follows W' R (run i) fun fuel => runs fuel i')
    {is : List ι} {is' : List ι'} (alike : List.Forall₂ P is is') :
    Follows W (fun W => List.Forall₂ (R W)) (Run.each run is) fun fuel =>
      Run.each (runs fuel) is' := by
  induction alike generalizing W with
  | nil => exact (Mirrors.pure .nil).follows
  | cons first _ ih =>
    rename_i is is' _
    refine (h (le_refl W) first).bind (fun fuel b => ?_) fun le related => ?_
    · exact (Appends.each (appends fuel) is').bind fun _ => .pure _
    · refine (ih fun le' => h (le_trans le le')).bind (fun _ _ => .pure _) ?_
      intro W' as bs le' relateds
      exact (Mirrors.pure (.cons (mono related le') relateds)).follows

theorem sequence {exec : Stmt → Run Flow} {execs : Nat → Stmt → Run Flow}
    (appends : ∀ fuel s, Appends (execs fuel s))
    (h : ∀ {W' s s'}, W ≤ W' → s.bare = s'.bare →
      Follows W' Flow.Twin (exec s) fun fuel => execs fuel s')
    {ss ss' : List Stmt} (same : ss.map Stmt.bare = ss'.map Stmt.bare) :
    Follows W Flow.Twin (Run.sequence exec ss) fun fuel => Run.sequence (execs fuel) ss' := by
  induction ss generalizing W ss' with
  | nil =>
    cases List.map_eq_nil_iff.1 same.symm
    exact (Mirrors.pure .normal).follows
  | cons s ss ih =>
    obtain ⟨s', ss', rfl, first, rest⟩ := List.map_eq_cons_iff.1 same.symm
    refine (h (le_refl W) first.symm).bind (fun fuel flow => ?_) fun le flows => ?_
    · cases flow with
      | normal => exact .sequence (appends fuel) ss'
      | returned value => exact .pure _
    · cases flows with
      | normal => exact ih (fun le' => h (le_trans le le')) rest.symm
      | returned twins => exact (Mirrors.pure (.returned twins)).follows

/-- The second loop may take any number of rounds. -/
theorem loop {c : Run Value} {b : Run Flow} {cs : Nat → Run Value} {bs : Nat → Run Flow}
    (appendsConditions : ∀ fuel, Appends (cs fuel)) (appendsBodies : ∀ fuel, Appends (bs fuel))
    (hc : ∀ {W'}, W ≤ W' → Follows W' Value.Twin c cs)
    (hb : ∀ {W'}, W ≤ W' → Follows W' Flow.Twin b bs) (rounds : Nat) :
    Follows W Flow.Twin (Run.loop c b rounds) fun fuel => Run.loop (cs fuel) (bs fuel) fuel := by
  have loops : ∀ fuel rounds, Appends (Run.loop (cs fuel) (bs fuel) rounds) :=
    fun fuel => .loop (appendsConditions fuel) (appendsBodies fuel)
  induction rounds generalizing W cs bs with
  | zero => exact outOfFuel _ fun fuel => loops fuel fuel
  | succ rounds ih =>
    refine succ ((hc (le_refl W)).more.bind (fun fuel v => ?_) fun le twins => ?_)
    · split
      · refine (appendsBodies (fuel + 1)).bind fun flow => ?_
        cases flow with
        | normal => exact loops (fuel + 1) fuel
        | returned value => exact .pure _
      · exact .pure _
    · rw [twins.isTruthy]
      split
      · refine (hb le).more.bind (fun fuel flow => ?_) fun le' flows => ?_
        · cases flow with
          | normal => exact loops (fuel + 1) fuel
          | returned value => exact .pure _
        · have later := le_trans le le'
          cases flows with
          | normal =>
            exact ih (fun fuel => appendsConditions (fuel + 1))
              (fun fuel => appendsBodies (fuel + 1))
              (fun le' => (hc (le_trans later le')).more)
              (fun le' => (hb (le_trans later le')).more) fun fuel => loops (fuel + 1)
          | returned twins => exact (Mirrors.pure (.returned twins)).follows
      · exact (Mirrors.pure .normal).follows

theorem inFrame (frames : Option Nat) (line line' : Nat) (h : Follows W R run runs) :
    Follows W R (Run.inFrame frames line run) fun fuel => Run.inFrame frames line' (runs fuel) := by
  intro m m' twins
  by_cases full : frames.any (· ≤ m.callDepth)
  · have full' : frames.any (· ≤ m'.callDepth) := twins.callDepth ▸ full
    have overflow : Run.inFrame frames line run m = .error (.failed (.stackOverflow line)) m :=
      if_pos full
    refine .ended (le_refl W) 0 (fun fuel _ => if_pos full') ?_
    rw [overflow]
    exact .failed twins rfl
  · have free' : ¬ frames.any (· ≤ m'.callDepth) := twins.callDepth ▸ full
    have framed := inFrame_eq_leaveFrame full line run
    have framed' : ∀ fuel, Run.inFrame frames line' (runs fuel) m' = _ :=
      fun fuel => inFrame_eq_leaveFrame free' line' (runs fuel)
    rcases h (twins.withCallDepth (m.callDepth + 1)) with
      ⟨out, enough, within⟩ | ⟨le, enough, settled, ends⟩
    · obtain ⟨m₁, stopped⟩ := eq_error_of_isOutOfFuel out
      refine .running ?_ enough fun fuel more => ?_
      · rw [framed, stopped]
        trivial
      · rw [after_inFrame, after_inFrame, if_neg full, if_neg free', ← twins.callDepth]
        exact within fuel more
    · have left := ends.leaveFrame m.callDepth
      rw [← framed] at left
      refine .ended le enough (fun fuel more => ?_) left
      rw [framed', ← twins.callDepth, settled fuel more]

/-- The bodies are run with functions and arguments that are twins. -/
theorem call {exec : Stmt → ScopeId → Run Flow} {execs : Nat → Stmt → ScopeId → Run Flow}
    (appends : ∀ fuel s id, Appends (execs fuel s id))
    (h : ∀ {W' s s' id id'}, s.bare = s'.bare → W'.scopes id id' →
      Follows W' Flow.Twin (exec s id) fun fuel => execs fuel s' id')
    (frames : Option Nat) {callee callee' : Value} (callees : callee.Twin W callee')
    {arguments arguments' : List Value} (twins : List.Forall₂ (Value.Twin W) arguments arguments')
    (line line' : Nat) :
    Follows W Value.Twin (Run.call frames exec callee arguments line) fun fuel =>
      Run.call frames (execs fuel) callee' arguments' line' := by
  cases callees with
  | function fs =>
    rename_i f f'
    refine (Mirrors.checkArity line line' fs.arity twins.length_eq).bind fun le _ => ?_
    refine inFrame frames line line' ?_
    have bindings := Bindings.twin_ofLists (f'.params.map (·.lexeme))
      (twins.imp fun _ _ twins => twins.mono le)
    rw [fs.lexemes]
    refine (Mirrors.openScope (Pairing.scopes_mono le fs.scope) bindings).bind fun _ inner => ?_
    have body := sequence (fun fuel s => appends fuel s _)
      (fun le same => h same (Pairing.scopes_mono le inner)) fs.body
    refine body.bind (fun _ _ => .pure _) fun _ flows => ?_
    exact (Mirrors.pure flows.value).follows
  | native f =>
    refine (Mirrors.checkArity line line' rfl twins.length_eq).bind fun le _ => ?_
    exact (Mirrors.native (twins.imp fun _ _ twins => twins.mono le) f line line').follows
  | _ => exact (Mirrors.fail (by rfl)).follows

end Follows

/-! ## Runs that follow each other -/

/-- No fuel makes a difference to be seen between two runs, from `m` and from
`m'`. -/
structure Alike (W : Pairing) (R : Likeness α β) (runs : Nat → Run α) (runs' : Nat → Run β)
    (m m' : Machine) : Prop where
  /-- If one comes to an end with enough fuel, so does the other. -/
  finishes : (∃ fuel, ¬ IsOutOfFuel (runs fuel m)) ↔ ∃ fuel, ¬ IsOutOfFuel (runs' fuel m')
  ends : ∀ {fuel fuel'}, ¬ IsOutOfFuel (runs fuel m) → ¬ IsOutOfFuel (runs' fuel' m') →
    ∃ W', W ≤ W' ∧ Ends W' R (runs fuel m) (runs' fuel' m')
  /-- What the first prints, the second prints, be it over then or not. -/
  prints : ∀ fuel, ∃ fuel', (after (runs fuel) m).sink.Within (after (runs' fuel') m').sink
  prints' : ∀ fuel', ∃ fuel, (after (runs' fuel') m').sink.Within (after (runs fuel) m).sink

namespace FollowsAt

variable {run : Run α} {runs : Nat → Run β} {m m' : Machine}

theorem finishes (h : FollowsAt W R run runs m m') (ended : ¬ IsOutOfFuel (run m)) :
    ∃ fuel, ¬ IsOutOfFuel (runs fuel m') := by
  cases h with
  | running out => exact absurd out ended
  | ended _ enough settled ends =>
    refine ⟨enough, ?_⟩
    rw [settled enough (Nat.le_refl _)]
    exact ends.not_outOfFuel.2

theorem prints (h : FollowsAt W R run runs m m') :
    ∃ fuel, (after run m).sink.Within (after (runs fuel) m').sink := by
  cases h with
  | running _ enough within => exact ⟨enough, within enough (Nat.le_refl _)⟩
  | ended _ enough settled ends =>
    rw [← settled enough (Nat.le_refl _)] at ends
    exact ⟨enough, ends.sink ▸ .refl _⟩

/-- With any fuel with which the second run ends, it ends as it does with more. -/
theorem ends (h : FollowsAt W R run runs m m')
    (extends' : ∀ {fuel fuel'}, fuel ≤ fuel' → Extends (runs fuel) (runs fuel')) {fuel : Nat}
    (ended : ¬ IsOutOfFuel (run m)) (ended' : ¬ IsOutOfFuel (runs fuel m')) :
    ∃ W', W ≤ W' ∧ Ends W' R (run m) (runs fuel m') := by
  cases h with
  | running out => exact absurd out ended
  | ended le enough settled ends =>
    refine ⟨_, le, ?_⟩
    have more := (extends' (Nat.le_max_left fuel enough) m').resolve_left ended'
    rwa [← more, settled _ (Nat.le_max_right fuel enough)]

end FollowsAt

/-- Each run is followed by the other, seen from the one machine and from the
other. -/
theorem Alike.of_followsAt {W' : Pairing} {R' : Likeness β α}
    {runs : Nat → Run α} {runs' : Nat → Run β} {m m' : Machine}
    (extends' : ∀ {fuel fuel'}, fuel ≤ fuel' → Extends (runs' fuel) (runs' fuel'))
    (forth : ∀ fuel, FollowsAt W R (runs fuel) runs' m m')
    (back : ∀ fuel, FollowsAt W' R' (runs' fuel) runs m' m) : Alike W R runs runs' m m' where
  finishes := by
    constructor
    · rintro ⟨fuel, ended⟩
      exact (forth fuel).finishes ended
    · rintro ⟨fuel, ended⟩
      exact (back fuel).finishes ended
  ends ended ended' := (forth _).ends extends' ended ended'
  prints fuel := (forth fuel).prints
  prints' fuel := (back fuel).prints

end Run

end Scriptlet
