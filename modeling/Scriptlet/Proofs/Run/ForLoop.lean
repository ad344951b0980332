/-
# What a `for` loop runs where

A `for` loop has no node of its own.  It is read as a `while` loop, in a block behind its
initial statement, and its increment is put in a block behind its body.  That says where
everything runs: the condition runs in the header, which is the scope of the block or else
the scope around the loop; a round with an increment has a scope of its own, which body
and increment share; a body without an increment runs in the header itself.

One would sooner think of a loop whose clauses all run in the header and whose body has a
scope of its own in each round (`ownRound`).  The loop is that one as long as nothing can
tell.  With an increment that is so if the body declares no name in the scope of the round
that the increment looks for, and then the two runs are equal.  Without one it is so if the
body declares no name there at all; the scope of a round is blank then, and the runs go
abreast.  A body that declares a name directly, for which it must be a function or end in
one, shows the difference.
-/
import Scriptlet.Proofs.Run.Abreast
import Scriptlet.Proofs.Scopes.Lexical

namespace Scriptlet

open Run

/-! ## Loops by their clauses -/

/-- One run and then another one, unless the first returns. -/
def Run.before (run next : Run Flow) : Run Flow := do
  match ← run with
  | .normal => next
  | .returned value => pure (.returned value)

/-- A round of the loop as it is read. -/
def sharedRound (frames : Option Nat) (body : Stmt) :
    (increment : Option Expr) → (fuel : Nat) → (header : ScopeId) → Run Flow
  | none, fuel, header => exec frames fuel body header
  | some _, 0, _ => outOfFuel
  | some increment, fuel + 1, header => do
    let own ← openScope header []
    (exec frames fuel body own).before (exec frames fuel (.expression increment) own)

/-- A round in which the body runs in a scope of its own and the increment in the
header. -/
def ownRound (frames : Option Nat) (body : Stmt) :
    (increment : Option Expr) → (fuel : Nat) → (header : ScopeId) → Run Flow
  | none, fuel, header => do
    let own ← openScope header []
    exec frames fuel body own
  | some _, 0, _ => outOfFuel
  | some increment, fuel + 1, header => do
    let own ← openScope header []
    (exec frames fuel body own).before (exec frames fuel (.expression increment) header)

/-- Rounds as long as the condition is truthy in the header, up to one that returns. -/
def forRounds (frames : Option Nat) (condition : Expr) (round : Nat → ScopeId → Run Flow) :
    (fuel : Nat) → (header : ScopeId) → Run Flow
  | 0, _ => outOfFuel
  | fuel + 1, header => loop (eval frames fuel condition header) (round fuel header) fuel

/-- A loop by its clauses.  With an initial statement, the header is a new scope, and that
runs there first; without one it is the scope around the loop. -/
def forClauses (frames : Option Nat) (condition : Expr) (round : Nat → ScopeId → Run Flow) :
    (initial : Option Stmt) → (fuel : Nat) → (scope : ScopeId) → Run Flow
  | none, fuel, scope => forRounds frames condition round fuel scope
  | some _, 0, _ => outOfFuel
  | some initial, fuel + 1, scope => do
    let header ← openScope scope []
    (exec frames fuel initial header).before (forRounds frames condition round fuel header)

theorem Run.before_normal (run : Run Flow) : run.before (pure .normal) = run := by
  funext m
  unfold Run.before
  rw [bind_apply]
  cases run m with
  | ok flow m' => cases flow <;> rfl
  | error stop m' => rfl

theorem Run.sequence_pair (run : Stmt → Run Flow) (a b : Stmt) :
    sequence run [a, b] = (run a).before (run b) := by
  show (run a).before ((run b).before (pure .normal)) = _
  rw [before_normal]

theorem exec_round (frames : Option Nat) (body : Stmt) (increment : Expr) (fuel : Nat)
    (header : ScopeId) : exec frames fuel (.block [body, .expression increment]) header =
      sharedRound frames body (some increment) fuel header := by
  cases fuel with
  | zero => rw [exec, sharedRound]
  | succ fuel => simp only [exec, sharedRound, sequence_pair]

/-- The loop as it is read, by its clauses. -/
theorem exec_forLoop (frames : Option Nat) (initial : Option Stmt) (condition : Expr)
    (increment : Option Expr) (body : Stmt) (fuel : Nat) (scope : ScopeId) :
    exec frames fuel (Parse.forLoop initial condition increment body) scope =
      forClauses frames condition (sharedRound frames body increment) initial fuel scope := by
  have rounds : ∀ fuel scope, exec frames fuel (Parse.forLoop none condition increment body) scope =
      forRounds frames condition (sharedRound frames body increment) fuel scope := by
    intro fuel scope
    cases fuel with
    | zero => rw [exec, forRounds]
    | succ fuel =>
      cases increment with
      | none => rw [forRounds, sharedRound, ← exec]; rfl
      | some increment => rw [forRounds, ← exec_round, ← exec]; rfl
  cases initial with
  | none => rw [rounds, forClauses]
  | some initial =>
    cases fuel with
    | zero => rw [exec, forClauses]
    | succ fuel =>
      have inBlock : Parse.forLoop (some initial) condition increment body =
        .block [initial, Parse.forLoop none condition increment body] := rfl
      rw [inBlock, exec, forClauses]
      simp only [sequence_pair, rounds]

/-! ## Machines on which code may run -/

/-- A machine on which code may run in the scope. -/
def Machine.Ready (m : Machine) (id : ScopeId) : Prop := m.scopes.WellFormed ∧ id < m.scopes.size

namespace Machine.Ready

variable {m m' : Machine} {id : ScopeId} {frames : Option Nat} {fuel : Nat}

theorem openScope (h : m.Ready id) :
    (m.addScope ⟨[], some id⟩).2.Ready id ∧ (m.addScope ⟨[], some id⟩).2.Ready m.scopes.size := by
  obtain ⟨wf, there⟩ := h
  have wf' : Scopes.WellFormed (m.scopes.push ⟨[], some id⟩) := by
    refine wf.push (fun outer link => ?_) fun _ _ bound => absurd bound Bindings.get?_nil_ne
    cases link
    exact there
  have size : (m.scopes.push ⟨[], some id⟩).size = m.scopes.size + 1 := Array.size_push ..
  exact ⟨⟨wf', size ▸ Nat.lt_succ_of_lt there⟩, wf', size ▸ Nat.lt_add_one _⟩

theorem eval (h : m.Ready id) {e : Expr} {v : Value} (ran : eval frames fuel e id m = .ok v m') :
    m'.Ready id := by
  have obeys := (obeys_eval_exec Scopes.outward frames fuel).1 e id m h.1 h.2
  rw [← Told.eval_run] at ran
  exact after_of_ok ran ▸ ⟨obeys.holds, Nat.lt_of_lt_of_le h.2 obeys.later⟩

theorem exec (h : m.Ready id) {s : Stmt} {flow : Flow}
    (ran : exec frames fuel s id m = .ok flow m') : m'.Ready id := by
  have obeys := (obeys_eval_exec Scopes.outward frames fuel).2 s id m h.1 h.2
  rw [← Told.exec_run] at ran
  exact after_of_ok ran ▸ ⟨obeys.holds, Nat.lt_of_lt_of_le h.2 obeys.later⟩

/-- A round leaves its header ready for the next one. -/
theorem round (h : m.Ready id) {body : Stmt} {increment : Expr} {flow : Flow}
    (ran : sharedRound frames body (some increment) fuel id m = .ok flow m') : m'.Ready id := by
  rw [← exec_round] at ran
  exact h.exec ran

end Machine.Ready

/-! ## The names of a round -/

/-- All that is told, from whichever machine, is of the kind. -/
def Trace.Tells {ε : Type} (P : ε → Prop) (events : Trace ε) : Prop := ∀ m, ∀ e ∈ events m, P e

namespace Trace.Tells

variable {ε α : Type} {P Q : ε → Prop} {events : Trace ε}

theorem nothing : Tells P Trace.nothing := fun _ _ => nofun

theorem mono (h : Tells P events) (imp : ∀ e, P e → Q e) : Tells Q events :=
  fun m e told => imp e (h m e told)

theorem next (h : Tells P events) {run : Run α} {rest : α → Trace ε}
    (hrest : ∀ a, Tells P (rest a)) : Tells P (events.next run rest) := by
  intro m e told
  cases ran : run m with
  | ok a m' =>
    rw [next_ok ran] at told
    exact (List.mem_append.1 told).elim (h m e) (hrest a m' e)
  | error stop m' =>
    rw [next_error ran] at told
    exact h m e told

theorem loop {ofBody : Trace ε} {condition : Run Value} {body : Run Flow}
    (h : Tells P events) (hbody : Tells P ofBody) (rounds : Nat) :
    Tells P (Trace.loop events condition ofBody body rounds) := by
  induction rounds with
  | zero => exact nothing
  | succ rounds ih =>
    refine h.next fun value => ?_
    split
    · refine hbody.next fun flow => ?_
      cases flow with
      | normal => exact ih
      | returned value => exact nothing
    · exact nothing

end Trace.Tells

/-- What a statement declares when it runs are names of its own. -/
theorem declared_ownNames (frames : Option Nat) (scope : ScopeId) : ∀ fuel (s : Stmt),
    Trace.Tells (· ∈ s.ownNames) (declared frames fuel s scope) := by
  intro fuel
  induction fuel with
  | zero => exact fun _ => .nothing
  | succ fuel ih =>
    intro s
    cases s with
    | block | expression | print | returns => exact .nothing
    | function => exact fun _ _ => id
    | var => exact Trace.Tells.nothing.next fun _ _ _ => id
    | ifThen condition thenBranch =>
      refine Trace.Tells.nothing.next fun value => ?_
      split
      · exact ih thenBranch
      · exact .nothing
    | ifElse condition thenBranch elseBranch =>
      refine Trace.Tells.nothing.next fun value => ?_
      split
      · exact (ih thenBranch).mono fun _ => List.mem_append_left _
      · exact (ih elseBranch).mono fun _ => List.mem_append_right _
    | whileLoop condition body => exact .loop .nothing (ih body) fuel

/-! ## Looking through a round -/

/-- The scope `own` lies in the header, and a search for one of the names passes through
it. -/
structure Scopes.LooksThrough (scopes : Scopes) (own header : ScopeId) (names : List String) :
    Prop where
  wellFormed : scopes.WellFormed
  link : scopes.outer? own = some header
  free : ∀ name ∈ names, ¬ scopes.Binds own name

namespace Scopes.LooksThrough

variable {a b : Scopes} {own header : ScopeId} {names : List String}

theorem mono (h : a.LooksThrough own header names) {fewer : List String} (subset : fewer ⊆ names) :
    a.LooksThrough own header fewer :=
  { h with free := fun name member => h.free name (subset member) }

theorem kept (h : a.LooksThrough own header names) (grown : Kept none a b) (wf : b.WellFormed) :
    b.LooksThrough own header names where
  wellFormed := wf
  link := grown.outer h.link
  free name member bound :=
    h.free name member (grown.names own (lt_size_of_outer? h.link) nofun name bound)

theorem resolve (h : a.LooksThrough own header names) {name : String} (member : name ∈ names) :
    a.resolve own name = a.resolve header name := by
  refine Option.ext fun home => ?_
  rw [h.wellFormed.resolve_iff, h.wellFormed.resolve_iff]
  refine and_congr_left fun bound => ⟨fun way => ?_, .outward (h.free name member) h.link⟩
  cases way with
  | here => exact absurd bound (h.free name member)
  | outward _ link further =>
    cases h.link.symm.trans link
    exact further

theorem get? (h : a.LooksThrough own header names) {name : String} (member : name ∈ names) :
    a.get? own name = a.get? header name := by
  rw [Scopes.get?, Scopes.get?, h.resolve member]

theorem header_lt (h : a.LooksThrough own header names) : header < a.size :=
  Nat.lt_trans (h.wellFormed.outward h.link) (lt_size_of_outer? h.link)

end Scopes.LooksThrough

theorem Run.bind_congr {α β : Type} {run run' : Run α} {k k' : α → Run β} {m : Machine}
    (h : run m = run' m) (hk : ∀ a m', run' m = .ok a m' → k a m' = k' a m') :
    (run >>= k) m = (run' >>= k') m := by
  cases ran : run' m with
  | ok a m' => rw [bind_of_ok (h.trans ran), bind_of_ok ran, hk a m' ran]
  | error stop m' => rw [bind_of_error (h.trans ran), bind_of_error ran]

theorem eval_kept {frames : Option Nat} {fuel : Nat} {e : Expr} {own header : ScopeId}
    {names : List String} {m m' : Machine} {v : Value}
    (h : m.scopes.LooksThrough own header names) (ran : eval frames fuel e header m = .ok v m') :
    m'.scopes.LooksThrough own header names := by
  have ready : m.Ready header := ⟨h.wellFormed, h.header_lt⟩
  have grown := kept_eval frames fuel e header m
  rw [after_of_ok ran] at grown
  exact h.kept grown (ready.eval ran).1

theorem each_through {frames : Option Nat} {fuel : Nat} {own header : ScopeId}
    (h : ∀ e m, m.scopes.LooksThrough own header e.names →
      eval frames fuel e own m = eval frames fuel e header m) :
    ∀ es m, m.scopes.LooksThrough own header (Expr.namesAll es) →
      each (fun e => eval frames fuel e own) es m =
        each (fun e => eval frames fuel e header) es m := by
  intro es
  induction es with
  | nil => exact fun _ _ => rfl
  | cons e es ih =>
    intro m through
    refine bind_congr (h e m (through.mono (List.subset_append_left _ _))) fun v m' ran => ?_
    have later := (eval_kept through ran).mono (List.subset_append_right _ _)
    exact bind_congr (ih m' later) fun _ _ _ => rfl

/-- An expression of which the scope binds no name is evaluated as in the header. -/
theorem eval_through (frames : Option Nat) {own header : ScopeId} : ∀ fuel e m,
    m.scopes.LooksThrough own header e.names →
      eval frames fuel e own m = eval frames fuel e header m := by
  intro fuel
  induction fuel with
  | zero => exact fun _ _ _ => rfl
  | succ fuel ih =>
    intro e m h
    cases e with
    | assign name value =>
      refine bind_congr (ih value m (h.mono (List.subset_cons_self ..))) fun v m' ran => ?_
      have same := (eval_kept h ran).resolve List.mem_cons_self
      refine bind_congr ?_ fun _ _ _ => rfl
      unfold Run.assign
      rw [same]
    | binary left operator right =>
      refine bind_congr (ih left m (h.mono (List.subset_append_left ..))) fun v m' ran => ?_
      have later := (eval_kept h ran).mono (List.subset_append_right ..)
      exact bind_congr (ih right m' later) fun _ _ _ => rfl
    | call callee paren arguments =>
      refine bind_congr (ih callee m (h.mono (List.subset_append_left ..))) fun v m' ran => ?_
      have later := (eval_kept h ran).mono (List.subset_append_right ..)
      exact bind_congr (each_through ih arguments m' later) fun _ _ _ => rfl
    | grouping inner => exact ih inner m h
    | literal value => rfl
    | logical left operator right =>
      refine bind_congr (ih left m (h.mono (List.subset_append_left ..))) fun v m' ran => ?_
      have later := (eval_kept h ran).mono (List.subset_append_right ..)
      generalize v.decides operator = decided
      match decided with
      | .error _ | .ok true => rfl
      | .ok false => exact ih right m' later
    | unary operator operand => exact bind_congr (ih operand m h) fun _ _ _ => rfl
    | identifier name =>
      show Run.lookup own name m = Run.lookup header name m
      unfold Run.lookup
      rw [h.get? List.mem_cons_self]

/-! ## Rounds with an increment -/

/-- What a body has declared in a scope that was blank are names of its own. -/
theorem looksThrough_exec {frames : Option Nat} {fuel : Nat} {body : Stmt} {own header : ScopeId}
    {names : List String} (apart : ∀ name ∈ body.ownNames, name ∉ names) {m m' : Machine}
    {flow : Flow} (ready : m.Ready own) (link : m.scopes.outer? own = some header)
    (blank : ∀ name, ¬ m.scopes.Binds own name)
    (ran : exec frames fuel body own m = .ok flow m') :
    m'.scopes.LooksThrough own header names := by
  have grown := ((obeys_eval_exec Scopes.kept frames fuel).2 body own m trivial trivial).later
  rw [Told.exec_run] at grown
  have declares := (declaresAt_exec frames own fuel body m).names own ready.2
  rw [after_of_ok ran] at grown declares
  refine ⟨(ready.exec ran).1, grown.outer link, fun name member bound => ?_⟩
  rcases (declares name).1 bound with before | ⟨-, told⟩
  · exact blank name before
  · exact apart name (declared_ownNames frames own fuel body m name told) member

theorem sharedRound_eq_ownRound (frames : Option Nat) {body : Stmt} {increment : Expr}
    (apart : ∀ name ∈ body.ownNames, name ∉ increment.names) (fuel : Nat) {header : ScopeId}
    {m : Machine} (ready : m.Ready header) :
    sharedRound frames body (some increment) fuel header m =
      ownRound frames body (some increment) fuel header m := by
  cases fuel with
  | zero => rfl
  | succ fuel =>
    rw [sharedRound, ownRound]
    refine bind_congr rfl fun own m₁ opened => ?_
    cases opened
    refine bind_congr rfl fun flow m₂ ran => ?_
    cases flow with
    | returned value => rfl
    | normal =>
      have link : (m.addScope ⟨[], some header⟩).2.scopes.outer? m.scopes.size = some header :=
        (Scopes.outer?_push ..).trans (if_pos rfl)
      have blank : ∀ name, ¬ (m.addScope ⟨[], some header⟩).2.scopes.Binds m.scopes.size name := by
        intro name bound
        have nothing : (m.addScope ⟨[], some header⟩).2.scopes.local? m.scopes.size name = none :=
          (Scopes.local?_push ..).trans (if_pos rfl)
        rw [Scopes.Binds, nothing] at bound
        cases bound
      have through := looksThrough_exec apart ready.openScope.2 link blank ran
      cases fuel with
      | zero => rfl
      | succ fuel =>
        exact bind_congr (eval_through frames fuel increment m₂ through) fun _ _ _ => rfl

/-- Loops are equal whose rounds are, from all machines that they come to. -/
theorem loop_congr (P : Machine → Prop) {c : Run Value} {b b' : Run Flow}
    (hc : ∀ {m m' v}, P m → c m = .ok v m' → P m')
    (hb : ∀ {m m' flow}, P m → b m = .ok flow m' → P m')
    (same : ∀ {m}, P m → b m = b' m) (rounds : Nat) : ∀ {m}, P m →
    loop c b rounds m = loop c b' rounds m := by
  induction rounds with
  | zero => exact fun _ => rfl
  | succ rounds ih =>
    intro m h
    refine bind_congr rfl fun v m₁ tested => ?_
    have h₁ := hc h tested
    split
    · refine bind_congr (same h₁) fun flow m₂ ran => ?_
      cases flow with
      | normal => exact ih (hb h₁ ((same h₁).trans ran))
      | returned value => rfl
    · rfl

theorem forClauses_congr (frames : Option Nat) {body : Stmt} {increment : Expr}
    (apart : ∀ name ∈ body.ownNames, name ∉ increment.names) (initial : Option Stmt)
    (condition : Expr) (fuel : Nat) {scope : ScopeId} {m : Machine} (ready : m.Ready scope) :
    forClauses frames condition (sharedRound frames body (some increment)) initial fuel scope m =
      forClauses frames condition (ownRound frames body (some increment)) initial fuel scope m := by
  have rounds : ∀ fuel {header m}, Machine.Ready m header →
      forRounds frames condition (sharedRound frames body (some increment)) fuel header m =
        forRounds frames condition (ownRound frames body (some increment)) fuel header m := by
    intro fuel header m ready
    cases fuel with
    | zero => rfl
    | succ fuel =>
      exact loop_congr (fun m => m.Ready header) (fun ready => ready.eval)
        (fun ready => ready.round) (fun ready => sharedRound_eq_ownRound frames apart fuel ready)
        fuel ready
  cases initial with
  | none => exact rounds fuel ready
  | some initial =>
    cases fuel with
    | zero => rfl
    | succ fuel =>
      rw [forClauses, forClauses]
      refine bind_congr rfl fun header m₁ opened => ?_
      cases opened
      refine bind_congr rfl fun flow m₂ ran => ?_
      cases flow with
      | normal => exact rounds fuel (ready.openScope.2.exec ran)
      | returned value => rfl

/-! ## Rounds without an increment -/

/-- The scope of a round in which nothing is declared makes no difference. -/
theorem abreast_forRounds (frames : Option Nat) {body : Stmt} (none : body.ownNames = [])
    (condition : Expr) (fuel : Nat) {W : Padding} {header header' : ScopeId}
    (shown : W.shown header header') :
    Abreast W Flow.Padded
      (forRounds frames condition (sharedRound frames body .none) fuel header)
      (forRounds frames condition (ownRound frames body .none) fuel header') := by
  cases fuel with
  | zero => exact .outOfFuel
  | succ fuel =>
    obtain ⟨he, hs⟩ := abreast_eval_exec frames fuel
    refine .loop (fun le => he condition (Padding.shown_mono le shown)) (fun le => ?_) fuel
    exact .blank (Padding.shown_mono le shown) fun _ own => hs body own (.inl none)

theorem abreast_forClauses (frames : Option Nat) {body : Stmt} (none : body.ownNames = [])
    (initial : Option Stmt) (condition : Expr) (fuel : Nat) {W : Padding} {scope scope' : ScopeId}
    (shown : W.shown scope scope') :
    Abreast W Flow.Padded
      (forClauses frames condition (sharedRound frames body .none) initial fuel scope)
      (forClauses frames condition (ownRound frames body .none) initial fuel scope') := by
  cases initial with
  | none => exact abreast_forRounds frames none condition fuel shown
  | some initial =>
    cases fuel with
    | zero => exact .outOfFuel
    | succ fuel =>
      refine (Abreast.openScope shown fun _ => .none).bind fun _ header => ?_
      have first := (abreast_eval_exec frames fuel).2 initial (Padding.shown_of_home _ header)
        (.inr header)
      refine first.bind fun le flows => ?_
      cases flows with
      | normal =>
        exact abreast_forRounds frames none condition fuel
          (Padding.shown_mono le (Padding.shown_of_home _ header))
      | returned related => exact .pure (.returned related)

/-! ## The loop one would think of -/

/-- What a `for` loop runs where, in every state and with every fuel.  With an increment,
the body and it share a scope in each round, and without one the body runs in the header;
the condition always does.  That is the loop whose bodies have scopes of their own and
whose increment is evaluated in the header, if the increment looks for no name that the
body declares directly, or if there is no increment and the body declares none. -/
theorem forLoop_clauses (frames : Option Nat) (fuel : Nat) (initial : Option Stmt)
    (condition : Expr) (increment : Option Expr) (body : Stmt) {m : Machine}
    (wf : m.scopes.WellFormed) {scope : ScopeId} (there : scope < m.scopes.size) :
    exec frames fuel (Parse.forLoop initial condition increment body) scope =
        forClauses frames condition (sharedRound frames body increment) initial fuel scope ∧
      (∀ e, increment = some e → (∀ name ∈ body.ownNames, name ∉ e.names) →
        exec frames fuel (Parse.forLoop initial condition increment body) scope m =
          forClauses frames condition (ownRound frames body increment) initial fuel scope m) ∧
      (increment = none → body.ownNames = [] → ∃ W, .diagonal m.scopes.size ≤ W ∧
        Level W Flow.Padded
          (exec frames fuel (Parse.forLoop initial condition increment body) scope m)
          (forClauses frames condition (ownRound frames body increment) initial fuel scope m)) := by
  have clauses := exec_forLoop frames initial condition increment body fuel scope
  refine ⟨clauses, ?_, ?_⟩
  · rintro e rfl apart
    rw [clauses]
    exact forClauses_congr frames apart initial condition fuel ⟨wf, there⟩
  · rintro rfl none
    rw [clauses]
    have shown : (Padding.diagonal m.scopes.size).shown scope scope := ⟨rfl, there⟩
    exact abreast_forClauses frames none initial condition fuel shown (Machine.padded_self wf)

/-! ## Loops around functions -/

namespace Stopping

/-- The text `var go = true;`. -/
def start : Stmt := .var (.ofName "go") (.literal (.boolean true))

def go : Expr := .identifier (.ofName "go")

def reset : Expr := .assign (.ofName "go") (.literal (.boolean false))

/-- The text `fun stop() { print go; go = false; }`. -/
def stop : Stmt := .function (.ofName "stop") [] [.print go, .expression reset]

/-- The text `if (go = false) {} else fun made() {}`, for any name. -/
def make (name : String) : Stmt := .ifElse reset (.block []) (.function (.ofName name) [] [])

/-- The text `go == true or go()`. -/
def goOrCall : Expr :=
  .logical (.binary go ⟨.equalEqual, "==", none, 1⟩ (.literal (.boolean true)))
    ⟨.kwOr, "or", none, 1⟩ (.callOf "go" 1)

/-- The machine on which a loop behind `var go = true;` runs. -/
def machine : Machine := after (exec (some maxFrames) 9 start Machine.globals) (.initial (.still 0))

end Stopping

open Stopping

/-- An increment that looks for another name than the one that the body declares, in
`for (var go = true; go; go = false) fun stop() { print go; go = false; }`. -/
theorem forLoop_around_function :
    outcome (exec (some maxFrames) 9 (Parse.forLoop (some start) go (some reset) stop)
      Machine.globals) (.initial (.still 0)) = .ok .normal ∧
    exec (some maxFrames) 9 (Parse.forLoop (some start) go (some reset) stop)
        Machine.globals (.initial (.still 0)) =
      forClauses (some maxFrames) go (ownRound (some maxFrames) stop (some reset))
        (some start) 9 Machine.globals (.initial (.still 0)) := by
  have apart : ∀ name ∈ stop.ownNames, name ∉ reset.names := by decide
  obtain ⟨-, equal, -⟩ := forLoop_clauses (some maxFrames) 9 (some start) go (some reset)
    stop (Machine.wellFormed_initial (.still 0)) (Machine.globals_lt_size _)
  exact ⟨by decide +kernel, equal reset rfl apart⟩

/-- Loops that tell.  The increment of the first one calls the function that the body
declares, and could not find it from the header.  Without an increment, the function is
left behind in the scope around the second loop, and the condition of the third one finds
it in the header, where it would find `false`. -/
theorem clauses_see_body :
    (Program.ofSource
        "var go = true; for (; go; stop()) fun stop() \x7b print go; go = false; \x7d" =
          .ok [start, Parse.forLoop none go (some (.callOf "stop" 1)) stop] ∧
      outcome (exec (some maxFrames) 9 (Parse.forLoop none go (some (.callOf "stop" 1)) stop)
        Machine.globals) machine = .ok .normal ∧
      outcome (forClauses (some maxFrames) go
        (ownRound (some maxFrames) stop (some (.callOf "stop" 1))) none 9 Machine.globals)
        machine = .error (.failed (.undefinedVariable "stop" 1))) ∧
    (Program.ofSource
        "var go = true; for (; go;) if (go = false) \x7b\x7d else fun made() \x7b\x7d" =
          .ok [start, Parse.forLoop none go none (make "made")] ∧
      (after (exec (some maxFrames) 9 (Parse.forLoop none go none (make "made"))
        Machine.globals) machine).scopes.resolve Machine.globals "made" =
          some Machine.globals ∧
      (after (forClauses (some maxFrames) go (ownRound (some maxFrames) (make "made") none)
        none 9 Machine.globals) machine).scopes.resolve Machine.globals "made" = none) ∧
    Program.ofSource ("for (var go = true; go == true or go();) " ++
        "if (go = false) \x7b\x7d else fun go() \x7b\x7d") =
          .ok [Parse.forLoop (some start) goOrCall none (make "go")] ∧
      outcome (exec (some maxFrames) 9 (Parse.forLoop (some start) goOrCall none (make "go"))
        Machine.globals) (.initial (.still 0)) = .ok .normal ∧
      outcome (forClauses (some maxFrames) goOrCall
        (ownRound (some maxFrames) (make "go") none) (some start) 9 Machine.globals)
        (.initial (.still 0)) = .error (.failed (.notCallable 1)) := by
  refine ⟨⟨?_, ?_, ?_⟩, ⟨?_, ?_, ?_⟩, ?_, ?_, ?_⟩ <;> decide +kernel

end Scriptlet
