/-
# Rules that count

How a rule with counters compares to the rule of the grammar that has the levels and
the function bodies as arguments (`Counts`).  From a reader whose counters fit the
arguments it comes to the same end, be it a failure; it leaves the counters and the
open calls as they were; and what it adds to the trace accounts for the tokens it has
taken and for the errors it has left (`Accounts`).

Failures need no care of their own, in the proofs as little as in the rules: a call
that fails closes what it has opened like one that succeeds (`Counts.calling`), and
nothing else touches the counters.  What does need care are the returns.  A keyword
is read in the rule for statements and judged in the rule for returns, and in between
it is owed.

The lemmas follow the steps and loops that the rules are made of.
-/
import Scriptlet.Proofs.Parsing.Tally
import Scriptlet.Proofs.Parsing.Reads

namespace Scriptlet

/-! ## What recovery skips -/

theorem skipToStatement_skips (last : Token.Kind) (tokens : List Token) :
    ∃ front, tokens = front ++ skipToStatement last tokens ∧
      ∀ token ∈ front, token.kind ≠ .kwReturn := by
  induction tokens generalizing last with
  | nil => exact ⟨[], rfl, List.forall_mem_nil _⟩
  | cons token rest ih =>
      rw [skipToStatement]
      split
      case isTrue => exact ⟨[], rfl, List.forall_mem_nil _⟩
      case isFalse going =>
          obtain ⟨front, split, others⟩ := ih token.kind
          have other : token.kind ≠ .kwReturn := by
            intro starts
            rw [starts] at going
            exact going (Bool.or_eq_true_iff.2 (.inr (by decide)))
          exact ⟨token :: front, congrArg _ split, List.forall_mem_cons.2 ⟨other, others⟩⟩

namespace Tally

theorem skipped_append (tokens : List Token) : skipped tokens ++ synchronize tokens = tokens := by
  obtain ⟨front, split⟩ := synchronize_suffix tokens
  have length := congrArg List.length split
  rw [List.length_append] at length
  have first : skipped tokens = front := by
    rw [skipped, show tokens.length - (synchronize tokens).length = front.length by omega]
    exact (congrArg (List.take _) split.symm).trans List.take_left
  rw [first, split]

/-- The only return that recovery skips is the token it stands at. -/
theorem return_skipped {tokens : List Token} {token : Token} (member : token ∈ skipped tokens)
    (hk : token.kind = .kwReturn) : tokens.head? = some token := by
  cases tokens with
  | nil => cases member
  | cons first rest =>
      obtain ⟨front, split, others⟩ := skipToStatement_skips first.kind rest
      have all : skipped (first :: rest) = first :: front := by
        refine List.append_cancel_right ((skipped_append _).trans ?_)
        show first :: rest = first :: (front ++ skipToStatement first.kind rest)
        rw [← split]
      rw [all] at member
      rcases List.mem_cons.1 member with rfl | inside
      · rfl
      · exact absurd hk (others token inside)

/-! ## Readers whose counters fit -/

/-- So many levels may still be opened, and so many function bodies are open. -/
structure Reader.Fits (r : Reader) (levels functions : Nat) : Prop where
  nesting : r.counters.nesting + levels = maxNesting
  functionDepth : r.counters.functionDepth = functions
  levels : r.calls.count .level = r.counters.nesting
  bodies : r.calls.count .functionBody = functions

variable {α β : Type} {levels functions : Nat} {owed : List Token} {r : Reader} {c c' c'' : Cursor}
  {more more' : List Moment}

/-- A moment of a reader whose counters fit is exact if what happens is right. -/
theorem Reader.Fits.exact (h : r.Fits levels functions) {event : Event} {errors : List SyntaxError}
    (right : (Moment.mk event r.counters r.calls errors).Right) :
    (Moment.mk event r.counters r.calls errors).Exact where
  nesting := h.levels.symm
  limit := by
    have := h.nesting
    show r.counters.nesting ≤ maxNesting
    omega
  functionDepth := h.functionDepth.trans h.bodies.symm
  right := right

/-! ## Accounts -/

/-- An error that is not about a return adds nothing to those that are. -/
theorem filter_returns_append {e : SyntaxError} (other : e.cause ≠ .returnOutsideFunction)
    (errors : List SyntaxError) :
    (errors ++ [e]).filter (·.cause = .returnOutsideFunction) =
      errors.filter (·.cause = .returnOutsideFunction) := by
  rw [List.filter_append, List.filter_cons_of_neg (by simpa using other), List.filter_nil,
    List.append_nil]

/-- A rule reports the error at one of the moments. -/
def Reported (e : SyntaxError) (more : List Moment) : Prop := ∃ m ∈ more, m.Reports e

theorem Reported.mono {e : SyntaxError} (h : Reported e more) (sub : more ⊆ more') :
    Reported e more' := by
  obtain ⟨m, member, reports⟩ := h
  exact ⟨m, sub member, reports⟩

/-- The moments account for the way from one cursor to another: they are exact, each
token on the way is taken at one of them, the returns read by the rules are the ones
that are judged, those that are `owed` before it first, each error that has come up
is reported at one of them and has stayed, and the new errors about returns are those
for the returns that have been judged outside of functions. -/
structure Accounts (owed : List Token) (c : Cursor) (more : List Moment) (c' : Cursor) : Prop where
  exact : ∀ m ∈ more, m.Exact
  taken : c.rest = more.flatMap Moment.taken ++ c'.rest
  judged : owed ++ (more.flatMap Moment.read).filter (·.kind = .kwReturn) =
    more.flatMap Moment.judged
  reported : ∃ new, c'.errors = c.errors ++ new ∧ ∀ e ∈ new, Reported e more
  kept : ∀ m ∈ more, m.errors <+: c'.errors
  outside : c'.errors.filter (·.cause = .returnOutsideFunction) =
    c.errors.filter (·.cause = .returnOutsideFunction) ++
      (more.flatMap Moment.outside).map (.atToken .returnOutsideFunction)

/-- Where nothing is judged, nothing is outside of functions. -/
theorem Moment.outside_eq_nil {m : Moment} (h : m.judged = []) : m.outside = [] := by
  rw [Moment.outside, h, ite_self]

namespace Accounts

theorem grows (h : Accounts owed c more c') : c.errors <+: c'.errors := by
  obtain ⟨new, errors, -⟩ := h.reported
  exact ⟨new, errors.symm⟩

theorem refl (c : Cursor) : Accounts [] c [] c :=
  ⟨List.forall_mem_nil _, rfl, rfl, ⟨[], (List.append_nil _).symm, List.forall_mem_nil _⟩,
    List.forall_mem_nil _, (List.append_nil _).symm⟩

theorem trans (h : Accounts owed c more c') (h' : Accounts [] c' more' c'') :
    Accounts owed c (more ++ more') c'' where
  exact := List.forall_mem_append.2 ⟨h.exact, h'.exact⟩
  taken := by rw [h.taken, h'.taken, List.flatMap_append, List.append_assoc]
  judged := by
    rw [List.flatMap_append, List.flatMap_append, List.filter_append, ← List.append_assoc, h.judged,
      ← h'.judged, List.nil_append]
  reported := by
    obtain ⟨new, first, told⟩ := h.reported
    obtain ⟨new', second, told'⟩ := h'.reported
    exact ⟨new ++ new', by rw [second, first, List.append_assoc], List.forall_mem_append.2
      ⟨fun e he => (told e he).mono (List.subset_append_left _ _),
        fun e he => (told' e he).mono (List.subset_append_right _ _)⟩⟩
  kept := List.forall_mem_append.2 ⟨fun m member => (h.kept m member).trans h'.grows, h'.kept⟩
  outside := by
    rw [h'.outside, h.outside, List.flatMap_append, List.map_append, List.append_assoc]

/-- A moment at which no token is taken and nothing is judged or reported. -/
theorem stay {m : Moment} (exact : m.Exact) (errors : m.errors = c.errors) (taken : m.taken = [])
    (read : m.read = []) (judged : m.judged = []) : Accounts [] c [m] c where
  exact := List.forall_mem_singleton.2 exact
  taken := by rw [List.flatMap_singleton, taken, List.nil_append]
  judged := by rw [List.flatMap_singleton, List.flatMap_singleton, read, judged]; rfl
  reported := ⟨[], (List.append_nil _).symm, List.forall_mem_nil _⟩
  kept := List.forall_mem_singleton.2 (errors ▸ List.prefix_rfl)
  outside := by
    rw [List.flatMap_singleton, Moment.outside_eq_nil judged, List.map_nil, List.append_nil]

/-- A rule reads the next token, and owes a judgement if that is a return. -/
theorem read {m : Moment} (exact : m.Exact) (errors : m.errors = c.errors) {token : Token}
    {rest : List Token} (reads : m.event = .reads token) (first : c.rest = token :: rest)
    (h : Accounts ([token].filter (·.kind = .kwReturn)) { c with rest := rest } more c') :
    Accounts [] c (m :: more) c' where
  exact := List.forall_mem_cons.2 ⟨exact, h.exact⟩
  taken := by
    rw [List.flatMap_cons, show m.taken = [token] by rw [Moment.taken, reads], first]
    exact congrArg (token :: ·) h.taken
  judged := by
    rw [List.flatMap_cons, List.flatMap_cons, show m.read = [token] by rw [Moment.read, reads],
      show m.judged = [] by rw [Moment.judged, reads], List.filter_append]
    exact h.judged
  reported := by
    obtain ⟨new, errors, told⟩ := h.reported
    exact ⟨new, errors, fun e he => (told e he).mono (List.subset_cons_self _ _)⟩
  kept := List.forall_mem_cons.2 ⟨errors ▸ h.grows, h.kept⟩
  outside := by
    have judged : m.judged = [] := by rw [Moment.judged, reads]
    rw [List.flatMap_cons, Moment.outside_eq_nil judged]
    exact h.outside

/-- A rule records an error that is not about a return. -/
theorem record {m : Moment} (exact : m.Exact) {e : SyntaxError}
    (other : e.cause ≠ .returnOutsideFunction) (errors : m.errors = c.errors ++ [e])
    (records : m.event = .records e) :
    Accounts [] c [m] { c with errors := c.errors ++ [e] } where
  exact := List.forall_mem_singleton.2 exact
  taken := by rw [List.flatMap_singleton, Moment.taken, records]; rfl
  judged := by
    rw [List.flatMap_singleton, List.flatMap_singleton, Moment.read, Moment.judged, records]; rfl
  reported := ⟨[e], rfl, List.forall_mem_singleton.2 ⟨m, List.mem_singleton_self m, .inl records⟩⟩
  kept := List.forall_mem_singleton.2 (errors ▸ List.prefix_rfl)
  outside := by
    have judged : m.judged = [] := by rw [Moment.judged, records]
    rw [List.flatMap_singleton, Moment.outside_eq_nil judged, List.map_nil, List.append_nil]
    exact filter_returns_append other _

end Accounts

/-- The error is raised at the token that the cursor stands at, is not about a
return, and is reported. -/
structure Raised (e : SyntaxError) (more : List Moment) (c : Cursor) : Prop where
  place : e = .atToken e.cause c.current
  cause : e.cause ≠ .returnOutsideFunction
  reported : Reported e more

theorem Raised.mono {e : SyntaxError} (h : Raised e more c) (sub : more ⊆ more') :
    Raised e more' c :=
  { h with reported := h.reported.mono sub }

/-- Recovery records the error of a rule that has failed, and skips tokens. -/
theorem Accounts.recover {e : SyntaxError} (h : Accounts owed c more c') (raised : Raised e more c')
    {m : Moment} (exact : m.Exact) (errors : m.errors = c'.errors ++ [e])
    (discards : m.event = .discards e (skipped c'.rest)) :
    Accounts owed c (more ++ [m])
      { c' with rest := synchronize c'.rest, errors := c'.errors ++ [e] } where
  exact := List.forall_mem_append.2 ⟨h.exact, List.forall_mem_singleton.2 exact⟩
  taken := by
    rw [h.taken, List.flatMap_append, List.flatMap_singleton, Moment.taken, discards,
      List.append_assoc]
    exact congrArg _ (skipped_append c'.rest).symm
  judged := by
    rw [List.flatMap_append, List.flatMap_append, List.flatMap_singleton, List.flatMap_singleton,
      Moment.read, Moment.judged, discards, List.append_nil, List.append_nil]
    exact h.judged
  reported := by
    obtain ⟨new, errors, told⟩ := h.reported
    exact ⟨new ++ [e], by rw [errors, List.append_assoc], List.forall_mem_append.2
      ⟨fun e' he => (told e' he).mono (List.subset_append_left _ _),
        List.forall_mem_singleton.2 (raised.reported.mono (List.subset_append_left _ _))⟩⟩
  kept := List.forall_mem_append.2
    ⟨fun m member => (h.kept m member).trans (List.prefix_append _ _),
      List.forall_mem_singleton.2 (errors ▸ List.prefix_rfl)⟩
  outside := by
    have judged : m.judged = [] := by rw [Moment.judged, discards]
    rw [List.flatMap_append, List.flatMap_singleton, Moment.outside_eq_nil judged, List.append_nil,
      ← h.outside]
    exact filter_returns_append raised.cause _

/-- The moments account for how a rule has ended. -/
def Accounted (owed : List Token) (c : Cursor) (more : List Moment) :
    EStateM.Result SyntaxError Cursor α → Prop
  | .ok _ c' => Accounts owed c more c'
  | .error e c' => Accounts owed c more c' ∧ Raised e more c'

theorem Accounts.andThen {result : EStateM.Result SyntaxError Cursor α}
    (h : Accounts owed c more c') (h' : Accounted [] c' more' result) :
    Accounted owed c (more ++ more') result := by
  cases result with
  | ok a c'' => exact h.trans h'
  | error e c'' => exact ⟨h.trans h'.1, h'.2.mono (List.subset_append_right _ _)⟩

theorem Accounted.read {result : EStateM.Result SyntaxError Cursor α} {m : Moment} (exact : m.Exact)
    (errors : m.errors = c.errors) {token : Token} {rest : List Token}
    (reads : m.event = .reads token) (first : c.rest = token :: rest)
    (h : Accounted ([token].filter (·.kind = .kwReturn)) { c with rest := rest } more result) :
    Accounted [] c (m :: more) result := by
  cases result with
  | ok a c' => exact Accounts.read exact errors reads first h
  | error e c' =>
      exact ⟨.read exact errors reads first h.1, h.2.mono (List.subset_cons_self _ _)⟩

/-! ## Rules that count -/

/-- The reader where the cursor has come, by the given moments, to the given end. -/
def Reader.arrive (r : Reader) (more : List Moment) :
    EStateM.Result SyntaxError Cursor α → EStateM.Result SyntaxError Reader α
  | .ok a c => .ok a { r with cursor := c, trace := r.trace ++ more }
  | .error e c => .error e { r with cursor := c, trace := r.trace ++ more }

/-- From the reader, the rule with counters comes where the other rule comes from its
cursor, by moments that account for it.  Neither the counters nor the open calls are
others than before. -/
def CountsFrom (r : Reader) (owed : List Token) (counting : Tally α) (rule : Parse α) : Prop :=
  ∃ more, counting r = r.arrive more (rule r.cursor) ∧
    Accounted owed r.cursor more (rule r.cursor)

/-- From readers whose counters fit, the rule with counters comes where the other
does. -/
def Counts (levels functions : Nat) (owed : List Token) (counting : Tally α) (rule : Parse α) :
    Prop :=
  ∀ r : Reader, r.Fits levels functions → CountsFrom r owed counting rule

theorem Reader.arrive_arrive (r : Reader) (c : Cursor) (more more' : List Moment)
    (result : EStateM.Result SyntaxError Cursor α) :
    Reader.arrive { r with cursor := c, trace := r.trace ++ more } more' result =
      r.arrive (more ++ more') result := by
  cases result <;> simp only [arrive, List.append_assoc]

namespace Counts

variable {counting : Tally α} {rule : Parse α}

/-! ### Steps -/

theorem bindFrom (h : CountsFrom r owed counting rule) (fits : r.Fits levels functions)
    {next : α → Tally β} {next' : α → Parse β}
    (h' : ∀ a, Counts levels functions [] (next a) (next' a)) :
    CountsFrom r owed (counting >>= next) (rule >>= next') := by
  obtain ⟨more, run, accounted⟩ := h
  rw [CountsFrom, bind_apply, bind_apply, run]
  cases first : rule r.cursor with
  | error e c =>
      rw [first] at accounted
      exact ⟨more, rfl, accounted⟩
  | ok a c =>
      rw [first] at accounted
      obtain ⟨more', run', accounted'⟩ :=
        h' a { r with cursor := c, trace := r.trace ++ more } { fits with }
      exact ⟨more ++ more', run'.trans (r.arrive_arrive c more more' _),
        Accounts.andThen accounted accounted'⟩

theorem pure (a : α) : Counts levels functions [] (Pure.pure a) (Pure.pure a) := by
  intro r _
  have stays : r.arrive [] (.ok a r.cursor) = .ok a r := by
    simp only [Reader.arrive, List.append_nil]
  exact ⟨[], stays.symm, .refl _⟩

theorem bind (h : Counts levels functions owed counting rule) {next : α → Tally β}
    {next' : α → Parse β} (h' : ∀ a, Counts levels functions [] (next a) (next' a)) :
    Counts levels functions owed (counting >>= next) (rule >>= next') :=
  fun r fits => bindFrom (h r fits) fits h'

theorem map (h : Counts levels functions [] counting rule) (f : α → β) :
    Counts levels functions [] (f <$> counting) (f <$> rule) := h.bind fun a => pure (f a)

/-- What comes behind a moment at which the cursor has come somewhere. -/
theorem after {event : Event}
    (h : CountsFrom ({ r with cursor := c }.log event) owed counting rule) : ∃ more,
    counting ({ r with cursor := c }.log event) =
        r.arrive (⟨event, r.counters, r.calls, c.errors⟩ :: more) (rule c) ∧
      Accounted owed c more (rule c) := by
  obtain ⟨more, run, accounted⟩ := h
  exact ⟨more, run.trans (r.arrive_arrive c [_] more _), accounted⟩

/-- A look at the next token does not matter to what follows. -/
theorem looked {token : Token} (h : CountsFrom (r.log (.looks token)) [] counting rule)
    (fits : r.Fits levels functions) :
    ∃ more, counting (r.log (.looks token)) = r.arrive more (rule r.cursor) ∧
      Accounted [] r.cursor more (rule r.cursor) := by
  obtain ⟨more, run, accounted⟩ := after h
  have exact : (Moment.mk (.looks token) r.counters r.calls r.cursor.errors).Exact :=
    fits.exact trivial
  exact ⟨_, run, Accounts.andThen (.stay exact rfl rfl rfl rfl) accounted⟩

theorem check (kind : Token.Kind) : Counts levels functions [] (check kind) (Parse.check kind) :=
  fun _ fits => looked (pure _ _ { fits with }) fits

/-- What depends on the next token may rely on its being the one. -/
theorem current {next : Token → Tally α} {next' : Token → Parse α}
    (h : ∀ r : Reader, r.Fits levels functions →
      CountsFrom r [] (next r.cursor.current) (next' r.cursor.current)) :
    Counts levels functions [] (Tally.current >>= next) (Parse.current >>= next') :=
  fun _ fits => looked (h (Reader.log _ _) { fits with }) fits

/-- What depends on an accepted token judges it if it is a return. -/
theorem accept? {wanted : List Token.Kind} {next : Option Token → Tally α}
    {next' : Option Token → Parse α}
    (h : ∀ token : Token, token.kind ∈ wanted → Counts levels functions
      ([token].filter (·.kind = .kwReturn)) (next (some token)) (next' (some token)))
    (h' : Counts levels functions [] (next none) (next' none)) :
    Counts levels functions [] (accept? wanted >>= next) (Parse.accept? wanted >>= next') := by
  intro r fits
  rw [CountsFrom, bind_apply, bind_apply, Tally.accept?, Parse.accept?]
  cases first : r.cursor.rest with
  | nil => exact looked (h' _ { fits with }) fits
  | cons token rest =>
      by_cases known : token.kind ∈ wanted
      · simp only [if_pos known]
        obtain ⟨more, run, accounted⟩ := after (h token known
          ({ r with cursor := { r.cursor with rest := rest } }.log (.reads token)) { fits with })
        exact ⟨_, run, .read (fits.exact trivial) rfl rfl first accounted⟩
      · simp only [if_neg known]
        exact looked (h' _ { fits with }) fits

/-- What depends on an accepted token that is no return. -/
theorem accept {wanted : List Token.Kind} (others : .kwReturn ∉ wanted)
    {next : Option Token → Tally α} {next' : Option Token → Parse α}
    (h : ∀ token, Counts levels functions [] (next (some token)) (next' (some token)))
    (h' : Counts levels functions [] (next none) (next' none)) :
    Counts levels functions [] (Tally.accept? wanted >>= next)
      (Parse.accept? wanted >>= next') := by
  refine accept? (fun token known => ?_) h'
  have other : token.kind ≠ .kwReturn := fun same => others (same ▸ known)
  rw [List.filter_cons_of_neg (by simpa using other), List.filter_nil]
  exact h token

/-- Reads the current token, which is known to be neither a return nor the end. -/
theorem next (fits : r.Fits levels functions) (real : r.cursor.current.kind ≠ .eof)
    (other : r.cursor.current.kind ≠ .kwReturn) : CountsFrom r [] next Parse.next := by
  cases first : r.cursor.rest with
  | nil =>
      refine absurd ?_ real
      rw [Cursor.current, first]
      rfl
  | cons token rest =>
      have same : r.cursor.current = token := by rw [Cursor.current, first]; rfl
      have exact : (Moment.mk (.reads token) r.counters r.calls r.cursor.errors).Exact :=
        fits.exact trivial
      have read : Accounts ([token].filter (·.kind = .kwReturn)) { r.cursor with rest := rest } []
          { r.cursor with rest := rest } := by
        rw [List.filter_cons_of_neg (by simpa [← same] using other), List.filter_nil]
        exact .refl _
      have run : Tally.next r = r.arrive [⟨.reads token, r.counters, r.calls, r.cursor.errors⟩]
          (.ok token { r.cursor with rest := rest }) := by
        rw [Tally.next, same, first]
        rfl
      have run' : Parse.next r.cursor = .ok token { r.cursor with rest := rest } := by
        rw [Parse.next, same, first]
        rfl
      rw [CountsFrom, run, run']
      exact ⟨_, rfl, Accounts.read exact rfl rfl first read⟩

/-- Fails at the current token. -/
theorem failFrom (fits : r.Fits levels functions) {cause : SyntaxError.Cause}
    (known : cause ≠ .returnOutsideFunction) (deep : cause ∈ tooDeep → levels = 0) :
    CountsFrom r [] (fail cause : Tally α) (Parse.fail cause) := by
  have exact : (Moment.mk (.fails (.atToken cause r.cursor.current)) r.counters r.calls
      r.cursor.errors).Exact := by
    refine fits.exact ⟨fun member => ?_, known⟩
    have := fits.nesting
    rw [deep member, ← fits.levels] at this
    exact this
  exact ⟨[_], rfl, .stay exact rfl rfl rfl rfl, rfl, known, _, List.mem_singleton_self _, .inr rfl⟩

theorem fail {cause : SyntaxError.Cause} (known : cause ∉ .returnOutsideFunction :: tooDeep) :
    Counts levels functions [] (fail cause : Tally α) (Parse.fail cause) := fun _ fits =>
  failFrom fits (List.ne_of_not_mem_cons known)
    fun deep => absurd (List.mem_cons_of_mem _ deep) known

/-- With no level left, a rule that would open one fails. -/
theorem failDeep {cause : SyntaxError.Cause} (known : cause ≠ .returnOutsideFunction) :
    Counts 0 functions [] (nested cause counting) (Parse.fail cause) := by
  intro r fits
  have full : maxNesting ≤ r.counters.nesting := Nat.le_of_eq fits.nesting.symm
  rw [CountsFrom, nested, if_pos full]
  exact failFrom fits known fun _ => rfl

theorem record {cause : SyntaxError.Cause} (known : cause ∉ .returnOutsideFunction :: tooDeep)
    (token : Token) :
    Counts levels functions [] (record cause token) (Parse.record cause token) := by
  intro r fits
  have exact : (Moment.mk (.records (.atToken cause token)) r.counters r.calls
      (r.cursor.errors ++ [.atToken cause token])).Exact :=
    fits.exact ⟨fun deep => known (List.mem_cons_of_mem _ deep),
      fun same => absurd same (List.ne_of_not_mem_cons known)⟩
  exact ⟨[_], rfl, .record exact (List.ne_of_not_mem_cons known) rfl rfl⟩

theorem token {kind : Token.Kind} {cause : SyntaxError.Cause}
    (known : kind ≠ .kwReturn ∧ cause ∉ .returnOutsideFunction :: tooDeep) :
    Counts levels functions [] (Tally.expect kind cause) (Parse.expect kind cause) :=
  accept (fun same => known.1 (List.mem_singleton.1 same).symm) (fun token => pure token)
    (fail known.2)

/-- What follows a token of the given kind. -/
theorem expect {kind : Token.Kind} {cause : SyntaxError.Cause}
    (known : kind ≠ .kwReturn ∧ cause ∉ .returnOutsideFunction :: tooDeep)
    {next : Token → Tally α} {next' : Token → Parse α}
    (h : ∀ token, Counts levels functions [] (next token) (next' token)) :
    Counts levels functions [] (Tally.expect kind cause >>= next)
      (Parse.expect kind cause >>= next') :=
  (token known).bind h

/-- A token of the given kind and what is made then. -/
theorem closed {kind : Token.Kind} {cause : SyntaxError.Cause}
    (known : kind ≠ .kwReturn ∧ cause ∉ .returnOutsideFunction :: tooDeep) (a : α) :
    Counts levels functions [] (do let _ ← Tally.expect kind cause; Pure.pure a)
      (do let _ ← Parse.expect kind cause; Pure.pure a) :=
  expect known fun _ => pure a

/-! ### Calls -/

/-- A call leaves the counters as they were if the rule that is called does and they go
down by what they went up. -/
theorem calling {called : Call} {up down : Counters → Counters} {levels' functions' : Nat}
    (inside : ∀ r : Reader, r.Fits levels functions → Reader.Fits
      { r with counters := up r.counters, calls := called :: r.calls } levels' functions')
    (back : ∀ counters, down (up counters) = counters)
    (h : Counts levels' functions' owed counting rule) :
    Counts levels functions owed (calling called up down counting) rule := by
  intro r fits
  obtain ⟨more, run, accounted⟩ := h _ (inside r fits)
  have exact (errors : List SyntaxError) :
      (Moment.mk (.ends called r.counters) r.counters r.calls errors).Exact := fits.exact rfl
  rw [CountsFrom, Tally.calling, run]
  dsimp only at accounted ⊢
  cases ended : rule r.cursor with
  | ok a c =>
      rw [ended] at accounted
      refine ⟨more ++ [⟨.ends called r.counters, r.counters, r.calls, c.errors⟩], ?_,
        Accounts.trans accounted (.stay (exact _) rfl rfl rfl rfl)⟩
      simp only [Reader.arrive, Reader.log, back, List.append_assoc]
  | error e c =>
      rw [ended] at accounted
      refine ⟨more ++ [⟨.ends called r.counters, r.counters, r.calls, c.errors⟩], ?_,
        accounted.1.trans (.stay (exact _) rfl rfl rfl rfl),
        accounted.2.mono (List.subset_append_left _ _)⟩
      simp only [Reader.arrive, Reader.log, back, List.append_assoc]

theorem within {called : Rule} (h : Counts levels functions owed counting rule) :
    Counts levels functions owed (within called counting) rule := by
  have level : Call.rule called ≠ .level := nofun
  have body : Call.rule called ≠ .functionBody := nofun
  refine calling (fun r fits => ?_) (fun _ => rfl) h
  exact { fits with
    levels := (List.count_cons_of_ne level).trans fits.levels
    bodies := (List.count_cons_of_ne body).trans fits.bodies }

/-- The counter goes up around a rule one level deeper, and comes back. -/
theorem nested {cause : SyntaxError.Cause} (h : Counts levels functions owed counting rule) :
    Counts (levels + 1) functions owed (nested cause counting) rule := by
  intro r fits
  have room : ¬ maxNesting ≤ r.counters.nesting := by
    have := fits.nesting
    omega
  have other : Call.level ≠ .functionBody := nofun
  rw [CountsFrom, Tally.nested, if_neg room]
  refine calling (fun r fits => ?_) (fun _ => rfl) h r fits
  have open' := fits.nesting
  exact {
    nesting := by
      show r.counters.nesting + 1 + levels = maxNesting
      omega
    functionDepth := fits.functionDepth
    levels := List.count_cons_self.trans (congrArg (· + 1) fits.levels)
    bodies := (List.count_cons_of_ne other).trans fits.bodies }

/-- The counter goes up around the body of a function, and comes back. -/
theorem inBody (h : Counts levels (functions + 1) owed counting rule) :
    Counts levels functions owed
      (Tally.calling .functionBody Counters.intoBody Counters.outOfBody counting) rule := by
  have other : Call.functionBody ≠ .level := nofun
  refine calling (fun r fits => ?_) (fun _ => rfl) h
  exact {
    nesting := fits.nesting
    functionDepth := congrArg (· + 1) fits.functionDepth
    levels := (List.count_cons_of_ne other).trans fits.levels
    bodies := List.count_cons_self.trans (congrArg (· + 1) fits.bodies) }

/-! ### Loops -/

theorem chain {wanted : List Token.Kind} (others : .kwReturn ∉ wanted)
    {step : α → Token → Tally α} {step' : α → Token → Parse α}
    (h : ∀ a token, Counts levels functions [] (step a token) (step' a token)) (a : α) :
    Counts levels functions [] (chain wanted step a) (Parse.chain wanted step' a) := by
  suffices ∀ rounds a, Counts levels functions [] (chainWithin wanted step rounds a)
      (Parse.chainWithin wanted step' rounds a) from fun r fits => this r.cursor.size a r fits
  intro rounds
  induction rounds with
  | zero => exact fun a => pure a
  | succ rounds ih => exact fun a => accept others (fun token => (h a token).bind ih) (pure a)

/-- A rule may fail inside of recovery; then its error is recorded. -/
theorem recovering (h : Counts levels functions [] counting rule) :
    Counts levels functions [] (recovering counting) (Parse.recovering rule) := by
  refine within fun r fits => ?_
  obtain ⟨more, run, accounted⟩ := h r fits
  simp only [CountsFrom, Parse.recovering, run]
  cases ended : rule r.cursor with
  | ok a c =>
      rw [ended] at accounted
      exact ⟨more, rfl, accounted⟩
  | error e c =>
      rw [ended] at accounted
      obtain ⟨accounts, raised⟩ := accounted
      have right (errors : List SyntaxError) : (Moment.mk (.discards e (skipped c.rest))
          r.counters r.calls errors).Right := by
        refine ⟨raised.cause, fun token member hk => ?_⟩
        -- a return that is skipped is the token at which the rule has failed
        have here : c.current = token := by
          rw [Cursor.current, List.headD_eq_head?_getD, return_skipped member hk]
          rfl
        rw [← here]
        exact raised.place
      have exact := fits.exact (right (c.errors ++ [e]))
      refine ⟨more ++ [_], ?_, accounts.recover raised exact rfl rfl⟩
      simp only [Reader.arrive, Reader.recover, Reader.log, List.append_assoc]

theorem many (closing : Option Token.Kind) (h : Counts levels functions [] counting rule) :
    Counts levels functions [] (many closing counting) (Parse.many closing rule) := by
  suffices ∀ rounds, Counts levels functions [] (manyWithin closing counting rounds)
      (Parse.manyWithin closing rule rounds) from fun r fits => this r.cursor.size r fits
  intro rounds
  induction rounds with
  | zero => exact pure []
  | succ rounds ih =>
      intro r fits
      unfold CountsFrom manyWithin Parse.manyWithin
      cases r.cursor.rest with
      | nil => exact pure [] r fits
      | cons token rest =>
          by_cases closes : closing = some token.kind
          · simp only [if_pos closes]
            exact pure [] r fits
          · simp only [if_neg closes]
            exact (h.recovering.bind fun first => ih.bind fun others => pure _) r fits

end Counts

end Tally

end Scriptlet
