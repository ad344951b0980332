/-
# Two runs of a rule, step by step

What a rule does next depends on the token that comes next and on nothing else:
not on the tokens behind it, not on the errors recorded so far, not on how many
rounds its loops may take.  So two runs of one rule do the same as long as the
cursors that they have come to agree in that token, whatever else these differ in.

Which differences those are is up to a relation between cursors.  A relation keeps
two runs in step (`Cursor.Lockstep`) if related cursors have the same token next
and are still related when both read it or both report an error.  A rule is
`Nearsighted` if from related cursors its two runs come to the same result, or the
same error, at related cursors, for every such relation.  Here that is shown of each
way in which rules are put together.

Two things are kept track of beside that.  `reads` are the kinds of token that a
rule may read, for two runs may be in step only as long as they read no other.  And
`advances` says that a run that succeeds has read a token.  Loops need it: with a
rule that can succeed in place, the bound on their rounds would count.  Since no loop
repeats such a rule, two runs do the same even if their bounds differ, and one
induction on the bound serves for all loops (`Roundwise.intro`).
-/
import Scriptlet.Proofs.Parsing.Reads

namespace Scriptlet

/-- The relation keeps two runs in step that read tokens of the kinds `reads`. -/
structure Cursor.Lockstep (reads : Token.Kind → Prop) (R : Cursor → Cursor → Prop) : Prop where
  head : ∀ {c c' : Cursor}, R c c' → c.rest.head? = c'.rest.head?
  endLine : ∀ {c c' : Cursor}, R c c' → c.rest = [] → c.endLine = c'.endLine
  read : ∀ {c c' : Cursor} {token : Token} {tail tail' : List Token}, R c c' →
    c.rest = token :: tail → c'.rest = token :: tail' → reads token.kind →
    R (c.facing tail) (c'.facing tail')
  report : ∀ {c c' : Cursor} (e : SyntaxError), R c c' →
    R { c with errors := c.errors ++ [e] } { c' with errors := c'.errors ++ [e] }
  bounded : ∀ {c c' : Cursor}, R c c' → c.rest.length ≤ c.size ∧ c'.rest.length ≤ c'.size

/-- The cursor `d` is not before `c`, and behind it if `advances`. -/
def Cursor.Past (advances : Bool) (c d : Cursor) : Prop :=
  d.rest.length + advances.toNat ≤ c.rest.length

namespace Cursor

variable {c d d' : Cursor} {advances advances' : Bool}

theorem Past.refl (c : Cursor) : c.Past false c := Nat.le_refl _

theorem Past.trans (h : c.Past advances d) (h' : d.Past advances' d') :
    c.Past (advances || advances') d' := by
  unfold Past at h h' ⊢
  have either : (advances || advances').toNat ≤ advances.toNat + advances'.toNat := by
    cases advances <;> cases advances' <;> decide
  omega

theorem Past.weaken (h : c.Past advances d) : c.Past false d :=
  Nat.le_trans (Nat.add_le_add_left (Nat.zero_le _) _) h

/-- Behind the next token there are at most those after it. -/
theorem Past.length_le (h : c.Past true d) {token : Token} {tail : List Token}
    (hrest : c.rest = token :: tail) : d.rest.length ≤ tail.length := by
  unfold Past at h
  rw [hrest] at h
  exact Nat.le_of_succ_le_succ h

theorem facing_of_rest {rest : List Token} (h : c.rest = rest) : c.facing rest = c := by
  subst h
  exact c.facing_self

theorem past_facing {token : Token} {tail : List Token} (h : c.rest = token :: tail) :
    c.Past true (c.facing tail) := by
  unfold Past
  rw [h]
  exact Nat.le_refl _

/-- The cursor with errors before its own and another bound on rounds. -/
def behind (c : Cursor) (earlier : List SyntaxError) (size : Nat) : Cursor :=
  { c with size := size, errors := earlier ++ c.errors }

@[simp] theorem behind_rest (c : Cursor) (earlier : List SyntaxError) (size : Nat) :
    (c.behind earlier size).rest = c.rest := rfl

@[simp] theorem behind_errors (c : Cursor) (earlier : List SyntaxError) (size : Nat) :
    (c.behind earlier size).errors = earlier ++ c.errors := rfl

namespace Lockstep

variable {reads : Token.Kind → Prop} {R : Cursor → Cursor → Prop} {c c' : Cursor}

/-- Both runs are at the end, or have the same token next. -/
theorem cases (hR : Lockstep reads R) (h : R c c') :
    (c.rest = [] ∧ c'.rest = [] ∧ c.endLine = c'.endLine) ∨
      ∃ token tail tail', c.rest = token :: tail ∧ c'.rest = token :: tail' := by
  have head := hR.head h
  cases hrest : c.rest with
  | nil =>
      rw [hrest, List.head?_nil] at head
      exact .inl ⟨rfl, List.head?_eq_none_iff.1 head.symm, hR.endLine h hrest⟩
  | cons token tail =>
      rw [hrest, List.head?_cons] at head
      obtain ⟨tail', hrest'⟩ := List.head?_eq_some_iff.1 head.symm
      exact .inr ⟨token, tail, tail', rfl, hrest'⟩

theorem current (hR : Lockstep reads R) (h : R c c') : c'.current = c.current := by
  rcases hR.cases h with ⟨hrest, hrest', line⟩ | ⟨token, tail, tail', hrest, hrest'⟩
  · rw [Cursor.current, Cursor.current, hrest, hrest', line]
  · rw [Cursor.current, Cursor.current, hrest, hrest']
    rfl

/-- Runs are kept in step also while no more than so many tokens are left. -/
theorem within (hR : Lockstep reads R) (n n' : Nat) : Lockstep reads fun c c' =>
    R c c' ∧ c.rest.length ≤ n ∧ c'.rest.length ≤ n' where
  head h := hR.head h.1
  endLine h := hR.endLine h.1
  read h hrest hrest' hk := by
    have read := hR.read h.1 hrest hrest' hk
    rw [hrest, hrest'] at h
    exact ⟨read, Nat.le_of_succ_le h.2.1, Nat.le_of_succ_le h.2.2⟩
  report e h := ⟨hR.report e h.1, h.2⟩
  bounded h := hR.bounded h.1

/-- A run is in step with itself, wherever it leads. -/
theorem ofLeads (hc : c.rest.length ≤ c.size) : Lockstep reads fun d d' => d' = d ∧ c.Leads d where
  head h := by rw [h.1]
  endLine h _ := by rw [h.1]
  read := by
    rintro _ d token tail tail' ⟨rfl, leads⟩ hrest hrest' -
    rw [hrest] at hrest'
    cases hrest'
    exact ⟨rfl, leads.trans (.skip d (hrest ▸ List.suffix_cons token tail))⟩
  report := by
    rintro _ d e ⟨rfl, leads⟩
    exact ⟨rfl, leads.trans (.report d e)⟩
  bounded := by
    rintro _ d ⟨rfl, leads⟩
    exact ⟨leads.bounded hc, leads.bounded hc⟩

/-- Neither the errors before a run nor the bound on rounds matter to it, as long as
the bound is not less than the number of tokens. -/
theorem behind (earlier : List SyntaxError) (size : Nat) : Lockstep reads fun c c' =>
    c' = c.behind earlier size ∧ c.rest.length ≤ c.size ∧ c.rest.length ≤ size where
  head h := by rw [h.1, behind_rest]
  endLine h _ := by rw [h.1, Cursor.behind]
  read := by
    rintro c _ token tail tail' ⟨rfl, few, few'⟩ hrest hrest' -
    rw [behind_rest, hrest] at hrest'
    cases hrest'
    rw [hrest] at few few'
    exact ⟨rfl, Nat.le_of_succ_le few, Nat.le_of_succ_le few'⟩
  report := by
    rintro c _ e ⟨rfl, few⟩
    refine ⟨?_, few⟩
    rw [Cursor.behind, Cursor.behind, List.append_assoc]
  bounded := by
    rintro c _ ⟨rfl, few⟩
    exact few

end Lockstep

end Cursor

namespace Parse

variable {α β : Type}

/-- Two runs come to the same: to one result at cursors related by `Q`, or to one
error at cursors related by `E`. -/
def Coincide (Q E : Cursor → Cursor → Prop)
    (result result' : EStateM.Result SyntaxError Cursor α) : Prop :=
  match result, result' with
  | .ok a d, .ok a' d' => a' = a ∧ Q d d'
  | .error e d, .error e' d' => e' = e ∧ E d d'
  | _, _ => False

section

variable {Q E : Cursor → Cursor → Prop} {a : α} {e : SyntaxError} {d : Cursor}
  {result : EStateM.Result SyntaxError Cursor α}

theorem Coincide.of_ok (h : Coincide Q E (.ok a d) result) :
    ∃ d', result = .ok a d' ∧ Q d d' := by
  cases result with
  | ok a' d' =>
      obtain ⟨rfl, there⟩ := h
      exact ⟨d', rfl, there⟩
  | error e d' => exact h.elim

theorem Coincide.of_error (h : Coincide Q E (.error e d : EStateM.Result _ _ α) result) :
    ∃ d', result = .error e d' ∧ E d d' := by
  cases result with
  | ok a d' => exact h.elim
  | error e' d' =>
      obtain ⟨rfl, there⟩ := h
      exact ⟨d', rfl, there⟩

end

theorem Coincide.mono {Q Q' E E' : Cursor → Cursor → Prop}
    {result result' : EStateM.Result SyntaxError Cursor α} (h : Coincide Q E result result')
    (hQ : ∀ d d', Q d d' → Q' d d') (hE : ∀ d d', E d d' → E' d d') :
    Coincide Q' E' result result' := by
  cases result <;> cases result'
  case ok.ok => exact ⟨h.1, hQ _ _ h.2⟩
  case error.error => exact ⟨h.1, hE _ _ h.2⟩
  all_goals exact h

theorem Coincide.bind {Q Q' E : Cursor → Cursor → Prop} {c c' : Cursor} {rule rule' : Parse α}
    {next next' : α → Parse β} (h : Coincide Q E (rule c) (rule' c'))
    (h' : ∀ a d d', Q d d' → Coincide Q' E (next a d) (next' a d')) :
    Coincide Q' E ((rule >>= next) c) ((rule' >>= next') c') := by
  rw [bind_apply, bind_apply]
  cases run : rule c with
  | ok a d =>
      rw [run] at h
      obtain ⟨d', run', there⟩ := h.of_ok
      rw [run']
      exact h' a d d' there
  | error e d =>
      rw [run] at h
      obtain ⟨d', run', there⟩ := h.of_error
      rw [run']
      exact ⟨rfl, there⟩

/-- Two runs that accept the same token or none. -/
theorem Coincide.accept? {reads : Token.Kind → Prop} {R Q E : Cursor → Cursor → Prop}
    {c c' : Cursor} (hR : Cursor.Lockstep reads R) (related : R c c') {wanted : List Token.Kind}
    (known : ∀ kind ∈ wanted, reads kind) {next next' : Option Token → Parse β}
    (h : ∀ token tail tail', c.rest = token :: tail → c'.rest = token :: tail' →
      token.kind ∈ wanted → R (c.facing tail) (c'.facing tail') →
      Coincide Q E (next (some token) (c.facing tail)) (next' (some token) (c'.facing tail')))
    (h' : Coincide Q E (next none c) (next' none c')) :
    Coincide Q E ((Parse.accept? wanted >>= next) c) ((Parse.accept? wanted >>= next') c') := by
  rw [bind_apply, bind_apply]
  unfold Parse.accept?
  rcases hR.cases related with ⟨hrest, hrest', -⟩ | ⟨token, tail, tail', hrest, hrest'⟩
  · rw [hrest, hrest']
    exact h'
  · by_cases hk : token.kind ∈ wanted
    · have there := h token tail tail' hrest hrest' hk (hR.read related hrest hrest' (known _ hk))
      simp only [hrest, hrest', if_pos hk]
      exact there
    · simp only [hrest, hrest', if_neg hk]
      exact h'

/-- The related cursors `d` and `d'` are where runs from `c` and `c'` may lead. -/
abbrev Onward (R : Cursor → Cursor → Prop) (advances : Bool) (c c' d d' : Cursor) : Prop :=
  R d d' ∧ c.Past advances d ∧ c'.Past advances d'

/-- From cursors that are kept in step by any relation, the rule comes to the same
at related cursors. -/
def Nearsighted (reads : Token.Kind → Prop) (advances : Bool) (rule : Parse α) : Prop :=
  ∀ R, Cursor.Lockstep reads R → ∀ c c', R c c' →
    Coincide (Onward R advances c c') R (rule c) (rule c')

/-- The same where the token that comes next is known. -/
def NearsightedAt (token : Token) (reads : Token.Kind → Prop) (advances : Bool)
    (rule : Parse α) : Prop :=
  ∀ R, Cursor.Lockstep reads R → ∀ c c', R c c' → c.current = token →
    Coincide (Onward R advances c c') R (rule c) (rule c')

namespace Nearsighted

variable {reads : Token.Kind → Prop} {advances advances' : Bool} {rule : Parse α}

theorem weaken (h : Nearsighted reads advances rule) : Nearsighted reads false rule :=
  fun R hR c c' related => (h R hR c c' related).mono
    (fun _ _ there => ⟨there.1, there.2.1.weaken, there.2.2.weaken⟩) fun _ _ => id

theorem onto (h : Nearsighted reads advances rule) (token : Token) :
    NearsightedAt token reads advances rule :=
  fun R hR c c' related _ => h R hR c c' related

/-- A run that succeeds has read a token if the rule advances. -/
theorem leads_ok (h : Nearsighted reads advances rule) {c d : Cursor}
    (hc : c.rest.length ≤ c.size) {a : α} (run : rule c = .ok a d) :
    c.Leads d ∧ c.Past advances d := by
  have both := h _ (.ofLeads hc) c c ⟨rfl, .refl c⟩
  rw [run] at both
  exact ⟨both.2.1.2, both.2.2.1⟩

theorem leads_error (h : Nearsighted reads advances rule) {c d : Cursor}
    (hc : c.rest.length ≤ c.size) {e : SyntaxError} (run : rule c = .error e d) : c.Leads d := by
  have both := h _ (.ofLeads hc) c c ⟨rfl, .refl c⟩
  rw [run] at both
  exact both.2.2

/-- A run that succeeds does the same behind other errors and with another bound. -/
theorem behind (h : Nearsighted reads advances rule) {c d : Cursor}
    (hc : c.rest.length ≤ c.size) (earlier : List SyntaxError) {size : Nat}
    (enough : c.rest.length ≤ size) {a : α} (run : rule c = .ok a d) :
    rule (c.behind earlier size) = .ok a (d.behind earlier size) := by
  have both := h _ (.behind earlier size) c _ ⟨rfl, hc, enough⟩
  rw [run] at both
  obtain ⟨_, run', ⟨rfl, -⟩, -⟩ := both.of_ok
  exact run'

/-! ## Steps -/

theorem pure (a : α) : Nearsighted reads false (Pure.pure a : Parse α) :=
  fun _ _ c c' related => ⟨rfl, related, .refl c, .refl c'⟩

theorem fail (cause : SyntaxError.Cause) : Nearsighted reads advances (fail cause : Parse α) :=
  fun _ hR _ _ related => ⟨by rw [hR.current related], related⟩

theorem failAt (cause : SyntaxError.Cause) (token : Token) :
    Nearsighted reads advances (failAt cause token : Parse α) :=
  fun _ _ _ _ related => ⟨rfl, related⟩

theorem record (cause : SyntaxError.Cause) (token : Token) :
    Nearsighted reads false (record cause token) :=
  fun _ hR c c' related => ⟨rfl, hR.report _ related, .refl c, .refl c'⟩

theorem check (kind : Token.Kind) : Nearsighted reads false (check kind) :=
  fun _ hR c c' related => ⟨by rw [hR.current related], related, .refl c, .refl c'⟩

theorem bind (h : Nearsighted reads advances rule) {next : α → Parse β}
    (h' : ∀ a, Nearsighted reads advances' (next a)) :
    Nearsighted reads (advances || advances') (rule >>= next) := by
  intro R hR c c' related
  refine (h R hR c c' related).bind fun a d d' ⟨there, past, past'⟩ => ?_
  exact (h' a R hR d d' there).mono
    (fun _ _ later => ⟨later.1, past.trans later.2.1, past'.trans later.2.2⟩) fun _ _ => id

/-- What comes after a rule that may have read nothing. -/
theorem andThen (h : Nearsighted reads advances' rule) {next : α → Parse β}
    (h' : ∀ a, Nearsighted reads advances (next a)) :
    Nearsighted reads advances (rule >>= next) := h.weaken.bind h'

/-- What comes after a rule that has read a token. -/
theorem before (h : Nearsighted reads true rule) {next : α → Parse β}
    (h' : ∀ a, Nearsighted reads false (next a)) : Nearsighted reads true (rule >>= next) :=
  h.bind h'

theorem map (h : Nearsighted reads advances rule) (f : α → β) :
    Nearsighted reads advances (f <$> rule) := by
  have whole : Nearsighted reads (advances || false) (f <$> rule) := h.bind fun a => pure (f a)
  rwa [Bool.or_false] at whole

/-- What depends on the token that comes next. -/
theorem current {next : Token → Parse α}
    (h : ∀ token, NearsightedAt token reads advances (next token)) :
    Nearsighted reads advances (current >>= next) := by
  intro R hR c c' related
  show Coincide _ R (next c.current c) (next c'.current c')
  rw [hR.current related]
  exact h c.current R hR c c' related rfl

/-- After a look at the next token, reading it and going on. -/
theorem next {token : Token} {kind : Token.Kind} (hk : token.kind = kind) (known : reads kind)
    (real : kind ≠ .eof) {then' : Token → Parse α}
    (h : ∀ token, Nearsighted reads advances (then' token)) :
    NearsightedAt token reads true (next >>= then') := by
  subst hk
  intro R hR c c' related here
  rcases hR.cases related with ⟨hrest, -, -⟩ | ⟨token', tail, tail', hrest, hrest'⟩
  · rw [Cursor.current, hrest] at here
    subst here
    exact absurd rfl real
  · have same : token' = token := by
      rwa [Cursor.current, hrest] at here
    subst same
    have there := hR.read related hrest hrest' known
    have taken : ∀ {c : Cursor} {tail : List Token}, c.rest = token' :: tail →
        Parse.next c = .ok token' (c.facing tail) := by
      intro c tail hrest
      rw [Parse.next, Cursor.current, hrest]
      rfl
    rw [bind_apply, bind_apply, taken hrest, taken hrest']
    exact (h token' R hR _ _ there).mono (fun _ _ later => ⟨later.1,
      (Cursor.past_facing hrest).trans later.2.1.weaken,
      (Cursor.past_facing hrest').trans later.2.2.weaken⟩) fun _ _ => id

/-- What depends on whether a token was accepted; if one was, it has been read. -/
theorem accept? {wanted : List Token.Kind} (known : ∀ kind ∈ wanted, reads kind)
    {next : Option Token → Parse α} (h : ∀ token, Nearsighted reads advances' (next (some token)))
    (h' : Nearsighted reads advances (next none)) :
    Nearsighted reads advances (accept? wanted >>= next) := by
  intro R hR c c' related
  refine .accept? hR related known (fun token tail tail' hrest hrest' _ there => ?_)
    (h' R hR c c' related)
  have further : ∀ {c d : Cursor} {tail : List Token}, c.rest = token :: tail →
      (c.facing tail).Past advances' d → c.Past advances d := by
    intro c d tail hrest past
    have read := (Cursor.past_facing hrest).trans past
    cases advances
    · exact read.weaken
    · exact read
  exact (h token R hR _ _ there).mono
    (fun _ _ later => ⟨later.1, further hrest later.2.1, further hrest' later.2.2⟩) fun _ _ => id

theorem expect {kind : Token.Kind} (known : reads kind) (cause : SyntaxError.Cause) :
    Nearsighted reads true (expect kind cause) :=
  accept? (List.forall_mem_singleton.2 known) (fun token => pure token) (fail cause)

end Nearsighted

/-! ## Loops -/

section

variable {reads : Token.Kind → Prop}

/-- Runs of a loop come to the same under any bounds on their rounds that are not less
than the numbers of tokens.  The loop may carry something from round to round. -/
def Roundwise {σ : Type} (reads : Token.Kind → Prop) (advances : Bool)
    (loop : Nat → σ → Parse α) : Prop :=
  ∀ (rounds rounds' : Nat) (R : Cursor → Cursor → Prop), Cursor.Lockstep reads R →
    ∀ a c c', R c c' → c.rest.length ≤ rounds → c'.rest.length ≤ rounds' →
      Coincide (Onward R advances c c') R (loop rounds a c) (loop rounds' a c')

section

variable {σ : Type} {advances : Bool} {loop : Nat → σ → Parse α}

/-- What has to be seen is that runs at the end come to the same under any bounds, and
that runs before a token do if those from behind it do. -/
theorem Roundwise.intro
    (atEnd : ∀ R, Cursor.Lockstep reads R → ∀ a c c', R c c' → c.rest = [] → c'.rest = [] →
      ∀ rounds rounds', Coincide (Onward R advances c c') R (loop rounds a c) (loop rounds' a c'))
    (round : ∀ rounds rounds' R, Cursor.Lockstep reads R →
      (∀ a d d', R d d' → d.rest.length ≤ rounds → d'.rest.length ≤ rounds' →
        Coincide (Onward R advances d d') R (loop rounds a d) (loop rounds' a d')) →
      ∀ a c c' token tail tail', R c c' → c.rest = token :: tail → c'.rest = token :: tail' →
        tail.length ≤ rounds → tail'.length ≤ rounds' →
        Coincide (Onward R advances c c') R (loop (rounds + 1) a c) (loop (rounds' + 1) a c')) :
    Roundwise reads advances loop := by
  intro rounds
  induction rounds with
  | zero =>
      intro rounds' R hR a c c' related enough _
      rcases hR.cases related with ⟨hrest, hrest', -⟩ | ⟨token, tail, tail', hrest, -⟩
      · exact atEnd R hR a c c' related hrest hrest' 0 rounds'
      · rw [hrest] at enough
        cases enough
  | succ rounds ih =>
      intro rounds' R hR a c c' related enough enough'
      rcases hR.cases related with ⟨hrest, hrest', -⟩ | ⟨token, tail, tail', hrest, hrest'⟩
      · exact atEnd R hR a c c' related hrest hrest' (rounds + 1) rounds'
      · rw [hrest, List.length_cons] at enough
        rw [hrest', List.length_cons] at enough'
        obtain ⟨rounds', rfl⟩ : ∃ n, rounds' = n + 1 :=
          Nat.exists_eq_add_one_of_ne_zero (by omega)
        exact round rounds rounds' R hR (ih rounds' R hR) a c c' token tail tail' related hrest
          hrest' (by omega) (by omega)

theorem Roundwise.nearsighted (h : Roundwise reads advances loop) (a : σ) :
    Nearsighted reads advances fun c => loop c.size a c :=
  fun R hR c c' related =>
    h c.size c'.size R hR a c c' related (hR.bounded related).1 (hR.bounded related).2

end

theorem chainWithin_end {wanted : List Token.Kind} {step : α → Token → Parse α} {c : Cursor}
    (h : c.rest = []) (rounds : Nat) (a : α) : chainWithin wanted step rounds a c = .ok a c := by
  cases rounds with
  | zero => rfl
  | succ rounds =>
      rw [chainWithin, bind_apply, Parse.accept?, h]
      rfl

/-- Rounds on wanted tokens come to the same however many may be taken. -/
theorem Roundwise.chainWithin {wanted : List Token.Kind} (known : ∀ kind ∈ wanted, reads kind)
    {step : α → Token → Parse α} (h : ∀ a token, Nearsighted reads false (step a token)) :
    Roundwise reads false (chainWithin wanted step) := by
  refine .intro (fun R _ a c c' related hrest hrest' rounds rounds' => ?_)
    fun rounds rounds' R hR ih a c c' token tail tail' related hrest hrest' few few' => ?_
  · rw [chainWithin_end hrest, chainWithin_end hrest']
    exact ⟨rfl, related, .refl c, .refl c'⟩
  · refine .accept? hR related known (fun accepted left left' same same' _ there => ?_)
      ⟨rfl, related, .refl c, .refl c'⟩
    rw [hrest] at same
    rw [hrest'] at same'
    cases same
    cases same'
    have first := h a token _ (hR.within rounds rounds') _ _ ⟨there, few, few'⟩
    refine Coincide.bind (E := R) (first.mono (fun _ _ => id) fun _ _ => And.left)
      fun a' d d' ⟨⟨there, few, few'⟩, past, past'⟩ => ?_
    refine (ih a' d d' there few few').mono (fun _ _ later => ?_) fun _ _ => id
    exact ⟨later.1, ((Cursor.past_facing hrest).trans (past.trans later.2.1)).weaken,
      ((Cursor.past_facing hrest').trans (past'.trans later.2.2)).weaken⟩

theorem Nearsighted.chain {wanted : List Token.Kind} (known : ∀ kind ∈ wanted, reads kind)
    {step : α → Token → Parse α} (h : ∀ a token, Nearsighted reads false (step a token)) (a : α) :
    Nearsighted reads false (chain wanted step a) :=
  (Roundwise.chainWithin known h).nearsighted a

/-! ### Recovery -/

theorem skipToStatement_related {R : Cursor → Cursor → Prop} (hR : Cursor.Lockstep reads R)
    (all : ∀ kind, reads kind) {c c' : Cursor} (related : R c c') :
    ∀ last, R (c.facing (skipToStatement last c.rest))
      (c'.facing (skipToStatement last c'.rest)) := by
  generalize hrest : c.rest = rest
  induction rest generalizing c c' with
  | nil =>
      intro last
      rcases hR.cases related with ⟨-, hrest', -⟩ | ⟨_, _, _, some, -⟩
      · rw [hrest', skipToStatement, Cursor.facing_of_rest hrest, Cursor.facing_of_rest hrest']
        exact related
      · rw [hrest] at some
        cases some
  | cons token tail ih =>
      intro last
      rcases hR.cases related with ⟨none, -⟩ | ⟨_, _, tail', some, hrest'⟩
      · rw [hrest] at none
        cases none
      · rw [hrest] at some
        cases some
        have there := hR.read related hrest hrest' (all token.kind)
        rw [hrest', skipToStatement, skipToStatement]
        split
        · rw [Cursor.facing_of_rest hrest, Cursor.facing_of_rest hrest']
          exact related
        · exact ih there rfl token.kind

theorem synchronize_related {R : Cursor → Cursor → Prop} (hR : Cursor.Lockstep reads R)
    (all : ∀ kind, reads kind) {c c' : Cursor} (related : R c c') :
    R (c.facing (synchronize c.rest)) (c'.facing (synchronize c'.rest)) := by
  rcases hR.cases related with ⟨hrest, hrest', -⟩ | ⟨token, tail, tail', hrest, hrest'⟩
  · rw [hrest, hrest', synchronize, Cursor.facing_of_rest hrest, Cursor.facing_of_rest hrest']
    exact related
  · have there := hR.read related hrest hrest' (all token.kind)
    rw [hrest, hrest']
    exact skipToStatement_related hR all there token.kind

/-- Recovery skips a token if there is one. -/
theorem synchronize_past {c d : Cursor} (some : c.rest ≠ []) (h : c.Past false d) :
    c.Past true (d.facing (synchronize d.rest)) := by
  unfold Cursor.Past at h ⊢
  rw [Cursor.facing_rest]
  cases hrest : d.rest with
  | nil => exact List.length_pos_iff.2 some
  | cons token tail =>
      have := (skipToStatement_suffix token.kind tail).length_le
      rw [hrest, List.length_cons] at h
      exact Nat.le_trans (Nat.succ_le_succ this) h

/-- A rule with recovery reads a token if there is one, whether it fails or not. -/
theorem Coincide.recovering (all : ∀ kind, reads kind) {rule : Parse α}
    (h : Nearsighted reads true rule) {R E : Cursor → Cursor → Prop} (hR : Cursor.Lockstep reads R)
    {c c' : Cursor} (related : R c c') (some : c.rest ≠ []) :
    Coincide (Onward R true c c') E (recovering rule c) (recovering rule c') := by
  have some' : c'.rest ≠ [] := by
    intro none
    have head := hR.head related
    rw [none, List.head?_nil, List.head?_eq_none_iff] at head
    exact some head
  have both := h _ (hR.within c.rest.length c'.rest.length) c c'
    ⟨related, Nat.le_refl _, Nat.le_refl _⟩
  unfold Parse.recovering
  cases run : rule c with
  | ok a d =>
      rw [run] at both
      obtain ⟨d', run', ⟨there, -⟩, past, past'⟩ := both.of_ok
      rw [run']
      exact ⟨rfl, there, past, past'⟩
  | error e d =>
      rw [run] at both
      obtain ⟨d', run', there, past, past'⟩ := both.of_error
      rw [run']
      exact ⟨rfl, hR.report e (synchronize_related hR all there), synchronize_past some past,
        synchronize_past some' past'⟩

theorem manyWithin_ended {closing : Option Token.Kind} {rule : Parse α} {c : Cursor}
    (h : ∀ token ∈ c.rest.head?, closing = some token.kind) (rounds : Nat) :
    manyWithin closing rule rounds c = .ok [] c := by
  cases rounds with
  | zero => rfl
  | succ rounds =>
      unfold manyWithin
      split
      case h_1 => rfl
      case h_2 token tail hrest =>
        rw [hrest] at h
        rw [if_pos (h token rfl)]

theorem manyWithin_round {closing : Option Token.Kind} {rule : Parse α} {c : Cursor}
    {token : Token} {tail : List Token} (hrest : c.rest = token :: tail)
    (h : closing ≠ some token.kind) (rounds : Nat) : manyWithin closing rule (rounds + 1) c =
      (recovering rule >>= fun first => manyWithin closing rule rounds >>= fun others =>
        pure (first.toList ++ others)) c := by
  conv => lhs; unfold manyWithin
  split
  case h_1 none =>
    rw [hrest] at none
    cases none
  case h_2 token' tail' hrest' =>
    rw [hrest] at hrest'
    cases hrest'
    rw [if_neg h]

/-- A rule repeated with recovery comes to the same however many rounds it may take:
every round reads a token. -/
theorem Roundwise.manyWithin (closing : Option Token.Kind) (all : ∀ kind, reads kind)
    {rule : Parse α} (h : Nearsighted reads true rule) :
    Roundwise reads false fun rounds (_ : Unit) => manyWithin closing rule rounds := by
  refine .intro (fun R _ _ c c' related hrest hrest' rounds rounds' => ?_)
    fun rounds rounds' R hR ih _ c c' token tail tail' related hrest hrest' few few' => ?_
  · rw [manyWithin_ended (by simp [hrest]), manyWithin_ended (by simp [hrest'])]
    exact ⟨rfl, related, .refl c, .refl c'⟩
  · by_cases hk : closing = some token.kind
    · rw [manyWithin_ended (by simp [hrest, hk]), manyWithin_ended (by simp [hrest', hk])]
      exact ⟨rfl, related, .refl c, .refl c'⟩
    · rw [manyWithin_round hrest hk, manyWithin_round hrest' hk]
      have first : Coincide (Onward R true c c') R (Parse.recovering rule c)
          (Parse.recovering rule c') := .recovering all h hR related (by simp [hrest])
      refine first.bind fun a? d d' ⟨there, past, past'⟩ => ?_
      have few := Nat.le_trans (past.length_le hrest) few
      have few' := Nat.le_trans (past'.length_le hrest') few'
      refine (ih () d d' there few few').bind fun as e e' ⟨there, later, later'⟩ => ?_
      exact ⟨rfl, there, (past.trans later).weaken, (past'.trans later').weaken⟩

theorem Nearsighted.many (closing : Option Token.Kind) (all : ∀ kind, reads kind) {rule : Parse α}
    (h : Nearsighted reads true rule) : Nearsighted reads false (many closing rule) :=
  (Roundwise.manyWithin closing all h).nearsighted ()

end

end Parse

end Scriptlet
