/-
# What a rule reads

A clean run of a rule is one that succeeds and records no error.  `Reads rule
spec` says exactly when that happens: on the tokens before it the rule has a
clean run with a result and some tokens left if and only if `spec` relates the
three, and the run then changes nothing but the tokens left.  There is one lemma
for each way in which rules are put together, so that the `spec` of a rule is
put together in the same way; what it has to do with a grammar is then a matter
of lists of tokens alone.

Two facts about runs that are not clean carry the lemmas.  No error recorded
before is ever lost, so a clean run has only clean runs in it.  And no rule puts
a token back, so a loop that reads one each round needs no more rounds than
there are tokens: the bound on rounds that the loops carry is never what ends
them.  Both are part of `Cursor.Leads`, which holds of every run.
-/
import Scriptlet.Proofs.EStateM
import Scriptlet.Tree.Parser

namespace Scriptlet

/-- The cursor `c'` can be reached from `c` by reading and reporting. -/
structure Cursor.Leads (c c' : Cursor) : Prop where
  rest : c'.rest <:+ c.rest
  endLine : c'.endLine = c.endLine
  size : c'.size = c.size
  errors : c.errors <+: c'.errors

namespace Cursor

/-- The cursor with other tokens before it. -/
def facing (c : Cursor) (rest : List Token) : Cursor := { c with rest := rest }

@[simp] theorem facing_rest (c : Cursor) (rest : List Token) : (c.facing rest).rest = rest := rfl

@[simp] theorem facing_errors (c : Cursor) (rest : List Token) :
    (c.facing rest).errors = c.errors := rfl

@[simp] theorem facing_self (c : Cursor) : c.facing c.rest = c := rfl

namespace Leads

variable {c c' c'' : Cursor}

theorem refl (c : Cursor) : c.Leads c :=
  ⟨List.suffix_refl _, rfl, rfl, List.prefix_refl _⟩

theorem trans (h : c.Leads c') (h' : c'.Leads c'') : c.Leads c'' :=
  ⟨h'.rest.trans h.rest, h'.endLine.trans h.endLine, h'.size.trans h.size,
    h.errors.trans h'.errors⟩

/-- Skipping tokens is moving forward. -/
theorem skip (c : Cursor) {rest : List Token} (h : rest <:+ c.rest) : c.Leads (c.facing rest) :=
  ⟨h, rfl, rfl, List.prefix_refl _⟩

/-- Reporting an error is moving forward. -/
theorem report (c : Cursor) (e : SyntaxError) :
    c.Leads { c with errors := c.errors ++ [e] } :=
  ⟨List.suffix_refl _, rfl, rfl, List.prefix_append _ _⟩

theorem bounded (h : c.Leads c') (hc : c.rest.length ≤ c.size) : c'.rest.length ≤ c'.size := by
  have := h.rest.length_le
  have := h.size
  omega

/-- A run without an error has none on the way. -/
theorem errors_between (h : c.Leads c') (h' : c'.Leads c'') (clean : c''.errors = c.errors) :
    c'.errors = c.errors := by
  have before := h.errors.length_le
  have after := h'.errors.length_le
  rw [clean] at after
  exact (h.errors.eq_of_length (by omega)).symm

end Leads

end Cursor

/-! ## Recovery skips tokens -/

theorem skipToStatement_suffix :
    ∀ (last : Token.Kind) (tokens : List Token), skipToStatement last tokens <:+ tokens
  | _, [] => List.suffix_refl _
  | last, token :: rest => by
      unfold skipToStatement
      split
      · exact List.suffix_refl _
      · exact (skipToStatement_suffix token.kind rest).trans (List.suffix_cons _ _)

theorem synchronize_suffix : ∀ tokens : List Token, synchronize tokens <:+ tokens
  | [] => List.suffix_refl _
  | token :: rest => (skipToStatement_suffix token.kind rest).trans (List.suffix_cons _ _)

/-- None of the wanted kinds comes next. -/
def Stops (wanted : List Token.Kind) (tokens : List Token) : Prop :=
  ∀ token ∈ tokens.head?, token.kind ∉ wanted

@[simp] theorem stops_nil (wanted : List Token.Kind) : Stops wanted [] := by
  intro token h
  cases h

@[simp] theorem stops_cons (wanted : List Token.Kind) (token : Token) (tokens : List Token) :
    Stops wanted (token :: tokens) ↔ token.kind ∉ wanted := by
  simp [Stops]

theorem Stops.mono {wanted wanted' : List Token.Kind} {tokens : List Token}
    (h : Stops wanted tokens) (sub : wanted' ⊆ wanted) : Stops wanted' tokens :=
  fun token head here => h token head (sub here)

namespace Parse

/-! ## The outcome of a rule -/

/-- What the clean runs of a rule relate: the tokens before it, its result and
the tokens it leaves. -/
abbrev Reading (α : Type) := List Token → α → List Token → Prop

/-- Successful or not, the rule has only moved forward from `c`. -/
def Moves {α : Type} (c : Cursor) (result : EStateM.Result SyntaxError Cursor α) : Prop :=
  match result with
  | .ok _ c' => c.Leads c'
  | .error _ c' => c.Leads c'

theorem Moves.after {α : Type} {c c' : Cursor} {result : EStateM.Result SyntaxError Cursor α}
    (h : Moves c' result) (leads : c.Leads c') : Moves c result := by
  cases result <;> exact leads.trans h

theorem Moves.pure {α : Type} (a : α) (c : Cursor) : Moves c ((Pure.pure a : Parse α) c) :=
  .refl c

theorem Moves.bind {α β : Type} {c : Cursor} {rule : Parse α} (h : Moves c (rule c))
    {next : α → Parse β} (h' : ∀ a c', rule c = .ok a c' → c.Leads c' → Moves c' (next a c')) :
    Moves c ((rule >>= next) c) := by
  rw [bind_apply]
  cases run : rule c with
  | ok a c' =>
      rw [run] at h
      exact (h' a c' run h).after h
  | error e c' =>
      rw [run] at h
      exact h

/-- The result of running a rule at `c` when `spec` says which result and which
tokens left make a clean run. -/
structure Outcome {α : Type} (c : Cursor) (spec : α → List Token → Prop)
    (result : EStateM.Result SyntaxError Cursor α) : Prop where
  moves : Moves c result
  clean : ∀ a c', (result = .ok a c' ∧ c'.errors = c.errors) ↔
    ∃ rest, c' = c.facing rest ∧ spec a rest

namespace Outcome

section

variable {α β : Type} {c : Cursor} {spec : α → List Token → Prop}
  {result : EStateM.Result SyntaxError Cursor α}

theorem congr {spec' : α → List Token → Prop} (h : Outcome c spec result)
    (same : ∀ a rest, spec a rest ↔ spec' a rest) : Outcome c spec' result :=
  ⟨h.moves, fun a c' => (h.clean a c').trans (by simp only [same])⟩

/-- A result that leaves a clean cursor. -/
theorem ok (a : α) {rest : List Token} (h : rest <:+ c.rest) :
    Outcome c (fun b left => b = a ∧ left = rest) (.ok a (c.facing rest)) := by
  refine ⟨.skip c h, fun b c' => ⟨?_, ?_⟩⟩
  · rintro ⟨run, -⟩
    cases run
    exact ⟨rest, rfl, rfl, rfl⟩
  · rintro ⟨rest', rfl, rfl, rfl⟩
    exact ⟨rfl, rfl⟩

theorem pure (a : α) (c : Cursor) :
    Outcome c (fun b rest => b = a ∧ rest = c.rest) ((Pure.pure a : Parse α) c) :=
  ok a (List.suffix_refl _)

theorem error {e : SyntaxError} {c' : Cursor} (h : c.Leads c') :
    Outcome c (fun _ _ => False) (.error e c' : EStateM.Result SyntaxError Cursor α) := by
  refine ⟨h, fun b c'' => ⟨?_, ?_⟩⟩
  · rintro ⟨run, -⟩
    cases run
  · rintro ⟨_, _, impossible⟩
    exact impossible.elim

/-- Tokens skipped before a rule starts. -/
theorem skipped {rest : List Token} (h : rest <:+ c.rest)
    (run : Outcome (c.facing rest) spec result) : Outcome c spec result :=
  ⟨run.moves.after (.skip c h), fun a c' => run.clean a c'⟩

/-- One rule after another.  The second need be understood only where the first
leads in a clean run; elsewhere it only has to move forward. -/
theorem bind {rule : Parse α} (h : Outcome c spec (rule c)) {next : α → Parse β}
    {spec' : α → Reading β}
    (moves : ∀ a c', rule c = .ok a c' → c.Leads c' → Moves c' (next a c'))
    (h' : ∀ a mid, spec a mid → c.Leads (c.facing mid) →
      Outcome (c.facing mid) (spec' a mid) (next a (c.facing mid))) :
    Outcome c (fun b rest => ∃ a mid, spec a mid ∧ spec' a mid b rest)
      ((rule >>= next) c) := by
  refine ⟨h.moves.bind moves, fun b c'' => ?_⟩
  rw [bind_apply]
  constructor
  · rintro ⟨run, clean⟩
    cases first : rule c with
    | error e c' =>
        rw [first] at run
        cases run
    | ok a c' =>
        rw [first] at run
        dsimp only at run
        have there := h.moves
        rw [first] at there
        have after := moves a c' first there
        rw [run] at after
        have between := there.errors_between after clean
        obtain ⟨mid, rfl, one⟩ := (h.clean a c').1 ⟨first, between⟩
        obtain ⟨rest, rfl, two⟩ := ((h' a mid one there).clean b c'').1 ⟨run, clean⟩
        exact ⟨rest, rfl, a, mid, one, two⟩
  · rintro ⟨rest, rfl, a, mid, one, two⟩
    obtain ⟨first, -⟩ := (h.clean a _).2 ⟨mid, rfl, one⟩
    have there := h.moves
    rw [first] at there ⊢
    exact ((h' a mid one there).clean b _).2 ⟨rest, rfl, two⟩

/-- A rule whose result is only reshaped. -/
theorem map {rule : Parse α} (h : Outcome c spec (rule c)) (f : α → β) :
    Outcome c (fun b rest => ∃ a, spec a rest ∧ b = f a)
      ((rule >>= fun a => Pure.pure (f a)) c) := by
  refine (h.bind (fun a c' _ _ => .pure (f a) c') fun a mid _ _ => .pure (f a) _).congr
    fun b rest => ⟨?_, ?_⟩
  · rintro ⟨a, _, first, rfl, rfl⟩
    exact ⟨a, first, rfl⟩
  · rintro ⟨a, first, rfl⟩
    exact ⟨a, rest, first, rfl, rfl⟩

end

end Outcome

theorem Outcome.accept? {β : Type} {wanted : List Token.Kind} {next : Option Token → Parse β}
    {spec : Token → Reading β} {spec' : β → List Token → Prop} {c : Cursor}
    (h : ∀ token tail, c.rest = token :: tail → token.kind ∈ wanted → c.Leads (c.facing tail) →
      Outcome (c.facing tail) (spec token tail) (next (some token) (c.facing tail)))
    (h' : Outcome c spec' (next none c)) :
    Outcome c (fun b rest =>
      (∃ token tail, c.rest = token :: tail ∧ token.kind ∈ wanted ∧ spec token tail b rest) ∨
        (Stops wanted c.rest ∧ spec' b rest)) ((Parse.accept? wanted >>= next) c) := by
  rw [bind_apply]
  unfold Parse.accept?
  cases hrest : c.rest with
  | nil =>
      refine h'.congr fun b rest => ?_
      simp
  | cons token tail =>
      have shorter : tail <:+ c.rest := hrest ▸ List.suffix_cons _ _
      by_cases hk : token.kind ∈ wanted
      · simp only [if_pos hk]
        refine ((h token tail hrest hk (.skip c shorter)).skipped shorter).congr
          fun b rest => ⟨?_, ?_⟩
        · exact fun read => .inl ⟨token, tail, rfl, hk, read⟩
        · rintro (⟨_, _, same, -, read⟩ | ⟨stops, -⟩)
          · cases same
            exact read
          · exact absurd hk ((stops_cons ..).1 stops)
      · simp only [if_neg hk]
        refine h'.congr fun b rest => ?_
        simp [hk]

/-- `spec` says exactly which clean runs the rule has. -/
def Reads {α : Type} (rule : Parse α) (spec : Reading α) : Prop :=
  ∀ c, c.rest.length ≤ c.size → Outcome c (spec c.rest) (rule c)

/-- The same, where only the clean runs on the given tokens are known. -/
def ReadsAt {α : Type} (tokens : List Token) (rule : Parse α) (spec : α → List Token → Prop) :
    Prop :=
  ∀ c, c.rest = tokens → c.rest.length ≤ c.size → Outcome c spec (rule c)

theorem ReadsAt.congr {α : Type} {tokens : List Token} {rule : Parse α}
    {spec spec' : α → List Token → Prop} (h : ReadsAt tokens rule spec)
    (same : ∀ a rest, spec a rest ↔ spec' a rest) : ReadsAt tokens rule spec' :=
  fun c hrest hc => (h c hrest hc).congr same

namespace Reads

variable {α β : Type} {rule : Parse α} {spec : Reading α}

theorem congr {spec' : Reading α} (h : Reads rule spec)
    (same : ∀ tokens a rest, spec tokens a rest ↔ spec' tokens a rest) : Reads rule spec' :=
  fun c hc => (h c hc).congr (same c.rest)

theorem onto (h : Reads rule spec) (tokens : List Token) : ReadsAt tokens rule (spec tokens) := by
  rintro c rfl hc
  exact h c hc

/-- What a clean run reads. -/
theorem run_iff (h : Reads rule spec) {c : Cursor} (hc : c.rest.length ≤ c.size) {a : α}
    {c' : Cursor} : (rule c = .ok a c' ∧ c'.errors = c.errors) ↔
      ∃ rest, c' = c.facing rest ∧ spec c.rest a rest :=
  (h c hc).clean a c'

theorem pure (a : α) : Reads (pure a : Parse α) fun tokens b rest => b = a ∧ rest = tokens :=
  fun c _ => .pure a c

theorem fail (cause : SyntaxError.Cause) : Reads (fail cause : Parse α) fun _ _ _ => False :=
  fun c _ => .error (.refl c)

theorem bind (h : Reads rule spec) {next : α → Parse β} {spec' : α → Reading β}
    (h' : ∀ a, Reads (next a) (spec' a)) :
    Reads (rule >>= next) fun tokens b rest =>
      ∃ a mid, spec tokens a mid ∧ spec' a mid b rest := by
  intro c hc
  exact (h c hc).bind (fun a c' _ leads => (h' a c' (leads.bounded hc)).moves)
    fun a mid _ leads => h' a _ (leads.bounded hc)

theorem map (f : α → β) (h : Reads rule spec) :
    Reads (f <$> rule) fun tokens b rest => ∃ a, spec tokens a rest ∧ b = f a :=
  fun c hc => (h c hc).map f

/-- A recorded error is never clean. -/
theorem record (cause : SyntaxError.Cause) (token : Token) :
    Reads (record cause token) fun _ _ _ => False := by
  refine fun c _ => ⟨.report c _, fun a c' => ⟨?_, ?_⟩⟩
  · rintro ⟨run, clean⟩
    cases run
    simp at clean
  · rintro ⟨_, _, impossible⟩
    exact impossible.elim

theorem recorded (cause : SyntaxError.Cause) (token : Token) {next : Unit → Parse β}
    {spec' : Reading β} (h : Reads (next ()) spec') :
    Reads (Parse.record cause token >>= next) fun _ _ _ => False := by
  refine ((record cause token).bind fun _ => h).congr fun tokens b rest => ⟨?_, False.elim⟩
  rintro ⟨_, _, impossible, -⟩
  exact impossible

/-- A look at whether a kind comes next. -/
theorem check (kind : Token.Kind) {next : Bool → Parse β} {spec spec' : Reading β}
    (h : Reads (next true) spec) (h' : Reads (next false) spec') (hk : kind ≠ .eof) :
    Reads (Parse.check kind >>= next) fun tokens b rest =>
      (∃ token tail, tokens = token :: tail ∧ token.kind = kind ∧ spec tokens b rest) ∨
        (Stops [kind] tokens ∧ spec' tokens b rest) := by
  intro c hc
  show Outcome c _ (next (decide (c.current.kind = kind)) c)
  unfold Cursor.current
  cases hrest : c.rest with
  | nil =>
      rw [List.headD_nil, decide_eq_false (fun h => hk h.symm)]
      refine (h' c hc).congr fun b rest => ?_
      simp [hrest]
  | cons token tail =>
      rw [List.headD_cons]
      by_cases here : token.kind = kind
      · rw [decide_eq_true here]
        refine (h c hc).congr fun b rest => ?_
        simp [here, hrest]
      · rw [decide_eq_false here]
        refine (h' c hc).congr fun b rest => ?_
        simp [here, hrest]

/-- A token of one of the wanted kinds, if one comes next. -/
theorem accept? (wanted : List Token.Kind) {next : Option Token → Parse β}
    {spec : Token → Reading β} {spec' : Reading β}
    (h : ∀ token, token.kind ∈ wanted → Reads (next (some token)) (spec token))
    (h' : Reads (next none) spec') :
    Reads (Parse.accept? wanted >>= next) fun tokens b rest =>
      (∃ token tail, tokens = token :: tail ∧ token.kind ∈ wanted ∧ spec token tail b rest) ∨
        (Stops wanted tokens ∧ spec' tokens b rest) :=
  fun c hc => .accept? (fun token _ _ hk leads => h token hk _ (leads.bounded hc)) (h' c hc)

theorem expect (kind : Token.Kind) (cause : SyntaxError.Cause) :
    Reads (expect kind cause) fun tokens a rest => tokens = a :: rest ∧ a.kind = kind := by
  refine (accept? [kind] (fun token _ => .pure token) (.fail cause)).congr
    fun tokens a rest => ⟨?_, ?_⟩
  · rintro (⟨token, tail, rfl, here, rfl, rfl⟩ | ⟨_, impossible⟩)
    · exact ⟨rfl, List.mem_singleton.1 here⟩
    · exact impossible.elim
  · rintro ⟨rfl, here⟩
    exact .inl ⟨a, rest, rfl, List.mem_singleton.2 here, rfl, rfl⟩

/-- A token that has to come next, and what comes behind. -/
theorem expected (kind : Token.Kind) (cause : SyntaxError.Cause) {next : Token → Parse β}
    {spec : Token → Reading β} (h : ∀ token, Reads (next token) (spec token)) :
    Reads (Parse.expect kind cause >>= next) fun tokens b rest =>
      ∃ token mid, tokens = token :: mid ∧ token.kind = kind ∧ spec token mid b rest := by
  refine ((expect kind cause).bind h).congr fun tokens b rest => ?_
  simp only [and_assoc]

/-- A rule chosen by the token that comes next. -/
theorem current {next : Token → Parse α} {spec : Token → Reading α} {spec' : Reading α}
    (h : ∀ token tail, ReadsAt (token :: tail) (next token) (spec token tail))
    (h' : ∀ line, Reads (next (.endOfFile line)) spec') :
    Reads (Parse.current >>= next) fun tokens a rest =>
      match tokens with
      | [] => spec' [] a rest
      | token :: tail => spec token tail a rest := by
  intro c hc
  show Outcome c _ (next c.current c)
  unfold Cursor.current
  cases hrest : c.rest with
  | nil =>
      have last := h' c.endLine c hc
      rwa [hrest] at last
  | cons token tail => exact h token tail c hrest hc

/-- After a look at the next token, reading it and going on. -/
theorem next {token : Token} {tail : List Token} {then' : Token → Parse β} {spec : Reading β}
    (h : Reads (then' token) spec) :
    ReadsAt (token :: tail) (Parse.next >>= then') (spec tail) := by
  intro c hrest hc
  have shorter : tail <:+ c.rest := hrest ▸ List.suffix_cons _ _
  have bounded : (c.facing tail).rest.length ≤ (c.facing tail).size :=
    (Cursor.Leads.skip c shorter).bounded hc
  have run : (Parse.next >>= then') c = then' token (c.facing tail) := by
    rw [bind_apply]
    simp [Parse.next, Cursor.current, hrest, Cursor.facing]
  rw [run]
  exact (h _ bounded).skipped shorter

end Reads

/-! ## Loops -/

/-- The clean runs of a loop that takes rounds on wanted tokens, from `a` on. -/
inductive Rounds {α : Type} (wanted : List Token.Kind) (spec : α → Token → Reading α) :
    α → Reading α
  | done {a : α} {tokens : List Token} : Stops wanted tokens → Rounds wanted spec a tokens a tokens
  | round {a a' b : α} {token : Token} {tail mid rest : List Token} :
      token.kind ∈ wanted → spec a token tail a' mid → Rounds wanted spec a' mid b rest →
      Rounds wanted spec a (token :: tail) b rest

/-- The clean runs of a rule repeated until the tokens end or `closing` comes
next. -/
inductive Repeated {α : Type} (closing : Option Token.Kind) (spec : Reading α) :
    Reading (List α)
  | done {tokens : List Token} : (∀ token ∈ tokens.head?, closing = some token.kind) →
      Repeated closing spec tokens [] tokens
  | more {a : α} {as : List α} {token : Token} {tail mid rest : List Token} :
      closing ≠ some token.kind → spec (token :: tail) a mid →
      Repeated closing spec mid as rest → Repeated closing spec (token :: tail) (a :: as) rest

section

variable {α : Type}

theorem Outcome.chainWithin (wanted : List Token.Kind) {step : α → Token → Parse α}
    {spec : α → Token → Reading α} (h : ∀ a token, Reads (step a token) (spec a token)) :
    ∀ rounds a c, c.rest.length ≤ c.size → c.rest.length ≤ rounds →
      Outcome c (Rounds wanted spec a c.rest) (chainWithin wanted step rounds a c)
  | 0, a, c, _, enough => by
      have last : c.rest = [] := List.eq_nil_of_length_eq_zero (by omega)
      refine (Outcome.ok a (List.suffix_refl c.rest)).congr fun b rest => ?_
      rw [last]
      constructor
      · rintro ⟨rfl, rfl⟩
        exact .done (stops_nil _)
      · rintro (_ | _)
        exact ⟨rfl, rfl⟩
  | rounds + 1, a, c, hc, enough => by
      have more : ∀ token tail, c.rest = token :: tail → token.kind ∈ wanted →
          c.Leads (c.facing tail) →
          Outcome (c.facing tail) (fun b rest => ∃ a' mid, spec a token tail a' mid ∧
              Rounds wanted spec a' mid b rest)
            ((step a token >>= Parse.chainWithin wanted step rounds) (c.facing tail)) := by
        intro token tail hrest _ leads
        have still : ∀ c', (c.facing tail).Leads c' → c'.rest.length ≤ rounds := by
          intro c' leads'
          have := leads'.rest.length_le
          rw [hrest, List.length_cons] at enough
          rw [Cursor.facing_rest] at this
          omega
        refine (h a token _ (leads.bounded hc)).bind ?_ ?_
        · intro a' c' _ leads'
          have bounded := leads'.bounded (leads.bounded hc)
          exact (chainWithin wanted h rounds a' c' bounded (still c' leads')).moves
        · intro a' mid _ leads'
          have bounded := leads'.bounded (leads.bounded hc)
          exact chainWithin wanted h rounds a' _ bounded (still _ leads')
      refine (Outcome.accept? more (Outcome.pure a c)).congr fun b rest => ⟨?_, ?_⟩
      · rintro (⟨token, tail, hrest, hk, a', mid, first, others⟩ | ⟨stops, rfl, rfl⟩)
        · rw [hrest]
          exact .round hk first others
        · exact .done stops
      · intro rounds
        generalize hrest : c.rest = tokens at rounds
        cases rounds with
        | done stops => exact .inr ⟨stops, rfl, rfl⟩
        | round hk first others => exact .inl ⟨_, _, rfl, hk, _, _, first, others⟩

theorem Reads.chain (wanted : List Token.Kind) {step : α → Token → Parse α}
    {spec : α → Token → Reading α} (h : ∀ a token, Reads (step a token) (spec a token)) (a : α) :
    Reads (chain wanted step a) (Rounds wanted spec a) :=
  fun c hc => Outcome.chainWithin wanted h c.size a c hc hc

theorem Outcome.recovering {rule : Parse α} {c : Cursor} {spec : α → List Token → Prop}
    (h : Outcome c spec (rule c)) :
    Outcome c (fun a? rest => ∃ a, a? = some a ∧ spec a rest) (recovering rule c) := by
  unfold Parse.recovering
  cases run : rule c with
  | ok a c' =>
      rw [run] at h
      refine ⟨h.moves, fun a? c'' => ⟨?_, ?_⟩⟩
      · rintro ⟨same, clean⟩
        cases same
        obtain ⟨rest, rfl, read⟩ := (h.clean a c').1 ⟨rfl, clean⟩
        exact ⟨rest, rfl, a, rfl, read⟩
      · rintro ⟨rest, rfl, a', rfl, read⟩
        obtain ⟨same, -⟩ := (h.clean a' _).2 ⟨rest, rfl, read⟩
        cases same
        exact ⟨rfl, rfl⟩
  | error e c' =>
      rw [run] at h
      have failed : c.Leads c' := h.moves
      have skipped := Cursor.Leads.skip c' (synchronize_suffix c'.rest)
      refine ⟨failed.trans (skipped.trans (.report _ e)), fun a? c'' => ⟨?_, ?_⟩⟩
      · rintro ⟨same, clean⟩
        cases same
        have := failed.errors.length_le
        have := congrArg List.length clean
        simp only [List.length_append, List.length_singleton] at this
        omega
      · rintro ⟨rest, rfl, a, rfl, read⟩
        cases ((h.clean a _).2 ⟨rest, rfl, read⟩).1

theorem Moves.manyWithin (closing : Option Token.Kind) {rule : Parse α} {spec : Reading α}
    (h : Reads rule spec) :
    ∀ rounds c, c.rest.length ≤ c.size → Moves c (manyWithin closing rule rounds c)
  | 0, c, _ => .refl c
  | rounds + 1, c, hc => by
      unfold Parse.manyWithin
      split
      · exact .refl c
      · split
        · exact .refl c
        · refine (Outcome.recovering (h c hc)).moves.bind fun a? c' _ leads => ?_
          exact (manyWithin closing h rounds c' (leads.bounded hc)).bind
            fun _ c'' _ _ => .pure _ c''

theorem Outcome.manyWithin (closing : Option Token.Kind) {rule : Parse α} {spec : Reading α}
    (h : Reads rule spec)
    (progress : ∀ tokens a rest, spec tokens a rest → rest.length < tokens.length) :
    ∀ rounds c, c.rest.length ≤ c.size → c.rest.length ≤ rounds →
      Outcome c (Repeated closing spec c.rest) (manyWithin closing rule rounds c) := by
  intro rounds
  induction rounds with
  | zero =>
      intro c _ enough
      have last : c.rest = [] := List.eq_nil_of_length_eq_zero (by omega)
      refine (Outcome.ok [] (List.suffix_refl c.rest)).congr fun b rest => ?_
      rw [last]
      constructor
      · rintro ⟨rfl, rfl⟩
        exact .done (by simp)
      · rintro (_ | _)
        exact ⟨rfl, rfl⟩
  | succ rounds ih =>
      intro c hc enough
      unfold Parse.manyWithin
      cases hrest : c.rest with
      | nil =>
          refine (Outcome.ok [] (List.suffix_refl c.rest)).congr fun b rest => ?_
          rw [hrest]
          constructor
          · rintro ⟨rfl, rfl⟩
            exact .done (by simp)
          · rintro (_ | _)
            exact ⟨rfl, rfl⟩
      | cons token tail =>
          dsimp only
          by_cases hk : closing = some token.kind
          · rw [if_pos hk]
            refine (Outcome.ok [] (List.suffix_refl c.rest)).congr fun b rest => ?_
            rw [hrest]
            constructor
            · rintro ⟨rfl, rfl⟩
              exact .done (by simp [hk])
            · rintro (_ | other)
              · exact ⟨rfl, rfl⟩
              · exact absurd hk other
          · rw [if_neg hk]
            have collects : ∀ (a? : Option α) c', c'.rest.length ≤ c'.size → Moves c'
                ((Parse.manyWithin closing rule rounds >>= fun others =>
                  Pure.pure (a?.toList ++ others)) c') :=
              fun a? c' bounded => (Moves.manyWithin closing h rounds c' bounded).bind
                fun _ c'' _ _ => .pure _ c''
            have others : ∀ (a? : Option α) mid, (∃ a, a? = some a ∧ spec c.rest a mid) →
                c.Leads (c.facing mid) → Outcome (c.facing mid)
                  (fun b rest => ∃ as, Repeated closing spec mid as rest ∧ b = a?.toList ++ as)
                  ((Parse.manyWithin closing rule rounds >>= fun others =>
                    Pure.pure (a?.toList ++ others)) (c.facing mid)) := by
              rintro a? mid ⟨a, -, first⟩ leads
              have shorter := progress _ _ _ first
              exact (ih (c.facing mid) (leads.bounded hc)
                (by rw [Cursor.facing_rest]; omega)).map _
            refine ((h c hc).recovering.bind
              (fun a? c' _ leads => collects a? c' (leads.bounded hc)) others).congr
              fun as rest => ⟨?_, ?_⟩
            · rintro ⟨_, mid, ⟨a, rfl, first⟩, as', last, rfl⟩
              rw [hrest] at first
              exact .more hk first last
            · intro repeated
              cases repeated with
              | done closed => exact absurd (closed token rfl) hk
              | more _ first last =>
                  rw [← hrest] at first
                  exact ⟨_, _, ⟨_, rfl, first⟩, _, last, rfl⟩

theorem Reads.many (closing : Option Token.Kind) {rule : Parse α} {spec : Reading α}
    (h : Reads rule spec)
    (progress : ∀ tokens a rest, spec tokens a rest → rest.length < tokens.length) :
    Reads (many closing rule) (Repeated closing spec) :=
  fun c hc => Outcome.manyWithin closing h progress c.size c hc hc

end

end Parse

end Scriptlet
