/-
# Functions keep the bindings that they capture

When the body of a function uses a name that the function does not declare
itself, the search for it goes outward from where the body runs.  First it comes
through scopes that calls and blocks made for the body, which bind only names
that are declared in the body; then to the scope that the function closes over,
and from there through the same scopes as when the function was made.

These scopes have all the names that they had then, but may have got others: a
block or a call that is still running can declare a name after a function in it
was made.  If it declares the name in question, the search ends there from then
on, and nowhere else can a declaration get in its way.

Which names a scope may ever get is known when it is made: those that are declared
in the code that it is made for.  To run code only in scopes that may get its
names is a regime (`lexical`), whose worlds are the scopes together with these
names.
-/
import Scriptlet.Proofs.Run.Regime
import Scriptlet.Proofs.Scopes.Declared
import Scriptlet.Proofs.Scopes.Outward

namespace Scriptlet

namespace Scopes

/-! ## Ways outward -/

/-- From the first scope one comes to the second by going outward, however far. -/
abbrev Around (scopes : Scopes) : ScopeId → ScopeId → Prop :=
  Relation.ReflTransGen fun inner outer => scopes.outer? inner = some outer

/-- The scope lies on the way from `id` outward to `home`, and inside of that. -/
def Between (scopes : Scopes) (id home inner : ScopeId) : Prop :=
  scopes.Around id inner ∧
    Relation.TransGen (fun inner outer => scopes.outer? inner = some outer) inner home

variable {scopes a b : Scopes} {id outer home : ScopeId} {name : String}

namespace Clear

theorem around (h : scopes.Clear name id home) : scopes.Around id home := by
  induction h with
  | here => exact .refl
  | outward _ link _ ih => exact ih.head link

theorem lt_size (h : scopes.Clear name id home) (bound : scopes.Binds home name) :
    id < scopes.size := by
  cases h with
  | here => exact bound.lt_size
  | outward _ link _ => exact lt_size_of_outer? link

/-- When scopes have grown, a way is still clear if none of the scopes on it has
got the name. -/
theorem grown (h : a.Clear name id home) (grows : Grows a b)
    (unbound : ∀ inner, a.Between id home inner → ¬ a.Binds inner name → ¬ b.Binds inner name) :
    b.Clear name id home := by
  induction h with
  | here => exact .here
  | outward free link rest ih =>
    refine .outward (unbound _ ⟨.refl, .head' link rest.around⟩ free) (grows.outer link) ?_
    exact ih fun inner between => unbound inner ⟨between.1.head link, between.2⟩

theorem resolveWithin (wellFormed : scopes.WellFormed) (bound : scopes.Binds home name)
    (h : scopes.Clear name id home) :
    ∀ steps, id < steps → scopes.resolveWithin name steps id = some home := by
  induction h with
  | here =>
    intro steps less
    obtain ⟨steps, rfl⟩ := Nat.exists_eq_add_of_lt less
    rw [resolveWithin_succ]
    exact if_pos bound
  | @outward id outer home free link _ ih =>
    intro steps less
    obtain ⟨steps, rfl⟩ := Nat.exists_eq_add_of_lt less
    have older : outer < id := wellFormed.outward link
    rw [resolveWithin_succ, link]
    refine (if_neg free).trans (ih bound _ ?_)
    exact Nat.lt_of_lt_of_le older (Nat.le_add_right _ _)

end Clear

/-- A name resolves to a scope if the scope binds it and the way there is
clear. -/
theorem WellFormed.resolve_iff (h : scopes.WellFormed) :
    scopes.resolve id name = some home ↔ scopes.Clear name id home ∧ scopes.Binds home name := by
  constructor
  · exact nearest_of_resolve
  · exact fun ⟨clear, bound⟩ => clear.resolveWithin h bound _ (clear.lt_size bound)

end Scopes

/-! ## Declarations in parts -/

namespace Stmt

theorem declaredNames_branch {s part : Stmt} (h : part ∈ s.branches) :
    part.declaredNames ⊆ s.declaredNames := by
  cases s with
  | ifThen condition thenBranch =>
    cases List.mem_singleton.1 h
    exact List.Subset.refl _
  | ifElse condition thenBranch elseBranch =>
    rcases List.mem_cons.1 h with rfl | other
    · exact List.subset_append_left _ _
    · cases List.mem_singleton.1 other
      exact List.subset_append_right _ _
  | whileLoop condition body =>
    cases List.mem_singleton.1 h
    exact List.Subset.refl _
  | block | expression | function | print | returns | var => cases h

theorem mem_declaredNames {s : Stmt} {name : Token} (h : s.declares? = some name) :
    name.lexeme ∈ s.declaredNames := by
  cases s with
  | function | var =>
    cases h
    exact List.mem_cons_self
  | _ => cases h

end Stmt

/-! ## Which names a scope may get -/

open Scopes

/-- The scopes, and for each of them the names that it or a scope inside of it
may get. -/
structure Layout where
  scopes : Scopes
  names : ScopeId → String → Prop

namespace Layout

/-- The scope is there, and it or a scope inside of it may get the names. -/
structure Admits (w : Layout) (id : ScopeId) (names : List String) : Prop where
  there : id < w.scopes.size
  may : ∀ name ∈ names, w.names id name

/-- What the function declares may be declared inside of the scope that it closes
over. -/
abbrev Fits (w : Layout) (f : Closure) : Prop := w.Admits f.scope f.declaredNames

/-- Each scope has only names that it may get, and a scope around it may get them,
too. -/
structure Holds (w : Layout) (scopes : Scopes) : Prop where
  same : w.scopes = scopes
  wellFormed : scopes.WellFormed
  bound : ∀ {id name}, scopes.Binds id name → w.names id name
  outward : ∀ {id outer name}, scopes.outer? id = some outer → w.names id name →
    w.names outer name
  closures : ∀ {id name f}, scopes.local? id name = some (.function f) → w.Fits f

/-- Scopes grow and get no names but those that are told to be declared. -/
structure Becomes (w : Layout) (acts : List Act) (w' : Layout) : Prop where
  grows : Grows w.scopes w'.scopes
  names : ∀ id < w.scopes.size, w'.names id = w.names id
  told : ∀ {id name}, id < w.scopes.size → w'.scopes.Binds id name →
    w.scopes.Binds id name ∨ ∃ again, .declares id again ∈ acts ∧ again.lexeme = name

variable {w w' w'' : Layout} {acts acts' : List Act} {scopes : Scopes}

namespace Becomes

theorem refl (w : Layout) (acts : List Act) : Becomes w acts w :=
  ⟨.refl _, fun _ _ => rfl, fun _ => .inl⟩

theorem trans (h : Becomes w acts w') (h' : Becomes w' acts' w'') :
    Becomes w (acts ++ acts') w'' where
  grows := h.grows.trans h'.grows
  names id there :=
    (h'.names id (Nat.lt_of_lt_of_le there h.grows.size_le)).trans (h.names id there)
  told {id name} there bound := by
    have there' := Nat.lt_of_lt_of_le there h.grows.size_le
    rcases h'.told there' bound with before | ⟨again, told, same⟩
    · rcases h.told there before with first | ⟨again, told, same⟩
      · exact .inl first
      · exact .inr ⟨again, List.mem_append_left _ told, same⟩
    · exact .inr ⟨again, List.mem_append_right _ told, same⟩

/-- A way stays clear unless a scope on it is told to declare the name. -/
theorem clear (h : Becomes w acts w') {id home : ScopeId} {name : String}
    (way : w.scopes.Clear name id home)
    (undisturbed : ∀ inner again, .declares inner again ∈ acts → again.lexeme = name →
      ¬ w.scopes.Between id home inner) : w'.scopes.Clear name id home := by
  refine way.grown h.grows fun inner between unbound bound => ?_
  obtain ⟨_, further, -⟩ := Relation.TransGen.head'_iff.1 between.2
  rcases h.told (lt_size_of_outer? further) bound with already | ⟨again, told, same⟩
  · exact unbound already
  · exact undisturbed inner again told same between

end Becomes

namespace Admits

variable {id : ScopeId} {names names' : List String}

theorem becomes (h : w.Admits id names) (later : Becomes w acts w') : w'.Admits id names where
  there := Nat.lt_of_lt_of_le h.there later.grows.size_le
  may := by
    rw [later.names id h.there]
    exact h.may

theorem mono (h : w.Admits id names) (fewer : names' ⊆ names) : w.Admits id names' :=
  ⟨h.there, fun name member => h.may name (fewer member)⟩

end Admits

/-! ## Changes -/

/-- A new scope inside another one, with the names that it may get. -/
def push (w : Layout) (bindings : Bindings) (outer : ScopeId) (names : String → Prop) : Layout where
  scopes := w.scopes.push ⟨bindings, some outer⟩
  names id := if id = w.scopes.size then names else w.names id

section

variable {bindings : Bindings} {outer : ScopeId} {names : String → Prop}

theorem push_names_self : (w.push bindings outer names).names w.scopes.size = names := if_pos rfl

theorem push_names_ne {id : ScopeId} (h : id ≠ w.scopes.size) :
    (w.push bindings outer names).names id = w.names id :=
  if_neg h

theorem becomes_push : Becomes w [] (w.push bindings outer names) where
  grows := .push _ _
  names _ there := push_names_ne (Nat.ne_of_lt there)
  told there bound := .inl ((binds_push_iff there).1 bound)

theorem Holds.push (h : w.Holds scopes) (there : outer < scopes.size)
    (inside : ∀ name, names name → w.names outer name)
    (bound : ∀ name value, bindings.get? name = some value → names name)
    (closures : ∀ name f, bindings.get? name = some (.function f) → w.Fits f) :
    (w.push bindings outer names).Holds (scopes.push ⟨bindings, some outer⟩) := by
  obtain ⟨rfl, wellFormed, hbound, houtward, hclosures⟩ := h
  constructor
  case same => rfl
  case wellFormed =>
    refine wellFormed.push (fun other link => ?_) fun name value got => ?_
    · cases link
      exact there
    · cases value with
      | function f => exact (closures name f got).there
      | _ => trivial
  case bound =>
    intro id name binds
    obtain ⟨value, got⟩ := Option.isSome_iff_exists.1 binds
    rw [local?_push] at got
    split at got
    case isTrue last =>
      rw [last, push_names_self]
      exact bound name value got
    case isFalse before =>
      rw [push_names_ne before]
      exact hbound (Option.isSome_iff_exists.2 ⟨value, got⟩)
  case outward =>
    intro id further name link may
    rw [outer?_push] at link
    split at link
    case isTrue last =>
      cases link
      rw [last, push_names_self] at may
      rw [push_names_ne (Nat.ne_of_lt there)]
      exact inside name may
    case isFalse before =>
      rw [push_names_ne before] at may
      have older : further < w.scopes.size :=
        Nat.lt_trans (wellFormed.outward link) (lt_size_of_outer? link)
      rw [push_names_ne (Nat.ne_of_lt older)]
      exact houtward link may
  case closures =>
    intro id name f got
    rw [local?_push] at got
    split at got
    · exact (closures name f got).becomes becomes_push
    · exact (hclosures got).becomes becomes_push

/-- The new scope admits the names that it was made for. -/
theorem admits_push {declared : List String} (h : ∀ name ∈ declared, names name) :
    (w.push bindings outer names).Admits w.scopes.size declared where
  there := by
    show w.scopes.size < (w.scopes.push ⟨bindings, some outer⟩).size
    rw [Array.size_push]
    exact Nat.lt_add_one _
  may := by
    rw [push_names_self]
    exact h

end

/-- A name bound in a scope, which gets no other name. -/
def define (w : Layout) (id : ScopeId) (name : String) (value : Value) : Layout where
  scopes := w.scopes.define id name value
  names := w.names

section

variable {id : ScopeId} {name : String} {value : Value}

theorem becomes_define (there : id < w.scopes.size)
    (told : w.scopes.Binds id name ∨ ∃ again, .declares id again ∈ acts ∧ again.lexeme = name) :
    Becomes w acts (w.define id name value) where
  grows := .define _ _ _ _
  names _ _ := rfl
  told {other key} _ bound := by
    rcases (binds_define_iff there).1 bound with before | ⟨rfl, rfl⟩
    · exact .inl before
    · exact told

theorem Holds.define (h : w.Holds scopes) (there : id < scopes.size) (may : w.names id name)
    (closures : ∀ f, value = .function f → w.Fits f) :
    (w.define id name value).Holds (scopes.define id name value) := by
  obtain ⟨rfl, wellFormed, hbound, houtward, hclosures⟩ := h
  have fits : ∀ f, w.Fits f → (w.define id name value).Fits f := fun f hf =>
    ⟨Nat.lt_of_lt_of_eq hf.there (size_define ..).symm, hf.may⟩
  constructor
  case same => rfl
  case wellFormed =>
    refine wellFormed.define ?_ id name
    cases value with
    | function f => exact (closures f rfl).there
    | _ => trivial
  case bound =>
    intro other key binds
    rcases (binds_define_iff there).1 binds with before | ⟨rfl, rfl⟩
    · exact hbound before
    · exact may
  case outward =>
    intro other further key link
    rw [outer?_define] at link
    exact houtward link
  case closures =>
    intro other key f got
    rcases eq_or_local?_of_local?_define got with same | before
    · exact fits f (closures f same.symm)
    · exact fits f (hclosures before)

end

end Layout

/-- To run code in scopes that admit what it declares. -/
def lexical : Regime where
  World := Layout
  becomes := Layout.Becomes
  holds := Layout.Holds
  fits := Layout.Fits
  evals w id _ := w.Admits id []
  runs w id s := w.Admits id s.declaredNames
  enters w f id := w.scopes.outer? id = some f.scope ∧ ∀ name, w.names id name →
    name ∈ f.declaredNames
  refl := .refl
  trans := .trans
  fits_becomes later h := h.becomes later
  evals_becomes later h := h.becomes later
  runs_becomes later h := h.becomes later
  evals_operand h _ := h
  runs_operand h _ := h.mono (List.nil_subset _)
  runs_branch h member := h.mono (Stmt.declaredNames_branch member)
  runs_function h _ := h.mono (List.subset_cons_self _ _)
  bound h _ got := by
    obtain ⟨home, -, here⟩ := Option.bind_eq_some_iff.1 got
    exact h.closures here
  opens {w scopes id statements} h hs := by
    obtain rfl := h.same
    refine ⟨w.push [] id (w.names id), Layout.becomes_push, ?_, fun s member => ?_⟩
    · exact h.push hs.there (fun _ may => may) (fun _ _ got => absurd got Bindings.get?_nil_ne)
        fun _ _ got => absurd got Bindings.get?_nil_ne
    · exact Layout.admits_push fun name hn => hs.may name (Stmt.declaredNames_subset member hn)
  calls {w scopes f arguments} h hf _ harguments := by
    obtain rfl := h.same
    refine ⟨w.push (.ofLists (f.params.map (·.lexeme)) arguments) f.scope (· ∈ f.declaredNames),
      Layout.becomes_push, ?_, ⟨?_, ?_⟩, fun s member => ?_⟩
    · refine h.push hf.there hf.may (fun name value got => ?_) fun name g got => ?_
      · have parameter := (List.of_mem_zip (Bindings.mem_zip_of_get?_ofLists got)).1
        exact List.mem_append_left _ parameter
      · exact harguments g (Bindings.mem_of_get?_ofLists got)
    · exact (outer?_push ..).trans (if_pos rfl)
    · intro name may
      rwa [Layout.push_names_self] at may
    · refine Layout.admits_push fun name hn => ?_
      exact List.mem_append_right _ (Stmt.declaredNames_subset member hn)
  declares {w scopes id s name value} h hs own hv := by
    obtain rfl := h.same
    refine ⟨w.define id name.lexeme value, ?_, ?_⟩
    · exact Layout.becomes_define hs.there (.inr ⟨name, List.mem_cons_self, rfl⟩)
    · exact h.define hs.there (hs.may _ (Stmt.mem_declaredNames own)) hv
  rebinds {w scopes id name e home value} h _ found hv := by
    obtain rfl := h.same
    have here : w.scopes.Binds home name.lexeme := bound_of_resolve found
    refine ⟨w.define home name.lexeme value, ?_, ?_⟩
    · exact Layout.becomes_define here.lt_size (.inl here)
    · exact h.define here.lt_size (h.bound here) hv

/-- In the scopes that there are already, anything may be declared. -/
theorem Scopes.WellFormed.holds {scopes : Scopes} (h : scopes.WellFormed) :
    Layout.Holds ⟨scopes, fun _ _ => True⟩ scopes where
  same := rfl
  wellFormed := h
  bound _ := trivial
  outward _ _ := trivial
  closures bound := ⟨h.closures bound, fun _ _ => trivial⟩

/-! ## Uses of captured names -/

/-- Among the events, a function is made, later called, and code in its body then
uses a name that the function does not declare: the scope that it runs in is that
of the call or lies inside of that.  Of what happens between the making and the
use, nothing is left out. -/
structure CapturedUse (events : List Event) (f : Closure) (made : Event) (between : List Event)
    (used : Event) (id : ScopeId) (name : Token) : Prop where
  told : ∃ before rest, events = before ++ made :: (between ++ used :: rest)
  makes : made.act = .creates f
  called : ∃ call ∈ between, ∃ scope, call.act = .enters f scope ∧
    used.machine.scopes.Around id scope
  uses : used.act = .reads id name ∨ used.act = .assigns id name
  free : name.lexeme ∉ f.declaredNames

/-- From code in the body of a function the way to the scope of the call and on
to what the function closes over is clear of names that it does not declare. -/
theorem Layout.Holds.clear {w : Layout} {scopes : Scopes} (h : w.Holds scopes) {f : Closure}
    {scope : ScopeId} (link : scopes.outer? scope = some f.scope)
    (only : ∀ name, w.names scope name → name ∈ f.declaredNames) {name : String}
    (free : name ∉ f.declaredNames) {home : ScopeId} (rest : scopes.Clear name f.scope home)
    {id : ScopeId} (way : scopes.Around id scope) :
    scopes.Clear name id home ∧ ¬ w.names id name := by
  induction way using Relation.ReflTransGen.head_induction_on with
  | refl =>
    have unnamed : ¬ w.names scope name := fun may => free (only name may)
    exact ⟨.outward (fun bound => unnamed (h.bound bound)) link rest, unnamed⟩
  | head link' _ ih =>
    obtain ⟨clear, unnamed⟩ := ih
    have unnamed' : ¬ w.names _ name := fun may => unnamed (h.outward link' may)
    exact ⟨.outward (fun bound => unnamed' (h.bound bound)) link' clear, unnamed'⟩

/-- Functions keep the bindings that they capture.  If a name that a function does
not declare resolves to some scope when the function is made, it resolves to the
same scope whenever the body of the function uses it, no matter which programs
were run and what they have declared in between, if only that name was not
declared meanwhile in one of the scopes around the function that lie inside of
the one that the name resolves to.  What happened is told by runs that do what
evaluation does, so the functions and calls are those of evaluation. -/
theorem captured_names_stable {m : Machine} (reached : m.Reachable) (frames : Option Nat)
    (fuel : Nat) (programs : List Program) :
    (∀ program ∈ programs,
      (Told.interpretAll frames fuel program).run = interpretAll frames fuel program) ∧
    ∀ (f : Closure) (made : Event) (between : List Event) (used : Event) (id home : ScopeId)
      (name : Token),
      CapturedUse (history frames fuel programs m) f made between used id name →
      made.machine.scopes.resolve f.scope name.lexeme = some home →
      (∀ e ∈ between, ∀ inner again, e.act = .declares inner again →
        again.lexeme = name.lexeme → ¬ made.machine.scopes.Between f.scope home inner) →
      used.machine.scopes.resolve id name.lexeme = some home := by
  refine ⟨fun program _ => Told.interpretAll_run frames fuel program, ?_⟩
  intro f made between used id home name use captured undisturbed
  obtain ⟨⟨before, rest, told⟩, makes, ⟨call, member, scope, enters, way⟩, -, free⟩ := use
  have there : Machine.globals < m.scopes.size := reached.globals_lt_size
  obtain ⟨w, along⟩ := along_history lexical frames fuel programs ⟨m.scopes, fun _ _ => True⟩ m
    reached.wellFormed.holds fun p _ s _ => ⟨there, fun _ _ => trivial⟩
  rw [told] at along
  obtain ⟨earlier, later, rfl⟩ := List.append_of_mem member
  rw [List.append_assoc, List.cons_append] at along
  -- the worlds in which the function is made, called, and its name used
  obtain ⟨w₁, -, holdsMade, -, _, toldMade, along⟩ := along.at_event
  obtain ⟨w₂, toldEarlier, -, called, _, toldCall, along⟩ := along.at_event
  obtain ⟨w₃, toldLater, holdsUsed, -⟩ := along.at_event
  have sinceCall : Layout.Becomes w₂ _ w₃ := toldCall.trans toldLater
  have sinceMade : Layout.Becomes w₁ _ w₃ := toldMade.trans (toldEarlier.trans sinceCall)
  rw [← holdsMade.same] at captured undisturbed
  rw [← holdsUsed.same] at way ⊢
  rw [← holdsUsed.same] at holdsUsed
  have captures : w₃.scopes.Clear name.lexeme f.scope home := by
    refine sinceMade.clear (nearest_of_resolve captured).1 fun inner again told same => ?_
    have meanwhile : .declares inner again ∈ (earlier ++ call :: later).map (·.act) := by
      have other : Act.declares inner again ≠ .creates f := nofun
      rw [makes] at told
      rw [List.map_append, List.map_cons]
      exact List.mem_of_ne_of_mem other told
    obtain ⟨e, member, act⟩ := List.mem_map.1 meanwhile
    exact undisturbed e member inner again act same
  rw [enters] at called
  obtain ⟨⟨link, only⟩, -⟩ := called
  rw [← sinceCall.names scope (lt_size_of_outer? link)] at only
  obtain ⟨clear, -⟩ := holdsUsed.clear (sinceCall.grows.outer link) only free captures way
  have bound := sinceMade.grows.binds (bound_of_resolve captured)
  exact holdsUsed.wellFormed.resolve_iff.2 ⟨clear, bound⟩

/-! ## Names declared meanwhile -/

namespace Meanwhile

/-- The function of both programs below, as it is made in the scope of a block. -/
def function : Closure :=
  ⟨0, .ofName "show", [], [.print (.identifier (.ofName "a"))], 1⟩

def declaration : Stmt := .function function.name function.params function.body

def call : Stmt := .expression (.callOf "show" 1)

/-- The text `var a = "value";`. -/
def variableOf (value : String) : Stmt := .var (.ofName "a") (.literal (.string value))

/-- The text `var a = "global"; { fun show() { print a; } { var a = "block"; show(); } }`. -/
def elsewhere : Program :=
  [variableOf "global", .block [declaration, .block [variableOf "block", call]]]

/-- The text `var a = "global"; { fun show() { print a; } var a = "block"; show(); }`. -/
def inside : Program := [variableOf "global", .block [declaration, variableOf "block", call]]

/-- What is shown of an event: the act, how many scopes there are, and where `a`
resolves to from the scope of the act. -/
def view (e : Event) : Act × Nat × Option ScopeId :=
  (e.act, e.machine.scopes.size, e.machine.scopes.resolve e.act.scope "a")

theorem view_elsewhere : (history (some maxFrames) 9 [elsewhere] (.initial (.still 0))).map view =
    [(.declares 0 (.ofName "a"), 1, none), (.creates function, 2, some 0),
      (.declares 1 (.ofName "show"), 2, some 0), (.declares 2 (.ofName "a"), 3, some 0),
      (.reads 2 (.ofName "show"), 3, some 2), (.passes function [], 3, some 0),
      (.calls function 1, 3, some 0), (.enters function 3, 4, some 0),
      (.reads 3 (.ofName "a"), 4, some 0), (.prints 3 "global", 4, some 0)] := by
  decide +kernel

theorem view_inside : (history (some maxFrames) 9 [inside] (.initial (.still 0))).map view =
    [(.declares 0 (.ofName "a"), 1, none), (.creates function, 2, some 0),
      (.declares 1 (.ofName "show"), 2, some 0), (.declares 1 (.ofName "a"), 2, some 0),
      (.reads 1 (.ofName "show"), 2, some 1), (.passes function [], 2, some 1),
      (.calls function 1, 2, some 1), (.enters function 2, 3, some 1),
      (.reads 2 (.ofName "a"), 3, some 1), (.prints 2 "block", 3, some 1)] := by
  decide +kernel

/-- A use in the very scope of the call, as the events show. -/
theorem capturedUse_of_view {events : List Event} {scope size size' : Nat}
    {home home' : Option ScopeId} (xs ys : List (Act × Nat × Option ScopeId))
    {zs : List (Act × Nat × Option ScopeId)}
    (shown : events.map view = xs ++ (.creates function, size, home) ::
      (ys ++ (.reads scope (.ofName "a"), size', home') :: zs))
    (called : ∃ call ∈ ys, call.1 = .enters function scope) :
    ∃ made between used,
      CapturedUse events function made between used scope (.ofName "a") ∧
      made.machine.scopes.size = size ∧ made.machine.scopes.resolve function.scope "a" = home ∧
      between.map view = ys ∧ used.machine.scopes.resolve scope "a" = home' := by
  obtain ⟨before, _, rfl, -, shown⟩ := List.map_eq_append_iff.1 shown
  obtain ⟨made, _, rfl, atMade, shown⟩ := List.map_eq_cons_iff.1 shown
  obtain ⟨between, _, rfl, meanwhile, shown⟩ := List.map_eq_append_iff.1 shown
  obtain ⟨used, rest, rfl, atUsed, -⟩ := List.map_eq_cons_iff.1 shown
  simp only [view, Prod.mk.injEq] at atMade atUsed
  obtain ⟨makes, there, fromFunction⟩ := atMade
  obtain ⟨uses, -, fromCall⟩ := atUsed
  rw [makes] at fromFunction
  rw [uses] at fromCall
  have entered : ∃ e ∈ between, ∃ inner, e.act = .enters function inner ∧
      used.machine.scopes.Around scope inner := by
    obtain ⟨_, member, enters⟩ := called
    rw [← meanwhile] at member
    obtain ⟨e, told, rfl⟩ := List.mem_map.1 member
    exact ⟨e, told, scope, enters, .refl⟩
  exact ⟨made, between, used, ⟨⟨before, rest, rfl⟩, makes, entered, .inl uses, List.not_mem_nil⟩,
    there, fromFunction, meanwhile, fromCall⟩

end Meanwhile

open Meanwhile

/-- A block around the call declares `a` meanwhile, which the function does not
mind. -/
theorem shadowed_around_call : ∃ made between used,
    CapturedUse (history (some maxFrames) 9 [elsewhere] (.initial (.still 0))) function
      made between used 3 (.ofName "a") ∧
    made.machine.scopes.resolve function.scope "a" = some 0 ∧
    (∃ e ∈ between, e.act = .declares 2 (.ofName "a")) ∧
    (∀ e ∈ between, ∀ inner again, e.act = .declares inner again → again.lexeme = "a" →
      ¬ made.machine.scopes.Between function.scope 0 inner) ∧
    used.machine.scopes.resolve 3 "a" = some 0 := by
  obtain ⟨made, between, used, use, there, captured, meanwhile, -⟩ :=
    capturedUse_of_view [_] [_, _, _, _, _, _] view_elsewhere (by decide)
  have acts := congrArg (List.map Prod.fst) meanwhile
  rw [List.map_map] at acts
  have declared : Act.declares 2 (.ofName "a") ∈ between.map (Prod.fst ∘ view) := by
    rw [acts]
    decide
  have undisturbed : ∀ e ∈ between, ∀ inner again, e.act = .declares inner again →
      again.lexeme = "a" → ¬ made.machine.scopes.Between function.scope 0 inner := by
    rintro e member inner again act same ⟨-, further⟩
    have shown : Act.declares inner again ∈ between.map (Prod.fst ∘ view) :=
      List.mem_map.2 ⟨e, member, act⟩
    rw [acts] at shown
    simp only [List.map_cons, List.map_nil, List.mem_cons, Act.declares.injEq, reduceCtorEq,
      List.not_mem_nil, or_false] at shown
    rcases shown with ⟨rfl, rfl⟩ | ⟨rfl, rfl⟩
    · exact absurd same (by decide)
    · -- the scope of the block is not there yet when the function is made
      obtain ⟨_, link, -⟩ := Relation.TransGen.head'_iff.1 further
      have inside : 2 < made.machine.scopes.size := lt_size_of_outer? link
      rw [there] at inside
      exact absurd inside (Nat.lt_irrefl 2)
  obtain ⟨-, stable⟩ := captured_names_stable (Machine.reachable_initial (.still 0))
    (some maxFrames) 9 [elsewhere]
  exact ⟨made, between, used, use, captured, List.mem_map.1 declared, undisturbed,
    stable _ _ _ _ _ _ _ use captured undisturbed⟩

/-- The block around the function declares `a` after the function was made, and the
function finds that from then on. -/
theorem shadowed_around_function : ∃ made between used,
    CapturedUse (history (some maxFrames) 9 [inside] (.initial (.still 0))) function
      made between used 2 (.ofName "a") ∧
    made.machine.scopes.resolve function.scope "a" = some 0 ∧
    used.machine.scopes.resolve 2 "a" = some 1 ∧
    (Run.after (interpretAll (some maxFrames) 9 inside) (.initial (.still 0))).sink.written =
      "block\n".toUTF8 := by
  obtain ⟨made, between, used, use, -, captured, -, found⟩ :=
    capturedUse_of_view [_] [_, _, _, _, _, _] view_inside (by decide)
  exact ⟨made, between, used, use, captured, found, by decide +kernel⟩

end Scriptlet
