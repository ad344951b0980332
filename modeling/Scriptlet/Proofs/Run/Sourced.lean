/-
# Branches that no text leads to

Some branches of the language are there for trees that only a program can put
together: an operator that means nothing in its place, a native function with
the wrong number of arguments, a `return` outside of functions.  Each is ruled
out by something established elsewhere.  The grammar says which operators stand
between operands and that a `return` has a function around it; the check of a
call says how many arguments there are.

What the grammar says of a source is remembered by the functions that the source
leaves behind, so it is a property of the machine as well: on a machine on which
only sources were run, every function that is bound has a body that fits the
grammar (`Machine.Sourced.stored`).
-/
import Scriptlet.Proofs.Parsing.Causes
import Scriptlet.Proofs.Printing.Parsed
import Scriptlet.Proofs.Run.Joined
import Scriptlet.Proofs.Run.Regime

namespace Scriptlet

open Grammar Run

/-! ## Errors that no text leads to -/

/-- What a run can only fail with on a tree that no text spells. -/
def RuntimeError.Internal : RuntimeError → Prop
  | .invalidOperand (.unsupportedBinary _) _ | .invalidOperand (.unsupportedLogical _) _
  | .invalidOperand (.unsupportedUnary _) _ | .native _ .notOneArgument _ => True
  | _ => False

/-- A failure in which such an error shows. -/
def Failure.Internal : Failure → Prop
  | .scan _ => False
  | .parse errors => ∃ e ∈ errors, e.cause ∈ SyntaxError.Cause.internal
  | .runtime e => e.Internal

/-! ## Operators and native functions -/

/-- If the expression has an operator, it means something there. -/
def Expr.Meaningful : Expr → Prop
  | .binary _ operator _ => operator.kind ∈ [.plus, .minus, .star, .slash, .greater, .greaterEqual,
      .less, .lessEqual, .equalEqual, .bangEqual]
  | .logical _ operator _ => operator.kind ∈ [.kwOr, .kwAnd]
  | .unary operator _ => operator.kind ∈ [.bang, .minus]
  | _ => True

namespace Value

variable {left right : Expr} {a b : Value} {operator : Token} {e : RuntimeError}

theorem plus_error {line : Nat} (failed : plus line a b = .error e) : ¬ e.Internal := by
  unfold plus at failed
  split at failed
  · cases failed
  · cases failed
  · cases failed
    exact not_false

theorem onNumbers_error {line : Nat} {operation : Float → Float → Except RuntimeError Value}
    (h : ∀ x y, operation x y = .error e → ¬ e.Internal)
    (failed : onNumbers line operation a b = .error e) : ¬ e.Internal := by
  unfold onNumbers at failed
  split at failed
  · exact h _ _ failed
  · cases failed
    exact not_false

theorem binary_error (known : (Expr.binary left operator right).Meaningful)
    (failed : a.binary operator b = .error e) : ¬ e.Internal := by
  unfold binary at failed
  dsimp only at failed
  split at failed
  case h_1 => exact plus_error failed
  case h_4 =>
    refine onNumbers_error (fun x y divided => ?_) failed
    split at divided
    · cases divided
      exact not_false
    · cases divided
  case h_9 | h_10 => cases failed
  case h_11 =>
    unfold Expr.Meaningful at known
    simp_all
  all_goals
    refine onNumbers_error (fun x y computed => ?_) failed
    cases computed

theorem decides_error (known : (Expr.logical left operator right).Meaningful)
    (failed : a.decides operator = .error e) : ¬ e.Internal := by
  unfold decides at failed
  split at failed
  case h_1 | h_2 => cases failed
  case h_3 =>
    unfold Expr.Meaningful at known
    simp_all

theorem unary_error (known : (Expr.unary operator right).Meaningful)
    (failed : a.unary operator = .error e) : ¬ e.Internal := by
  unfold unary at failed
  split at failed
  case h_1 | h_2 => cases failed
  case h_3 =>
    cases failed
    exact not_false
  case h_4 =>
    unfold Expr.Meaningful at known
    simp_all

end Value

/-- A native function that is passed as many arguments as it takes does not find
their number wrong. -/
theorem Native.apply_error {f : Native} {arguments : List Value} {clock clock' : Clock}
    {fault : NativeFault} (arity : arguments.length = f.arity)
    (failed : f.apply arguments clock = .error fault clock') : fault ≠ .notOneArgument := by
  unfold apply at failed
  split at failed
  case h_1 | h_2 | h_5 => cases failed
  case h_3 =>
    cases failed
    nofun
  case h_4 _ other | h_6 other =>
    obtain ⟨argument, rfl⟩ := List.length_eq_one_iff.1 arity
    exact absurd rfl (other argument)

/-! ## Parts of what fits -/

namespace Grammar

theorem Rank.node_meaningful {rank : Rank} {operator : Token} (h : operator.kind ∈ rank.operators)
    (left right : Expr) : (rank.node left operator right).Meaningful := by
  cases rank <;> exact (by decide : Rank.operators _ ⊆ _) h

theorem Fits.meaningful {symbol : Symbol} {e : Expr} (h : Fits symbol e) : e.Meaningful := by
  induction h with
  | expression _ ih | unassigned _ ih | operand _ ih | unprefixed _ ih | uncalled _ ih => exact ih
  | infixed _ member => exact Rank.node_meaningful member _ _
  | prefixed member => exact member
  | assign | call | literal | identifier | grouping => trivial

theorem Rank.node_operands (rank : Rank) (left right : Expr) (operator : Token) :
    (rank.node left operator right).operands = [left, right] := by
  cases rank <;> rfl

/-- What stands directly in a tree that fits stands where the grammar has some
symbol. -/
theorem Fits.operands {symbol : Symbol} {e : Expr} (h : Fits symbol e) :
    ∀ part ∈ e.operands, ∃ symbol', Fits symbol' part := by
  induction h with
  | expression _ ih | unassigned _ ih | operand _ ih | unprefixed _ ih | uncalled _ ih => exact ih
  | assign value => exact List.forall_mem_singleton.2 ⟨_, value⟩
  | infixed left _ right =>
    rw [Rank.node_operands]
    exact List.forall_mem_cons.2 ⟨⟨_, left⟩, List.forall_mem_singleton.2 ⟨_, right⟩⟩
  | prefixed _ operand => exact List.forall_mem_singleton.2 ⟨_, operand⟩
  | call callee arguments =>
    exact List.forall_mem_cons.2 ⟨⟨_, callee⟩, fun e member => ⟨_, arguments e member⟩⟩
  | literal | identifier => exact List.forall_mem_nil _
  | grouping inner => exact List.forall_mem_singleton.2 ⟨_, inner⟩

namespace FitsStmt

variable {inFunction : Bool} {form : Form} {s : Stmt}

theorem operands (h : FitsStmt inFunction form s) :
    ∀ part ∈ s.operands, ∃ symbol, Fits symbol part := by
  induction h with
  | var value | expression value | print value => exact List.forall_mem_singleton.2 ⟨_, value⟩
  | ifThen condition | ifElse condition | whileLoop condition =>
    exact List.forall_mem_singleton.2 ⟨_, condition⟩
  | statement _ ih => exact ih
  | block | function => exact List.forall_mem_nil _
  | returns value => exact fun e member => ⟨_, value e (Option.mem_toList.1 member)⟩

theorem branches (h : FitsStmt inFunction form s) :
    ∀ part ∈ s.branches, ∃ form', FitsStmt inFunction form' part := by
  induction h with
  | ifThen _ thenBranch => exact List.forall_mem_singleton.2 ⟨_, thenBranch⟩
  | ifElse _ thenBranch elseBranch =>
    exact List.forall_mem_cons.2 ⟨⟨_, thenBranch⟩, List.forall_mem_singleton.2 ⟨_, elseBranch⟩⟩
  | whileLoop _ body => exact List.forall_mem_singleton.2 ⟨_, body⟩
  | statement _ ih => exact ih
  | var | expression | print | block | function | returns => exact List.forall_mem_nil _

theorem inBlock {statements : List Stmt} (h : FitsStmt inFunction form (.block statements)) :
    ∀ s ∈ statements, FitsStmt inFunction .declaration s := by
  cases h with
  | statement h =>
    cases h with
    | block inside => exact inside
  | block inside => exact inside

theorem inBody {name : Token} {params : List Token} {body : List Stmt}
    (h : FitsStmt inFunction form (.function name params body)) :
    ∀ s ∈ body, FitsStmt true .declaration s := by
  cases h with
  | statement h =>
    cases h with
    | function _ inside => exact inside
  | function _ inside => exact inside

/-- A `return` has a function around it. -/
theorem inside {keyword : Token} {value : Option Expr}
    (h : FitsStmt inFunction form (.returns keyword value)) : inFunction = true := by
  cases h with
  | statement h =>
    cases h with
    | returns => rfl
  | returns => rfl

end FitsStmt

end Grammar

/-- Code that fits the grammar. -/
def fitting : CodeKind where
  expr e := ∃ symbol, Fits symbol e
  stmt s := ∃ inFunction form, FitsStmt inFunction form s
  expr_operand h member := h.choose_spec.operands _ member
  stmt_operand h member := h.choose_spec.choose_spec.operands _ member
  branch h member := ⟨_, h.choose_spec.choose_spec.branches _ member⟩
  block h s member := ⟨_, _, h.choose_spec.choose_spec.inBlock s member⟩
  function h s member := ⟨_, _, h.choose_spec.choose_spec.inBody s member⟩

/-- No error arises from code that fits but such as a text may lead to. -/
theorem fitting_arises {S : ScopeId → Prop} {e : RuntimeError} (h : (fitting.regime S).Arises e) :
    ¬ e.Internal := by
  cases h with
  | undefinedVariable | arityMismatch | notCallable | stackOverflow | output => exact not_false
  | binary allowed failed =>
    obtain ⟨_, fits⟩ : ∃ symbol, Fits symbol _ := allowed.2
    exact Value.binary_error fits.meaningful failed
  | logical allowed failed =>
    obtain ⟨_, fits⟩ : ∃ symbol, Fits symbol _ := allowed.2
    exact Value.decides_error fits.meaningful failed
  | unary allowed failed =>
    obtain ⟨_, fits⟩ : ∃ symbol, Fits symbol _ := allowed.2
    exact Value.unary_error fits.meaningful failed
  | @native f arguments clock clock' fault line arity failed =>
    have known := Native.apply_error arity failed
    cases fault with
    | notNumber typeName => exact not_false
    | notOneArgument => exact absurd rfl known

/-! ## No return outside of functions -/

/-- Whatever value the run gives, it is such a one. -/
def Run.Yields {α : Type} (P : α → Prop) (run : Run α) : Prop :=
  ∀ m a, outcome run m = .ok a → P a

namespace Run.Yields

variable {α β : Type} {P : α → Prop} {Q : β → Prop}

theorem pure {a : α} (ha : P a) : Yields P (Pure.pure a : Run α) :=
  fun _ _ same => Except.ok.inj same ▸ ha

theorem outOfFuel : Yields P (Run.outOfFuel : Run α) := fun _ _ => nofun

theorem bind {run : Run α} (h : Yields P run) {k : α → Run β} (hk : ∀ a, P a → Yields Q (k a)) :
    Yields Q (run >>= k) := by
  intro m b given
  rw [outcome_bind] at given
  cases ran : outcome run m with
  | error e =>
    rw [ran] at given
    cases given
  | ok a =>
    rw [ran] at given
    exact hk a (h m a ran) _ b given

/-- What comes last alone decides. -/
theorem last {run : Run α} {k : α → Run β} (hk : ∀ a, Yields Q (k a)) : Yields Q (run >>= k) :=
  bind (P := fun _ => True) (fun _ _ _ => trivial) fun a _ => hk a

theorem sequence {f : Stmt → Run Flow} {statements : List Stmt}
    (h : ∀ s ∈ statements, Yields (· = .normal) (f s)) :
    Yields (· = .normal) (Run.sequence f statements) := by
  induction statements with
  | nil => exact pure rfl
  | cons s statements ih =>
    obtain ⟨hs, hrest⟩ := List.forall_mem_cons.1 h
    refine hs.bind fun flow normal => ?_
    rw [normal]
    exact ih hrest

theorem loop {c : Run Value} {b : Run Flow} (h : Yields (· = .normal) b) (rounds : Nat) :
    Yields (· = .normal) (Run.loop c b rounds) := by
  induction rounds with
  | zero => exact outOfFuel
  | succ rounds ih =>
    refine last fun value => ?_
    split
    · refine h.bind fun flow normal => ?_
      rw [normal]
      exact ih
    · exact pure rfl

end Run.Yields

/-- A statement that fits outside of functions does not return. -/
theorem yields_exec (frames : Option Nat) : ∀ fuel s form id, FitsStmt false form s →
    Yields (· = .normal) (exec frames fuel s id) := by
  intro fuel
  induction fuel with
  | zero => exact fun _ _ _ _ => .outOfFuel
  | succ fuel ih =>
    intro s form id fits
    have branch : ∀ part ∈ s.branches, Yields (· = .normal) (exec frames fuel part id) := by
      intro part member
      obtain ⟨form', fits'⟩ := fits.branches part member
      exact ih part form' id fits'
    cases s with
    | block statements =>
      refine .last fun inner => .sequence fun s member => ?_
      exact ih s _ inner (fits.inBlock s member)
    | expression => exact .last fun _ => .pure rfl
    | function | print | var => exact .last fun _ => .last fun _ => .pure rfl
    | ifThen condition thenBranch =>
      refine .last fun value => ?_
      split
      · exact branch thenBranch List.mem_cons_self
      · exact .pure rfl
    | ifElse condition thenBranch elseBranch =>
      refine .last fun value => ?_
      split
      · exact branch thenBranch List.mem_cons_self
      · exact branch elseBranch (List.mem_cons_of_mem _ List.mem_cons_self)
    | returns keyword value => cases fits.inside
    | whileLoop condition body => exact .loop (branch body List.mem_cons_self) fuel

/-! ## Machines that sources were run on -/

/-- A machine on which statements of sources were run in the global scope, each
of them to its end or until it failed, and from which nothing else came but
output. -/
inductive Machine.Sourced : Machine → Prop
  | initial (clock : Clock) : Sourced (initial clock)
  | run {m : Machine} {source : String} {program : Program} {s : Stmt} {fuel : Nat} :
      Sourced m → Program.ofSource source = .ok program → s ∈ program →
      Sourced (after (interpretIn (some maxFrames) fuel globals s) m)
  | output {m : Machine} {sink : Sink} : Sourced m → Sourced { m with sink := sink }

theorem Program.fits_of_ofSource {source : String} {program : Program}
    (h : Program.ofSource source = .ok program) : FitsProgram program := by
  obtain ⟨tokens, -, spells⟩ := ofSource_iff.1 h
  exact spells.fits

/-- Every function that is bound has a body that fits the grammar. -/
theorem Machine.Sourced.stored {m : Machine} (h : m.Sourced) :
    fitting.Stored (fun _ => True) m.scopes := by
  induction h with
  | initial =>
    refine ⟨fun _ _ => trivial, fun _ _ => trivial, fun _ bound => ?_⟩
    obtain ⟨g, same⟩ := native_of_initial bound
    cases same
  | @run m source program s fuel _ read member ih =>
    have fits : (fitting.regime fun _ => True).runs () globals s :=
      ⟨trivial, _, _, Program.fits_of_ofSource read s member⟩
    obtain ⟨_, -, holds, -⟩ := (heeds_interpretIn _ (some maxFrames) fuel ih fits).world
    rwa [Told.interpretIn_run] at holds
  | output _ ih => exact ih

/-- A source that is rejected is not rejected for an internal reason. -/
theorem Program.ofSource_error {source : String} {failure : Failure}
    (h : Program.ofSource source = .error failure) : ¬ failure.Internal := by
  unfold Program.ofSource at h
  cases scanned : Token.scan source with
  | error errors =>
    rw [scanned] at h
    cases h
    exact not_false
  | ok tokens =>
    rw [scanned] at h
    dsimp only at h
    cases parsed : Program.parse tokens with
    | ok program =>
      rw [parsed] at h
      cases h
    | error errors =>
      rw [parsed] at h
      cases h
      rintro ⟨e, member, internal⟩
      exact (Program.parse_proper scanned parsed e member).1 internal

/-- On a machine on which only sources were run, no branch is reached that is
meant for other trees: a source is neither rejected nor does it fail for an
internal reason.  As the events of the run tell, which is a run that does what
evaluation does, every function that is called is passed as many arguments as it
has parameters, so that pairing them loses none, and a body runs in a scope that
binds the parameters to as many arguments.  No statement of the source returns, so
that any but an expression gives `nil` or an error. -/
theorem internal_branches_unreached {m : Machine} (sourced : m.Sourced) (fuel : Nat)
    (source : String) :
    (∀ failure m', execute fuel source m = .error (.failed failure) m' → ¬ failure.Internal) ∧
    ∀ program, Program.ofSource source = .ok program → ∀ s ∈ program,
      (∀ e, outcome (interpretIn (some maxFrames) fuel Machine.globals s) m = .error (.failed e) →
        ¬ e.Internal) ∧
      (Told.interpretIn (some maxFrames) fuel Machine.globals s).run =
        interpretIn (some maxFrames) fuel Machine.globals s ∧
      (∀ f arguments, ∀ e ∈ interpretEvents (some maxFrames) fuel Machine.globals s m,
        e.act = .passes f arguments → arguments.length = f.params.length ∧
          (f.params.zip arguments).unzip = (f.params, arguments)) ∧
      (∀ f scope, ∀ e ∈ interpretEvents (some maxFrames) fuel Machine.globals s m,
        e.act = .enters f scope → ∃ arguments, arguments.length = f.params.length ∧
          e.machine.scopes[scope]? =
            some ⟨.ofLists (f.params.map (·.lexeme)) arguments, some f.scope⟩) ∧
      (∀ value, outcome (exec (some maxFrames) fuel s Machine.globals) m ≠ .ok (.returned value)) ∧
      ((∀ value, s ≠ .expression value) → ∀ value,
        outcome (interpretIn (some maxFrames) fuel Machine.globals s) m = .ok value →
          value = .nil) := by
  refine ⟨fun failure m' failed => ?_, fun program read s member => ?_⟩
  · cases read : Program.ofSource source with
    | error rejected =>
      have same : execute fuel source m = .error (.failed rejected) m := by
        unfold execute
        rw [read]
        rfl
      cases same.symm.trans failed
      exact Program.ofSource_error read
    | ok program =>
      have fits : ∀ s ∈ program, (fitting.regime fun _ => True).runs () Machine.globals s :=
        fun s member => ⟨trivial, _, _, Program.fits_of_ofSource read s member⟩
      have heeds := heeds_interpretAll (fitting.regime fun _ => True) (some maxFrames) fuel program
        () m sourced.stored fits
      have arises := heeds.errors
      rw [Told.interpretAll_run] at arises
      rw [execute_of_ofSource read] at failed
      unfold Session.ofRun at failed
      rcases ran : interpretAll (some maxFrames) fuel program m with ⟨_, _⟩ | ⟨e | _, _⟩
      · rw [ran] at failed
        cases failed
      · rw [ran] at failed
        cases failed
        have ended : outcome (interpretAll (some maxFrames) fuel program) m =
            .error (.failed e) := by
          simp only [outcome, ran]
        exact fitting_arises (arises e ended)
      · rw [ran] at failed
        cases failed
  · have fits := Program.fits_of_ofSource read s member
    have allowed : (fitting.regime fun _ => True).runs () Machine.globals s :=
      ⟨trivial, _, _, fits⟩
    have heeds := heeds_interpretIn _ (some maxFrames) fuel sourced.stored allowed
    have arises := heeds.errors
    rw [Told.interpretIn_run] at arises
    obtain ⟨w, along, -⟩ := heeds.world
    have normal := yields_exec (some maxFrames) fuel s _ Machine.globals fits
    refine ⟨fun e failed => fitting_arises (arises e failed), Told.interpretIn_run .., ?_, ?_, ?_,
      ?_⟩
    · intro f arguments e told passed
      obtain ⟨_, allowed⟩ := along.allows told
      rw [passed] at allowed
      exact ⟨allowed, List.unzip_zip allowed.symm⟩
    · intro f scope e told entered
      obtain ⟨_, allowed⟩ := along.allows told
      rw [entered] at allowed
      exact allowed.2
    · intro value returned
      cases normal m _ returned
    · intro other value given
      have nil : Yields (· = .nil)
          (do Pure.pure (← exec (some maxFrames) fuel s Machine.globals).value) :=
        normal.bind fun flow same => .pure (congrArg Flow.value same)
      cases s with
      | expression e => exact absurd rfl (other e)
      | _ => exact nil m value given

/-! ## A function that an earlier source left -/

namespace Earlier

/-- A source with a function, and one that calls it. -/
def above : String := "fun same(x) \x7b return x; \x7d"

def below : String := "var y = same(nil);"

/-- The one statement of each. -/
def declaration : Stmt := (Seam.programOf above).headD (.block [])

def statement : Stmt := (Seam.programOf below).headD (.block [])

/-- The function, which is the first that is made. -/
def function : Closure :=
  ⟨0, .ofName "same", [.ofName "x"],
    [.returns ⟨.kwReturn, "return", none, 1⟩ (some (.identifier (.ofName "x")))], Machine.globals⟩

/-- The machine on which the function is declared. -/
def machine : Machine :=
  after (interpretIn (some maxFrames) 9 Machine.globals declaration) (.initial (.still 0))

theorem sourced_machine : machine.Sourced := by
  have read : Program.ofSource above = .ok (Seam.programOf above) :=
    Seam.ofSource_programOf (by decide +kernel)
  have member : declaration ∈ Seam.programOf above := by decide +kernel
  exact .run (.initial _) read member

/-- The one call that the statement makes. -/
theorem acts_statement :
    (interpretEvents (some maxFrames) 9 Machine.globals statement machine).map (·.act) =
      [.reads 0 (.ofName "same"), .passes function [.nil], .calls function 1, .enters function 1,
        .reads 1 (.ofName "x"), .declares 0 (.ofName "y")] := by
  decide +kernel

end Earlier

open Earlier

/-- The function has one parameter and is passed one argument, which its scope
binds, and the statement gives `nil`, the value of a declaration. -/
theorem earlier_function_called :
    machine.Sourced ∧ Program.ofSource below = .ok (Seam.programOf below) ∧
    statement ∈ Seam.programOf below ∧
    (∃ e ∈ interpretEvents (some maxFrames) 9 Machine.globals statement machine,
      e.act = .passes function [.nil] ∧ [Value.nil].length = function.params.length) ∧
    (∃ e ∈ interpretEvents (some maxFrames) 9 Machine.globals statement machine,
      e.act = .enters function 1 ∧ ∃ arguments, arguments.length = function.params.length ∧
        e.machine.scopes[1]? = some ⟨.ofLists ["x"] arguments, some Machine.globals⟩) ∧
    outcome (interpretIn (some maxFrames) 9 Machine.globals statement) machine = .ok .nil := by
  have read : Program.ofSource below = .ok (Seam.programOf below) :=
    Seam.ofSource_programOf (by decide +kernel)
  have member : statement ∈ Seam.programOf below := by decide +kernel
  have ended : outcome (interpretIn (some maxFrames) 9 Machine.globals statement) machine =
      .ok .nil := by decide +kernel
  have happens : ∀ act ∈ [Act.passes function [.nil], .enters function 1],
      ∃ e ∈ interpretEvents (some maxFrames) 9 Machine.globals statement machine, e.act = act := by
    intro act told
    refine List.mem_map.1 (acts_statement ▸ ?_)
    revert told
    revert act
    decide
  obtain ⟨-, reached⟩ := internal_branches_unreached sourced_machine 9 below
  obtain ⟨-, -, passed, entered, -, -⟩ := reached _ read statement member
  obtain ⟨atPass, passes, isPass⟩ := happens _ List.mem_cons_self
  obtain ⟨atBody, enters, isBody⟩ := happens (.enters function 1) (by decide)
  exact ⟨sourced_machine, read, member,
    ⟨atPass, passes, isPass, (passed _ _ atPass passes isPass).1⟩,
    ⟨atBody, enters, isBody, entered _ _ atBody enters isBody⟩, ended⟩

end Scriptlet
