/-
# Names in trees

The names that a piece of code can look up or bind when it runs: those that it
reads, assigns and declares, wherever in it they stand, the bodies of functions
declared in it included.  Parameters count only where a body mentions them.
Among the names are those that the code can declare, in its own scope or in one
inside of it; to these, parameters belong.
-/
import Scriptlet.Value.Basic

namespace Scriptlet

namespace Expr

mutual

/-- The names in the expression. -/
def names : Expr → List String
  | .assign name value => name.lexeme :: value.names
  | .binary left _ right => left.names ++ right.names
  | .call callee _ arguments => callee.names ++ namesAll arguments
  | .grouping inner => inner.names
  | .literal _ => []
  | .logical left _ right => left.names ++ right.names
  | .unary _ operand => operand.names
  | .identifier name => [name.lexeme]

def namesAll : List Expr → List String
  | [] => []
  | e :: es => e.names ++ namesAll es

end

theorem namesAll_eq (es : List Expr) : namesAll es = es.flatMap names := by
  induction es with
  | nil => rfl
  | cons e es ih => rw [namesAll, ih, List.flatMap_cons]

theorem names_subset {e : Expr} {es : List Expr} (h : e ∈ es) : e.names ⊆ namesAll es := by
  intro name hn
  rw [namesAll_eq]
  exact List.mem_flatMap_of_mem h hn

end Expr

namespace Stmt

mutual

/-- The names in the statement. -/
def names : Stmt → List String
  | .block statements => namesAll statements
  | .expression value => value.names
  | .function name _ body => name.lexeme :: namesAll body
  | .ifThen condition thenBranch => condition.names ++ thenBranch.names
  | .ifElse condition thenBranch elseBranch =>
      condition.names ++ (thenBranch.names ++ elseBranch.names)
  | .print value => value.names
  | .returns _ none => []
  | .returns _ (some value) => value.names
  | .var name initial => name.lexeme :: initial.names
  | .whileLoop condition body => condition.names ++ body.names

def namesAll : List Stmt → List String
  | [] => []
  | s :: ss => s.names ++ namesAll ss

end

theorem namesAll_eq (ss : List Stmt) : namesAll ss = ss.flatMap names := by
  induction ss with
  | nil => rfl
  | cons s ss ih => rw [namesAll, ih, List.flatMap_cons]

theorem names_subset {s : Stmt} {ss : List Stmt} (h : s ∈ ss) : s.names ⊆ namesAll ss := by
  intro name hn
  rw [namesAll_eq]
  exact List.mem_flatMap_of_mem h hn

/-! ## Declarations -/

mutual

/-- The names that are declared in the statement, wherever in it, parameters
included. -/
def declaredNames : Stmt → List String
  | .block statements => declaredNamesAll statements
  | .function name params body =>
      name.lexeme :: (params.map (·.lexeme) ++ declaredNamesAll body)
  | .ifThen _ thenBranch => thenBranch.declaredNames
  | .ifElse _ thenBranch elseBranch => thenBranch.declaredNames ++ elseBranch.declaredNames
  | .var name _ => [name.lexeme]
  | .whileLoop _ body => body.declaredNames
  | .expression _ | .print _ | .returns _ _ => []

def declaredNamesAll : List Stmt → List String
  | [] => []
  | s :: ss => s.declaredNames ++ declaredNamesAll ss

end

theorem declaredNamesAll_eq (ss : List Stmt) : declaredNamesAll ss = ss.flatMap declaredNames := by
  induction ss with
  | nil => rfl
  | cons s ss ih => rw [declaredNamesAll, ih, List.flatMap_cons]

theorem declaredNames_subset {s : Stmt} {ss : List Stmt} (h : s ∈ ss) :
    s.declaredNames ⊆ declaredNamesAll ss := by
  intro name hn
  rw [declaredNamesAll_eq]
  exact List.mem_flatMap_of_mem h hn

end Stmt

namespace Closure

/-- The names in the body of the function. -/
def names (f : Closure) : List String := Stmt.namesAll f.body

/-- The names that the function declares itself: its parameters and those that
are declared in its body. -/
def declaredNames (f : Closure) : List String :=
  f.params.map (·.lexeme) ++ Stmt.declaredNamesAll f.body

end Closure

end Scriptlet
