/-
# The grammar

Which token lists are programs, and which tree each of them spells.  The rules
stand here as they are written in a grammar, one constructor for a production,
without any order of trial, lookahead or recovery; `Derives` is the part about
expressions, `DerivesStmt` the part about statements and declarations.

    program        → declaration* EOF
    declaration    → varDecl | statement
    varDecl        → "var" IDENT ( "=" expression )? ";"
    statement      → printStmt | block | ifStmt | whileStmt | forStmt
                   | funDecl | returnStmt | exprStmt
    funDecl        → "fun" IDENT "(" ( IDENT ( "," IDENT )* )? ")" block
    returnStmt     → "return" expression? ";"
    ifStmt         → "if" "(" expression ")" statement ( "else" statement )?
    whileStmt      → "while" "(" expression ")" statement
    forStmt        → "for" "(" ( varDecl | exprStmt | ";" ) expression? ";"
                     expression? ")" statement
    block          → "{" declaration* "}"
    exprStmt       → expression ";"
    printStmt      → "print" expression ";"
    expression     → assignment
    assignment     → IDENT "=" assignment | logic_or
    logic_or       → logic_and ( "or" logic_and )*
    logic_and      → equality ( "and" equality )*
    equality       → comparison ( ( "!=" | "==" ) comparison )*
    comparison     → addition ( ( ">" | ">=" | "<" | "<=" ) addition )*
    addition       → multiplication ( ( "-" | "+" ) multiplication )*
    multiplication → unary ( ( "/" | "*" ) unary )*
    unary          → ( "!" | "-" ) unary | call
    call           → primary ( "(" arguments? ")" )*
    arguments      → expression ( "," expression )*
    primary        → NUMBER | STRING | "true" | "false" | "nil" | IDENT
                   | "(" expression ")"

What the productions leave open is said by the indices of the relations.  A
number counts the levels that may still be opened: a statement, an expression
and the operand of a prefix operator open one each.  A Boolean says whether a
function body is open around a statement, for only there may a `return` stand.
And a statement is `dangling` when its text ends in an `if` without an `else`;
as the branch before an `else` it would leave it unclear whose that is, so the
branch before an `else` must not be dangling.
-/
import Scriptlet.Tree.Basic

namespace Scriptlet

namespace Grammar

/-! ## Expressions -/

/-- The symbols for infix operators, from the loosest to the tightest. -/
inductive Rank where
  | logicOr | logicAnd | equality | comparison | addition | multiplication
deriving DecidableEq

/-- The symbols that derive expressions. -/
inductive Symbol where
  | expression | assignment
  | infixed (rank : Rank)
  | unary | call | primary
deriving DecidableEq

namespace Rank

def operators : Rank → List Token.Kind
  | logicOr => [.kwOr]
  | logicAnd => [.kwAnd]
  | equality => [.bangEqual, .equalEqual]
  | comparison => [.greater, .greaterEqual, .less, .lessEqual]
  | addition => [.minus, .plus]
  | multiplication => [.slash, .star]

/-- The symbol on both sides of an operator. -/
def operand : Rank → Symbol
  | logicOr => .infixed .logicAnd
  | logicAnd => .infixed .equality
  | equality => .infixed .comparison
  | comparison => .infixed .addition
  | addition => .infixed .multiplication
  | multiplication => .unary

/-- The node that joins two operands. -/
def node : Rank → Expr → Token → Expr → Expr
  | logicOr | logicAnd => .logical
  | equality | comparison | addition | multiplication => .binary

end Rank

/-- The kinds of token that spell a value. -/
def literalKinds : List Token.Kind := [.number, .string, .kwTrue, .kwFalse, .kwNil]

/-- `Separated parts tokens`: the tokens are the parts with a comma between
each two. -/
inductive Separated : List (List Token) → List Token → Prop
  | none : Separated [] []
  | one (part : List Token) : Separated [part] part
  | more {part next : List Token} {parts : List (List Token)} {comma : Token}
      {tokens : List Token} :
      comma.kind = .comma → Separated (next :: parts) tokens →
      Separated (part :: next :: parts) (part ++ comma :: tokens)

/-- `Derives levels symbol tokens tree`: the symbol derives the tokens, `tree`
is the tree of the derivation, and no more than `levels` levels are open at once
in it.  The arguments of a call are listed with the tokens that each of them
stands for. -/
inductive Derives : Nat → Symbol → List Token → Expr → Prop
  /-- expression → assignment, one level deeper -/
  | expression {levels : Nat} {tokens : List Token} {e : Expr} :
      Derives levels .assignment tokens e → Derives (levels + 1) .expression tokens e
  /-- assignment → IDENT "=" assignment -/
  | assign {levels : Nat} {name equals : Token} {tokens : List Token} {value : Expr} :
      name.kind = .identifier → equals.kind = .equal →
      Derives levels .assignment tokens value →
      Derives levels .assignment (name :: equals :: tokens) (.assign name value)
  /-- assignment → logic_or -/
  | unassigned {levels : Nat} {tokens : List Token} {e : Expr} :
      Derives levels (.infixed .logicOr) tokens e → Derives levels .assignment tokens e
  /-- One operand of a rank, and no operator. -/
  | operand {levels : Nat} {rank : Rank} {tokens : List Token} {e : Expr} :
      Derives levels rank.operand tokens e → Derives levels (.infixed rank) tokens e
  /-- One more operator and operand of a rank; operators group to the left. -/
  | infixed {levels : Nat} {rank : Rank} {tokens tokens' : List Token} {operator : Token}
      {left right : Expr} :
      Derives levels (.infixed rank) tokens left → operator.kind ∈ rank.operators →
      Derives levels rank.operand tokens' right →
      Derives levels (.infixed rank) (tokens ++ operator :: tokens')
        (rank.node left operator right)
  /-- unary → ( "!" | "-" ) unary, one level deeper -/
  | prefixed {levels : Nat} {operator : Token} {tokens : List Token} {e : Expr} :
      operator.kind ∈ [Token.Kind.bang, .minus] → Derives levels .unary tokens e →
      Derives (levels + 1) .unary (operator :: tokens) (.unary operator e)
  /-- unary → call -/
  | unprefixed {levels : Nat} {tokens : List Token} {e : Expr} :
      Derives levels .call tokens e → Derives levels .unary tokens e
  /-- One more list of arguments, of 255 at most. -/
  | call {levels : Nat} {tokens inner : List Token} {opening closing : Token} {callee : Expr}
      {arguments : List (List Token × Expr)} :
      Derives levels .call tokens callee → opening.kind = .leftParen →
      (∀ argument ∈ arguments, Derives levels .expression argument.1 argument.2) →
      Separated (arguments.map (·.1)) inner → arguments.length ≤ 255 →
      closing.kind = .rightParen →
      Derives levels .call (tokens ++ opening :: inner ++ [closing])
        (.call callee closing (arguments.map (·.2)))
  /-- call → primary -/
  | uncalled {levels : Nat} {tokens : List Token} {e : Expr} :
      Derives levels .primary tokens e → Derives levels .call tokens e
  /-- primary → NUMBER | STRING | "true" | "false" | "nil" -/
  | literal {levels : Nat} {token : Token} {value : Literal} :
      token.kind ∈ literalKinds → token.literal = some value →
      Derives levels .primary [token] (.literal value)
  /-- primary → IDENT -/
  | identifier {levels : Nat} {name : Token} :
      name.kind = .identifier → Derives levels .primary [name] (.identifier name)
  /-- primary → "(" expression ")" -/
  | grouping {levels : Nat} {opening closing : Token} {tokens : List Token} {e : Expr} :
      opening.kind = .leftParen → Derives levels .expression tokens e →
      closing.kind = .rightParen →
      Derives levels .primary (opening :: tokens ++ [closing]) (.grouping e)

/-! ## Clauses -/

/-- varDecl → "var" IDENT ( "=" expression )? ";" -/
inductive VarDecl (levels : Nat) : List Token → Stmt → Prop
  | plain {var name semicolon : Token} :
      var.kind = .kwVar → name.kind = .identifier → semicolon.kind = .semicolon →
      VarDecl levels [var, name, semicolon] (.var name (.literal .nil))
  | initialized {var name equals semicolon : Token} {tokens : List Token} {e : Expr} :
      var.kind = .kwVar → name.kind = .identifier → equals.kind = .equal →
      Derives levels .expression tokens e → semicolon.kind = .semicolon →
      VarDecl levels (var :: name :: equals :: tokens ++ [semicolon]) (.var name e)

/-- exprStmt → expression ";" -/
inductive ExprStmt (levels : Nat) : List Token → Stmt → Prop
  | intro {semicolon : Token} {tokens : List Token} {e : Expr} :
      Derives levels .expression tokens e → semicolon.kind = .semicolon →
      ExprStmt levels (tokens ++ [semicolon]) (.expression e)

/-- The first clause of a `for`: varDecl | exprStmt | ";" -/
inductive ForInitial (levels : Nat) : List Token → Option Stmt → Prop
  | absent {semicolon : Token} :
      semicolon.kind = .semicolon → ForInitial levels [semicolon] none
  | var {tokens : List Token} {s : Stmt} :
      VarDecl levels tokens s → ForInitial levels tokens (some s)
  | expression {tokens : List Token} {s : Stmt} :
      ExprStmt levels tokens s → ForInitial levels tokens (some s)

/-- An expression that may be left out: expression? -/
inductive OptExpression (levels : Nat) : List Token → Option Expr → Prop
  | absent : OptExpression levels [] none
  | present {tokens : List Token} {e : Expr} :
      Derives levels .expression tokens e → OptExpression levels tokens (some e)

/-- The tree of a `for`: `{ initial; while (condition) { body; increment; } }`,
where a block is there only if something stands in it besides the loop or the
body. -/
def loopTree : (initial : Option Stmt) → (condition : Expr) → (increment : Option Expr) →
    (body : Stmt) → Stmt
  | none, condition, none, body => .whileLoop condition body
  | none, condition, some increment, body =>
      .whileLoop condition (.block [body, .expression increment])
  | some initial, condition, none, body => .block [initial, .whileLoop condition body]
  | some initial, condition, some increment, body =>
      .block [initial, .whileLoop condition (.block [body, .expression increment])]

/-! ## Statements -/

/-- What a statement can be derived as. -/
inductive Form where
  | declaration
  | statement (dangling : Bool)
deriving DecidableEq

/-- `DerivesStmt levels inFunction form tokens tree`: the tokens are derived as
a declaration or a statement whose tree is `tree`, with no more than `levels`
levels open at once in it; `inFunction` says whether a function body is open
around it.  The declarations of a block are listed with the tokens that each of
them stands for. -/
inductive DerivesStmt : Nat → Bool → Form → List Token → Stmt → Prop
  /-- declaration → varDecl -/
  | var {levels : Nat} {inFunction : Bool} {tokens : List Token} {s : Stmt} :
      VarDecl levels tokens s → DerivesStmt levels inFunction .declaration tokens s
  /-- declaration → statement -/
  | statement {levels : Nat} {inFunction dangling : Bool} {tokens : List Token} {s : Stmt} :
      DerivesStmt levels inFunction (.statement dangling) tokens s →
      DerivesStmt levels inFunction .declaration tokens s
  /-- statement → expression ";" -/
  | expression {levels : Nat} {inFunction : Bool} {tokens : List Token} {s : Stmt} :
      ExprStmt levels tokens s →
      DerivesStmt (levels + 1) inFunction (.statement false) tokens s
  /-- statement → "print" expression ";" -/
  | print {levels : Nat} {inFunction : Bool} {keyword semicolon : Token} {tokens : List Token}
      {e : Expr} :
      keyword.kind = .kwPrint → Derives levels .expression tokens e →
      semicolon.kind = .semicolon →
      DerivesStmt (levels + 1) inFunction (.statement false)
        (keyword :: tokens ++ [semicolon]) (.print e)
  /-- statement → "{" declaration* "}" -/
  | block {levels : Nat} {inFunction : Bool} {opening closing : Token}
      {declarations : List (List Token × Stmt)} :
      opening.kind = .leftBrace →
      (∀ d ∈ declarations, DerivesStmt levels inFunction .declaration d.1 d.2) →
      closing.kind = .rightBrace →
      DerivesStmt (levels + 1) inFunction (.statement false)
        (opening :: declarations.flatMap (·.1) ++ [closing]) (.block (declarations.map (·.2)))
  /-- statement → "if" "(" expression ")" statement -/
  | ifThen {levels : Nat} {inFunction dangling : Bool} {keyword opening closing : Token}
      {tokens tokens' : List Token} {condition : Expr} {thenBranch : Stmt} :
      keyword.kind = .kwIf → opening.kind = .leftParen →
      Derives levels .expression tokens condition → closing.kind = .rightParen →
      DerivesStmt levels inFunction (.statement dangling) tokens' thenBranch →
      DerivesStmt (levels + 1) inFunction (.statement true)
        (keyword :: opening :: tokens ++ closing :: tokens') (.ifThen condition thenBranch)
  /-- statement → "if" "(" expression ")" statement "else" statement -/
  | ifElse {levels : Nat} {inFunction dangling : Bool} {keyword opening closing elseToken : Token}
      {tokens tokens' tokens'' : List Token} {condition : Expr} {thenBranch elseBranch : Stmt} :
      keyword.kind = .kwIf → opening.kind = .leftParen →
      Derives levels .expression tokens condition → closing.kind = .rightParen →
      DerivesStmt levels inFunction (.statement false) tokens' thenBranch →
      elseToken.kind = .kwElse →
      DerivesStmt levels inFunction (.statement dangling) tokens'' elseBranch →
      DerivesStmt (levels + 1) inFunction (.statement dangling)
        (keyword :: opening :: tokens ++ closing :: tokens' ++ elseToken :: tokens'')
        (.ifElse condition thenBranch elseBranch)
  /-- statement → "while" "(" expression ")" statement -/
  | whileLoop {levels : Nat} {inFunction dangling : Bool} {keyword opening closing : Token}
      {tokens tokens' : List Token} {condition : Expr} {body : Stmt} :
      keyword.kind = .kwWhile → opening.kind = .leftParen →
      Derives levels .expression tokens condition → closing.kind = .rightParen →
      DerivesStmt levels inFunction (.statement dangling) tokens' body →
      DerivesStmt (levels + 1) inFunction (.statement dangling)
        (keyword :: opening :: tokens ++ closing :: tokens') (.whileLoop condition body)
  /-- A `for` statement; without a condition it runs on `true`. -/
  | forLoop {levels : Nat} {inFunction dangling : Bool}
      {keyword opening semicolon closing : Token} {first second third tokens : List Token}
      {initial : Option Stmt} {condition increment : Option Expr} {body : Stmt} :
      keyword.kind = .kwFor → opening.kind = .leftParen → ForInitial levels first initial →
      OptExpression levels second condition → semicolon.kind = .semicolon →
      OptExpression levels third increment → closing.kind = .rightParen →
      DerivesStmt levels inFunction (.statement dangling) tokens body →
      DerivesStmt (levels + 1) inFunction (.statement dangling)
        (keyword :: opening :: first ++ second ++ semicolon :: third ++ closing :: tokens)
        (loopTree initial (condition.getD (.literal (.boolean true))) increment body)
  /-- A function of 255 parameters at most. -/
  | function {levels : Nat} {inFunction : Bool}
      {keyword name opening closing bodyOpening bodyClosing : Token} {params inner : List Token}
      {declarations : List (List Token × Stmt)} :
      keyword.kind = .kwFun → name.kind = .identifier → opening.kind = .leftParen →
      (∀ param ∈ params, param.kind = .identifier) →
      Separated (params.map ([·])) inner → params.length ≤ 255 →
      closing.kind = .rightParen → bodyOpening.kind = .leftBrace →
      (∀ d ∈ declarations, DerivesStmt levels true .declaration d.1 d.2) →
      bodyClosing.kind = .rightBrace →
      DerivesStmt (levels + 1) inFunction (.statement false)
        (keyword :: name :: opening :: inner ++
          closing :: bodyOpening :: declarations.flatMap (·.1) ++ [bodyClosing])
        (.function name params (declarations.map (·.2)))
  /-- statement → "return" expression? ";", inside a function -/
  | returns {levels : Nat} {keyword semicolon : Token} {tokens : List Token}
      {value : Option Expr} :
      keyword.kind = .kwReturn → OptExpression levels tokens value →
      semicolon.kind = .semicolon →
      DerivesStmt (levels + 1) true (.statement false) (keyword :: tokens ++ [semicolon])
        (.returns keyword value)

/-! ## Programs -/

/-- The tokens, up to the end of the script, spell the program with no more than
`levels` levels open at once. -/
inductive DerivesWithin (levels : Nat) : List Token → Program → Prop
  | intro {declarations : List (List Token × Stmt)} :
      (∀ d ∈ declarations, DerivesStmt levels false .declaration d.1 d.2) →
      DerivesWithin levels (declarations.flatMap (·.1)) (declarations.map (·.2))

/-- The tokens that are read of a list: those before the first end-of-file
token. -/
def readable (tokens : List Token) : List Token := tokens.takeWhile (·.kind ≠ .eof)

/-- A token list spells a program: what is read of it is derived from the
grammar, with at most 256 levels open at once. -/
def Spells (tokens : List Token) (program : Program) : Prop :=
  DerivesWithin 256 (readable tokens) program

end Grammar

end Scriptlet
