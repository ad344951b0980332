/-
# The words of any tree

A tree is written as words and signs in a fixed order.  `Expr.words` and
`Stmt.words` list them as scanning would make them: a name or an operator of the
tree gives its kind and its spelling, a literal its value, and the parentheses,
braces, commas, semicolons and reserved words are those of the nodes.  No token
of the tree is looked at any further, so what it has as its literal and on which
line it stands do not matter, nor what is kept for a `)` or a `return`.

A name or an operator may be of any kind, as long as its spelling is one of that
kind.  All of them but the prefix operators have a space or a sign behind them.
A prefix operator stands right before its operand, unless that begins with
another one, so what a prefix operator asks of its operand is left open in
`Printable`: `Token.Apart` asks that the operand does not go on with the
operator.
-/
import Scriptlet.Proofs.Printing.Tokens
import Scriptlet.Proofs.Scanning.Lexeme

namespace Scriptlet

open Piece

/-! ## What a token goes on with -/

namespace Token

/-- The characters `rest` right behind a token of the kind, which is spelled
`chars`, are read as more of it: an `=` makes another operator of it, a second
slash a comment, and a word or a number goes on. -/
def Kind.goesOn (kind : Kind) (chars rest : List Char) : Bool :=
  match kind with
  | bang | equal | greater | less => rest.head? == some '='
  | slash => rest.head? == some '/'
  | number => rest.head?.any Char.isDigit || (!chars.contains '.' && fraction rest != [])
  | identifier => rest.head?.any isWordChar
  | kind => (Kind.reserved.map Prod.snd).contains kind && rest.head?.any isWordChar

/-- The characters right behind the token are read as more of it. -/
def goesOn (t : Token) (rest : List Char) : Bool := t.kind.goesOn t.lexeme.toList rest

/-- The spelling of the token is one of its kind. -/
def Spelled (t : Token) : Prop := ∃ literal, Lexeme t.kind t.lexeme.toList literal

/-- The token that scanning makes of the spelling, on no line in particular. -/
def respelled (t : Token) : Token :=
  ⟨t.kind, t.lexeme, literalOf? t.kind t.lexeme.toList, 0⟩

variable {kind : Kind} {c : Char} {cs rest : List Char} {literal : Option Literal}

/-- A sign goes on as an operator with `=` or as a comment, or not at all. -/
theorem sign_stops (member : kind ∈ Kind.signs) (spelled : kind.spelling.toList = c :: cs)
    (stops : kind.goesOn (c :: cs) rest = false) :
    Piece.first c (cs ++ rest) = ⟨.token kind, c :: cs⟩ := by
  have unequal : ∀ {d : Char}, (rest.head? == some d) = false → rest.head? ≠ some d :=
    fun h same => by simp [same] at h
  cases kind with
  | bang | equal | greater | less | slash =>
      cases spelled
      exact if_neg (unequal stops)
  | identifier | string | number | eof | kwAnd | kwClass | kwElse | kwFalse | kwFun | kwFor
  | kwIf | kwNil | kwOr | kwPrint | kwReturn | kwSuper | kwThis | kwTrue | kwVar | kwWhile =>
      exact absurd member (by decide)
  | _ =>
      cases spelled
      rfl

theorem word_stops (letter : isLetter c) (word : ∀ d ∈ cs, isWordChar d)
    (stops : rest.head?.any isWordChar = false) : Piece.first c (cs ++ rest) = Piece.first c cs := by
  have ends : ∀ d ∈ rest.head?, isWordChar d = false := by
    intro d head
    rw [Option.mem_def.1 head] at stops
    exact stops
  have all : cs.takeWhile isWordChar = cs := List.takeWhile_eq_self_iff.2 word
  simp only [Piece.first, lead_of_letter letter, wordPiece, takeWhile_append word ends, all]

theorem reserved_letters : ∀ entry ∈ Kind.reserved, entry.1.toList.all isLetter := by decide

theorem reserved_goesOn {word : String} {chars : List Char} (member : (word, kind) ∈ Kind.reserved) :
    kind.goesOn chars rest = rest.head?.any isWordChar := by
  have listed : (Kind.reserved.map Prod.snd).contains kind = true :=
    List.contains_iff_mem.2 (List.mem_map_of_mem member)
  cases kind with
  | kwAnd | kwClass | kwElse | kwFalse | kwFun | kwFor | kwIf | kwNil | kwOr | kwPrint
  | kwReturn | kwSuper | kwThis | kwTrue | kwVar | kwWhile => rfl
  | _ => exact absurd listed (by decide)

theorem whole_stops (digits : ∀ d ∈ c :: cs, d.isDigit)
    (stops : Kind.number.goesOn (c :: cs) rest = false) :
    Piece.first c (cs ++ rest) = ⟨.token .number, c :: cs⟩ := by
  obtain ⟨digit, digits'⟩ := List.forall_mem_cons.1 digits
  have pointless : (c :: cs).contains '.' = false := by
    rw [Bool.eq_false_iff]
    intro point
    exact absurd (digits '.' (List.contains_iff_mem.1 point)) (by decide)
  obtain ⟨undigit, unpoint⟩ := Bool.or_eq_false_iff.1 stops
  rw [pointless, Bool.not_false, Bool.true_and, bne_eq_false_iff_eq] at unpoint
  have ends : ∀ d ∈ rest.head?, d.isDigit = false := by
    intro d head
    rw [Option.mem_def.1 head] at undigit
    exact undigit
  simp only [Piece.first, lead_of_digit digit, numberTail, takeWhile_append digits' ends,
    dropWhile_append digits' ends, unpoint, List.append_nil]

theorem fractional_stops {ds places : List Char} {place : Char} (digit : c.isDigit)
    (digits : ∀ d ∈ ds, d.isDigit) (places_digits : ∀ d ∈ place :: places, d.isDigit)
    (undigit : rest.head?.any Char.isDigit = false) :
    Piece.first c (ds ++ '.' :: place :: places ++ rest) =
      ⟨.token .number, c :: (ds ++ '.' :: place :: places)⟩ := by
  obtain ⟨first, others⟩ := List.forall_mem_cons.1 places_digits
  have ends : ∀ d ∈ rest.head?, d.isDigit = false := by
    intro d head
    rw [Option.mem_def.1 head] at undigit
    exact undigit
  have point : ∀ d ∈ ('.' :: place :: places ++ rest).head?, d.isDigit = false := by
    intro d head
    cases head
    decide
  have behind : fraction ('.' :: place :: places ++ rest) = '.' :: place :: places := by
    show (if place.isDigit then '.' :: place :: (places ++ rest).takeWhile Char.isDigit
      else []) = _
    rw [if_pos first, takeWhile_append others ends]
  simp only [Piece.first, lead_of_digit digit, numberTail, List.append_assoc,
    takeWhile_append digits point, dropWhile_append digits point, behind]

/-- A token is cut off a text as long as what is behind it does not go on with
it. -/
theorem Lexeme.first_stops (h : Lexeme kind (c :: cs) literal)
    (stops : kind.goesOn (c :: cs) rest = false) :
    Piece.first c (cs ++ rest) = ⟨.token kind, c :: cs⟩ := by
  have alone := h.first.1
  generalize spelled : c :: cs = chars at h
  cases h with
  | sign member =>
      rw [← spelled]
      exact sign_stops member spelled.symm stops
  | reserved member =>
      have letters := List.all_eq_true.1 (reserved_letters _ member)
      rw [← spelled] at letters ⊢
      obtain ⟨letter, others⟩ := List.forall_mem_cons.1 letters
      have word : ∀ d ∈ cs, isWordChar d := fun d here => Bool.or_eq_true_iff.2 (.inl (others d here))
      rw [reserved_goesOn member] at stops
      exact (word_stops letter word stops).trans alone
  | name letter word free =>
      cases spelled
      exact (word_stops letter word stops).trans alone
  | whole some digits =>
      subst spelled
      exact whole_stops digits stops
  | @fractional digits places some some' all =>
      obtain ⟨digits', places'⟩ := List.forall_mem_append.1 all
      obtain ⟨d, ds, rfl⟩ := List.exists_cons_of_ne_nil some
      obtain ⟨e, es, rfl⟩ := List.exists_cons_of_ne_nil some'
      cases spelled
      obtain ⟨digit, digits'⟩ := List.forall_mem_cons.1 digits'
      exact fractional_stops digit digits' places' (Bool.or_eq_false_iff.1 stops).1
  | string quoted free =>
      cases spelled
      have quote : lead c = .quote := by
        simp only [List.mem_cons, List.not_mem_nil, or_false] at quoted
        rcases quoted with rfl | rfl <;> rfl
      exact first_string quote free rest

/-! ### Breaks -/

theorem goesOn_broken (t : Token) {rest : List Char} (h : Broken rest) :
    t.goesOn rest = false := by
  have none : ∀ {p : Char → Bool}, breaks.any p = false → rest.head?.any p = false := by
    intro p free
    cases head : rest.head? with
    | none => rfl
    | some c => exact h.ends free c head
  have other : ∀ {c : Char}, c ∉ breaks → (rest.head? == some c) = false := fun outside =>
    beq_eq_false_iff_ne.2 (h.head_ne outside)
  have pointless : fraction rest = [] := fraction_append .none h
  unfold goesOn Kind.goesOn
  split
  · exact other (by decide)
  · exact other (by decide)
  · exact other (by decide)
  · exact other (by decide)
  · exact other (by decide)
  · rw [none (by decide), pointless, bne_self_eq_false, Bool.and_false, Bool.or_false]
  · exact none (by decide)
  · rw [none (by decide), Bool.and_false]

theorem fraction_broken {c : Char} {cs rest : List Char} (h : fraction (c :: cs) = [])
    (broken : Broken rest) : fraction (c :: cs ++ rest) = [] := by
  by_cases point : c = '.'
  case neg =>
      rw [List.cons_append]
      unfold fraction
      split
      case h_1 same => exact absurd (List.cons.inj same).1 point
      case h_2 => rfl
  case pos =>
      subst point
      cases cs with
      | nil =>
          cases rest with
          | nil => rfl
          | cons d rest =>
              have digitless : d.isDigit = false := broken.ends (by decide) d rfl
              exact if_neg (by rw [digitless]; decide)
      | cons d cs =>
          refine if_neg fun digit => ?_
          have some : fraction ('.' :: d :: cs) = '.' :: d :: cs.takeWhile Char.isDigit :=
            if_pos digit
          rw [h] at some
          cases some

/-- What a token does not go on with it does not go on with when a break follows. -/
theorem goesOn_append (t : Token) {cs rest : List Char} (stops : t.goesOn cs = false)
    (h : Broken rest) : t.goesOn (cs ++ rest) = false := by
  cases cs with
  | nil => exact t.goesOn_broken h
  | cons c cs =>
      unfold goesOn Kind.goesOn at stops ⊢
      split at stops
      case h_6 =>
          obtain ⟨undigit, unpoint⟩ := Bool.or_eq_false_iff.1 stops
          refine Bool.or_eq_false_iff.2 ⟨undigit, ?_⟩
          rcases Bool.and_eq_false_iff.1 unpoint with pointed | pointless
          · rw [pointed, Bool.false_and]
          · rw [fraction_broken (bne_eq_false_iff_eq.1 pointless) h, bne_self_eq_false,
              Bool.and_false]
      all_goals exact stops

end Token

/-! ## Words of expressions and statements -/

namespace Expr

mutual

/-- What the expression is written as, word by word. -/
def words : Expr → List Token
  | .assign name value => name.respelled :: .plain .equal :: value.words
  | .binary left operator right => left.words ++ operator.respelled :: right.words
  | .call callee _ arguments =>
      callee.words ++ .plain .leftParen :: Token.separated (wordsAll arguments) ++
        [.plain .rightParen]
  | .grouping inner => .plain .leftParen :: inner.words ++ [.plain .rightParen]
  | .literal value => [value.token]
  | .logical left operator right => left.words ++ operator.respelled :: right.words
  | .unary operator operand => operator.respelled :: operand.words
  | .identifier name => [name.respelled]

def wordsAll : List Expr → List (List Token)
  | [] => []
  | e :: es => e.words :: wordsAll es

end

theorem wordsAll_eq (es : List Expr) : wordsAll es = es.map words := by
  induction es with
  | nil => rfl
  | cons e es ih => rw [wordsAll, ih, List.map_cons]

end Expr

namespace Stmt

mutual

/-- What the statement is written as, word by word. -/
def words : Stmt → List Token
  | .block statements => .plain .leftBrace :: wordsAll statements ++ [.plain .rightBrace]
  | .expression value => value.words ++ [.plain .semicolon]
  | .function name params body =>
      .plain .kwFun :: name.respelled :: .plain .leftParen ::
        Token.separated (params.map ([·.respelled])) ++
        .plain .rightParen :: .plain .leftBrace :: wordsAll body ++ [.plain .rightBrace]
  | .ifThen condition thenBranch =>
      .plain .kwIf :: .plain .leftParen :: condition.words ++
        .plain .rightParen :: thenBranch.words
  | .ifElse condition thenBranch elseBranch =>
      .plain .kwIf :: .plain .leftParen :: condition.words ++
        .plain .rightParen :: thenBranch.words ++ .plain .kwElse :: elseBranch.words
  | .print value => .plain .kwPrint :: value.words ++ [.plain .semicolon]
  | .returns _ none => [.plain .kwReturn, .plain .semicolon]
  | .returns _ (some value) => .plain .kwReturn :: value.words ++ [.plain .semicolon]
  | .var name initial =>
      .plain .kwVar :: name.respelled :: .plain .equal :: initial.words ++ [.plain .semicolon]
  | .whileLoop condition body =>
      .plain .kwWhile :: .plain .leftParen :: condition.words ++ .plain .rightParen :: body.words

def wordsAll : List Stmt → List Token
  | [] => []
  | s :: ss => s.words ++ wordsAll ss

end

theorem wordsAll_eq (ss : List Stmt) : wordsAll ss = ss.flatMap words := by
  induction ss with
  | nil => rfl
  | cons s ss ih => rw [wordsAll, ih, List.flatMap_cons]

end Stmt

/-! ## Trees whose words have a spelling -/

/-- The names and operators of the expression have a spelling of their kind, its
literals have a spelling, and every prefix operator is as `prefixing` asks before
its operand. -/
inductive Expr.Printable (prefixing : Token → Expr → Prop) : Expr → Prop
  | assign {name : Token} {value : Expr} :
      name.Spelled → value.Printable prefixing → Printable prefixing (.assign name value)
  | binary {left right : Expr} {operator : Token} :
      left.Printable prefixing → operator.Spelled → right.Printable prefixing →
      Printable prefixing (.binary left operator right)
  | call {callee : Expr} {paren : Token} {arguments : List Expr} :
      callee.Printable prefixing → (∀ e ∈ arguments, e.Printable prefixing) →
      Printable prefixing (.call callee paren arguments)
  | grouping {inner : Expr} : inner.Printable prefixing → Printable prefixing (.grouping inner)
  | literal {value : Literal} : value.Writable → Printable prefixing (.literal value)
  | logical {left right : Expr} {operator : Token} :
      left.Printable prefixing → operator.Spelled → right.Printable prefixing →
      Printable prefixing (.logical left operator right)
  | unary {operator : Token} {operand : Expr} :
      operator.Spelled → prefixing operator operand → operand.Printable prefixing →
      Printable prefixing (.unary operator operand)
  | identifier {name : Token} : name.Spelled → Printable prefixing (.identifier name)

/-- So it is in every expression of the statement. -/
inductive Stmt.Printable (prefixing : Token → Expr → Prop) : Stmt → Prop
  | block {statements : List Stmt} : (∀ s ∈ statements, s.Printable prefixing) →
      Printable prefixing (.block statements)
  | expression {value : Expr} : value.Printable prefixing →
      Printable prefixing (.expression value)
  | function {name : Token} {params : List Token} {body : List Stmt} :
      name.Spelled → (∀ param ∈ params, param.Spelled) →
      (∀ s ∈ body, s.Printable prefixing) → Printable prefixing (.function name params body)
  | ifThen {condition : Expr} {thenBranch : Stmt} :
      condition.Printable prefixing → thenBranch.Printable prefixing →
      Printable prefixing (.ifThen condition thenBranch)
  | ifElse {condition : Expr} {thenBranch elseBranch : Stmt} :
      condition.Printable prefixing → thenBranch.Printable prefixing →
      elseBranch.Printable prefixing →
      Printable prefixing (.ifElse condition thenBranch elseBranch)
  | print {value : Expr} : value.Printable prefixing → Printable prefixing (.print value)
  | returns {keyword : Token} {value : Option Expr} :
      (∀ e ∈ value, e.Printable prefixing) → Printable prefixing (.returns keyword value)
  | var {name : Token} {initial : Expr} :
      name.Spelled → initial.Printable prefixing → Printable prefixing (.var name initial)
  | whileLoop {condition : Expr} {body : Stmt} :
      condition.Printable prefixing → body.Printable prefixing →
      Printable prefixing (.whileLoop condition body)

/-- The operator and its operand stay apart: there is a space between them, since
the operand begins with a prefix operator of its own, or the text of the operand
does not go on with the operator. -/
def Token.Apart (operator : Token) (operand : Expr) : Prop :=
  operand.isUnary ∨ operator.goesOn operand.written.toList = false

instance (operator : Token) (operand : Expr) : Decidable (operator.Apart operand) :=
  inferInstanceAs (Decidable (_ ∨ _))

end Scriptlet
