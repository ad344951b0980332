/-
# The written form spells the words

What a tree is written as is cut into exactly the words of the tree.  This holds
of every printable tree whose prefix operators stay apart from their operands,
also of those that no text is parsed as, since it only takes neighbours to stay
apart: what follows an expression is always a break, a statement ends in a token
that nothing goes on with, and names and operators have a break behind them.

A writable tree is such a tree, since its prefix operators are `!` and `-` and no
expression of it begins with `=`, and its words are its tokens.
-/
import Scriptlet.Proofs.Printing.Words

namespace Scriptlet

open Piece

/-! ## Literals -/

namespace Token

theorem plain_genuine {kind : Kind} (fixed : kind ∉ Kind.free) : (plain kind).Genuine := by
  refine ⟨kind.spelling, [{ plain kind with line := 1 }, endOfFile 1], ?_, _,
    List.mem_cons_self, rfl⟩
  cases kind with
  | identifier | string | number | eof => exact absurd (by decide) fixed
  | _ => rfl

theorem plain_spells {kind : Kind} (fixed : kind ∉ Kind.free) :
    Spells Broken kind.spelling [plain kind] := by
  refine (plain_genuine fixed).spells ?_
  intro eof
  have eof : kind = .eof := eof
  rw [eof] at fixed
  exact fixed (by decide)

end Token

namespace Literal

/-- A number below infinity is written as digits with at most one point. -/
theorem number_spells {x : Float} (h : x.toBits.toNat < infinityBits) :
    Spells Broken (numberText x) [⟨.number, numberText x, some (.number x), 0⟩] := by
  have reads := toFloat_numberText h
  rw [numberText_finite h] at reads ⊢
  generalize Decimal.shortest x.toBits.toNat = number at reads ⊢
  have whole : ∀ c ∈ number.wholeDigits, c.isDigit :=
    fun c => Decimal.isDigit_of_mem_wholeDigits
  have fraction : ∀ c ∈ number.fractionDigits, c.isDigit :=
    fun c => Decimal.isDigit_of_mem_fractionDigits
  obtain ⟨d, ds, digits⟩ := List.exists_cons_of_ne_nil number.wholeDigits_ne_nil
  have tail : ∃ cs, number.text.toList = d :: (ds ++ cs) ∧ Fraction cs := by
    rw [number.text_toList, digits]
    by_cases none : number.places = 0
    · rw [if_pos none]
      exact ⟨[], by rw [List.append_nil], .none⟩
    · rw [if_neg none]
      have length := Decimal.fractionDigits_length none
      have more : number.fractionDigits ≠ [] := by
        intro nil
        rw [nil] at length
        exact none length.symm
      obtain ⟨f, fs, after⟩ := List.exists_cons_of_ne_nil more
      rw [after] at fraction ⊢
      have fraction' := List.forall_mem_cons.1 fraction
      exact ⟨_, rfl, .some fraction'.1 fraction'.2⟩
  obtain ⟨cs, chars, fractional⟩ := tail
  rw [digits] at whole
  have whole' := List.forall_mem_cons.1 whole
  have text : number.text = String.ofList (d :: (ds ++ cs)) := by
    rw [← chars, String.ofList_toList]
  have value : Token.literalOf? .number (d :: (ds ++ cs)) = some (.number x) := by
    unfold Token.literalOf?
    rw [← chars, reads]
  rw [text, ← value]
  exact .one fun rest broken => first_number whole'.1 whole'.2 fractional broken

theorem string_spells {value : String} (h : (Literal.string value).Writable) :
    Spells Broken (written (.string value))
      [⟨.string, written (.string value), some (.string value), 0⟩] := by
  have quoted : ∃ quote, lead quote = .quote ∧ quote ∉ value.toList ∧
      written (.string value) = String.ofList (quote :: (value.toList ++ [quote])) := by
    have text : ∀ quote, String.singleton quote ++ value ++ String.singleton quote =
        String.ofList (quote :: (value.toList ++ [quote])) := by
      intro quote
      apply String.toList_inj.1
      rw [String.toList_append, String.toList_append, String.toList_ofList,
        String.toList_singleton, List.singleton_append, List.cons_append]
    have shape : written (.string value) = (if '"' ∈ value.toList then "'" else "\"") ++ value ++
        (if '"' ∈ value.toList then "'" else "\"") := rfl
    by_cases double : '"' ∈ value.toList
    · refine ⟨'\'', rfl, h double, ?_⟩
      rw [shape, if_pos double, ← text]
      rfl
    · refine ⟨'"', rfl, double, ?_⟩
      rw [shape, if_neg double, ← text]
      rfl
  obtain ⟨quote, opens, free, text⟩ := quoted
  have value : Token.literalOf? .string (quote :: (value.toList ++ [quote])) =
      some (.string value) := by
    unfold Token.literalOf?
    rw [List.tail_cons, List.dropLast_concat, String.ofList_toList]
  rw [text, ← value]
  exact .one fun rest _ => first_string opens free rest

theorem Writable.spells {value : Literal} (h : value.Writable) :
    Spells Broken value.written [value.token] := by
  cases value with
  | nil => exact Token.plain_spells (by decide : Token.Kind.kwNil ∉ Token.Kind.free)
  | boolean value =>
      cases value with
      | true => exact Token.plain_spells (by decide : Token.Kind.kwTrue ∉ Token.Kind.free)
      | false => exact Token.plain_spells (by decide : Token.Kind.kwFalse ∉ Token.Kind.free)
  | number x =>
      have bound : x.toBits.toNat ≤ infinityBits := h
      show Spells Broken (numberText x) [token (.number x)]
      by_cases finite : x.isFinite = true
      · have half : infinityBits < twoTo 63 := by decide
        rw [token_finite finite]
        exact number_spells ((finite_unsigned_iff x).1 ⟨finite, Nat.lt_of_le_of_lt bound half⟩)
      · have infinite : x.toBits.toNat = infinityBits := by
          by_contra other
          exact finite ((finite_unsigned_iff x).2 (by omega)).1
        have word : Token.Genuine ⟨.identifier, "inf", none, 0⟩ :=
          ⟨"inf", _, rfl, _, List.mem_cons_self, rfl⟩
        rw [token_infinite finite, numberText_infinite infinite]
        exact word.spells (by decide)
  | string value => exact string_spells h

end Literal

/-! ## Names, operators and lists with commas -/

namespace Token

/-- A spelling is cut as the token it is one of before whatever does not go on
with it. -/
theorem Spelled.spells_before {t : Token} (h : t.Spelled) :
    Spells (fun rest => t.goesOn rest = false) t.lexeme [t.respelled] := by
  obtain ⟨literal, lexeme⟩ := h
  obtain ⟨c, cs, spelled⟩ := List.exists_cons_of_ne_nil lexeme.ne_nil
  have text : t.lexeme = String.ofList (c :: cs) := by rw [← spelled, String.ofList_toList]
  have whole : t.respelled = ⟨t.kind, String.ofList (c :: cs), literalOf? t.kind (c :: cs), 0⟩ := by
    rw [respelled, spelled, ← text]
  rw [whole, text]
  refine .one fun rest stops => ?_
  rw [goesOn, spelled] at stops
  rw [spelled] at lexeme
  exact lexeme.first_stops stops

theorem Spelled.spells {t : Token} (h : t.Spelled) : Spells Broken t.lexeme [t.respelled] :=
  h.spells_before.mono fun _ => t.goesOn_broken

theorem separated_spells {α : Type} {text : α → String} {words : α → List Token}
    {items : List α} (h : ∀ a ∈ items, Spells Broken (text a) (words a)) :
    Spells Broken (commaSeparated (items.map text)) (separated (items.map words)) := by
  have between : Spells Free ", " [plain .comma] := .fixed (fun _ => rfl) (by decide)
  unfold commaSeparated
  induction items with
  | nil =>
      rw [List.map_nil, String.intercalate_nil]
      exact .empty
  | cons a items ih =>
      obtain ⟨here, later⟩ := List.forall_mem_cons.1 h
      cases items with
      | nil =>
          rw [List.map_singleton, String.intercalate_singleton]
          exact here
      | cons b items =>
          have apart : separated ((a :: b :: items).map words) =
              words a ++ [plain .comma] ++ separated ((b :: items).map words) := by
            rw [List.append_assoc]
            rfl
          rw [List.map_cons, List.map_cons, String.intercalate_cons_cons, apart]
          exact (here.before between (by decide)).then' (ih later)

end Token

/-! ## Expressions -/

namespace Expr

theorem infixed_spells {text text' : String} {words words' : List Token} {operator : Token}
    (left : Spells Broken text words) (spelled : operator.Spelled)
    (right : Spells Broken text' words') :
    Spells Broken (text ++ " " ++ operator.lexeme ++ " " ++ text')
      (words ++ operator.respelled :: words') := by
  have space : Spells Free " " [] := .fixed (fun _ => rfl) (by decide)
  have upTo := (left.before space (by decide)).then' spelled.spells
  have whole := (upTo.before space (by decide)).then' right
  rw [List.append_nil, List.append_nil, List.append_assoc] at whole
  exact whole

theorem prefixed_spells {operator : Token} {operand : Expr} (spelled : operator.Spelled)
    (apart : operator.Apart operand) (inside : Spells Broken operand.written operand.words) :
    Spells Broken (written (.unary operator operand)) (words (.unary operator operand)) := by
  rw [written, String.append_assoc]
  cases unary : operand.isUnary with
  | true =>
      have space : Spells Free " " [] := .fixed (fun _ => rfl) (by decide)
      refine spelled.spells.before (space.then' inside) ?_
      rw [String.toList_append]
      rfl
  | false =>
      have stops : operator.goesOn operand.written.toList = false :=
        apart.resolve_left (by rw [unary]; exact Bool.false_ne_true)
      have text : (if false = true then " " else "") ++ operand.written = operand.written :=
        String.empty_append
      rw [text]
      exact spelled.spells_before.append inside fun rest => operator.goesOn_append stops

/-- An expression is cut into its words, as long as a break follows. -/
theorem Printable.spells {e : Expr} (h : e.Printable Token.Apart) :
    Spells Broken e.written e.words := by
  induction h with
  | assign name _ value =>
      have equals : Spells Free " = " [.plain .equal] := .fixed (fun _ => rfl) (by decide)
      exact (name.spells.before equals (by decide)).then' value
  | binary _ spelled _ left right | logical _ spelled _ left right =>
      exact infixed_spells left spelled right
  | call _ _ callee arguments =>
      have opens : Spells Free "(" [.plain .leftParen] := .fixed (fun _ => rfl) (by decide)
      have closes : Spells Free ")" [.plain .rightParen] := .fixed (fun _ => rfl) (by decide)
      have inside := Token.separated_spells arguments
      have opened := (callee.before opens (by decide)).then' inside
      have whole := opened.before closes (by decide)
      rw [words, written, writtenAll_eq, wordsAll_eq]
      rw [List.append_assoc _ [_]] at whole
      exact whole.free
  | grouping _ inner =>
      have opens : Spells Free "(" [.plain .leftParen] := .fixed (fun _ => rfl) (by decide)
      have closes : Spells Free ")" [.plain .rightParen] := .fixed (fun _ => rfl) (by decide)
      exact ((opens.then' inner).before closes (by decide)).free
  | literal writable => exact writable.spells
  | unary spelled apart _ inside => exact prefixed_spells spelled apart inside
  | identifier name => exact name.spells

end Expr

/-! ## Statements -/

namespace Stmt

theorem braced_spells {statements : List Stmt}
    (h : ∀ s ∈ statements, Spells Free s.written s.words) :
    Spells Free (braced (writtenAll statements))
      (.plain .leftBrace :: wordsAll statements ++ [.plain .rightBrace]) := by
  have opens : Spells Free "\x7b" [.plain .leftBrace] := .fixed (fun _ => rfl) (by decide)
  have closes : Spells Free " \x7d" [.plain .rightBrace] := .fixed (fun _ => rfl) (by decide)
  have space : Spells Free " " [] := .fixed (fun _ => rfl) (by decide)
  have inside : Spells Free (String.join ((writtenAll statements).map (" " ++ ·)))
      (wordsAll statements) := by
    induction statements with
    | nil => exact .empty
    | cons s statements ih =>
        obtain ⟨here, later⟩ := List.forall_mem_cons.1 h
        rw [writtenAll, wordsAll, List.map_cons, String.join_cons]
        exact (space.then' here).then' (ih later)
  exact (opens.then' inside).then' closes

/-- A statement is cut into its words, whatever follows. -/
theorem Printable.spells {s : Stmt} (h : s.Printable Token.Apart) :
    Spells Free s.written s.words := by
  have ends : Spells Free ";" [.plain .semicolon] := .fixed (fun _ => rfl) (by decide)
  have opensIf : Spells Free "if (" [.plain .kwIf, .plain .leftParen] :=
    .fixed (fun _ => rfl) (by decide)
  have closes : Spells Free ") " [.plain .rightParen] := .fixed (fun _ => rfl) (by decide)
  induction h with
  | block _ inside => exact braced_spells inside
  | expression value => exact value.spells.before ends (by decide)
  | @function name params body named each _ inside =>
      have opens : Spells Free "fun " [.plain .kwFun] := .fixed (fun _ => rfl) (by decide)
      have paren : Spells Free "(" [.plain .leftParen] := .fixed (fun _ => rfl) (by decide)
      have params_spell : Spells Broken (commaSeparated (params.map (·.lexeme)))
          (Token.separated (params.map ([·.respelled]))) :=
        Token.separated_spells fun param member => (each param member).spells
      have opened := (opens.then' named.spells).before paren (by decide)
      have headed := (opened.then' params_spell).before closes (by decide)
      have whole := headed.then' (braced_spells inside)
      rw [List.append_assoc _ [_]] at whole
      rw [words, List.append_assoc]
      exact whole
  | ifThen condition _ thenBranch =>
      have opened := (opensIf.then' condition.spells).before closes (by decide)
      have whole := opened.then' thenBranch
      rw [List.append_assoc _ [_]] at whole
      exact whole
  | ifElse condition _ _ thenBranch elseBranch =>
      have between : Spells Free " else " [.plain .kwElse] := .fixed (fun _ => rfl) (by decide)
      have opened := (opensIf.then' condition.spells).before closes (by decide)
      have whole := ((opened.then' thenBranch).then' between).then' elseBranch
      rw [List.append_assoc _ [_], List.append_assoc _ [_]] at whole
      exact whole
  | print value =>
      have opens : Spells Free "print " [.plain .kwPrint] := .fixed (fun _ => rfl) (by decide)
      exact (opens.then' value.spells).before ends (by decide)
  | @returns keyword value writable =>
      cases value with
      | none =>
          have whole : Spells Free "return;" [.plain .kwReturn, .plain .semicolon] :=
            .fixed (fun _ => rfl) (by decide)
          exact whole
      | some value =>
          have opens : Spells Free "return " [.plain .kwReturn] :=
            .fixed (fun _ => rfl) (by decide)
          exact (opens.then' (writable value rfl).spells).before ends (by decide)
  | var named initial =>
      have opens : Spells Free "var " [.plain .kwVar] := .fixed (fun _ => rfl) (by decide)
      have equals : Spells Free " = " [.plain .equal] := .fixed (fun _ => rfl) (by decide)
      have opened := (opens.then' named.spells).before equals (by decide)
      exact (opened.then' initial.spells).before ends (by decide)
  | whileLoop condition _ body =>
      have opens : Spells Free "while (" [.plain .kwWhile, .plain .leftParen] :=
        .fixed (fun _ => rfl) (by decide)
      have opened := (opens.then' condition.spells).before closes (by decide)
      have whole := opened.then' body
      rw [List.append_assoc _ [_]] at whole
      exact whole

end Stmt

/-! ## Writable trees -/

namespace Token

variable {t : Token} {kind : Kind}

theorem Genuine.spelled (h : t.Genuine) (real : t.kind ≠ .eof) : t.Spelled := ⟨_, h.lexeme real⟩

/-- Scanning makes the same token of that spelling again. -/
theorem Genuine.respelled_eq (h : t.Genuine) (real : t.kind ≠ .eof) : t.respelled = t.unlined := by
  obtain ⟨c, cs, spelled⟩ := List.exists_cons_of_ne_nil (h.lexeme real).ne_nil
  have lexeme := h.lexeme real
  rw [spelled] at lexeme
  rw [respelled, spelled, ← lexeme.first.2]
  rfl

theorem Kind.ne_eof_of_prefix : ∀ {kind : Kind}, kind ∈ [bang, minus] → kind ≠ eof := by decide

theorem Is.spelled (h : t.Is kind) (real : kind ≠ .eof) : t.Spelled := by
  obtain ⟨genuine, rfl⟩ := h
  exact genuine.spelled real

theorem Is.respelled_eq (h : t.Is kind) (real : kind ≠ .eof) : t.respelled = t.unlined := by
  obtain ⟨genuine, rfl⟩ := h
  exact genuine.respelled_eq real

end Token

namespace Expr

theorem Writable.tokens_head {e : Expr} (h : e.Writable) :
    ∃ t ts, e.tokens = t :: ts ∧ t.kind ∉ [Token.Kind.equal, .equalEqual] := by
  have name_head : ∀ {name : Token}, name.Is .identifier →
      name.kind ∉ [Token.Kind.equal, .equalEqual] := by
    intro name is
    rw [is.2]
    decide
  induction h with
  | assign name => exact ⟨_, _, rfl, name_head name⟩
  | binary _ _ _ _ left _ =>
      obtain ⟨t, ts, first, other⟩ := left
      exact ⟨t, _, by rw [tokens, first, List.cons_append], other⟩
  | call _ _ _ callee _ =>
      obtain ⟨t, ts, first, other⟩ := callee
      exact ⟨t, _, by rw [tokens, first, List.cons_append, List.cons_append], other⟩
  | grouping => exact ⟨_, _, rfl, by decide⟩
  | @literal value _ =>
      refine ⟨_, _, rfl, ?_⟩
      cases value with
      | nil => decide
      | boolean value => cases value <;> decide
      | number x =>
          by_cases finite : x.isFinite = true
          · rw [Literal.token_finite finite]
            exact (by decide : Token.Kind.number ∉ [Token.Kind.equal, .equalEqual])
          · rw [Literal.token_infinite finite]
            exact (by decide : Token.Kind.identifier ∉ [Token.Kind.equal, .equalEqual])
      | string value => exact (by decide : Token.Kind.string ∉ [Token.Kind.equal, .equalEqual])
  | logical _ _ _ _ left _ =>
      obtain ⟨t, ts, first, other⟩ := left
      exact ⟨t, _, by rw [tokens, first, List.cons_append], other⟩
  | unary _ prefixing =>
      refine ⟨_, _, rfl, ?_⟩
      intro equal
      generalize Token.kind _ = kind at prefixing equal
      revert kind
      decide
  | identifier name => exact ⟨_, _, rfl, name_head name⟩

theorem Writable.words_eq {e : Expr} (h : e.Writable) : e.words = e.tokens.map Token.unlined := by
  induction h with
  | assign name _ value =>
      rw [words, tokens, List.map_cons, List.map_cons, value, name.respelled_eq (by decide)]
      rfl
  | binary _ genuine real _ left right | logical _ genuine real _ left right =>
      rw [words, tokens, List.map_append, List.map_cons, left, right, genuine.respelled_eq real]
  | call _ _ closing callee arguments =>
      rw [words, tokens, wordsAll_eq, tokensAll_eq, List.map_append, List.map_append,
        List.map_cons, List.map_singleton, closing.plain (by decide), callee,
        Token.separated_unlined, List.map_map, List.map_congr_left arguments]
      rfl
  | grouping _ inner =>
      rw [words, tokens, List.map_append, List.map_cons, inner]
      rfl
  | literal => rw [words, tokens, List.map_singleton, Literal.token_unlined]
  | unary genuine prefixing _ operand =>
      have real := Token.Kind.ne_eof_of_prefix prefixing
      rw [words, tokens, List.map_cons, operand, genuine.respelled_eq real]
  | identifier name => rw [words, tokens, List.map_singleton, name.respelled_eq (by decide)]

/-- The prefix operators `!` and `-` stay apart from a writable operand. -/
theorem Writable.apart {operator : Token} {operand : Expr}
    (prefixing : operator.kind ∈ [Token.Kind.bang, .minus]) (writable : operand.Writable)
    (inside : Spells Broken operand.written operand.words) : operator.Apart operand := by
  obtain ⟨t, ts, first, other⟩ := writable.tokens_head
  rw [writable.words_eq, first, List.map_cons] at inside
  obtain ⟨c, head, unequal⟩ := inside.head broken_nil other
  refine .inr ?_
  unfold Token.goesOn
  rcases List.mem_cons.1 prefixing with bang | minus
  · rw [bang]
    show (operand.written.toList.head? == some '=') = false
    rw [Option.mem_def.1 head, beq_eq_false_iff_ne]
    exact fun same => unequal (Option.some.inj same)
  · rw [List.mem_singleton.1 minus]
    rfl

theorem Writable.printable {e : Expr} (h : e.Writable) : e.Printable Token.Apart := by
  induction h with
  | assign name _ value => exact .assign (name.spelled (by decide)) value
  | binary _ genuine real _ left right => exact .binary left (genuine.spelled real) right
  | call _ _ _ callee arguments => exact .call callee arguments
  | grouping _ inner => exact .grouping inner
  | literal writable => exact .literal writable
  | logical _ genuine real _ left right => exact .logical left (genuine.spelled real) right
  | unary genuine prefixing writable operand =>
      have real := Token.Kind.ne_eof_of_prefix prefixing
      exact .unary (genuine.spelled real) (writable.apart prefixing operand.spells) operand
  | identifier name => exact .identifier (name.spelled (by decide))

end Expr

namespace Stmt

theorem Writable.words_eq {s : Stmt} (h : s.Writable) : s.words = s.tokens.map Token.unlined := by
  have inside : ∀ {ss : List Stmt}, (∀ s ∈ ss, s.words = s.tokens.map Token.unlined) →
      wordsAll ss = (tokensAll ss).map Token.unlined := by
    intro ss each
    rw [wordsAll_eq, tokensAll_eq, List.map_flatMap]
    exact List.flatMap_congr each
  induction h with
  | block _ each => simp [words, tokens, inside each]
  | expression value => simp [words, tokens, value.words_eq]
  | @function name params body named each _ body_each =>
      have same : params.map ([·.respelled]) = (params.map ([·])).map (·.map Token.unlined) := by
        rw [List.map_map]
        refine List.map_congr_left fun param member => ?_
        rw [(each param member).respelled_eq (by decide)]
        rfl
      simp [words, tokens, inside body_each, named.respelled_eq, same, Token.separated_unlined]
  | ifThen condition _ thenBranch => simp [words, tokens, condition.words_eq, thenBranch]
  | ifElse condition _ _ thenBranch elseBranch =>
      simp [words, tokens, condition.words_eq, thenBranch, elseBranch]
  | print value => simp [words, tokens, value.words_eq]
  | @returns keyword value closing writable =>
      cases value with
      | none => simp [words, tokens, closing.plain (by decide)]
      | some value =>
          simp [words, tokens, closing.plain (by decide), (writable value rfl).words_eq]
  | var named initial => simp [words, tokens, named.respelled_eq, initial.words_eq]
  | whileLoop condition _ body => simp [words, tokens, condition.words_eq, body]

theorem Writable.printable {s : Stmt} (h : s.Writable) : s.Printable Token.Apart := by
  induction h with
  | block _ inside => exact .block inside
  | expression value => exact .expression value.printable
  | function named each _ inside =>
      exact .function (named.spelled (by decide))
        (fun param member => (each param member).spelled (by decide)) inside
  | ifThen condition _ thenBranch => exact .ifThen condition.printable thenBranch
  | ifElse condition _ _ thenBranch elseBranch =>
      exact .ifElse condition.printable thenBranch elseBranch
  | print value => exact .print value.printable
  | returns _ writable => exact .returns fun e member => (writable e member).printable
  | var named initial => exact .var (named.spelled (by decide)) initial.printable
  | whileLoop condition _ body => exact .whileLoop condition.printable body

theorem Writable.spells {s : Stmt} (h : s.Writable) :
    Spells Free s.written (s.tokens.map Token.unlined) := by
  rw [← h.words_eq]
  exact h.printable.spells

end Stmt

/-- A program is scanned as its tokens. -/
theorem Program.Writable.scan {program : Program} (h : program.Writable) :
    ∃ scanned, Token.scan program.written = .ok scanned ∧
      scanned.map Token.unlined =
        program.tokens.map Token.unlined ++ [Token.endOfFile 0] := by
  have newline : Spells Free "\n" [] := .fixed (fun _ => rfl) (by decide)
  have whole : Spells Free program.written (program.tokens.map Token.unlined) := by
    unfold Program.written Program.tokens
    induction program with
    | nil => exact .empty
    | cons s program ih =>
        obtain ⟨here, later⟩ := List.forall_mem_cons.1 h
        have line := here.spells.then' newline
        rw [List.append_nil] at line
        rw [List.map_cons, String.join_cons, List.flatMap_cons, List.map_append]
        exact line.then' (ih later)
  exact whole.scan trivial

end Scriptlet
