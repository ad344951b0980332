/-
# The expression rules read the expression grammar

Each rule for expressions has a clean run exactly on the tokens that its symbol
derives, and it reads as many as it can: what follows them is nothing that the
symbol could go on with.  `Longest` says both.  For a symbol, what it could go
on with are its `continuers`, the operators that bind as tight as it does or
tighter and the parenthesis that opens arguments.

The rules for infix operators are one rule, so there is one lemma about them,
which goes from the operand of a rank to the rank.  The levels are the induction:
an expression with `levels + 1` levels to open is an assignment with `levels`.
-/
import Scriptlet.Proofs.Parsing.Grammar
import Scriptlet.Proofs.Parsing.Reads

namespace Scriptlet

open Grammar

namespace Grammar

/-- The kinds of token that begin the text of a symbol. -/
def Symbol.starters : Symbol → List Token.Kind
  | .call | .primary => literalKinds ++ [.identifier, .leftParen]
  | _ => literalKinds ++ [.identifier, .leftParen] ++ [.bang, .minus]

/-- The kinds of token that the text of a symbol could go on with. -/
def Symbol.continuers : Symbol → List Token.Kind
  | .primary => []
  | .call | .unary => [.leftParen]
  | .infixed .multiplication => [.slash, .star, .leftParen]
  | .infixed .addition => [.minus, .plus, .slash, .star, .leftParen]
  | .infixed .comparison =>
      [.greater, .greaterEqual, .less, .lessEqual, .minus, .plus, .slash, .star, .leftParen]
  | .infixed .equality =>
      [.bangEqual, .equalEqual, .greater, .greaterEqual, .less, .lessEqual, .minus, .plus,
       .slash, .star, .leftParen]
  | .infixed .logicAnd =>
      [.kwAnd, .bangEqual, .equalEqual, .greater, .greaterEqual, .less, .lessEqual, .minus,
       .plus, .slash, .star, .leftParen]
  | .infixed .logicOr =>
      [.kwOr, .kwAnd, .bangEqual, .equalEqual, .greater, .greaterEqual, .less, .lessEqual,
       .minus, .plus, .slash, .star, .leftParen]
  | .assignment | .expression =>
      [.equal, .kwOr, .kwAnd, .bangEqual, .equalEqual, .greater, .greaterEqual, .less,
       .lessEqual, .minus, .plus, .slash, .star, .leftParen]

theorem Rank.continuers_eq (rank : Rank) : (Symbol.infixed rank).continuers =
    rank.operators ++ rank.operand.continuers := by
  cases rank <;> rfl

/-- No operator of a rank could go on with its operand. -/
theorem Rank.operator_stops (rank : Rank) :
    ∀ kind ∈ rank.operators, kind ∉ rank.operand.continuers := by
  cases rank <;> decide

/-- The text of a symbol is not empty, and begins in one of a few ways. -/
theorem Derives.starts {levels : Nat} {symbol : Symbol} {tokens : List Token} {e : Expr}
    (h : Derives levels symbol tokens e) :
    ∃ token tail, tokens = token :: tail ∧ token.kind ∈ symbol.starters := by
  induction h with
  | expression _ ih | unassigned _ ih | uncalled _ ih => exact ih
  | assign hk | identifier hk => exact ⟨_, _, rfl, by rw [hk]; decide⟩
  | @operand _ rank _ _ _ ih =>
      obtain ⟨token, tail, rfl, hk⟩ := ih
      refine ⟨token, tail, rfl, ?_⟩
      cases rank <;> exact hk
  | infixed _ _ _ ih =>
      obtain ⟨token, tail, rfl, hk⟩ := ih
      exact ⟨token, _, rfl, hk⟩
  | unprefixed _ ih =>
      obtain ⟨token, tail, rfl, hk⟩ := ih
      exact ⟨token, _, rfl, List.mem_append_left _ hk⟩
  | call _ _ _ _ _ _ ih =>
      obtain ⟨token, tail, rfl, hk⟩ := ih
      exact ⟨token, _, rfl, hk⟩
  | prefixed hk => exact ⟨_, _, rfl, List.mem_append_right _ hk⟩
  | literal hk => exact ⟨_, _, rfl, List.mem_append_left _ hk⟩
  | grouping hk => exact ⟨_, _, rfl, by rw [hk]; decide⟩

/-- The tree of a name is derived from that name alone. -/
theorem Derives.name_alone {levels : Nat} {symbol : Symbol} {tokens : List Token} {name : Token}
    (h : Derives levels symbol tokens (.identifier name)) :
    tokens = [name] ∧ name.kind = .identifier := by
  generalize he : Expr.identifier name = e at h
  induction h with
  | expression _ ih | unassigned _ ih | operand _ ih | unprefixed _ ih | uncalled _ ih =>
      exact ih he
  | identifier hk =>
      cases he
      exact ⟨rfl, hk⟩
  | @infixed _ rank => cases rank <;> cases he
  | assign | prefixed | call | literal | grouping => cases he

/-- What a prefix operator applies to is also an operand of every rank. -/
theorem Derives.ofUnary {levels : Nat} {tokens : List Token} {e : Expr}
    (h : Derives levels .unary tokens e) : Derives levels (.infixed .logicOr) tokens e :=
  have up (rank : Rank) (h : Derives levels rank.operand tokens e) :
      Derives levels (.infixed rank) tokens e := .operand h
  up .logicOr <| up .logicAnd <| up .equality <| up .comparison <| up .addition <|
    up .multiplication h

/-- The three shapes of a primary expression, told apart by its first token. -/
theorem Derives.primary_cases {levels : Nat} {token : Token} {used : List Token} {e : Expr}
    (h : Derives levels .primary (token :: used) e) :
    (token.kind ∈ literalKinds ∧ used = [] ∧
      ∃ value, token.literal = some value ∧ e = .literal value) ∨
    (token.kind = .identifier ∧ used = [] ∧ e = .identifier token) ∨
    (token.kind = .leftParen ∧ ∃ tokens closing inner, used = tokens ++ [closing] ∧
      Derives levels .expression tokens inner ∧ closing.kind = .rightParen ∧
      e = .grouping inner) := by
  cases h with
  | literal hk value => exact .inl ⟨hk, rfl, _, value, rfl⟩
  | identifier hk => exact .inr (.inl ⟨hk, rfl, rfl⟩)
  | grouping hk inner closing => exact .inr (.inr ⟨hk, _, _, _, rfl, inner, closing, rfl⟩)

end Grammar

namespace Parse

/-- The tokens are read as far as `derives` and the text could go on. -/
def Longest {α : Type} (derives : List Token → α → Prop) (continuers : List Token.Kind) :
    Reading α := fun tokens a rest =>
  ∃ used, tokens = used ++ rest ∧ derives used a ∧ Stops continuers rest

/-- What the rule for a symbol reads. -/
def Greedy (levels : Nat) (symbol : Symbol) : Reading Expr :=
  Longest (Derives levels symbol) symbol.continuers

/-! ## Primary expressions -/

/-- The rule for a token that spells a value by itself. -/
def literalValue (token : Token) : Parse Expr :=
  match token.literal with
  | some value => do let _ ← next; pure (.literal value)
  | none => fail .literalMissing

namespace Reads

theorem literalValue {levels : Nat} {token : Token} {tail : List Token}
    (hk : token.kind ∈ literalKinds) :
    ReadsAt (token :: tail) (literalValue token) (Greedy levels .primary (token :: tail)) := by
  unfold Parse.literalValue
  have inverted : ∀ {used e}, Derives levels .primary (token :: used) e → used = [] ∧
      ∃ value, token.literal = some value ∧ e = .literal value := by
    intro used e h
    rcases h.primary_cases with ⟨-, rest⟩ | ⟨other, -⟩ | ⟨other, -⟩
    · exact rest
    · rw [other] at hk
      exact absurd hk (by decide)
    · rw [other] at hk
      exact absurd hk (by decide)
  cases hv : token.literal with
  | some value =>
      refine (next (Reads.pure (Expr.literal value))).congr fun e rest => ⟨?_, ?_⟩
      · rintro ⟨rfl, rfl⟩
        exact ⟨[token], rfl, .literal hk hv, by simp [Stops, Symbol.continuers]⟩
      · rintro ⟨used, same, derived, -⟩
        obtain ⟨first, others, rfl, -⟩ := derived.starts
        cases same
        obtain ⟨rfl, value', hv', rfl⟩ := inverted derived
        cases hv.symm.trans hv'
        exact ⟨rfl, rfl⟩
  | none =>
      refine ((Reads.fail _).onto _).congr fun e rest => ⟨False.elim, ?_⟩
      rintro ⟨used, same, derived, -⟩
      obtain ⟨first, others, rfl, -⟩ := derived.starts
      cases same
      obtain ⟨-, value', hv', -⟩ := inverted derived
      cases hv.symm.trans hv'

/-- The kind of the next token decides what is read as a primary expression. -/
theorem primaryOf {levels : Nat} {expression : Parse Expr}
    (h : Reads expression (Greedy levels .expression)) (token : Token) (tail : List Token) :
    ReadsAt (token :: tail)
      (match token.kind with
        | .kwFalse | .kwTrue | .kwNil | .number | .string => Parse.literalValue token
        | .identifier => do let _ ← Parse.next; Pure.pure (.identifier token)
        | .leftParen => do
          let _ ← Parse.next
          let inner ← expression
          let _ ← Parse.expect .rightParen .groupingNotClosed
          Pure.pure (.grouping inner)
        | _ => Parse.fail .expressionMissing : Parse Expr)
      (Greedy levels .primary (token :: tail)) := by
  split
  case h_1 hk | h_2 hk | h_3 hk | h_4 hk | h_5 hk =>
    exact literalValue (by rw [hk]; decide)
  case h_6 hk =>
    refine (next (Reads.pure (Expr.identifier token))).congr fun e rest => ⟨?_, ?_⟩
    · rintro ⟨rfl, rfl⟩
      exact ⟨[token], rfl, .identifier hk, by simp [Stops, Symbol.continuers]⟩
    · rintro ⟨used, same, derived, -⟩
      obtain ⟨first, others, rfl, -⟩ := derived.starts
      cases same
      rcases derived.primary_cases with ⟨other, -⟩ | ⟨-, rfl, rfl⟩ | ⟨other, -⟩
      · rw [hk] at other
        exact absurd other (by decide)
      · exact ⟨rfl, rfl⟩
      · cases hk.symm.trans other
  case h_7 hk =>
    refine (next (h.bind fun inner =>
      (expect .rightParen .groupingNotClosed).bind fun _ => .pure _)).congr
      fun e rest => ⟨?_, ?_⟩
    · rintro ⟨inner, mid, ⟨tokens, rfl, derived, -⟩, closing, _, ⟨rfl, hk'⟩, rfl, rfl⟩
      exact ⟨token :: tokens ++ [closing], by simp, .grouping hk derived hk',
        by simp [Stops, Symbol.continuers]⟩
    · rintro ⟨used, same, derived, -⟩
      obtain ⟨first, others, rfl, -⟩ := derived.starts
      cases same
      rcases derived.primary_cases with
        ⟨other, -⟩ | ⟨other, -⟩ | ⟨-, tokens, closing, inner, rfl, inside, hk', rfl⟩
      · rw [hk] at other
        exact absurd other (by decide)
      · cases hk.symm.trans other
      · refine ⟨inner, closing :: rest, ⟨tokens, by simp, inside, ?_⟩, closing, rest,
          ⟨rfl, hk'⟩, rfl, rfl⟩
        rw [stops_cons, hk']
        decide
  case h_8 hfalse htrue hnil hnumber hstring hname hparen =>
    refine ((Reads.fail _).onto _).congr fun e rest => ⟨False.elim, ?_⟩
    rintro ⟨used, same, derived, -⟩
    obtain ⟨first, others, rfl, -⟩ := derived.starts
    cases same
    rcases derived.primary_cases with ⟨other, -⟩ | ⟨other, -⟩ | ⟨other, -⟩
    · simp only [literalKinds, List.mem_cons, List.not_mem_nil, or_false] at other
      rcases other with other | other | other | other | other
      · exact hnumber other
      · exact hstring other
      · exact htrue other
      · exact hfalse other
      · exact hnil other
    · exact hname other
    · exact hparen other

theorem primary {levels : Nat} {expression : Parse Expr}
    (h : Reads expression (Greedy levels .expression)) :
    Reads (primary expression) (Greedy levels .primary) := by
  have atEnd : ∀ {rest : List Token} {e}, ¬ Greedy levels .primary [] e rest := by
    rintro rest e ⟨used, same, derived, -⟩
    obtain ⟨token, tail, rfl, -⟩ := derived.starts
    cases same
  refine (Reads.current (primaryOf h) fun line => Reads.fail _).congr fun tokens e rest => ?_
  cases tokens with
  | nil => exact ⟨False.elim, atEnd⟩
  | cons token tail => exact Iff.rfl

end Reads

/-! ## Lists with commas -/

section

variable {α β : Type} {derives : List Token → α → Prop} {continuers : List Token.Kind}

/-- One more item behind a comma, if there may be one more. -/
def nextItem (derives : List Token → α → Prop) (continuers : List Token.Kind) :
    List α → Token → Reading (List α) := fun items _ tokens items' rest =>
  items.length < 255 ∧ ∃ a, Longest derives continuers tokens a rest ∧ items' = items ++ [a]

/-- Rounds of items behind commas read parts with commas between them. -/
theorem Rounds.separated {items items' : List α} {tokens rest : List Token}
    (h : Rounds [.comma] (nextItem derives continuers) items tokens items' rest) :
    ∃ (parts : List (List Token × α)) (inner : List Token), tokens = inner ++ rest ∧
      (∀ part ∈ parts, derives part.1 part.2) ∧
      (∀ first, Separated (first :: parts.map (·.1)) (first ++ inner)) ∧
      items' = items ++ parts.map (·.2) ∧
      (items.length ≤ 255 → items.length + parts.length ≤ 255) := by
  induction h with
  | done _ => exact ⟨[], [], rfl, by simp, fun first => by simpa using .one first, by simp, id⟩
  | @round _ _ _ comma _ _ _ hk step _ ih =>
      obtain ⟨few, a, ⟨used, rfl, derived, -⟩, rfl⟩ := step
      obtain ⟨parts, inner, rfl, each, separated, rfl, bound⟩ := ih
      refine ⟨(used, a) :: parts, comma :: (used ++ inner), by simp,
        List.forall_mem_cons.2 ⟨derived, each⟩, ?_, by simp, ?_⟩
      · intro first
        exact .more (List.mem_singleton.1 hk) (separated used)
      · intro _
        rw [List.length_append, List.length_singleton] at bound
        rw [List.length_cons]
        omega

/-- Parts with commas between them are read by rounds behind the first part. -/
theorem Rounds.ofSeparated (hcomma : Token.Kind.comma ∉ continuers) {rest : List Token}
    (stops : Stops continuers rest) (ends : Stops [.comma] rest) :
    ∀ (parts : List (List Token × α)) (first inner : List Token) (items : List α),
      (∀ part ∈ parts, derives part.1 part.2) → Separated (first :: parts.map (·.1)) inner →
      items.length + parts.length ≤ 255 →
      ∃ others, inner = first ++ others ∧ Stops continuers (others ++ rest) ∧
        Rounds [.comma] (nextItem derives continuers) items (others ++ rest)
          (items ++ parts.map (·.2)) rest := by
  intro parts
  induction parts with
  | nil =>
      rintro first inner items - (_ | _) -
      exact ⟨[], by simp, stops, by simpa using .done ends⟩
  | cons part parts ih =>
      intro first inner items each separated bound
      cases separated with
      | @more _ _ _ comma tokens hk separated =>
          have each' := List.forall_mem_cons.1 each
          obtain ⟨others, rfl, stops', rounds⟩ := ih part.1 tokens (items ++ [part.2]) each'.2
            separated (by simp only [List.length_append, List.length_cons] at bound ⊢; simp; omega)
          refine ⟨comma :: (part.1 ++ others), rfl, ?_, ?_⟩
          · rw [List.cons_append, stops_cons, hk]
            exact hcomma
          · have step : nextItem derives continuers items comma (part.1 ++ others ++ rest)
                (items ++ [part.2]) (others ++ rest) :=
              ⟨by simp only [List.length_cons] at bound; omega, part.2,
                ⟨part.1, by simp, each'.1, stops'⟩, rfl⟩
            have := Rounds.round (List.mem_singleton.2 hk) step rounds
            simpa using this

/-- What a list of items before a closing parenthesis reads, with the
parenthesis. -/
def Listed (derives : List Token → α → Prop) (tokens : List Token) (items : List α)
    (closing : Token) (rest : List Token) : Prop :=
  ∃ (parts : List (List Token × α)) (inner : List Token), tokens = inner ++ closing :: rest ∧
    (∀ part ∈ parts, derives part.1 part.2) ∧ Separated (parts.map (·.1)) inner ∧
    parts.length ≤ 255 ∧ items = parts.map (·.2) ∧ closing.kind = .rightParen

namespace Reads

theorem separated {item : Parse α} (h : Reads item (Longest derives continuers))
    (tooMany : SyntaxError.Cause) :
    Reads (separated item tooMany) fun tokens items rest => ∃ first mid,
      Longest derives continuers tokens first mid ∧
        Rounds [.comma] (nextItem derives continuers) [first] mid items rest := by
  have another : ∀ items : List α, Reads (do Pure.pure (items ++ [← item]) : Parse (List α))
      fun tokens items' rest => ∃ a, Longest derives continuers tokens a rest ∧
        items' = items ++ [a] :=
    fun items c hc => (h c hc).map fun a => items ++ [a]
  refine h.bind fun first => chain _ (fun items comma => ?_) _
  by_cases full : maxArguments ≤ items.length
  · simp only [if_pos full]
    have reported : Reads (do
        Parse.record tooMany (← Parse.current)
        Pure.pure (items ++ [← item]) : Parse (List α)) fun _ _ _ => False := by
      intro c hc
      show Outcome c _ ((Parse.record tooMany c.current >>= fun _ =>
        (do Pure.pure (items ++ [← item]) : Parse (List α))) c)
      exact recorded _ _ (another items) c hc
    refine reported.congr fun tokens items' rest => ⟨False.elim, ?_⟩
    rintro ⟨few, -⟩
    unfold maxArguments at full
    omega
  · simp only [if_neg full]
    refine (another items).congr fun tokens items' rest => ?_
    have few : items.length < 255 := by
      unfold maxArguments at full
      omega
    simp [nextItem, few]

/-- A list up to its closing parenthesis, and what comes after. -/
theorem listed {item : Parse α} (h : Reads item (Longest derives continuers))
    (starts : ∀ used a, derives used a → ∃ token tail, used = token :: tail ∧
      token.kind ≠ .rightParen)
    (hcomma : Token.Kind.comma ∉ continuers) (hparen : Token.Kind.rightParen ∉ continuers)
    (tooMany cause : SyntaxError.Cause) {then' : List α → Token → Parse β}
    {spec : List α → Token → Reading β}
    (h' : ∀ items closing, Reads (then' items closing) (spec items closing)) :
    Reads (do
        let items ← Parse.listed item tooMany
        let closing ← Parse.expect .rightParen cause
        then' items closing) fun tokens b rest => ∃ items closing mid,
      Listed derives tokens items closing mid ∧ spec items closing mid b rest := by
  have list : Reads (Parse.listed item tooMany) _ :=
    check .rightParen (.pure []) (separated h tooMany) (by decide)
  refine (list.bind fun items => (expect .rightParen cause).bind (h' items)).congr
    fun tokens b rest => ⟨?_, ?_⟩
  · rintro ⟨items, _, one, closing, mid, ⟨rfl, hk⟩, after⟩
    refine ⟨items, closing, mid, ?_, after⟩
    rcases one with ⟨_, _, rfl, -, rfl, same⟩ | ⟨-, first, _, ⟨used, rfl, derived, -⟩, rounds⟩
    · cases same
      exact ⟨[], [], rfl, by simp, .none, by simp, rfl, hk⟩
    · obtain ⟨parts, inner, rfl, each, separated, rfl, bound⟩ := rounds.separated
      refine ⟨(used, first) :: parts, used ++ inner, by simp,
        List.forall_mem_cons.2 ⟨derived, each⟩, separated used, ?_, by simp, hk⟩
      have := bound (by simp)
      rw [List.length_singleton] at this
      rw [List.length_cons]
      omega
  · rintro ⟨_, closing, mid, ⟨parts, inner, rfl, each, separated, bound, rfl, hk⟩, after⟩
    refine ⟨_, closing :: mid, ?_, closing, mid, ⟨rfl, hk⟩, after⟩
    cases parts with
    | nil =>
        cases separated
        exact .inl ⟨closing, mid, rfl, hk, rfl, rfl⟩
    | cons part parts =>
        have each' := List.forall_mem_cons.1 each
        have stops : Stops continuers (closing :: mid) := by
          rw [stops_cons, hk]
          exact hparen
        have ends : Stops [.comma] (closing :: mid) := by
          rw [stops_cons, hk]
          decide
        have few : [part.2].length + parts.length ≤ 255 := by
          rw [List.length_cons] at bound
          rw [List.length_singleton]
          omega
        obtain ⟨others, rfl, stops', rounds⟩ := Rounds.ofSeparated hcomma stops ends parts part.1
          inner [part.2] each'.2 separated few
        refine .inr ⟨?_, part.2, others ++ closing :: mid, ⟨part.1, by simp, each'.1, stops'⟩,
          by simpa using rounds⟩
        obtain ⟨token, tail, same, other⟩ := starts _ _ each'.1
        rw [same, List.cons_append, List.cons_append, stops_cons]
        simpa using other

end Reads

end

/-! ## Operators and calls -/

section

variable {α : Type}

/-- A base and behind it any number of tails, each of which begins with a wanted
token and extends what has been built before it. -/
inductive Extended (base : List Token → α → Prop) (wanted : List Token.Kind)
    (tail : α → Token → List Token → α → Prop) : List Token → α → Prop
  | base {tokens : List Token} {a : α} : base tokens a → Extended base wanted tail tokens a
  | extend {tokens tokens' : List Token} {token : Token} {a b : α} :
      Extended base wanted tail tokens a → token.kind ∈ wanted → tail a token tokens' b →
      Extended base wanted tail (tokens ++ token :: tokens') b

variable {base : List Token → α → Prop} {wanted continuers : List Token.Kind}
  {tail : α → Token → List Token → α → Prop}

theorem Rounds.extended {a b : α} {tokens rest : List Token}
    (h : Rounds wanted (fun a token => Longest (tail a token) continuers) a tokens b rest) :
    ∀ used, Extended base wanted tail used a → Stops continuers tokens →
      ∃ more, tokens = more ++ rest ∧ Extended base wanted tail (used ++ more) b ∧
        Stops (wanted ++ continuers) rest := by
  induction h with
  | done stops =>
      intro used sofar stops'
      refine ⟨[], rfl, by simpa using sofar, fun token head => ?_⟩
      rw [List.mem_append, not_or]
      exact ⟨stops token head, stops' token head⟩
  | @round _ _ _ token _ _ _ hk step _ ih =>
      intro used sofar _
      obtain ⟨part, rfl, built, stops⟩ := step
      obtain ⟨more, rfl, whole, stops'⟩ := ih _ (.extend sofar hk built) stops
      exact ⟨token :: (part ++ more), by simp, by simpa using whole, stops'⟩

theorem Extended.rounds (disjoint : ∀ kind ∈ wanted, kind ∉ continuers) {used : List Token}
    {a : α} (h : Extended base wanted tail used a) :
    ∀ rest b rest', Stops continuers rest →
      Rounds wanted (fun a token => Longest (tail a token) continuers) a rest b rest' →
      ∃ first mid, Longest base continuers (used ++ rest) first mid ∧
        Rounds wanted (fun a token => Longest (tail a token) continuers) first mid b rest' := by
  induction h with
  | @base tokens a derived =>
      intro rest b rest' stops rounds
      exact ⟨a, rest, ⟨tokens, rfl, derived, stops⟩, rounds⟩
  | @extend tokens tokens' token _ _ _ hk built ih =>
      intro rest b rest' stops rounds
      rw [List.append_assoc, List.cons_append]
      refine ih _ b rest' ?_ (.round hk ⟨tokens', rfl, built, stops⟩ rounds)
      rw [stops_cons]
      exact disjoint _ hk

/-- Left recursion is read by a loop. -/
theorem Reads.extended {first : Parse α} {step : α → Token → Parse α}
    (h : Reads first (Longest base continuers))
    (h' : ∀ a token, Reads (step a token) (Longest (tail a token) continuers))
    (disjoint : ∀ kind ∈ wanted, kind ∉ continuers) :
    Reads (first >>= Parse.chain wanted step)
      (Longest (Extended base wanted tail) (wanted ++ continuers)) := by
  refine (h.bind fun a => chain wanted h' a).congr fun tokens b rest => ⟨?_, ?_⟩
  · rintro ⟨a, _, ⟨used, rfl, derived, stops⟩, rounds⟩
    obtain ⟨more, rfl, whole, stops'⟩ := rounds.extended used (.base derived) stops
    exact ⟨used ++ more, by simp, whole, stops'⟩
  · rintro ⟨used, rfl, whole, stops⟩
    exact whole.rounds disjoint rest b rest
      (stops.mono (List.subset_append_right _ _))
      (.done (stops.mono (List.subset_append_left _ _)))

end

/-- The operator's right operand and the node it makes. -/
def infixTail (levels : Nat) (rank : Rank) (left : Expr) (operator : Token)
    (tokens : List Token) (e : Expr) : Prop :=
  ∃ right, Derives levels rank.operand tokens right ∧ e = rank.node left operator right

/-- The arguments of a call, its closing parenthesis and the node they make. -/
def callTail (levels : Nat) (callee : Expr) (_ : Token) (tokens : List Token) (e : Expr) :
    Prop :=
  ∃ arguments closing, Listed (Derives levels .expression) tokens arguments closing [] ∧
    e = .call callee closing arguments

theorem derives_infixed_iff {levels : Nat} {rank : Rank} {tokens : List Token} {e : Expr} :
    Derives levels (.infixed rank) tokens e ↔
      Extended (Derives levels rank.operand) rank.operators (infixTail levels rank) tokens e := by
  constructor
  · intro h
    generalize hs : Symbol.infixed rank = symbol at h
    induction h with
    | operand derived =>
        cases hs
        exact .base derived
    | infixed _ hk right ih =>
        cases hs
        exact .extend (ih rfl) hk ⟨_, right, rfl⟩
    | _ => cases hs
  · intro h
    induction h with
    | base derived => exact .operand derived
    | extend _ hk built ih =>
        obtain ⟨right, derived, rfl⟩ := built
        exact .infixed ih hk derived

theorem derives_call_iff {levels : Nat} {tokens : List Token} {e : Expr} :
    Derives levels .call tokens e ↔
      Extended (Derives levels .primary) [.leftParen] (callTail levels) tokens e := by
  constructor
  · intro h
    generalize hs : Symbol.call = symbol at h
    induction h with
    | uncalled derived => exact .base derived
    | @call _ tokens inner opening closing _ arguments _ hk each separated bound hk' ih =>
        rw [List.append_assoc, List.cons_append]
        exact .extend (ih rfl) (List.mem_singleton.2 hk)
          ⟨_, closing, ⟨arguments, inner, rfl, each, separated, bound, rfl, hk'⟩, rfl⟩
    | _ => cases hs
  · intro h
    induction h with
    | base derived => exact .uncalled derived
    | extend _ hk built ih =>
        obtain ⟨_, closing, ⟨parts, inner, rfl, each, separated, bound, rfl, hk'⟩, rfl⟩ := built
        have := Derives.call ih (List.mem_singleton.1 hk) each separated bound hk'
        rwa [List.append_assoc, List.cons_append] at this

/-- What the rule for assignments reads behind a target. -/
def afterTarget (levels : Nat) (target : Expr) : Reading Expr := fun tokens e rest =>
  (∃ equals tail, tokens = equals :: tail ∧ equals.kind ∈ [Token.Kind.equal] ∧
    ∃ value mid, Greedy levels .assignment tail value mid ∧
      ∃ name, target = .identifier name ∧ e = .assign name value ∧ rest = mid) ∨
  (Stops [.equal] tokens ∧ e = target ∧ rest = tokens)

theorem greedy_assignment_iff {levels : Nat} {tokens rest : List Token} {e : Expr} :
    Greedy levels .assignment tokens e rest ↔ ∃ target mid,
      Greedy levels (.infixed .logicOr) tokens target mid ∧
        afterTarget levels target mid e rest := by
  constructor
  · rintro ⟨used, rfl, derived, stops⟩
    cases derived with
    | @assign _ name equals tokens value hk hk' derived =>
        refine ⟨.identifier name, equals :: (tokens ++ rest),
          ⟨[name], rfl, .ofUnary (.unprefixed (.uncalled (.identifier hk))), ?_⟩,
          .inl ⟨equals, _, rfl, List.mem_singleton.2 hk', value, rest,
            ⟨tokens, rfl, derived, stops⟩, name, rfl, rfl, rfl⟩⟩
        rw [stops_cons, hk']
        decide
    | unassigned derived =>
        exact ⟨e, rest, ⟨used, rfl, derived, stops.mono (List.subset_cons_self _ _)⟩,
          .inr ⟨stops.mono (by simp [Symbol.continuers]), rfl, rfl⟩⟩
  · rintro ⟨target, _, ⟨used, rfl, derived, stops⟩, after⟩
    rcases after with
      ⟨equals, _, rfl, hk', value, _, ⟨tokens, rfl, derived', stops'⟩, name, rfl, rfl, rfl⟩ |
      ⟨stops', rfl, rfl⟩
    · obtain ⟨rfl, hk⟩ := derived.name_alone
      exact ⟨name :: equals :: tokens, rfl, .assign hk (List.mem_singleton.1 hk') derived',
        stops'⟩
    · refine ⟨used, rfl, .unassigned derived, fun token head => ?_⟩
      intro here
      rcases List.mem_cons.1 here with here | here
      · exact stops' token head (List.mem_singleton.2 here)
      · exact stops token head here

namespace Reads

theorem call {levels : Nat} {expression : Parse Expr}
    (h : Reads expression (Greedy levels .expression)) :
    Reads (call expression) (Greedy levels .call) := by
  have starts : ∀ used e, Derives levels .expression used e →
      ∃ token tail, used = token :: tail ∧ token.kind ≠ .rightParen := by
    intro used e derived
    obtain ⟨token, tail, rfl, hk⟩ := derived.starts
    refine ⟨token, tail, rfl, fun same => ?_⟩
    rw [same] at hk
    exact absurd hk (by decide)
  have step : ∀ (callee : Expr) (_ : Token), Reads (do
      let arguments ← Parse.listed expression .tooManyArguments
      let paren ← Parse.expect .rightParen .argumentsNotClosed
      Pure.pure (.call callee paren arguments) : Parse Expr)
      (Longest (callTail levels callee ‹Token›) []) := by
    intro callee _
    refine (listed h starts (by decide) (by decide) .tooManyArguments .argumentsNotClosed
      fun arguments paren => .pure _).congr fun tokens e rest => ⟨?_, ?_⟩
    · rintro ⟨arguments, closing, _, ⟨parts, inner, rfl, read⟩, rfl, rfl⟩
      exact ⟨inner ++ [closing], by simp, ⟨arguments, closing, ⟨parts, inner, rfl, read⟩, rfl⟩,
        by simp [Stops]⟩
    · rintro ⟨_, rfl, ⟨arguments, closing, ⟨parts, inner, rfl, read⟩, rfl⟩, -⟩
      exact ⟨arguments, closing, rest, ⟨parts, inner, by simp, read⟩, rfl, rfl⟩
  refine ((primary h).extended step (by decide)).congr fun tokens e rest => ?_
  simp only [Greedy, Longest, derives_call_iff]
  rfl

/-- A rank is read if its operand is. -/
theorem infixed {levels : Nat} (rank : Rank) {operand : Parse Expr} {tighter : List Level}
    (h : Reads (infixed operand tighter) (Greedy levels rank.operand)) :
    Reads (Parse.infixed operand (⟨rank.operators, rank.node⟩ :: tighter))
      (Greedy levels (.infixed rank)) := by
  have step : ∀ left operator, Reads
      (do Pure.pure (rank.node left operator (← Parse.infixed operand tighter)) : Parse Expr)
      (Longest (infixTail levels rank left operator) rank.operand.continuers) := by
    refine fun left operator => ((h.map (rank.node left operator))).congr
      fun tokens e rest => ⟨?_, ?_⟩
    · rintro ⟨right, ⟨used, rfl, derived, stops⟩, rfl⟩
      exact ⟨used, rfl, ⟨right, derived, rfl⟩, stops⟩
    · rintro ⟨used, rfl, ⟨right, derived, rfl⟩, stops⟩
      exact ⟨right, ⟨used, rfl, derived, stops⟩, rfl⟩
  refine (extended h step rank.operator_stops).congr fun tokens e rest => ?_
  simp only [Greedy, Longest, derives_infixed_iff, rank.continuers_eq]

theorem infixLevels {levels : Nat} {operand : Parse Expr}
    (h : Reads operand (Greedy levels .unary)) :
    Reads (Parse.infixed operand infixLevels) (Greedy levels (.infixed .logicOr)) :=
  infixed .logicOr <| infixed .logicAnd <| infixed .equality <| infixed .comparison <|
    infixed .addition <| infixed .multiplication h

/-- The node of an assignment, for a target that is a name. -/
theorem assigned (target value : Expr) (equals : Token) :
    Reads (match target with
      | .identifier name => Pure.pure (.assign name value)
      | _ => do
        Parse.record .invalidAssignmentTarget equals
        Pure.pure target : Parse Expr)
      fun tokens e rest =>
        ∃ name, target = .identifier name ∧ e = .assign name value ∧ rest = tokens := by
  split
  case h_1 name =>
      refine (Reads.pure (Expr.assign name value)).congr fun tokens e rest => ⟨?_, ?_⟩
      · rintro ⟨rfl, rfl⟩
        exact ⟨name, rfl, rfl, rfl⟩
      · rintro ⟨_, same, rfl, rfl⟩
        cases same
        exact ⟨rfl, rfl⟩
  case h_2 noName =>
      refine (recorded _ equals (.pure target)).congr fun tokens e rest => ⟨False.elim, ?_⟩
      rintro ⟨name, same, -⟩
      exact noName name same

/-- What follows the target of an assignment, if one of at most so many more
rounds can be read. -/
theorem assignmentTail {levels rounds : Nat} {operand : Parse Expr} {c : Cursor}
    (h : ∀ c : Cursor, c.rest.length ≤ c.size → c.rest.length ≤ rounds →
      Outcome c (Greedy levels .assignment c.rest) (Parse.assignmentWithin operand rounds c))
    (bounded : c.rest.length ≤ c.size) (enough : c.rest.length ≤ rounds + 1) (target : Expr) :
    Outcome c (afterTarget levels target c.rest)
      ((do
        match ← Parse.accept? [.equal] with
        | none => Pure.pure target
        | some equals =>
          let value ← Parse.assignmentWithin operand rounds
          match target with
          | .identifier name => Pure.pure (.assign name value)
          | _ => do
            Parse.record .invalidAssignmentTarget equals
            Pure.pure target : Parse Expr) c) := by
  refine Outcome.accept? (fun equals tail hrest _ leads => ?_) (Outcome.pure target c)
  have bounded' := leads.bounded bounded
  have enough' : (c.facing tail).rest.length ≤ rounds := by
    rw [hrest, List.length_cons] at enough
    rw [Cursor.facing_rest]
    omega
  exact (h _ bounded' enough').bind
    (fun value c' _ leads' => (assigned target value equals c' (leads'.bounded bounded')).moves)
    fun value mid _ leads' => assigned target value equals _ (leads'.bounded bounded')

theorem assignmentWithin {levels : Nat} {operand : Parse Expr}
    (h : Reads operand (Greedy levels .unary)) :
    ∀ rounds c, c.rest.length ≤ c.size → c.rest.length ≤ rounds →
      Outcome c (Greedy levels .assignment c.rest) (assignmentWithin operand rounds c)
  | 0, c, hc, enough => by
      have last : c.rest = [] := List.eq_nil_of_length_eq_zero (by omega)
      have nothing : ∀ {symbol e rest}, ¬ Greedy levels symbol [] e rest := by
        rintro symbol e rest ⟨used, same, derived, -⟩
        obtain ⟨token, tail, rfl, -⟩ := derived.starts
        cases same
      refine (infixLevels h c hc).congr fun e rest => ?_
      rw [last]
      exact ⟨fun read => (nothing read).elim, fun read => (nothing read).elim⟩
  | rounds + 1, c, hc, enough => by
      have after : ∀ target c', c.Leads c' → Outcome c' (afterTarget levels target c'.rest) _ :=
        fun target c' leads => assignmentTail (assignmentWithin h rounds) (leads.bounded hc)
          (Nat.le_trans leads.rest.length_le enough) target
      exact ((infixLevels h c hc).bind (fun target c' _ leads => (after target c' leads).moves)
        fun target mid _ leads => after target _ leads).congr
        fun e rest => greedy_assignment_iff.symm

theorem assignment {levels : Nat} {operand : Parse Expr}
    (h : Reads operand (Greedy levels .unary)) :
    Reads (assignment operand) (Greedy levels .assignment) :=
  fun c hc => assignmentWithin h c.size c hc hc

theorem prefixed {levels : Nat} {operand expression : Parse Expr}
    (h : Reads operand fun tokens e rest =>
      ∃ below, levels = below + 1 ∧ Greedy below .unary tokens e rest)
    (h' : Reads expression (Greedy levels .expression)) :
    Reads (prefixed operand expression) (Greedy levels .unary) := by
  refine (accept? [.bang, .minus] (fun operator _ => h.map (Expr.unary operator)) (call h')).congr
    fun tokens e rest => ⟨?_, ?_⟩
  · rintro (⟨operator, _, rfl, hk, _, ⟨below, rfl, used, rfl, derived, stops⟩, rfl⟩ |
      ⟨-, used, rfl, derived, stops⟩)
    · exact ⟨operator :: used, rfl, .prefixed hk derived, stops⟩
    · exact ⟨used, rfl, .unprefixed derived, stops⟩
  · rintro ⟨used, rfl, derived, stops⟩
    cases derived with
    | prefixed hk derived =>
        exact .inl ⟨_, _, rfl, hk, _, ⟨_, rfl, _, rfl, derived, stops⟩, rfl⟩
    | unprefixed derived =>
        refine .inr ⟨?_, used, rfl, derived, stops⟩
        obtain ⟨token, tail, rfl, hk⟩ := derived.starts
        rw [List.cons_append, stops_cons]
        intro prefixes
        have disjoint : ∀ kind ∈ Symbol.starters .call, kind ∉ [Token.Kind.bang, .minus] := by
          decide
        exact disjoint _ hk prefixes

theorem noExpression : Reads (Parse.fail .expressionTooDeep) (Greedy 0 .expression) := by
  refine (Reads.fail _).congr fun tokens e rest => ⟨False.elim, ?_⟩
  rintro ⟨used, rfl, derived, -⟩
  cases derived

/-- An expression opens a level. -/
theorem deeper {levels : Nat} {operand : Parse Expr}
    (h : Reads operand (Greedy levels .unary)) :
    Reads (Parse.assignment operand) (Greedy (levels + 1) .expression) := by
  refine (assignment h).congr fun tokens e rest => ⟨?_, ?_⟩
  · rintro ⟨used, rfl, derived, stops⟩
    exact ⟨used, rfl, .expression derived, stops⟩
  · rintro ⟨used, rfl, derived, stops⟩
    cases derived with
    | expression derived => exact ⟨used, rfl, derived, stops⟩

/-- Operands are read as the grammar has them, at every number of levels. -/
theorem operand : ∀ levels, Reads (operand levels) (Greedy levels .unary)
  | 0 => by
      refine prefixed ((Reads.fail _).congr fun tokens e rest => ⟨False.elim, ?_⟩) noExpression
      rintro ⟨below, impossible, -⟩
      cases impossible
  | levels + 1 => by
      refine prefixed ((operand levels).congr fun tokens e rest => ⟨?_, ?_⟩)
        (deeper (operand levels))
      · exact fun read => ⟨levels, rfl, read⟩
      · rintro ⟨below, same, read⟩
        cases same
        exact read

/-- Expressions are read as the grammar has them. -/
theorem expression : ∀ levels, Reads (expression levels) (Greedy levels .expression)
  | 0 => noExpression
  | levels + 1 => deeper (operand levels)

end Reads

end Parse

end Scriptlet
