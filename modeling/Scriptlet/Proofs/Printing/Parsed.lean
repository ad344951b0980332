/-
# Trees that were parsed

A tree that the grammar derives has the shape of the grammar, whatever the
tokens are, also where a `for` was read as the loop that it means.  And if
scanning made the tokens, the tree can be written: its tokens are among them,
and the literals that they carry have a spelling.
-/
import Scriptlet.Proofs.Decimal.Bits
import Scriptlet.Proofs.Printing.Shape

namespace Scriptlet

open Grammar Piece

/-! ## Literals -/

theorem Decimal.bits_le (d : Decimal) : d.bits ≤ infinityBits := Nat.min_le_right _ _

/-- A string literal does not hold the quote that it stands between. -/
theorem Piece.quote_not_mem {c : Char} {before tail : List Char}
    (h : stringPiece c before = ⟨.token .string, c :: tail⟩) : c ∉ tail.dropLast := by
  unfold stringPiece at h
  split at h
  · cases h
  · injection h with _ chars
    injection chars with _ chars
    rw [← chars, List.dropLast_concat]
    intro member
    have other := List.mem_takeWhile_imp member
    rw [bne_self_eq_false] at other
    cases other

/-- Only a quote opens a string. -/
theorem Piece.lead_of_string {c : Char} {before cs : List Char}
    (h : first c before = ⟨.token .string, cs⟩) : lead c = .quote := by
  unfold first at h
  cases hl : lead c with
  | quote => rfl
  | sign kind =>
      have spelled := Token.spelling_of_sign hl
      rw [hl] at h
      cases h
      exact absurd spelled (Token.spelling_eof_ne _ _)
  | operator alone withEqual =>
      obtain ⟨spelled, spelled'⟩ := Token.spelling_of_operator hl
      rw [hl] at h
      dsimp only at h
      split at h
      · cases h
        exact absurd spelled' (Token.spelling_eof_ne _ _)
      · cases h
        exact absurd spelled (Token.spelling_eof_ne _ _)
  | slash =>
      rw [hl] at h
      dsimp only at h
      unfold slashPiece at h
      split at h <;> cases h
  | letter =>
      rw [hl] at h
      dsimp only at h
      unfold wordPiece at h
      injection h with shape
      injection shape with word
      have reserved : Token.Kind.ofWord (String.ofList (c :: before.takeWhile isWordChar)) ≠
          .identifier := by
        rw [word]
        decide
      have spelled := Token.spelling_of_word reserved
      rw [word] at spelled
      exact absurd spelled (Token.spelling_eof_ne _ _)
  | digit | blank | other =>
      rw [hl] at h
      cases h

/-- A literal that scanning made has a spelling. -/
theorem Token.Genuine.literal_writable {t : Token} {value : Literal} (h : t.Genuine)
    (kind : t.kind ∈ literalKinds) (carries : t.literal = some value) : value.Writable := by
  have real : t.kind ≠ .eof := by
    intro eof
    rw [eof] at kind
    exact absurd kind (by decide)
  obtain ⟨c, tail, before, piece, same⟩ := h.first real
  have value_eq : Token.literalOf? t.kind (c :: tail) = some value := by
    rw [← carries, ← t.unlined_literal, same]
  cases value with
  | nil | boolean => trivial
  | number x =>
      have number : x = (Decimal.ofChars (c :: tail)).toFloat := by
        unfold Token.literalOf? at value_eq
        split at value_eq <;> cases value_eq
        rfl
      show x.toBits.toNat ≤ infinityBits
      rw [number]
      unfold Decimal.toFloat
      rw [toNat_toBits_ofBits (Decimal.bits_le _)]
      exact Decimal.bits_le _
  | string text =>
      have string : t.kind = .string ∧ text.toList = tail.dropLast := by
        unfold Token.literalOf? at value_eq
        split at value_eq <;> cases value_eq
        rename_i is
        exact ⟨is, String.toList_ofList⟩
      obtain ⟨is, inside⟩ := string
      rw [is] at piece
      have quote := lead_of_string piece
      unfold Piece.first at piece
      rw [quote] at piece
      have free := quote_not_mem piece
      rw [← inside] at free
      have quotes : c = '"' ∨ c = '\'' := by simpa using lead_quote quote
      intro double
      rcases quotes with rfl | rfl
      · exact absurd double free
      · exact free

namespace Grammar

/-! ## Expressions -/

theorem Derives.fits {levels : Nat} {symbol : Symbol} {tokens : List Token} {e : Expr}
    (h : Derives levels symbol tokens e) : Fits symbol e := by
  induction h with
  | expression _ ih => exact .expression ih
  | assign _ _ _ ih => exact .assign ih
  | unassigned _ ih => exact .unassigned ih
  | operand _ ih => exact .operand ih
  | infixed _ member _ ihLeft ihRight => exact .infixed ihLeft member ihRight
  | prefixed member _ ih => exact .prefixed member ih
  | unprefixed _ ih => exact .unprefixed ih
  | call _ _ _ _ few _ ih ihs =>
      refine .call ih ?_ (by rwa [List.length_map])
      intro e listed
      obtain ⟨argument, member, rfl⟩ := List.mem_map.1 listed
      exact ihs argument member
  | uncalled _ ih => exact .uncalled ih
  | literal => exact .literal
  | identifier => exact .identifier
  | grouping _ _ _ ih => exact .grouping ih

theorem Separated.mem {parts : List (List Token)} {tokens : List Token}
    (h : Separated parts tokens) : ∀ part ∈ parts, ∀ t ∈ part, t ∈ tokens := by
  induction h with
  | none =>
      intro part listed
      cases listed
  | one part =>
      intro part' listed t member
      rwa [List.mem_singleton.1 listed] at member
  | more _ _ ih =>
      intro part' listed t member
      rcases List.mem_cons.1 listed with rfl | later
      · exact List.mem_append_left _ member
      · exact List.mem_append_right _ (List.mem_cons_of_mem _ (ih part' later t member))

theorem Rank.operator_ne_eof {rank : Rank} {kind : Token.Kind} (h : kind ∈ rank.operators) :
    kind ≠ .eof := by
  rintro rfl
  cases rank <;> exact absurd h (by decide)

theorem Derives.writable {levels : Nat} {symbol : Symbol} {tokens : List Token} {e : Expr}
    (h : Derives levels symbol tokens e) : (∀ t ∈ tokens, t.Genuine) → e.Writable := by
  induction h with
  | expression _ ih | unassigned _ ih | operand _ ih | unprefixed _ ih | uncalled _ ih => exact ih
  | assign name _ _ ih =>
      intro genuine
      obtain ⟨nameGenuine, genuine⟩ := List.forall_mem_cons.1 genuine
      exact .assign ⟨nameGenuine, name⟩ (ih (List.forall_mem_cons.1 genuine).2)
  | @infixed levels rank _ _ operator left right _ member _ ihLeft ihRight =>
      intro genuine
      obtain ⟨leftGenuine, genuine⟩ := List.forall_mem_append.1 genuine
      obtain ⟨operatorGenuine, rightGenuine⟩ := List.forall_mem_cons.1 genuine
      exact (rank.node_writable left right operator).2 ⟨ihLeft leftGenuine, operatorGenuine,
        Rank.operator_ne_eof member, ihRight rightGenuine⟩
  | prefixed member _ ih =>
      intro genuine
      obtain ⟨operatorGenuine, genuine⟩ := List.forall_mem_cons.1 genuine
      exact .unary operatorGenuine member (ih genuine)
  | call _ _ _ separated _ closing ih ihs =>
      intro genuine
      obtain ⟨genuine, closingGenuine⟩ := List.forall_mem_append.1 genuine
      obtain ⟨calleeGenuine, genuine⟩ := List.forall_mem_append.1 genuine
      have insideGenuine := (List.forall_mem_cons.1 genuine).2
      refine .call (ih calleeGenuine) ?_ ⟨closingGenuine _ List.mem_cons_self, closing⟩
      intro e listed
      obtain ⟨argument, member, rfl⟩ := List.mem_map.1 listed
      refine ihs argument member fun t inPart => insideGenuine t ?_
      exact separated.mem argument.1 (List.mem_map_of_mem member) t inPart
  | literal kind carries =>
      intro genuine
      exact .literal ((genuine _ List.mem_cons_self).literal_writable kind carries)
  | identifier name =>
      intro genuine
      exact .identifier ⟨genuine _ List.mem_cons_self, name⟩
  | grouping _ _ _ ih =>
      intro genuine
      obtain ⟨genuine, -⟩ := List.forall_mem_append.1 genuine
      exact .grouping (ih (List.forall_mem_cons.1 genuine).2)

/-! ## Clauses -/

section

variable {levels : Nat} {tokens : List Token}

theorem Fits.ofPrimary {e : Expr} (h : Fits .primary e) : Fits .expression e := by
  have unary : Fits .unary e := .unprefixed (.uncalled h)
  have equality : Fits (.infixed .equality) e :=
    .operand (.operand (.operand (.operand unary)))
  exact .expression (.unassigned (.operand (.operand equality)))

theorem VarDecl.fits {s : Stmt} (h : VarDecl levels tokens s) (inFunction : Bool) :
    FitsStmt inFunction .declaration s := by
  cases h with
  | plain => exact .var (.ofPrimary .literal)
  | initialized _ _ _ derived => exact .var derived.fits

theorem VarDecl.writable {s : Stmt} (h : VarDecl levels tokens s)
    (genuine : ∀ t ∈ tokens, t.Genuine) : s.Writable := by
  cases h with
  | plain _ name =>
      have nameGenuine := genuine _ (List.mem_cons_of_mem _ List.mem_cons_self)
      exact .var ⟨nameGenuine, name⟩ (.literal trivial)
  | initialized _ name _ derived =>
      obtain ⟨genuine, -⟩ := List.forall_mem_append.1 genuine
      obtain ⟨nameGenuine, genuine⟩ := List.forall_mem_cons.1 (List.forall_mem_cons.1 genuine).2
      exact .var ⟨nameGenuine, name⟩ (derived.writable (List.forall_mem_cons.1 genuine).2)

theorem ExprStmt.fits {s : Stmt} (h : ExprStmt levels tokens s) (inFunction : Bool) :
    FitsStmt inFunction (.statement false) s := by
  cases h with
  | intro derived => exact .expression derived.fits

theorem ExprStmt.writable {s : Stmt} (h : ExprStmt levels tokens s)
    (genuine : ∀ t ∈ tokens, t.Genuine) : s.Writable := by
  cases h with
  | intro derived => exact .expression (derived.writable (List.forall_mem_append.1 genuine).1)

theorem ForInitial.fits {initial : Option Stmt} (h : ForInitial levels tokens initial)
    (inFunction : Bool) : ∀ s ∈ initial, FitsStmt inFunction .declaration s := by
  intro s present
  cases h with
  | absent => cases present
  | var declared =>
      cases present
      exact declared.fits inFunction
  | expression derived =>
      cases present
      exact .statement (derived.fits inFunction)

theorem ForInitial.writable {initial : Option Stmt} (h : ForInitial levels tokens initial)
    (genuine : ∀ t ∈ tokens, t.Genuine) : ∀ s ∈ initial, s.Writable := by
  intro s present
  cases h with
  | absent => cases present
  | var declared =>
      cases present
      exact declared.writable genuine
  | expression derived =>
      cases present
      exact derived.writable genuine

theorem OptExpression.fits {value : Option Expr} (h : OptExpression levels tokens value) :
    ∀ e ∈ value, Fits .expression e := by
  intro e present
  cases h with
  | absent => cases present
  | present derived =>
      cases present
      exact derived.fits

theorem OptExpression.writable {value : Option Expr} (h : OptExpression levels tokens value)
    (genuine : ∀ t ∈ tokens, t.Genuine) : ∀ e ∈ value, e.Writable := by
  intro e present
  cases h with
  | absent => cases present
  | present derived =>
      cases present
      exact derived.writable genuine

end

/-! ## Statements -/

/-- The tree stands where the form is derived.  It may dangle less than its text
does: a `for` that is read as a block ends in a brace. -/
def Form.Held (inFunction : Bool) : Form → Stmt → Prop
  | declaration, s => FitsStmt inFunction .declaration s
  | statement dangling, s =>
      ∃ dangling', (dangling' = true → dangling = true) ∧
        FitsStmt inFunction (.statement dangling') s

theorem loopTree_held {inFunction dangling : Bool} {initial : Option Stmt} {condition : Expr}
    {increment : Option Expr} {body : Stmt}
    (hinitial : ∀ s ∈ initial, FitsStmt inFunction .declaration s)
    (hcondition : Fits .expression condition) (hincrement : ∀ e ∈ increment, Fits .expression e)
    (hbody : Form.Held inFunction (.statement dangling) body) :
    Form.Held inFunction (.statement dangling) (loopTree initial condition increment body) := by
  obtain ⟨dangling', weaker, fits⟩ := hbody
  have round : ∀ e ∈ increment,
      FitsStmt inFunction (.statement false) (.block [body, .expression e]) := by
    intro e present
    refine .block fun s member => ?_
    rcases List.mem_cons.1 member with rfl | member
    · exact .statement fits
    · rw [List.mem_singleton.1 member]
      exact .statement (.expression (hincrement e present))
  have behind : ∀ s ∈ initial, ∀ {d : Bool} {loop : Stmt},
      FitsStmt inFunction (.statement d) loop →
      FitsStmt inFunction (.statement false) (.block [s, loop]) := by
    intro first present d loop fits
    refine .block fun s member => ?_
    rcases List.mem_cons.1 member with rfl | member
    · exact hinitial s present
    · rw [List.mem_singleton.1 member]
      exact .statement fits
  cases initial with
  | none =>
      cases increment with
      | none => exact ⟨dangling', weaker, .whileLoop hcondition fits⟩
      | some e => exact ⟨false, by simp, .whileLoop hcondition (round e rfl)⟩
  | some s =>
      refine ⟨false, by simp, ?_⟩
      cases increment with
      | none => exact behind s rfl (.whileLoop hcondition fits)
      | some e => exact behind s rfl (.whileLoop hcondition (round e rfl))

theorem loopTree_writable {initial : Option Stmt} {condition : Expr} {increment : Option Expr}
    {body : Stmt} (hinitial : ∀ s ∈ initial, s.Writable) (hcondition : condition.Writable)
    (hincrement : ∀ e ∈ increment, e.Writable) (hbody : body.Writable) :
    (loopTree initial condition increment body).Writable := by
  have pair : ∀ {s s' : Stmt}, s.Writable → s'.Writable → (Stmt.block [s, s']).Writable := by
    intro s s' first second
    refine .block fun s'' member => ?_
    rcases List.mem_cons.1 member with rfl | member
    · exact first
    · rw [List.mem_singleton.1 member]
      exact second
  have round : ∀ e ∈ increment, (Stmt.block [body, .expression e]).Writable :=
    fun e present => pair hbody (.expression (hincrement e present))
  cases initial with
  | none =>
      cases increment with
      | none => exact .whileLoop hcondition hbody
      | some e => exact .whileLoop hcondition (round e rfl)
  | some s =>
      cases increment with
      | none => exact pair (hinitial s rfl) (.whileLoop hcondition hbody)
      | some e => exact pair (hinitial s rfl) (.whileLoop hcondition (round e rfl))

theorem DerivesStmt.held {levels : Nat} {inFunction : Bool} {form : Form} {tokens : List Token}
    {s : Stmt} (h : DerivesStmt levels inFunction form tokens s) : form.Held inFunction s := by
  have each : ∀ {inFunction : Bool} {declarations : List (List Token × Stmt)},
      (∀ d ∈ declarations, Form.Held inFunction .declaration d.2) →
      ∀ s ∈ declarations.map (·.2), FitsStmt inFunction .declaration s := by
    intro inFunction declarations h s listed
    obtain ⟨d, member, rfl⟩ := List.mem_map.1 listed
    exact h d member
  induction h with
  | var declared => exact declared.fits _
  | statement _ ih =>
      obtain ⟨dangling, -, fits⟩ := ih
      exact .statement fits
  | expression derived => exact ⟨false, id, derived.fits _⟩
  | print _ derived => exact ⟨false, id, .print derived.fits⟩
  | block _ _ _ ihs => exact ⟨false, id, .block (each ihs)⟩
  | ifThen _ _ condition _ _ ih =>
      obtain ⟨dangling, -, fits⟩ := ih
      exact ⟨true, id, .ifThen condition.fits fits⟩
  | ifElse _ _ condition _ _ _ _ ihThen ihElse =>
      obtain ⟨dangling, weaker, fits⟩ := ihThen
      obtain ⟨dangling', weaker', fits'⟩ := ihElse
      cases dangling with
      | false => exact ⟨dangling', weaker', .ifElse condition.fits fits fits'⟩
      | true => cases weaker rfl
  | whileLoop _ _ condition _ _ ih =>
      obtain ⟨dangling, weaker, fits⟩ := ih
      exact ⟨dangling, weaker, .whileLoop condition.fits fits⟩
  | forLoop _ _ initial condition _ increment _ _ ih =>
      refine loopTree_held (initial.fits _) ?_ increment.fits ih
      cases condition with
      | absent => exact .ofPrimary .literal
      | present derived => exact derived.fits
  | function _ _ _ _ _ few _ _ _ _ ihs => exact ⟨false, id, .function few (each ihs)⟩
  | returns _ value => exact ⟨false, id, .returns value.fits⟩

theorem DerivesStmt.writable {levels : Nat} {inFunction : Bool} {form : Form}
    {tokens : List Token} {s : Stmt} (h : DerivesStmt levels inFunction form tokens s) :
    (∀ t ∈ tokens, t.Genuine) → s.Writable := by
  have each : ∀ {declarations : List (List Token × Stmt)},
      (∀ d ∈ declarations, (∀ t ∈ d.1, t.Genuine) → d.2.Writable) →
      (∀ t ∈ declarations.flatMap (·.1), t.Genuine) →
      ∀ s ∈ declarations.map (·.2), s.Writable := by
    intro declarations h genuine s listed
    obtain ⟨d, member, rfl⟩ := List.mem_map.1 listed
    exact h d member fun t inPart => genuine t (List.mem_flatMap.2 ⟨d, member, inPart⟩)
  induction h with
  | var declared => exact declared.writable
  | statement _ ih => exact ih
  | expression derived => exact derived.writable
  | print _ derived =>
      intro genuine
      obtain ⟨genuine, -⟩ := List.forall_mem_append.1 genuine
      exact .print (derived.writable (List.forall_mem_cons.1 genuine).2)
  | block _ _ _ ihs =>
      intro genuine
      obtain ⟨genuine, -⟩ := List.forall_mem_append.1 genuine
      exact .block (each ihs (List.forall_mem_cons.1 genuine).2)
  | ifThen _ _ condition _ _ ih =>
      intro genuine
      obtain ⟨front, rest⟩ := List.forall_mem_append.1 genuine
      have inside := (List.forall_mem_cons.1 (List.forall_mem_cons.1 front).2).2
      exact .ifThen (condition.writable inside) (ih (List.forall_mem_cons.1 rest).2)
  | ifElse _ _ condition _ _ _ _ ihThen ihElse =>
      intro genuine
      obtain ⟨front, last⟩ := List.forall_mem_append.1 genuine
      obtain ⟨front, rest⟩ := List.forall_mem_append.1 front
      have inside := (List.forall_mem_cons.1 (List.forall_mem_cons.1 front).2).2
      exact .ifElse (condition.writable inside) (ihThen (List.forall_mem_cons.1 rest).2)
        (ihElse (List.forall_mem_cons.1 last).2)
  | whileLoop _ _ condition _ _ ih =>
      intro genuine
      obtain ⟨front, rest⟩ := List.forall_mem_append.1 genuine
      have inside := (List.forall_mem_cons.1 (List.forall_mem_cons.1 front).2).2
      exact .whileLoop (condition.writable inside) (ih (List.forall_mem_cons.1 rest).2)
  | forLoop _ _ initial condition _ increment _ _ ih =>
      intro genuine
      obtain ⟨front, last⟩ := List.forall_mem_append.1 genuine
      obtain ⟨front, third⟩ := List.forall_mem_append.1 front
      obtain ⟨front, second⟩ := List.forall_mem_append.1 front
      have first := (List.forall_mem_cons.1 (List.forall_mem_cons.1 front).2).2
      refine loopTree_writable (initial.writable first) ?_
        (increment.writable (List.forall_mem_cons.1 third).2) (ih (List.forall_mem_cons.1 last).2)
      cases condition with
      | absent => exact .literal trivial
      | present derived => exact derived.writable second
  | function _ name _ names separated _ _ _ _ _ ihs =>
      intro genuine
      obtain ⟨genuine, -⟩ := List.forall_mem_append.1 genuine
      obtain ⟨heading, body⟩ := List.forall_mem_append.1 genuine
      obtain ⟨nameGenuine, heading⟩ := List.forall_mem_cons.1 (List.forall_mem_cons.1 heading).2
      have inside := (List.forall_mem_cons.1 heading).2
      refine .function ⟨nameGenuine, name⟩ (fun param member => ⟨?_, names param member⟩)
        (each ihs (List.forall_mem_cons.1 (List.forall_mem_cons.1 body).2).2)
      exact inside param (separated.mem [param] (List.mem_map_of_mem member) param
        List.mem_cons_self)
  | returns keyword value =>
      intro genuine
      obtain ⟨genuine, -⟩ := List.forall_mem_append.1 genuine
      obtain ⟨keywordGenuine, inside⟩ := List.forall_mem_cons.1 genuine
      exact .returns ⟨keywordGenuine, keyword⟩ (value.writable inside)

/-! ## Programs -/

theorem DerivesWithin.fits {levels : Nat} {tokens : List Token} {program : Program}
    (h : DerivesWithin levels tokens program) : FitsProgram program := by
  cases h with
  | intro each =>
      intro s listed
      obtain ⟨d, member, rfl⟩ := List.mem_map.1 listed
      exact (each d member).held

theorem DerivesWithin.writable {levels : Nat} {tokens : List Token} {program : Program}
    (h : DerivesWithin levels tokens program) (genuine : ∀ t ∈ tokens, t.Genuine) :
    program.Writable := by
  cases h with
  | intro each =>
      intro s listed
      obtain ⟨d, member, rfl⟩ := List.mem_map.1 listed
      exact (each d member).writable fun t inPart =>
        genuine t (List.mem_flatMap.2 ⟨d, member, inPart⟩)

end Grammar

end Scriptlet
