import Farmhand.Proofs.Script.Rows

/-!
# Reading Written Programs

A written program is read back without a fault, and it is the same program up to places. The
tokens decide what is read, so positions are told apart by the kinds of the tokens left. Operands
are atoms or stand in parentheses, so no binding power ever decides between two operators: behind
an operand comes the one operator of its expression, or something that ends every expression.

## Main definitions

* `Cursor.kinds`: The kinds of the tokens left.
* `Rereads`: An expression is read as it was written.
* `Closing`: What ends every expression.
* `Readable`, `ItemsReadable`: An expression, or the items of a list, are read as they were written.

## Theorems

* `Readable.of_atom`, `Readable.of_full`: What is to be shown of an expression.
* `Expr.readable`, `Expr.itemsReadable`: Expressions.
* `header_rereads`, `forHeader_rereads`, `lineExpression_rereads`: What stands on a line.
-/

namespace Farmhand

namespace Script

namespace Cursor

/-- The kinds of the tokens left. -/
def kinds (c : Cursor) : List Token.Kind :=
  c.rest.map Token.kind

-- The next token is taken, and the kinds of the others are left. At the end of the input nothing is
-- taken: the parser stays there.
theorem take?_of_kinds {c : Cursor} {k : Token.Kind} {ks : List Token.Kind}
    (h : c.kinds = k :: ks) (hk : k.isMark .endOfInput = false) :
    ∃ t next, c.take? = some (t, next) ∧ t.kind = k ∧ next.1.kinds = ks := by
  cases hrest : c.rest with
  | nil =>
      rw [kinds, hrest] at h
      cases h
  | cons t rest =>
      rw [kinds, hrest, List.map_cons, List.cons.injEq] at h
      rw [← h.1] at hk
      rcases exists_take? hrest hk with ⟨next, htake, hnext⟩
      refine ⟨t, next, htake, h.1, ?_⟩
      rw [kinds, hnext]
      exact h.2

theorem take?_of_endOfInput {c : Cursor} {ks : List Token.Kind}
    (h : c.kinds = .mark .endOfInput :: ks) : c.take? = none := by
  cases hrest : c.rest with
  | nil =>
      rw [kinds, hrest] at h
      cases h
  | cons t rest =>
      rw [kinds, hrest, List.map_cons, List.cons.injEq] at h
      exact take?_eq_none hrest (by rw [h.1]; rfl)

-- A mark is passed over if it comes next.
theorem skip?_of_kinds {c : Cursor} {m : Mark} {ks : List Token.Kind}
    (h : c.kinds = .mark m :: ks) (hm : m ≠ .endOfInput) :
    ∃ next, c.skip? m = some next ∧ next.1.kinds = ks := by
  have hend : (Token.Kind.mark m).isMark .endOfInput = false := by
    simp only [Token.Kind.isMark, decide_eq_false_iff_not]
    exact hm
  rcases take?_of_kinds h hend with ⟨t, next, htake, hkind, hnext⟩
  refine ⟨next, ?_, hnext⟩
  simp only [skip?, htake, hkind, Token.Kind.isMark, decide_true, if_true]

-- It is not passed over if something else comes next.
theorem skip?_eq_none {c : Cursor} {m : Mark} (h : c.kinds.head? ≠ some (.mark m)) :
    c.skip? m = none := by
  unfold skip?
  split
  · next t next htake =>
      have hkind : ¬t.kind.isMark m = true := by
        intro hm
        refine h ?_
        rw [kinds, (take?_eq_some htake).1, List.map_cons, List.head?_cons,
          isMark_eq_true_iff.mp hm]
      rw [if_neg hkind]
  · rfl

-- A mark that is expected and comes next is no fault.
theorem expect_of_kinds {c : Cursor} {m : Mark} {ks : List Token.Kind}
    (h : c.kinds = .mark m :: ks) (hm : m ≠ .endOfInput) :
    ∃ next, c.expect m = .ok next ∧ next.1.kinds = ks := by
  rcases skip?_of_kinds h hm with ⟨next, hskip, hnext⟩
  exact ⟨next, by rw [expect, hskip], hnext⟩

-- The kind alone decides which mark the cursor is at.
theorem isAt_of_kinds {c : Cursor} {k : Token.Kind} {ks : List Token.Kind} (h : c.kinds = k :: ks)
    (m : Mark) : c.isAt m = k.isMark m := by
  cases hrest : c.rest with
  | nil =>
      rw [kinds, hrest] at h
      cases h
  | cons t rest =>
      rw [kinds, hrest, List.map_cons, List.cons.injEq] at h
      rw [isAt, hrest, ← h.1]

end Cursor

open Cursor

/-- An expression is read as it was written, up to places, and certain tokens are left. -/
def Rereads {α : Type} (e : Expr) (place : α → Cursor) (ks : List Token.Kind)
    (r : Except Fault (Expr × α)) : Prop :=
  ∃ e' d, r = .ok (e', d) ∧ e'.unplaced = e.unplaced ∧ (place d).kinds = ks

/-- Tokens of which the first ends every expression. -/
def Closing (ks : List Token.Kind) : Prop :=
  ∃ m more, ks = .mark m :: more ∧ m ∈ [rightParen, rightBracket, comma, colon, .newline]

-- These marks end every expression, in whatever it stands.
theorem closing_cons {m : Mark} (h : m ∈ [rightParen, rightBracket, comma, colon, .newline])
    (more : List Token.Kind) : Closing (.mark m :: more) :=
  ⟨m, more, rfl, h⟩

-- Behind an expression comes no operator, no call and no index, so the operand is all of it.
theorem operators_of_closing {c : Cursor} (h : Closing c.kinds) (floor : Nat) (left : Expr) :
    operators floor left c = .ok (left, c.here) := by
  rcases h with ⟨m, more, hkinds, hm⟩
  simp only [List.mem_cons, List.not_mem_nil, or_false] at hm
  have hend : (Token.Kind.mark m).isMark .endOfInput = false := by
    rcases hm with rfl | rfl | rfl | rfl | rfl <;> rfl
  rcases take?_of_kinds hkinds hend with ⟨t, next, htake, hkind, _⟩
  have hop : BinaryOp.ofKind? t.kind = none := by
    rw [hkind]
    rcases hm with rfl | rfl | rfl | rfl | rfl <;> rfl
  have hindex : t.kind.isMark leftBracket = false := by
    rw [hkind]
    rcases hm with rfl | rfl | rfl | rfl | rfl <;> rfl
  rw [operators, htake]
  simp only [hop, hindex, Bool.false_and, Bool.false_eq_true, if_false]

-- An operand with something behind it that ends every expression is an expression.
theorem expression_of_operand {floor : Nat} {c : Cursor} {e : Expr} {ks : List Token.Kind}
    (h : Rereads e (·.1) ks (operand c)) (hks : Closing ks) :
    Rereads e (·.1) ks (expression floor c) := by
  rcases h with ⟨e', d, hoperand, hsame, hd⟩
  rw [← hd] at hks
  refine ⟨e', d.andThen d.1.here, ?_, hsame, hd⟩
  rw [expression, hoperand]
  simp only [operators_of_closing hks]

/-- Certain tokens are read as an expression when something that ends every expression follows. -/
def ReadsAs (e : Expr) (kinds : List Token.Kind) : Prop :=
  ∀ (c : Cursor) (ks : List Token.Kind), c.kinds = kinds ++ ks → Closing ks →
    Rereads e (·.1) ks (expression 0 c)

/-- What stands in parentheses is read as an operand. -/
theorem operand_group {e : Expr} {kinds : List Token.Kind} (h : ReadsAs e kinds) {c : Cursor}
    {ks : List Token.Kind}
    (hc : c.kinds = .mark leftParen :: (kinds ++ [.mark rightParen]) ++ ks) :
    Rereads e (·.1) ks (operand c) := by
  rw [List.cons_append, List.append_assoc, List.singleton_append] at hc
  rcases take?_of_kinds hc rfl with ⟨t, c₁, htake, hkind, h₁⟩
  rcases h c₁.1 _ h₁ (closing_cons (by decide) ks) with ⟨e', c₂, he, hsame, h₂⟩
  rcases expect_of_kinds h₂ (by decide) with ⟨c₃, hexpect, h₃⟩
  refine ⟨e', c₁.andThen (c₂.andThen c₃.atMost).atMost, ?_, hsame, h₃⟩
  rw [Script.operand, htake]
  simp only [hkind, he, hexpect]

/-- What is to be shown of an expression: it is read as it was written, and if it is an atom also
    as an operand. -/
structure Readable (e : Expr) : Prop where
  atom : e.isAtom = true → ∀ (c : Cursor) (ks : List Token.Kind), c.kinds = e.kinds ++ ks →
    ks.head? ≠ some (.mark leftParen) → Rereads e (·.1) ks (operand c)
  full : ∀ (c : Cursor) (ks : List Token.Kind), c.kinds = e.kinds ++ ks → Closing ks →
    Rereads e (·.1) ks (expression 0 c)

-- What ends an expression opens no arguments.
theorem Closing.head?_ne {ks : List Token.Kind} (h : Closing ks) :
    ks.head? ≠ some (.mark leftParen) := by
  rcases h with ⟨m, more, rfl, hm⟩
  rw [List.head?_cons, Ne, Option.some.injEq, Token.Kind.mark.injEq]
  rintro rfl
  exact absurd hm (by decide)

-- An atom that is read as an operand is read as an expression.
theorem Readable.of_atom {e : Expr} (h : ∀ (c : Cursor) (ks : List Token.Kind),
    c.kinds = e.kinds ++ ks → ks.head? ≠ some (.mark leftParen) →
    Rereads e (·.1) ks (operand c)) : Readable e :=
  ⟨fun _ => h, fun c ks hc hks => expression_of_operand (h c ks hc hks.head?_ne) hks⟩

-- A compound expression is no atom.
theorem Readable.of_full {e : Expr} (hatom : e.isAtom = false)
    (h : ∀ (c : Cursor) (ks : List Token.Kind), c.kinds = e.kinds ++ ks → Closing ks →
      Rereads e (·.1) ks (expression 0 c)) : Readable e :=
  ⟨fun ha => absurd (ha.symm.trans hatom) (by decide), h⟩

/-- Operands are read as they were written: atoms, and what stands in parentheses. -/
theorem Readable.operand {e : Expr} (h : Readable e) {c : Cursor} {ks : List Token.Kind}
    (hc : c.kinds = enclosedKinds e.isAtom e.kinds ++ ks)
    (hks : ks.head? ≠ some (.mark leftParen)) : Rereads e (·.1) ks (operand c) := by
  cases hatom : e.isAtom with
  | true =>
      rw [hatom] at hc
      exact h.atom hatom c ks hc hks
  | false =>
      rw [hatom, enclosedKinds, if_neg Bool.false_ne_true] at hc
      exact operand_group h.full hc

/-- Operands behind an operator: what binds tighter ends with them. -/
theorem Readable.behind {e : Expr} (h : Readable e) (floor : Nat) {c : Cursor}
    {ks : List Token.Kind} (hc : c.kinds = enclosedKinds e.isAtom e.kinds ++ ks)
    (hks : Closing ks) : Rereads e (·.1) ks (expression floor c) :=
  expression_of_operand (h.operand hc hks.head?_ne) hks

/-- What an expression can begin with. -/
def Opens : Token.Kind → Prop
  | .mark m => m ∈ [.punctuation .minus, .keyword .notWord, leftParen, leftBracket]
  | .unknown _ => False
  | _ => True

-- These are the signs and brackets that an expression can begin with.
theorem opens_mark {m : Mark}
    (h : m ∈ [.punctuation .minus, .keyword .notWord, leftParen, leftBracket]) :
    Opens (.mark m) :=
  h

-- In parentheses the first token is the left one.
theorem exists_enclosedKinds (atom : Bool) {kinds : List Token.Kind}
    (h : ∃ k more, kinds = k :: more ∧ Opens k) :
    ∃ k more, enclosedKinds atom kinds = k :: more ∧ Opens k := by
  cases atom with
  | true => exact h
  | false => exact ⟨.mark leftParen, kinds ++ [.mark rightParen], rfl, opens_mark (by decide)⟩

/-- Every written expression has a first token, and it is one that can begin an expression. -/
theorem Expr.exists_kinds (e : Expr) : ∃ k more, e.kinds = k :: more ∧ Opens k := by
  cases e with
  | lit value _ => exact ⟨value.kind, [], rfl, by cases value <;> trivial⟩
  | var name _ => exact ⟨.name name, [], rfl, trivial⟩
  | list items _ => exact ⟨.mark leftBracket, _, rfl, opens_mark (by decide)⟩
  | index container position _ =>
      rcases exists_enclosedKinds container.isAtom container.exists_kinds with ⟨k, more, hk, ho⟩
      exact ⟨k, _, by rw [Expr.kinds, hk, List.cons_append], ho⟩
  | unary op operand _ =>
      cases op with
      | neg => exact ⟨.mark (.punctuation .minus), _, rfl, opens_mark (by decide)⟩
      | not => exact ⟨.mark (.keyword .notWord), _, rfl, opens_mark (by decide)⟩
  | binary op left right _ =>
      rcases exists_enclosedKinds left.isAtom left.exists_kinds with ⟨k, more, hk, ho⟩
      exact ⟨k, _, by rw [Expr.kinds, hk, List.cons_append], ho⟩
  | call name args _ => exact ⟨.name name, _, rfl, trivial⟩

/-- Certain tokens are read as the items of a list or of a call, up to the mark that closes it. -/
def ItemsReadAs (es : List Expr) (kinds : List Token.Kind) : Prop :=
  ∀ (c : Cursor) (ks : List Token.Kind) (m : Mark), m ∈ [rightParen, rightBracket] →
    c.kinds = kinds ++ .mark m :: ks →
    ∃ es' d, items m c = .ok (es', d) ∧ Expr.unplacedAll es' = Expr.unplacedAll es ∧
      d.1.kinds = .mark m :: ks

-- Nothing between the brackets are no items.
theorem itemsReadAs_nil : ItemsReadAs [] [] := by
  intro c ks m _ hc
  refine ⟨[], c.here, ?_, rfl, hc⟩
  rw [items, isAt_of_kinds hc m]
  simp only [Token.Kind.isMark, decide_true, if_true]

-- No expression begins with a closing mark.
theorem isAt_eq_false_of_opens {kinds ks : List Token.Kind}
    (hopens : ∃ k more, kinds = k :: more ∧ Opens k) {c : Cursor} (hc : c.kinds = kinds ++ ks)
    {m : Mark} (hm : m ∈ [rightParen, rightBracket]) : c.isAt m = false := by
  rcases hopens with ⟨k, more, rfl, ho⟩
  rw [List.cons_append] at hc
  rw [isAt_of_kinds hc m, Bool.eq_false_iff]
  intro hmark
  rw [isMark_eq_true_iff.mp hmark] at ho
  simp only [Opens, List.mem_cons, List.not_mem_nil, or_false] at hm ho
  rcases hm with rfl | rfl <;> simp at ho

-- The last item is followed by the closing mark.
theorem itemsReadAs_singleton {e : Expr} {kinds : List Token.Kind} (h : ReadsAs e kinds)
    (hopens : ∃ k more, kinds = k :: more ∧ Opens k) : ItemsReadAs [e] kinds := by
  intro c ks m hm hc
  have hclosing : Closing (.mark m :: ks) :=
    closing_cons (by rcases List.mem_cons.mp hm with rfl | hm <;> simp_all) ks
  rcases h c (.mark m :: ks) hc hclosing with ⟨e', c₁, he, hsame, h₁⟩
  have hskip : c₁.1.skip? comma = none := by
    refine skip?_eq_none ?_
    rw [h₁, List.head?_cons, Ne, Option.some.injEq, Token.Kind.mark.injEq]
    rintro rfl
    exact absurd hm (by decide)
  refine ⟨[e'], c₁.atMost, ?_, ?_, h₁⟩
  · rw [items, isAt_eq_false_of_opens hopens hc hm]
    simp only [Bool.false_eq_true, if_false, he, hskip]
  · rw [Expr.unplacedAll, Expr.unplacedAll, hsame]
    rfl

-- Every other item is followed by a comma and a further item.
theorem itemsReadAs_cons {e : Expr} {es : List Expr} {kinds more : List Token.Kind}
    (h : ReadsAs e kinds) (hopens : ∃ k tail, kinds = k :: tail ∧ Opens k)
    (hes : ItemsReadAs es more) : ItemsReadAs (e :: es) (kinds ++ .mark comma :: more) := by
  intro c ks m hm hc
  rw [List.append_assoc, List.cons_append] at hc
  rcases h c _ hc (closing_cons (by decide) _) with ⟨e', c₁, he, hsame, h₁⟩
  rcases skip?_of_kinds h₁ (by decide) with ⟨c₂, hskip, h₂⟩
  rcases hes c₂.1 ks m hm h₂ with ⟨es', c₃, hes', hsame₃, h₃⟩
  refine ⟨e' :: es', (c₁.andThen (c₂.andThen c₃).atMost).atMost, ?_, ?_, h₃⟩
  · rw [items, isAt_eq_false_of_opens hopens hc hm]
    simp only [Bool.false_eq_true, if_false, he, hskip, hes']
  · rw [Expr.unplacedAll, Expr.unplacedAll, hsame, hsame₃]

/-- A list is read as an operand if its items are read. -/
theorem operand_list {es : List Expr} {kinds : List Token.Kind} (h : ItemsReadAs es kinds)
    (span : Span) {c : Cursor} {ks : List Token.Kind}
    (hc : c.kinds = .mark leftBracket :: (kinds ++ [.mark rightBracket]) ++ ks) :
    Rereads (.list es span) (·.1) ks (operand c) := by
  rw [List.cons_append, List.append_assoc, List.singleton_append] at hc
  rcases take?_of_kinds hc rfl with ⟨t, c₁, htake, hkind, h₁⟩
  rcases h c₁.1 ks rightBracket (by decide) h₁ with ⟨es', c₂, hitems, hsame, h₂⟩
  rcases expect_of_kinds h₂ (by decide) with ⟨c₃, hexpect, h₃⟩
  refine ⟨.list es' (t.span.through c₃.1.last), c₁.andThen (c₂.andThen c₃.atMost), ?_, ?_, h₃⟩
  · rw [Script.operand, htake]
    simp only [hkind, hitems, hexpect]
  · rw [Expr.unplaced, Expr.unplaced, hsame]

/-- A call is read as an operand if its arguments are read. -/
theorem operand_call (name : String) {args : List Expr} {kinds : List Token.Kind}
    (h : ItemsReadAs args kinds) (span : Span) {c : Cursor} {ks : List Token.Kind}
    (hc : c.kinds =
      .name name :: .mark leftParen :: (kinds ++ [.mark rightParen]) ++ ks) :
    Rereads (.call name args span) (·.1) ks (operand c) := by
  rw [List.cons_append, List.cons_append, List.append_assoc, List.singleton_append] at hc
  rcases take?_of_kinds hc rfl with ⟨t, c₁, htake, hkind, h₁⟩
  rcases skip?_of_kinds h₁ (by decide) with ⟨c₂, hskip, h₂⟩
  rcases h c₂.1 ks rightParen (by decide) h₂ with ⟨args', c₃, hitems, hsame, h₃⟩
  rcases expect_of_kinds h₃ (by decide) with ⟨c₄, hexpect, h₄⟩
  refine ⟨.call name args' (t.span.through c₄.1.last),
    c₁.andThen (c₂.andThen (c₃.andThen c₄.atMost)).atMost, ?_, ?_, h₄⟩
  · rw [Script.operand, htake]
    simp only [hkind, hskip, hitems, hexpect]
  · rw [Expr.unplaced, Expr.unplaced, hsame]

/-- What is to be shown of the items of a list or of a call: they are read up to the mark that
    closes it. -/
def ItemsReadable (es : List Expr) : Prop :=
  ∀ (c : Cursor) (ks : List Token.Kind) (m : Mark), m ∈ [rightParen, rightBracket] →
    c.kinds = Expr.kindsOfItems es ++ .mark m :: ks →
    ∃ es' d, items m c = .ok (es', d) ∧ Expr.unplacedAll es' = Expr.unplacedAll es ∧
      d.1.kinds = .mark m :: ks

-- Literals and names are read by their one token.
theorem readable_lit (value : Literal) (span : Span) : Readable (.lit value span) := by
  refine Readable.of_atom ?_
  intro c ks hc _
  have hplain : value.kind.isMark .endOfInput = false := by
    cases value <;> rfl
  rcases take?_of_kinds hc hplain with ⟨t, next, htake, hkind, hnext⟩
  refine ⟨.lit value t.span, next, ?_, rfl, hnext⟩
  rw [Script.operand, htake]
  cases value <;> simp only [hkind, Literal.kind]

theorem readable_var (name : String) (span : Span) : Readable (.var name span) := by
  refine Readable.of_atom ?_
  intro c ks hc hks
  rcases take?_of_kinds hc rfl with ⟨t, next, htake, hkind, hnext⟩
  have hskip : next.1.skip? leftParen = none := skip?_eq_none (by rw [hnext]; exact hks)
  refine ⟨.var name t.span, next, ?_, rfl, hnext⟩
  rw [Script.operand, htake]
  simp only [hkind, hskip]

-- Lists and calls are read up to the bracket that closes them.
theorem readable_list {es : List Expr} (h : ItemsReadable es) (span : Span) :
    Readable (.list es span) :=
  Readable.of_atom fun _ _ hc _ => operand_list h span hc

theorem readable_call (name : String) {args : List Expr} (h : ItemsReadable args) (span : Span) :
    Readable (.call name args span) :=
  Readable.of_atom fun _ _ hc _ => operand_call name h span hc

-- The operand of a sign is enclosed unless it is an atom, so the sign binds nothing more.
theorem readable_unary (op : UnaryOp) {operand : Expr} (h : Readable operand) (span : Span) :
    Readable (.unary op operand span) := by
  refine Readable.of_full rfl ?_
  intro c ks hc hks
  refine expression_of_operand ?_ hks
  cases op with
  | neg =>
      rw [Expr.kinds, List.cons_append] at hc
      rcases take?_of_kinds hc rfl with ⟨t, c₁, htake, hkind, h₁⟩
      rcases h.behind unaryPower h₁ hks with ⟨e', c₂, he, hsame, h₂⟩
      refine ⟨.unary .neg e' (t.span.through e'.span), c₁.andThen c₂.atMost, ?_, ?_, h₂⟩
      · rw [Script.operand, htake]
        simp only [hkind, he]
      · rw [Expr.unplaced, Expr.unplaced, hsame]
  | not =>
      rw [Expr.kinds, List.cons_append] at hc
      rcases take?_of_kinds hc rfl with ⟨t, c₁, htake, hkind, h₁⟩
      rcases h.behind notPower h₁ hks with ⟨e', c₂, he, hsame, h₂⟩
      refine ⟨.unary .not e' (t.span.through e'.span), c₁.andThen c₂.atMost, ?_, ?_, h₂⟩
      · rw [Script.operand, htake]
        simp only [hkind, he]
      · rw [Expr.unplaced, Expr.unplaced, hsame]

/-- Both operands are enclosed unless they are atoms. The one operator is read at every binding
    power that can be asked for here, and behind the right operand comes something that ends
    expressions. -/
theorem readable_binary (op : BinaryOp) {left right : Expr} (hleft : Readable left)
    (hright : Readable right) (span : Span) : Readable (.binary op left right span) := by
  refine Readable.of_full rfl ?_
  intro c ks hc hks
  rw [Expr.kinds, List.append_assoc, List.cons_append] at hc
  have hop : BinaryOp.ofKind? op.kind = some op := by
    cases op <;> rfl
  have hpower : ¬op.power ≤ 0 := by
    cases op <;> decide
  have hhead : (op.kind :: (enclosedKinds right.isAtom right.kinds ++ ks)).head?
      ≠ some (.mark leftParen) := by
    rw [List.head?_cons, Ne, Option.some.injEq]
    cases op <;> simp [BinaryOp.kind]
  have hend : op.kind.isMark .endOfInput = false := by
    cases op <;> rfl
  rcases hleft.operand hc hhead with ⟨left', c₁, hoperand, hsame₁, h₁⟩
  rcases take?_of_kinds h₁ hend with ⟨t, c₂, htake, hkind, h₂⟩
  rcases hright.behind op.power h₂ hks with ⟨right', c₃, he, hsame₃, h₃⟩
  rw [← h₃] at hks
  refine ⟨.binary op left' right' (left'.span.through right'.span),
    c₁.andThen (c₂.andThen (c₃.andThen c₃.1.here).atMost).atMost, ?_, ?_, h₃⟩
  · rw [expression, hoperand]
    simp only
    rw [operators, htake]
    simp only [hkind, hop, if_neg hpower, he, operators_of_closing hks]
  · rw [Expr.unplaced, Expr.unplaced, hsame₁, hsame₃]

/-- The container is an operand, and the position stands in brackets of its own. -/
theorem readable_index {container position : Expr} (hcontainer : Readable container)
    (hposition : Readable position) (span : Span) :
    Readable (.index container position span) := by
  refine Readable.of_full rfl ?_
  intro c ks hc hks
  rw [Expr.kinds, List.append_assoc, List.cons_append, List.append_assoc, List.singleton_append]
    at hc
  rcases hcontainer.operand hc (by simp) with ⟨container', c₁, hoperand, hsame₁, h₁⟩
  rcases take?_of_kinds h₁ rfl with ⟨t, c₂, htake, hkind, h₂⟩
  rcases hposition.full c₂.1 _ h₂ (closing_cons (by decide) ks) with
    ⟨position', c₃, he, hsame₃, h₃⟩
  rcases expect_of_kinds h₃ (by decide) with ⟨c₄, hexpect, h₄⟩
  rw [← h₄] at hks
  refine ⟨.index container' position' (container'.span.through c₄.1.last),
    c₁.andThen (c₂.andThen (c₃.andThen (c₄.andThen c₄.1.here).atMost).atMost).atMost, ?_, ?_, h₄⟩
  · rw [expression, hoperand]
    simp only
    have hop : BinaryOp.ofKind? t.kind = none := by
      rw [hkind]
      rfl
    have hbracket : (t.kind.isMark leftBracket && decide (0 < indexPower)) = true := by
      rw [hkind]
      rfl
    rw [operators, htake]
    simp only [hop, hbracket, if_true, he, hexpect, operators_of_closing hks]
  · rw [Expr.unplaced, Expr.unplaced, hsame₁, hsame₃]

mutual

/-- Expressions are read as they were written. -/
theorem Expr.readable (e : Expr) : Readable e := by
  cases e with
  | lit value span => exact readable_lit value span
  | var name span => exact readable_var name span
  | list items span => exact readable_list (Expr.itemsReadable items) span
  | index container position span => exact readable_index container.readable position.readable span
  | unary op operand span => exact readable_unary op operand.readable span
  | binary op left right span => exact readable_binary op left.readable right.readable span
  | call name args span => exact readable_call name (Expr.itemsReadable args) span

/-- Items are read as they were written. -/
theorem Expr.itemsReadable (es : List Expr) : ItemsReadable es := by
  cases es with
  | nil => exact itemsReadAs_nil
  | cons e rest =>
      cases rest with
      | nil =>
          rw [ItemsReadable, Expr.kindsOfItems, Expr.kindsOfMore, List.append_nil]
          exact itemsReadAs_singleton e.readable.full e.exists_kinds
      | cons e₂ more =>
          exact itemsReadAs_cons e.readable.full e.exists_kinds (Expr.itemsReadable (e₂ :: more))

end

/-! ## Lines -/

-- A header ends with a colon and the end of its line.
theorem headerEnd_rereads {c : Cursor} {ks : List Token.Kind}
    (hc : c.kinds = .mark colon :: .mark .newline :: ks) :
    ∃ d, headerEnd c = .ok d ∧ d.1.kinds = ks := by
  rcases expect_of_kinds hc (by decide) with ⟨c₁, hcolon, h₁⟩
  rcases expect_of_kinds h₁ (by decide) with ⟨c₂, hnewline, h₂⟩
  refine ⟨c₁.andThen c₂.atMost, ?_, h₂⟩
  simp only [headerEnd, hcolon, hnewline]

-- In a header an expression stands in front of the colon.
theorem header_rereads (e : Expr) {c : Cursor} {ks : List Token.Kind}
    (hc : c.kinds = e.kinds ++ .mark colon :: .mark .newline :: ks) :
    Rereads e (·.1) ks (header c) := by
  rcases e.readable.full c _ hc (closing_cons (by decide) _) with ⟨e', c₁, he, hsame, h₁⟩
  rcases headerEnd_rereads h₁ with ⟨c₂, hend, h₂⟩
  refine ⟨e', c₁.andThen c₂.atMost, ?_, hsame, h₂⟩
  simp only [header, he, hend]

-- Elsewhere it stands in front of the end of the line.
theorem lineExpression_rereads (e : Expr) {c : Cursor} {ks : List Token.Kind}
    (hc : c.kinds = e.kinds ++ .mark .newline :: ks) :
    Rereads e (·.1) ks (lineExpression c) := by
  rcases e.readable.full c _ hc (closing_cons (by decide) _) with ⟨e', c₁, he, hsame, h₁⟩
  rcases expect_of_kinds h₁ (by decide) with ⟨c₂, hnewline, h₂⟩
  refine ⟨e', c₁.andThen c₂.atMost, ?_, hsame, h₂⟩
  simp only [lineExpression, he, hnewline]

-- The items of a loop stand behind its name.
theorem forHeader_rereads (name : String) (e : Expr) {c : Cursor} {ks : List Token.Kind}
    (hc : c.kinds = .name name :: (headerKinds .inWord e ++ ks)) :
    ∃ e' d, forHeader c = .ok (name, e', d) ∧ e'.unplaced = e.unplaced ∧ d.1.kinds = ks := by
  rw [headerKinds, List.cons_append, List.append_assoc] at hc
  rcases take?_of_kinds hc rfl with ⟨t, c₁, htake, hkind, h₁⟩
  rcases expect_of_kinds h₁ (by decide) with ⟨c₂, hin, h₂⟩
  rcases header_rereads e h₂ with ⟨e', c₃, he, hsame, h₃⟩
  refine ⟨e', c₁.andThen (c₂.andThen c₃.atMost).atMost, ?_, hsame, h₃⟩
  simp only [forHeader, htake, hkind, hin, he]

-- Behind the name that begins an atom stands nothing of it, or a parenthesis.
theorem Expr.kinds_of_isAtom {e : Expr} (hatom : e.isAtom = true) {name : String}
    {more : List Token.Kind} (h : e.kinds = .name name :: more) :
    more = [] ∨ ∃ rest, more = .mark leftParen :: rest := by
  cases e with
  | lit value _ => cases value <;> simp [Expr.kinds, Literal.kind] at h
  | var _ _ => exact Or.inl (List.cons.inj h).2.symm
  | list _ _ => simp [Expr.kinds] at h
  | call _ _ _ => exact Or.inr ⟨_, (List.cons.inj h).2.symm⟩
  | index _ _ _ => cases hatom
  | unary _ _ _ => cases hatom
  | binary _ _ _ _ => cases hatom

-- What stands behind the name that begins an operand is a parenthesis or what follows the operand.
theorem assign_of_enclosed {e : Expr} {k : Token.Kind} (hk : AssignOp.ofKind? k = none)
    {name : String} {k₂ : Token.Kind} {rest more : List Token.Kind}
    (h : enclosedKinds e.isAtom e.kinds ++ k :: rest = .name name :: k₂ :: more) :
    AssignOp.ofKind? k₂ = none := by
  cases hatom : e.isAtom with
  | false => simp [enclosedKinds, hatom] at h
  | true =>
      rcases e.exists_kinds with ⟨k₁, tail, hkinds, _⟩
      rw [hatom, enclosedKinds, if_pos rfl, hkinds, List.cons_append, List.cons.injEq] at h
      rw [h.1] at hkinds
      rcases Expr.kinds_of_isAtom hatom hkinds with rfl | ⟨inner, rfl⟩
      · rw [← (List.cons.inj h.2).1]
        exact hk
      · rw [← (List.cons.inj h.2).1]
        rfl

/-- A line that is an expression is no assignment. -/
theorem assign_of_line {e : Expr} {name : String} {k : Token.Kind} {ks more : List Token.Kind}
    (h : e.kinds ++ .mark .newline :: ks = .name name :: k :: more) :
    AssignOp.ofKind? k = none := by
  have hatom : e.isAtom = true → AssignOp.ofKind? k = none := by
    intro hatom
    have hline : enclosedKinds e.isAtom e.kinds ++ .mark .newline :: ks
        = .name name :: k :: more := by
      rw [hatom]
      exact h
    exact assign_of_enclosed rfl hline
  cases e with
  | lit _ _ => exact hatom rfl
  | var _ _ => exact hatom rfl
  | list _ _ => exact hatom rfl
  | call _ _ _ => exact hatom rfl
  | index container position _ =>
      rw [Expr.kinds, List.append_assoc, List.cons_append] at h
      exact assign_of_enclosed rfl h
  | unary op _ _ => cases op <;> simp [Expr.kinds] at h
  | binary op left right _ =>
      rw [Expr.kinds, List.append_assoc, List.cons_append] at h
      exact assign_of_enclosed (by cases op <;> rfl) h

-- What the cursor faces is the first of the kinds.
theorem kind_of_kinds {c : Cursor} {k : Token.Kind} {ks : List Token.Kind}
    (h : c.kinds = k :: ks) : c.kind = k := by
  cases hrest : c.rest with
  | nil =>
      rw [Cursor.kinds, hrest] at h
      cases h
  | cons t rest =>
      rw [Cursor.kinds, hrest, List.map_cons, List.cons.injEq] at h
      rw [Cursor.kind, hrest, ← h.1]

end Script

end Farmhand
