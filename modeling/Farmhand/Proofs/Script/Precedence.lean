import Farmhand.Proofs.Script.Rereading
import Mathlib.Order.Monotone.Basic

/-!
# Precedence and Grouping

Operators come in levels: `or`, `and`, `not`, equality, order, sums, products, signs and indices,
each binding tighter than those before it, and operators of one level group to the left. An
expression tree is written with parentheses only where these levels ask for them: around a left
operand that binds looser than its operator, around a right operand that binds no tighter, and
around what a prefix operator or an index would otherwise take apart. Read back, every tree written
so is the same tree.

The induction follows the operator loop. Reading the tokens of a tree comes to the same as going on
with the loop behind them, the whole tree being the left operand (`ReadsPast`). This needs two
things of the surroundings: every operator on the left spine of the tree binds tighter than the loop
asks for (`Expr.Fits`), and what follows binds no tighter than any loop that is still open on the
right spine (`Stops`). Both go down to the operands along the levels.

## Main definitions

* `BinaryOp.level`, `UnaryOp.level`, `Expr.level`: The levels.
* `Expr.bareKinds`: The kinds of the tokens of an expression with no parentheses to spare.
* `powerAt`: The binding power of each level.
* `Stops`: What ends the loops for operators above a level.
* `ReadsPast`: Reading an expression gets behind it and goes on with operators.

## Theorems

* `Expr.led`: Reading a tree gets behind it.
* `parseExpression_bareKinds`: A tree written with no parentheses to spare is read as it is.
-/

namespace Farmhand

namespace Script

open Cursor

/-! ## Levels -/

/-- The level of an operator between two operands. -/
def BinaryOp.level : BinaryOp → Nat
  | or => 1
  | and => 2
  | eq | ne => 4
  | lt | le | gt | ge => 5
  | add | sub => 6
  | mul | div | floorDiv | mod => 7

/-- The level of an operator in front of its operand. -/
def UnaryOp.level : UnaryOp → Nat
  | not => 3
  | neg => 8

/-- The level of an index. -/
def indexLevel : Nat := 9

/-- How tightly an expression holds together. Nothing takes a literal, a variable, a list or a call
    apart. -/
def Expr.level : Expr → Nat
  | .binary op _ _ _ => op.level
  | .unary op _ _ => op.level
  | .index _ _ _ => indexLevel
  | .lit _ _ | .var _ _ | .list _ _ | .call _ _ _ => 10

mutual

/-- The kinds of the tokens of an expression, with parentheses only where the levels ask for
    them. -/
def Expr.bareKinds : Expr → List Token.Kind
  | .lit value _ => [value.kind]
  | .var name _ => [.name name]
  | .list items _ => .mark leftBracket :: (Expr.bareKindsOfItems items ++ [.mark rightBracket])
  | .index container position _ =>
    enclosedKinds (indexLevel ≤ container.level) container.bareKinds ++
      .mark leftBracket :: (position.bareKinds ++ [.mark rightBracket])
  | .unary .neg operand _ =>
    .mark (.punctuation .minus) ::
      enclosedKinds (UnaryOp.neg.level ≤ operand.level) operand.bareKinds
  | .unary .not operand _ =>
    .mark (.keyword .notWord) ::
      enclosedKinds (UnaryOp.not.level ≤ operand.level) operand.bareKinds
  | .binary op left right _ =>
    enclosedKinds (op.level ≤ left.level) left.bareKinds ++
      op.kind :: enclosedKinds (op.level < right.level) right.bareKinds
  | .call name args _ =>
    .name name :: .mark leftParen :: (Expr.bareKindsOfItems args ++ [.mark rightParen])

/-- The kinds of the tokens of items with commas between them. -/
def Expr.bareKindsOfItems : List Expr → List Token.Kind
  | [] => []
  | e :: rest => e.bareKinds ++ Expr.bareKindsOfMore rest

/-- The kinds of the tokens of further items. -/
def Expr.bareKindsOfMore : List Expr → List Token.Kind
  | [] => []
  | e :: rest => .mark comma :: (e.bareKinds ++ Expr.bareKindsOfMore rest)

end

/-- The binding power of a level. The lowest asks for nothing. -/
def powerAt : Nat → Nat
  | 0 => 0
  | 1 => 20
  | 2 => 30
  | 3 => 35
  | n => 10 * n

theorem powerAt_strictMono : StrictMono powerAt := by
  refine strictMono_nat_of_lt_succ ?_
  intro n
  rcases n with - | - | - | - | n
  · decide
  · decide
  · decide
  · decide
  · simp only [powerAt]
    omega

theorem BinaryOp.powerAt_level (op : BinaryOp) : powerAt op.level = op.power := by
  cases op <;> rfl

theorem BinaryOp.level_pos (op : BinaryOp) : 0 < op.level := by
  cases op <;> decide

/-- An operator between two operands binds looser than a sign. -/
theorem BinaryOp.level_lt_neg (op : BinaryOp) : op.level < UnaryOp.neg.level := by
  cases op <;> decide

/-- No operator between two operands binds as tightly as `not`. -/
theorem BinaryOp.level_ne_not (op : BinaryOp) : op.level ≠ UnaryOp.not.level := by
  cases op <;> decide

theorem BinaryOp.ofKind?_kind (op : BinaryOp) : BinaryOp.ofKind? op.kind = some op := by
  cases op <;> rfl

theorem BinaryOp.kind_isMark_endOfInput (op : BinaryOp) : op.kind.isMark .endOfInput = false := by
  cases op <;> rfl

/-! ## What an expression asks of its surroundings -/

/-- The operators on the left spine of an expression bind tighter than a level. Nothing is asked of
    an expression that begins with its operator. -/
def Expr.Fits (n : Nat) : Expr → Prop
  | .binary op _ _ _ => n < op.level
  | .index _ _ _ => n < indexLevel
  | .unary _ _ _ | .lit _ _ | .var _ _ | .list _ _ | .call _ _ _ => True

theorem Expr.Fits.of_lt {n : Nat} {e : Expr} (h : n < e.level) : e.Fits n := by
  cases e with
  | binary op _ _ _ => exact h
  | index _ _ _ => exact h
  | lit _ _ => trivial
  | var _ _ => trivial
  | list _ _ => trivial
  | unary _ _ _ => trivial
  | call _ _ _ => trivial

/-- Below a prefix operator an operand of the same level is another one. -/
theorem Expr.Fits.of_unary_le {op : UnaryOp} {e : Expr} (h : op.level ≤ e.level) :
    e.Fits op.level := by
  rcases Nat.lt_or_eq_of_le h with hlt | heq
  · exact Expr.Fits.of_lt hlt
  · cases e with
    | binary op₂ _ _ _ =>
        cases op with
        | neg => exact absurd heq.symm op₂.level_lt_neg.ne
        | not => exact absurd heq.symm op₂.level_ne_not
    | index _ _ _ => cases op <;> cases heq
    | lit _ _ => trivial
    | var _ _ => trivial
    | list _ _ => trivial
    | unary _ _ _ => trivial
    | call _ _ _ => trivial

theorem Expr.fits_zero (e : Expr) : e.Fits 0 := by
  cases e with
  | binary op _ _ _ => exact op.level_pos
  | index _ _ _ => exact (by decide : 0 < indexLevel)
  | lit _ _ => trivial
  | var _ _ => trivial
  | list _ _ => trivial
  | unary _ _ _ => trivial
  | call _ _ _ => trivial

/-- Tokens of which the first ends every expression, or is an operator or an index that binds no
    tighter than a level. -/
inductive Stops (n : Nat) : List Token.Kind → Prop
  | closing {ks : List Token.Kind} (h : Closing ks) : Stops n ks
  | operator {op : BinaryOp} (h : op.level ≤ n) (ks : List Token.Kind) : Stops n (op.kind :: ks)
  | bracket (h : indexLevel ≤ n) (ks : List Token.Kind) : Stops n (.mark leftBracket :: ks)

theorem Stops.mono {n m : Nat} {ks : List Token.Kind} (h : Stops n ks) (hle : n ≤ m) :
    Stops m ks := by
  cases h with
  | closing h => exact .closing h
  | operator h ks => exact .operator (h.trans hle) ks
  | bracket h ks => exact .bracket (h.trans hle) ks

theorem Stops.head?_ne {n : Nat} {ks : List Token.Kind} (h : Stops n ks) :
    ks.head? ≠ some (.mark leftParen) := by
  cases h with
  | closing h => exact h.head?_ne
  | operator h ks =>
      rw [List.head?_cons, Ne, Option.some.injEq]
      rename_i op
      cases op <;> simp [BinaryOp.kind]
  | bracket h ks => simp

/-- The loop for operators above a level ends where it finds none. -/
theorem operators_of_stops {n : Nat} {c : Cursor} (h : Stops n c.kinds) (left : Expr) :
    operators (powerAt n) left c = .ok (left, c.here) := by
  generalize hks : c.kinds = ks at h
  cases h with
  | closing h =>
      rw [← hks] at h
      exact operators_of_closing h (powerAt n) left
  | operator h ks =>
      rename_i op
      rcases take?_of_kinds hks op.kind_isMark_endOfInput with ⟨t, next, htake, hkind, _⟩
      have hpower : op.power ≤ powerAt n := by
        rw [← op.powerAt_level]
        exact powerAt_strictMono.monotone h
      rw [operators, htake]
      simp only [hkind, op.ofKind?_kind, if_pos hpower]
  | bracket h ks =>
      rcases take?_of_kinds hks rfl with ⟨t, next, htake, hkind, _⟩
      have hop : BinaryOp.ofKind? t.kind = none := by
        rw [hkind]
        rfl
      have hpower : ¬powerAt n < indexPower :=
        Nat.not_lt.mpr (powerAt_strictMono.monotone h)
      rw [operators, htake]
      simp only [hop, hpower, decide_false, Bool.and_false, Bool.false_eq_true, if_false]

/-! ## Reading with the operator loop -/

/-- Reading an expression at a level gets behind it, where certain tokens are left, and goes on with
    the operators that bind tighter than the level. -/
def ReadsPast (e : Expr) (n : Nat) (ks : List Token.Kind) (c : Cursor) : Prop :=
  ∃ (e' : Expr) (d : c.Shorter), e'.unplaced = e.unplaced ∧ d.1.kinds = ks ∧
    expression (powerAt n) c = (operators (powerAt n) e' d.1).map fun p => (p.1, d.andThen p.2)

theorem ReadsPast.of_operand {e : Expr} {ks : List Token.Kind} {c : Cursor}
    (h : Rereads e (·.1) ks (operand c)) (n : Nat) : ReadsPast e n ks c := by
  rcases h with ⟨e', d, hoperand, hsame, hd⟩
  refine ⟨e', d, hsame, hd, ?_⟩
  rw [expression, hoperand]
  cases hops : operators (powerAt n) e' d.1 with
  | error fault => simp only [hops, Except.map]
  | ok p => simp only [hops, Except.map]

theorem ReadsPast.rereads {e : Expr} {n : Nat} {ks : List Token.Kind} {c : Cursor}
    (h : ReadsPast e n ks c) (hks : Stops n ks) :
    Rereads e (·.1) ks (expression (powerAt n) c) := by
  rcases h with ⟨e', d, hsame, rfl, he⟩
  refine ⟨e', d.andThen d.1.here, ?_, hsame, rfl⟩
  rw [he, operators_of_stops hks]
  rfl

/-- What is to be shown of an expression: reading it gets behind it wherever the surroundings leave
    it whole. -/
def Led (e : Expr) : Prop :=
  ∀ (n : Nat) (c : Cursor) (ks : List Token.Kind), c.kinds = e.bareKinds ++ ks → e.Fits n →
    Stops e.level ks → ReadsPast e n ks c

/-- At the lowest level an expression is read up to what ends it. -/
theorem Led.readsAs {e : Expr} (h : Led e) : ReadsAs e e.bareKinds := by
  intro c ks hc hks
  exact (h 0 c ks hc e.fits_zero (.closing hks)).rereads (.closing hks)

/-- An operand is read with the operator loop going on behind it, if it stands in parentheses or if
    the surroundings leave it whole. -/
theorem Led.enclosed {e : Expr} (h : Led e) {bare : Prop} [Decidable bare] {n : Nat} {c : Cursor}
    {ks : List Token.Kind} (hc : c.kinds = enclosedKinds bare e.bareKinds ++ ks)
    (hbare : bare → e.Fits n ∧ Stops e.level ks) : ReadsPast e n ks c := by
  by_cases hb : bare
  · rw [decide_eq_true hb, enclosedKinds, if_pos rfl] at hc
    exact h n c ks hc (hbare hb).1 (hbare hb).2
  · rw [decide_eq_false hb, enclosedKinds, if_neg Bool.false_ne_true] at hc
    exact ReadsPast.of_operand (operand_group h.readsAs hc) n

-- A prefix operator takes all of its operand and leaves what binds no tighter.
theorem led_unary (op : UnaryOp) {operand : Expr} (h : Led operand) (span : Span) :
    Led (.unary op operand span) := by
  intro n c ks hc _ hks
  refine ReadsPast.of_operand ?_ n
  have hbehind : ∀ c₁ : Cursor,
      c₁.kinds = enclosedKinds (op.level ≤ operand.level) operand.bareKinds ++ ks →
      Rereads operand (·.1) ks (expression (powerAt op.level) c₁) := fun c₁ h₁ =>
    (h.enclosed h₁ fun hle => ⟨Expr.Fits.of_unary_le hle, hks.mono hle⟩).rereads hks
  cases op with
  | neg =>
      rw [Expr.bareKinds, List.cons_append] at hc
      rcases take?_of_kinds hc rfl with ⟨t, c₁, htake, hkind, h₁⟩
      rcases hbehind c₁.1 h₁ with ⟨e', c₂, he, hsame, h₂⟩
      refine ⟨.unary .neg e' (t.span.through e'.span), c₁.andThen c₂.atMost, ?_, ?_, h₂⟩
      · have hpower : expression unaryPower c₁.1 = .ok (e', c₂) := he
        rw [Script.operand, htake]
        simp only [hkind, hpower]
      · rw [Expr.unplaced, Expr.unplaced, hsame]
  | not =>
      rw [Expr.bareKinds, List.cons_append] at hc
      rcases take?_of_kinds hc rfl with ⟨t, c₁, htake, hkind, h₁⟩
      rcases hbehind c₁.1 h₁ with ⟨e', c₂, he, hsame, h₂⟩
      refine ⟨.unary .not e' (t.span.through e'.span), c₁.andThen c₂.atMost, ?_, ?_, h₂⟩
      · have hpower : expression notPower c₁.1 = .ok (e', c₂) := he
        rw [Script.operand, htake]
        simp only [hkind, hpower]
      · rw [Expr.unplaced, Expr.unplaced, hsame]

-- The loop that is behind the left operand takes the operator and the right operand.
theorem led_binary (op : BinaryOp) {left right : Expr} (hleft : Led left) (hright : Led right)
    (span : Span) : Led (.binary op left right span) := by
  intro n c ks hc hfits hks
  rw [Expr.bareKinds, List.append_assoc, List.cons_append] at hc
  rcases hleft.enclosed hc fun hle =>
    ⟨Expr.Fits.of_lt (Nat.lt_of_lt_of_le hfits hle), .operator hle _⟩ with
    ⟨left', c₁, hsame₁, h₁, he₁⟩
  rcases take?_of_kinds h₁ op.kind_isMark_endOfInput with ⟨t, c₂, htake, hkind, h₂⟩
  rcases (hright.enclosed h₂ fun hlt =>
    ⟨Expr.Fits.of_lt hlt, hks.mono (Nat.le_of_lt hlt)⟩).rereads hks with
    ⟨right', c₃, he₃, hsame₃, h₃⟩
  have hpower : ¬op.power ≤ powerAt n := by
    rw [← op.powerAt_level, Nat.not_le]
    exact powerAt_strictMono hfits
  rw [op.powerAt_level] at he₃
  refine ⟨.binary op left' right' (left'.span.through right'.span),
    c₁.andThen (c₂.andThen c₃.atMost).atMost, ?_, h₃, ?_⟩
  · rw [Expr.unplaced, Expr.unplaced, hsame₁, hsame₃]
  · rw [he₁, operators, htake]
    simp only [hkind, op.ofKind?_kind, if_neg hpower, he₃]
    change _ = (operators (powerAt n) _ c₃.1).map _
    cases operators (powerAt n) (.binary op left' right' (left'.span.through right'.span)) c₃.1 with
    | error fault => rfl
    | ok p => rfl

-- An index has its container on the left, which is enclosed unless it binds as tightly.
theorem led_index {container position : Expr} (hcontainer : Led container)
    (hposition : Led position) (span : Span) : Led (.index container position span) := by
  intro n c ks hc hfits _
  rw [Expr.bareKinds, List.append_assoc, List.cons_append, List.append_assoc,
    List.singleton_append] at hc
  rcases hcontainer.enclosed hc fun hle =>
    ⟨Expr.Fits.of_lt (Nat.lt_of_lt_of_le hfits hle), .bracket hle _⟩ with
    ⟨container', c₁, hsame₁, h₁, he₁⟩
  rcases take?_of_kinds h₁ rfl with ⟨t, c₂, htake, hkind, h₂⟩
  rcases hposition.readsAs c₂.1 _ h₂ (closing_cons (by decide) ks) with
    ⟨position', c₃, he₃, hsame₃, h₃⟩
  rcases expect_of_kinds h₃ (by decide) with ⟨c₄, hexpect, h₄⟩
  have hop : BinaryOp.ofKind? t.kind = none := by
    rw [hkind]
    rfl
  have hbracket : (t.kind.isMark leftBracket && decide (powerAt n < indexPower)) = true := by
    have hpower : powerAt n < indexPower := powerAt_strictMono hfits
    rw [hkind, decide_eq_true hpower]
    rfl
  refine ⟨.index container' position' (container'.span.through c₄.1.last),
    c₁.andThen (c₂.andThen (c₃.andThen c₄.atMost).atMost).atMost, ?_, h₄, ?_⟩
  · rw [Expr.unplaced, Expr.unplaced, hsame₁, hsame₃]
  · rw [he₁, operators, htake]
    simp only [hop, hbracket, if_true, he₃, hexpect]
    change _ = (operators (powerAt n) _ c₄.1).map _
    cases operators (powerAt n)
      (.index container' position' (container'.span.through c₄.1.last)) c₄.1 with
    | error fault => rfl
    | ok p => rfl

-- Bare expressions have a first token as well, one that an expression can begin with.
theorem Expr.exists_bareKinds (e : Expr) : ∃ k more, e.bareKinds = k :: more ∧ Opens k := by
  cases e with
  | lit value _ => exact ⟨value.kind, [], rfl, by cases value <;> trivial⟩
  | var name _ => exact ⟨.name name, [], rfl, trivial⟩
  | list items _ => exact ⟨.mark leftBracket, _, rfl, opens_mark (by decide)⟩
  | index container position _ =>
      rcases exists_enclosedKinds (indexLevel ≤ container.level) container.exists_bareKinds with
        ⟨k, more, hk, ho⟩
      exact ⟨k, _, by rw [Expr.bareKinds, hk, List.cons_append], ho⟩
  | unary op operand _ =>
      cases op with
      | neg => exact ⟨.mark (.punctuation .minus), _, rfl, opens_mark (by decide)⟩
      | not => exact ⟨.mark (.keyword .notWord), _, rfl, opens_mark (by decide)⟩
  | binary op left right _ =>
      rcases exists_enclosedKinds (op.level ≤ left.level) left.exists_bareKinds with
        ⟨k, more, hk, ho⟩
      exact ⟨k, _, by rw [Expr.bareKinds, hk, List.cons_append], ho⟩
  | call name args _ => exact ⟨.name name, _, rfl, trivial⟩

mutual

/-- Reading a tree that is written with no parentheses to spare gets behind it. -/
theorem Expr.led (e : Expr) : Led e := by
  cases e with
  | lit value span =>
      intro n c ks hc _ hks
      exact ReadsPast.of_operand ((readable_lit value span).atom rfl c ks hc hks.head?_ne) n
  | var name span =>
      intro n c ks hc _ hks
      exact ReadsPast.of_operand ((readable_var name span).atom rfl c ks hc hks.head?_ne) n
  | list items span =>
      intro n c ks hc _ _
      exact ReadsPast.of_operand (operand_list (Expr.itemsLed items) span hc) n
  | index container position span => exact led_index container.led position.led span
  | unary op operand span => exact led_unary op operand.led span
  | binary op left right span => exact led_binary op left.led right.led span
  | call name args span =>
      intro n c ks hc _ _
      exact ReadsPast.of_operand (operand_call name (Expr.itemsLed args) span hc) n

/-- Items are read one by one. -/
theorem Expr.itemsLed (es : List Expr) : ItemsReadAs es (Expr.bareKindsOfItems es) := by
  cases es with
  | nil => exact itemsReadAs_nil
  | cons e rest =>
      cases rest with
      | nil =>
          rw [Expr.bareKindsOfItems, Expr.bareKindsOfMore, List.append_nil]
          exact itemsReadAs_singleton e.led.readsAs e.exists_bareKinds
      | cons e₂ more =>
          exact itemsReadAs_cons e.led.readsAs e.exists_bareKinds (Expr.itemsLed (e₂ :: more))

end

/-- Every expression tree, written with parentheses only where the levels ask for them and with the
    end of the line and of the input behind it, is read as the tree it is, up to places. -/
theorem parseExpression_bareKinds (e : Expr) {tokens : List Token}
    (h : tokens.map Token.kind = e.bareKinds ++ [.mark .newline, .mark .endOfInput]) :
    ∃ e', parseExpression tokens = .ok e' ∧ e'.unplaced = e.unplaced := by
  have hclosing : Closing [.mark .newline, .mark .endOfInput] := closing_cons (by decide) _
  rcases e.led.readsAs (.start tokens) _ h hclosing with ⟨e', d, he, hsame, _⟩
  refine ⟨e', ?_, hsame⟩
  rw [parseExpression, he]
  rfl

/-- The tree of `not a == b or -xs[0] * (c - (d - 2)) < f(-1)`, which needs just these
    parentheses. -/
theorem parseExpression_bareKinds_mixed :
    let tree : Expr :=
      .binary .or
        (.unary .not (.binary .eq (.var "a" .nowhere) (.var "b" .nowhere) .nowhere) .nowhere)
        (.binary .lt
          (.binary .mul
            (.unary .neg (.index (.var "xs" .nowhere) (.lit (.int 0) .nowhere) .nowhere) .nowhere)
            (.binary .sub (.var "c" .nowhere)
              (.binary .sub (.var "d" .nowhere) (.lit (.int 2) .nowhere) .nowhere) .nowhere)
            .nowhere)
          (.call "f" [.unary .neg (.lit (.int 1) .nowhere) .nowhere] .nowhere) .nowhere)
        .nowhere
    let tokens : List Token :=
      [.mark (.keyword .notWord), .name "a", .mark (.punctuation .equal), .name "b",
        .mark (.keyword .orWord), .mark (.punctuation .minus), .name "xs", .mark leftBracket,
        .int 0, .mark rightBracket, .mark (.punctuation .star), .mark leftParen, .name "c",
        .mark (.punctuation .minus), .mark leftParen, .name "d", .mark (.punctuation .minus),
        .int 2, .mark rightParen, .mark rightParen, .mark (.punctuation .less), .name "f",
        .mark leftParen, .mark (.punctuation .minus), .int 1, .mark rightParen, .mark .newline,
        .mark .endOfInput].map (⟨·, .nowhere⟩)
    ∃ e, parseExpression tokens = .ok e ∧ e.unplaced = tree := by
  intro tree tokens
  exact parseExpression_bareKinds tree rfl

end Script

end Farmhand
