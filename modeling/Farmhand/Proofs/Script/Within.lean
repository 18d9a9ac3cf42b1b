import Farmhand.Proofs.Script.Indented

/-!
# Reading Within a Line

What stands on a line is read without leaving the line: no expression goes over the end of a line,
so a header or a statement of one line either ends with its line or is refused at a token of the
line. The fact is shown along the recursion of the parser, for the end of a line is the one token
that no part of an expression takes.

## Main definitions

* `Cursor.Along`: A position is reached from another without going over the end of a line.
* `Stays`: A position further along the line, or a fault at a token of it.
* `Finishes`: The position behind the line, or a fault at a token of it.

## Theorems

* `expression_stays`: Expressions.
* `header_finishes`, `forHeader_finishes`, `lineStatement_finishes`: What takes a whole line.
* `lineStatement_kept`: A statement of one line stands where its first token does.
-/

namespace Farmhand

namespace Script

namespace Cursor

/-- A position that is reached from another without going over the end of a line. -/
def Along (d c : Cursor) : Prop :=
  ∃ used, c.rest = used ++ d.rest ∧ ∀ t ∈ used, t.kind.isMark .newline = false

theorem Along.refl (c : Cursor) : c.Along c :=
  ⟨[], rfl, nofun⟩

theorem Along.trans {c d e : Cursor} (h : e.Along d) (h' : d.Along c) : e.Along c := by
  rcases h with ⟨used, hused, hplain⟩
  rcases h' with ⟨used', hused', hplain'⟩
  refine ⟨used' ++ used, by rw [hused', hused, List.append_assoc], ?_⟩
  exact List.forall_mem_append.mpr ⟨hplain', hplain⟩

-- Taking a token does not leave the line, unless the token ends it.
theorem take?_along {c : Cursor} {t : Token} {next : c.Shorter} (h : c.take? = some (t, next))
    (ht : t.kind.isMark .newline = false) : next.1.Along c :=
  ⟨[t], (take?_eq_some h).1, fun _ hmem => List.mem_singleton.mp hmem ▸ ht⟩

-- A mark that is passed over was the next token.
theorem skip?_eq_some {c : Cursor} {m : Mark} {next : c.Shorter} (h : c.skip? m = some next) :
    ∃ t, c.take? = some (t, next) ∧ t.kind = .mark m := by
  unfold skip? at h
  split at h
  · next t next' htake =>
      by_cases hm : t.kind.isMark m = true
      · rw [if_pos hm, Option.some.injEq] at h
        exact ⟨t, by rw [htake, h], isMark_eq_true_iff.mp hm⟩
      · rw [if_neg hm] at h
        cases h
  · cases h

theorem skip?_along {c : Cursor} {m : Mark} {next : c.Shorter} (h : c.skip? m = some next)
    (hm : m ≠ .newline) : next.1.Along c := by
  rcases skip?_eq_some h with ⟨t, htake, hkind⟩
  refine take?_along htake ?_
  rw [hkind, Token.Kind.isMark, decide_eq_false_iff_not]
  exact hm

end Cursor

open Cursor

-- No line ends with an operator.
theorem isMark_newline_of_operator {k : Token.Kind} {op : BinaryOp}
    (h : BinaryOp.ofKind? k = some op) : k.isMark .newline = false := by
  rw [Bool.eq_false_iff]
  intro hk
  rw [isMark_eq_true_iff.mp hk] at h
  cases h

/-- What reading a part of a line may answer: a position further along the line, or a fault that is
    noted at a token of the line and is not about blocks. -/
def Stays {α : Type} (c : Cursor) (place : α → Cursor) : Except Fault α → Prop
  | .ok answer => (place answer).Along c
  | .error fault => (∃ d : Cursor, d.Along c ∧ fault.line = d.line) ∧ fault.error ≠ .expectedBlock

-- What staying on the line says of an answer.
theorem Stays.of_ok {α : Type} {c : Cursor} {place : α → Cursor} {r : Except Fault α} {answer : α}
    (h : Stays c place r) (hr : r = .ok answer) : (place answer).Along c := by
  rw [hr] at h
  exact h

-- A fault further along the line is one of the line.
theorem Stays.of_error {α β : Type} {b c : Cursor} {place : α → Cursor} {place' : β → Cursor}
    {r : Except Fault α} {fault : Fault} (h : Stays c place r) (hr : r = .error fault)
    (hc : c.Along b) : Stays b place' (.error fault) := by
  rw [hr] at h
  rcases h with ⟨⟨d, hd, hline⟩, herror⟩
  exact ⟨⟨d, hd.trans hc, hline⟩, herror⟩

-- A token without a place is a fault at that token.
theorem stays_unexpected {α : Type} (c : Cursor) (place : α → Cursor) :
    Stays c place (.error c.unexpected) :=
  ⟨⟨c, Along.refl c, rfl⟩, nofun⟩

-- Another token than the one expected is a fault at that token.
theorem expect_stays (c : Cursor) {m : Mark} (hm : m ≠ .newline) :
    Stays c (·.1) (c.expect m) := by
  unfold expect
  split
  · next h => exact skip?_along h hm
  · exact ⟨⟨c, Along.refl c, rfl⟩, nofun⟩

mutual

/-- Expressions stay on their line. -/
theorem expression_stays (floor : Nat) (c : Cursor) : Stays c (·.2.1) (expression floor c) := by
  rw [expression]
  split
  · next h => exact (operand_stays c).of_error h (Along.refl c)
  · next left c₁ h =>
      have h₁ := (operand_stays c).of_ok h
      split
      · next h' => exact (operators_stays floor left c₁.1).of_error h' h₁
      · next h' => exact ((operators_stays floor left c₁.1).of_ok h').trans h₁
termination_by (c.size, 1)

theorem operand_stays (c : Cursor) : Stays c (·.2.1) (operand c) := by
  rw [operand]
  split
  · exact stays_unexpected c _
  · next t c₁ htake =>
      -- Each of the tokens that an operand begins with is none that ends a line.
      have hplain : ∀ k, t.kind = k → k.isMark .newline = false → c₁.1.Along c :=
        fun k hk hn => take?_along htake (hk ▸ hn)
      split
      · next hk => exact hplain _ hk rfl
      · next hk => exact hplain _ hk rfl
      · next hk => exact hplain _ hk rfl
      · next hk => exact hplain _ hk rfl
      · next hk => exact hplain _ hk rfl
      · next name hk =>
          have h₁ := hplain _ hk rfl
          split
          · exact h₁
          · next c₂ hskip =>
              have h₂ := (skip?_along hskip (by decide)).trans h₁
              split
              · next h => exact (items_stays rightParen c₂.1).of_error h h₂
              · next args c₃ h =>
                  have h₃ := ((items_stays rightParen c₂.1).of_ok h).trans h₂
                  split
                  · next h' => exact (expect_stays c₃.1 (by decide)).of_error h' h₃
                  · next h' => exact ((expect_stays c₃.1 (by decide)).of_ok h').trans h₃
      · next hk =>
          split
          · next h => exact (expression_stays unaryPower c₁.1).of_error h (hplain _ hk rfl)
          · next h => exact ((expression_stays unaryPower c₁.1).of_ok h).trans (hplain _ hk rfl)
      · next hk =>
          split
          · next h => exact (expression_stays unaryPower c₁.1).of_error h (hplain _ hk rfl)
          · next h => exact ((expression_stays unaryPower c₁.1).of_ok h).trans (hplain _ hk rfl)
      · next hk =>
          split
          · next h => exact (expression_stays notPower c₁.1).of_error h (hplain _ hk rfl)
          · next h => exact ((expression_stays notPower c₁.1).of_ok h).trans (hplain _ hk rfl)
      · next hk =>
          split
          · next h => exact (expression_stays 0 c₁.1).of_error h (hplain _ hk rfl)
          · next e c₂ h =>
              have h₂ := ((expression_stays 0 c₁.1).of_ok h).trans (hplain _ hk rfl)
              split
              · next h' => exact (expect_stays c₂.1 (by decide)).of_error h' h₂
              · next h' => exact ((expect_stays c₂.1 (by decide)).of_ok h').trans h₂
      · next hk =>
          split
          · next h => exact (items_stays rightBracket c₁.1).of_error h (hplain _ hk rfl)
          · next es c₂ h =>
              have h₂ := ((items_stays rightBracket c₁.1).of_ok h).trans (hplain _ hk rfl)
              split
              · next h' => exact (expect_stays c₂.1 (by decide)).of_error h' h₂
              · next h' => exact ((expect_stays c₂.1 (by decide)).of_ok h').trans h₂
      · exact stays_unexpected c _
termination_by (c.size, 0)

/-- Operators and indices are tokens of the line, and what stands between them are expressions of
    it. -/
theorem operators_stays (floor : Nat) (left : Expr) (c : Cursor) :
    Stays c (·.2.1) (operators floor left c) := by
  rw [operators]
  split
  · exact Along.refl c
  · next t c₁ htake =>
      split
      · next op hop =>
          have h₁ := take?_along htake (isMark_newline_of_operator hop)
          split
          · exact Along.refl c
          · split
            · next h => exact (expression_stays op.power c₁.1).of_error h h₁
            · next right c₂ h =>
                have h₂ := ((expression_stays op.power c₁.1).of_ok h).trans h₁
                split
                · next h' => exact (operators_stays floor _ c₂.1).of_error h' h₂
                · next h' => exact ((operators_stays floor _ c₂.1).of_ok h').trans h₂
      · split
        · next hbracket =>
            rw [Bool.and_eq_true] at hbracket
            have hk := isMark_eq_true_iff.mp hbracket.1
            have h₁ := take?_along htake (by rw [hk]; rfl)
            split
            · next h => exact (expression_stays 0 c₁.1).of_error h h₁
            · next position c₂ h =>
                have h₂ := ((expression_stays 0 c₁.1).of_ok h).trans h₁
                split
                · next h' => exact (expect_stays c₂.1 (by decide)).of_error h' h₂
                · next c₃ h' =>
                    have h₃ := ((expect_stays c₂.1 (by decide)).of_ok h').trans h₂
                    split
                    · next h'' => exact (operators_stays floor _ c₃.1).of_error h'' h₃
                    · next h'' => exact ((operators_stays floor _ c₃.1).of_ok h'').trans h₃
        · exact Along.refl c
termination_by (c.size, 0)

/-- Items stay on their line, with the commas between them. -/
theorem items_stays (closing : Mark) (c : Cursor) : Stays c (·.2.1) (items closing c) := by
  rw [items]
  split
  · exact Along.refl c
  · split
    · next h => exact (expression_stays 0 c).of_error h (Along.refl c)
    · next e c₁ h =>
        have h₁ := (expression_stays 0 c).of_ok h
        split
        · exact h₁
        · next c₂ hskip =>
            have h₂ := (skip?_along hskip (by decide)).trans h₁
            split
            · next h' => exact (items_stays closing c₂.1).of_error h' h₂
            · next h' => exact ((items_stays closing c₂.1).of_ok h').trans h₂
termination_by (c.size, 2)

end

/-! ## Whole lines -/

/-- What reading a line to its end may answer: the position behind the line, or a fault that is
    noted at a token of it and is not about blocks. -/
def Finishes {α : Type} (c : Cursor) (place : α → Cursor) : Except Fault α → Prop
  | .ok answer => ∃ (d : Cursor) (t : Token), d.Along c ∧ d.rest = t :: (place answer).rest ∧
      t.kind.isMark .newline = true
  | .error fault => (∃ d : Cursor, d.Along c ∧ fault.line = d.line) ∧ fault.error ≠ .expectedBlock

-- A fault within the line is one of reading it to its end.
theorem Stays.finishes {α β : Type} {b c : Cursor} {place : α → Cursor} {place' : β → Cursor}
    {r : Except Fault α} {fault : Fault} (h : Stays c place r) (hr : r = .error fault)
    (hc : c.Along b) : Finishes b place' (.error fault) := by
  rw [hr] at h
  rcases h with ⟨⟨d, hd, hline⟩, herror⟩
  exact ⟨⟨d, hd.trans hc, hline⟩, herror⟩

-- A fault behind some tokens of a line is one of the line.
theorem Finishes.of_error {α β : Type} {b c : Cursor} {place : α → Cursor} {place' : β → Cursor}
    {r : Except Fault α} {fault : Fault} (h : Finishes c place r) (hr : r = .error fault)
    (hc : c.Along b) : Finishes b place' (.error fault) := by
  rw [hr] at h
  rcases h with ⟨⟨d, hd, hline⟩, herror⟩
  exact ⟨⟨d, hd.trans hc, hline⟩, herror⟩

-- An answer behind some tokens of a line is one of the line, whatever is made of it.
theorem Finishes.of_ok {α β : Type} {b c : Cursor} {place : α → Cursor} {place' : β → Cursor}
    {r : Except Fault α} {answer : α} (h : Finishes c place r) (hr : r = .ok answer)
    (hc : c.Along b) {answer' : β} (hplace : place' answer' = place answer) :
    Finishes b place' (.ok answer') := by
  rw [hr] at h
  rcases h with ⟨d, t, hd, hrest, ht⟩
  exact ⟨d, t, hd.trans hc, by rw [hplace]; exact hrest, ht⟩

theorem finishes_unexpected {α : Type} (c : Cursor) (place : α → Cursor) :
    Finishes c place (.error c.unexpected) :=
  ⟨⟨c, Along.refl c, rfl⟩, nofun⟩

-- The end of the line is what takes the reading behind it.
theorem expect_finishes (c : Cursor) : Finishes c (·.1) (c.expect .newline) := by
  unfold expect
  split
  · next next h =>
      rcases skip?_eq_some h with ⟨t, htake, hkind⟩
      exact ⟨c, t, Along.refl c, (take?_eq_some htake).1, isMark_eq_true_iff.mpr hkind⟩
  · exact ⟨⟨c, Along.refl c, rfl⟩, nofun⟩

-- What takes a whole line is a part of the line and then its end.
theorem headerEnd_finishes (c : Cursor) : Finishes c (·.1) (headerEnd c) := by
  unfold headerEnd
  split
  · next h => exact (expect_stays c (by decide)).finishes h (Along.refl c)
  · next c₁ h =>
      have h₁ := (expect_stays c (by decide)).of_ok h
      split
      · next h' => exact (expect_finishes c₁.1).of_error h' h₁
      · next h' => exact (expect_finishes c₁.1).of_ok h' h₁ rfl

theorem header_finishes (c : Cursor) : Finishes c (·.2.1) (header c) := by
  unfold header
  split
  · next h => exact (expression_stays 0 c).finishes h (Along.refl c)
  · next e c₁ h =>
      have h₁ := (expression_stays 0 c).of_ok h
      split
      · next h' => exact (headerEnd_finishes c₁.1).of_error h' h₁
      · next h' => exact (headerEnd_finishes c₁.1).of_ok h' h₁ rfl

theorem lineExpression_finishes (c : Cursor) : Finishes c (·.2.1) (lineExpression c) := by
  unfold lineExpression
  split
  · next h => exact (expression_stays 0 c).finishes h (Along.refl c)
  · next e c₁ h =>
      have h₁ := (expression_stays 0 c).of_ok h
      split
      · next h' => exact (expect_finishes c₁.1).of_error h' h₁
      · next h' => exact (expect_finishes c₁.1).of_ok h' h₁ rfl

/-- The header of a loop over items: a name, `in`, the items, and the end. -/
theorem forHeader_finishes (c : Cursor) : Finishes c (·.2.2.1) (forHeader c) := by
  unfold forHeader
  split
  · exact finishes_unexpected c _
  · next t c₁ htake =>
      split
      · next name hk =>
          have h₁ := take?_along htake (by rw [hk]; rfl)
          split
          · next h => exact (expect_stays c₁.1 (by decide)).finishes h h₁
          · next c₂ h =>
              have h₂ := ((expect_stays c₁.1 (by decide)).of_ok h).trans h₁
              split
              · next h' => exact (header_finishes c₂.1).of_error h' h₂
              · next h' => exact (header_finishes c₂.1).of_ok h' h₂ rfl
      · exact finishes_unexpected c _

-- A line of one word: the word and the end of the line.
theorem map_expect_finishes {α : Type} {c d : Cursor} (hd : d.Along c) (place : α → Cursor)
    (f : d.Shorter → α) (hf : ∀ e, place (f e) = e.1) :
    Finishes c place ((d.expect .newline).map f) := by
  have h := expect_finishes d
  cases he : d.expect .newline with
  | error fault => exact h.of_error he hd
  | ok e => exact h.of_ok he hd (hf e)

-- Behind a sign of assignment the line goes on.
theorem along_of_assign {c : Cursor} {op : AssignOp} {t : Token} {next : c.Shorter}
    (hop : AssignOp.ofKind? c.kind = some op) (htake : c.take? = some (t, next)) :
    next.1.Along c := by
  refine take?_along htake ?_
  have hkind : c.kind = t.kind := by
    rw [Cursor.kind, (take?_eq_some htake).1]
  rw [Bool.eq_false_iff]
  intro hnewline
  rw [hkind, isMark_eq_true_iff.mp hnewline] at hop
  cases hop

/-- A statement of one line takes its line. The first token tells which kind it is, and behind a
    name the second one does. -/
theorem lineStatement_finishes (c : Cursor) (t : Token) (next : c.Shorter)
    (htake : c.take? = some (t, next)) (ht : t.kind.isMark .newline = false) :
    Finishes c (·.2.1) (lineStatement c t next) := by
  have h₁ := take?_along htake ht
  unfold lineStatement
  split
  · split
    · next c₁ hskip =>
        rcases skip?_eq_some hskip with ⟨t', htake', hkind⟩
        exact ⟨next.1, t', h₁, (take?_eq_some htake').1, isMark_eq_true_iff.mpr hkind⟩
    · split
      · next h => exact (lineExpression_finishes next.1).of_error h h₁
      · next h => exact (lineExpression_finishes next.1).of_ok h h₁ rfl
  · exact map_expect_finishes h₁ _ _ fun _ => rfl
  · exact map_expect_finishes h₁ _ _ fun _ => rfl
  · exact map_expect_finishes h₁ _ _ fun _ => rfl
  · split
    · next name op t' c₁ hk hop htake' =>
        have h₂ := (along_of_assign hop htake').trans h₁
        split
        · next h => exact (lineExpression_finishes c₁.1).of_error h h₂
        · next h => exact (lineExpression_finishes c₁.1).of_ok h h₂ rfl
    · split
      · next h => exact (lineExpression_finishes c).of_error h (Along.refl c)
      · next h => exact (lineExpression_finishes c).of_ok h (Along.refl c) rfl

-- A statement stands on the line where its first token is.
theorem Span.line_through {first : Span} (h : first.line ≠ 0) (second : Span) :
    (first.through second).line = first.line := by
  unfold through
  rw [if_neg h]
  split <;> rfl

theorem ok_of_map_eq_ok {ε α β : Type} {r : Except ε α} {f : α → β} {b : β}
    (h : r.map f = .ok b) : ∃ a, r = .ok a ∧ f a = b := by
  cases r with
  | error fault => cases h
  | ok a => exact ⟨a, rfl, Except.ok.inj h⟩

/-- A statement of one line stands on the line of its first token. -/
theorem lineStatement_kept {c : Cursor} {t : Token} {next : c.Shorter} {s : Stmt}
    {d : c.Shorter} (h : lineStatement c t next = .ok (s, d)) (ht : t.span.line ≠ 0) :
    s.span.line = t.span.line ∧ ∀ text span, s ≠ .skipped text span := by
  unfold lineStatement at h
  split at h
  · split at h
    · cases h
      exact ⟨Span.line_through ht _, by simp⟩
    · split at h
      · cases h
      · cases h
        exact ⟨Span.line_through ht _, by simp⟩
  · rcases ok_of_map_eq_ok h with ⟨_, _, heq⟩
    cases heq
    exact ⟨rfl, by simp⟩
  · rcases ok_of_map_eq_ok h with ⟨_, _, heq⟩
    cases heq
    exact ⟨rfl, by simp⟩
  · rcases ok_of_map_eq_ok h with ⟨_, _, heq⟩
    cases heq
    exact ⟨rfl, by simp⟩
  · split at h
    · split at h
      · cases h
      · cases h
        exact ⟨Span.line_through ht _, by simp⟩
    · split at h
      · cases h
      · cases h
        exact ⟨Span.line_through ht _, by simp⟩

end Script

end Farmhand
