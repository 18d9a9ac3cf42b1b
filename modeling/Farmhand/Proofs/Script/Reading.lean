import Farmhand.Script.Statement

/-!
# Reading Forward

Reading a script steps forward through its tokens: wherever a part of the grammar leaves off, what
is left is an end of what was there. The types of the parser only count the tokens left, so the
fact is shown again for each part, along the recursion of the parser. On the way it is seen which
faults can be noted: a bad indentation is reported for an opening token only, and by the token's
own line.

## Main definitions

* `Cursor.Follows`: One position is reached from another by stepping forward.
* `Reads`: A position further on, or a fault that is not about indentation.
* `Sound`: A position further on, and a bad indentation noted only at openings.

## Theorems

* `expression_reads`, `header_reads`, `lineStatement_reads`: The parts within a line.
* `statement_sound`, `block_sound`, `branches_sound`, `statements_sound`: The parts over lines.
* `topLevel_opening`: A bad indentation of a whole script is noted at one of its openings.
-/

namespace Farmhand

namespace Script

/-- A position that is reached from another by stepping forward only. -/
def Cursor.Follows (d c : Cursor) : Prop :=
  d.rest <:+ c.rest

/-- What reading an expression or a header may answer: a position further on, or a fault that is
    not about indentation. -/
def Reads {α : Type} (c : Cursor) (place : α → Cursor) : Except Fault α → Prop
  | .ok answer => (place answer).Follows c
  | .error fault => fault.error ≠ .unexpectedIndent

-- What was read ends further on.
theorem Reads.of_ok {α : Type} {c : Cursor} {place : α → Cursor} {r : Except Fault α} {answer : α}
    (h : Reads c place r) (hr : r = .ok answer) : (place answer).Follows c := by
  rw [hr] at h
  exact h

-- What could not be read is not reported as a bad indentation.
theorem Reads.of_error {α : Type} {c : Cursor} {place : α → Cursor} {r : Except Fault α}
    {fault : Fault} (h : Reads c place r) (hr : r = .error fault) :
    fault.error ≠ .unexpectedIndent := by
  rw [hr] at h
  exact h

namespace Cursor

-- A position is reached from itself.
theorem Follows.refl (c : Cursor) : c.Follows c :=
  List.suffix_refl c.rest

-- Steps forward add up.
theorem Follows.trans {c d e : Cursor} (h : e.Follows d) (h' : d.Follows c) : e.Follows c :=
  List.IsSuffix.trans h h'

-- The token that is taken is the next one, and is not the end.
theorem take?_eq_some {c : Cursor} {t : Token} {next : c.Shorter} (h : c.take? = some (t, next)) :
    c.rest = t :: next.1.rest ∧ t.kind.isMark .endOfInput = false := by
  unfold take? at h
  split at h
  · cases h
  · next t' rest hrest =>
      split at h
      · cases h
      · next hend =>
          simp only [Option.some.injEq, Prod.mk.injEq] at h
          rcases h with ⟨ht, hnext⟩
          rw [← hnext, ← ht]
          exact ⟨hrest, Bool.eq_false_iff.mpr hend⟩

-- What is left behind it is an end of what was there.
theorem take?_follows {c : Cursor} {t : Token} {next : c.Shorter}
    (h : c.take? = some (t, next)) : next.1.Follows c := by
  rw [Follows, (take?_eq_some h).1]
  exact List.suffix_cons t next.1.rest

-- What is left behind a mark follows the position in front of it.
theorem skip?_follows {c : Cursor} {m : Mark} {next : c.Shorter} (h : c.skip? m = some next) :
    next.1.Follows c := by
  unfold skip? at h
  split at h
  · next t d htake =>
      split at h
      · cases h
        exact take?_follows htake
      · cases h
  · cases h

-- A mark that is not there is reported as unexpected.
theorem expect_reads (c : Cursor) (m : Mark) : Reads c (·.1) (c.expect m) := by
  unfold expect
  split
  · next next hskip => exact skip?_follows hskip
  · exact nofun

end Cursor

open Cursor

-- This is no complaint about an indentation.
theorem unexpected_ne (c : Cursor) : c.unexpected.error ≠ .unexpectedIndent :=
  nofun

mutual

/-- Expressions are read forward: an operand, and what follows it. -/
theorem expression_reads (floor : Nat) (c : Cursor) :
    Reads c (·.2.1) (expression floor c) := by
  rw [expression]
  split
  · next h => exact (operand_reads c).of_error h
  · next left c₁ h =>
      split
      · next h' => exact (operators_reads floor left c₁.1).of_error h'
      · next h' =>
          exact ((operators_reads floor left c₁.1).of_ok h').trans ((operand_reads c).of_ok h)
termination_by (c.size, 1)

theorem operand_reads (c : Cursor) : Reads c (·.2.1) (operand c) := by
  rw [operand]
  split
  · exact unexpected_ne c
  · next t c₁ htake =>
      have h₁ := take?_follows htake
      -- Literals and names end where they are; the rest goes on to operands, items or a bracket.
      split
      · exact h₁
      · exact h₁
      · exact h₁
      · exact h₁
      · exact h₁
      · split
        · exact h₁
        · next c₂ hskip =>
            have h₂ := (skip?_follows hskip).trans h₁
            split
            · next h => exact (items_reads rightParen c₂.1).of_error h
            · next args c₃ h =>
                have h₃ := ((items_reads rightParen c₂.1).of_ok h).trans h₂
                split
                · next h' => exact (expect_reads c₃.1 rightParen).of_error h'
                · next h' => exact ((expect_reads c₃.1 rightParen).of_ok h').trans h₃
      · split
        · next h => exact (expression_reads unaryPower c₁.1).of_error h
        · next h => exact ((expression_reads unaryPower c₁.1).of_ok h).trans h₁
      · split
        · next h => exact (expression_reads unaryPower c₁.1).of_error h
        · next h => exact ((expression_reads unaryPower c₁.1).of_ok h).trans h₁
      · split
        · next h => exact (expression_reads notPower c₁.1).of_error h
        · next h => exact ((expression_reads notPower c₁.1).of_ok h).trans h₁
      · split
        · next h => exact (expression_reads 0 c₁.1).of_error h
        · next e c₂ h =>
            have h₂ := ((expression_reads 0 c₁.1).of_ok h).trans h₁
            split
            · next h' => exact (expect_reads c₂.1 rightParen).of_error h'
            · next h' => exact ((expect_reads c₂.1 rightParen).of_ok h').trans h₂
      · split
        · next h => exact (items_reads rightBracket c₁.1).of_error h
        · next es c₂ h =>
            have h₂ := ((items_reads rightBracket c₁.1).of_ok h).trans h₁
            split
            · next h' => exact (expect_reads c₂.1 rightBracket).of_error h'
            · next h' => exact ((expect_reads c₂.1 rightBracket).of_ok h').trans h₂
      · exact unexpected_ne c
termination_by (c.size, 0)

/-- What follows an operand is read forward, operator by operator. -/
theorem operators_reads (floor : Nat) (left : Expr) (c : Cursor) :
    Reads c (·.2.1) (operators floor left c) := by
  rw [operators]
  split
  · exact Follows.refl c
  · next t c₁ htake =>
      have h₁ := take?_follows htake
      split
      · next op _ =>
          split
          · exact Follows.refl c
          · split
            · next h => exact (expression_reads op.power c₁.1).of_error h
            · next right c₂ h =>
                have h₂ := ((expression_reads op.power c₁.1).of_ok h).trans h₁
                split
                · next h' => exact (operators_reads floor _ c₂.1).of_error h'
                · next h' => exact ((operators_reads floor _ c₂.1).of_ok h').trans h₂
      · split
        · split
          · next h => exact (expression_reads 0 c₁.1).of_error h
          · next position c₂ h =>
              have h₂ := ((expression_reads 0 c₁.1).of_ok h).trans h₁
              split
              · next h' => exact (expect_reads c₂.1 rightBracket).of_error h'
              · next c₃ h' =>
                  have h₃ := ((expect_reads c₂.1 rightBracket).of_ok h').trans h₂
                  split
                  · next h'' => exact (operators_reads floor _ c₃.1).of_error h''
                  · next h'' => exact ((operators_reads floor _ c₃.1).of_ok h'').trans h₃
        · exact Follows.refl c
termination_by (c.size, 0)

/-- Items are read forward up to their bracket. -/
theorem items_reads (closing : Mark) (c : Cursor) : Reads c (·.2.1) (items closing c) := by
  rw [items]
  split
  · exact Follows.refl c
  · split
    · next h => exact (expression_reads 0 c).of_error h
    · next e c₁ h =>
        have h₁ := (expression_reads 0 c).of_ok h
        split
        · exact h₁
        · next c₂ hskip =>
            have h₂ := (skip?_follows hskip).trans h₁
            split
            · next h' => exact (items_reads closing c₂.1).of_error h'
            · next h' => exact ((items_reads closing c₂.1).of_ok h').trans h₂
termination_by (c.size, 2)

end

-- A header ends with a colon and the end of the line.
theorem headerEnd_reads (c : Cursor) : Reads c (·.1) (headerEnd c) := by
  unfold headerEnd
  split
  · next h => exact (expect_reads c colon).of_error h
  · next c₁ h =>
      split
      · next h' => exact (expect_reads c₁.1 .newline).of_error h'
      · next h' =>
          exact ((expect_reads c₁.1 .newline).of_ok h').trans ((expect_reads c colon).of_ok h)

/-- A header is read forward: the condition, and its end. -/
theorem header_reads (c : Cursor) : Reads c (·.2.1) (header c) := by
  unfold header
  split
  · next h => exact (expression_reads 0 c).of_error h
  · next e c₁ h =>
      split
      · next h' => exact (headerEnd_reads c₁.1).of_error h'
      · next h' => exact ((headerEnd_reads c₁.1).of_ok h').trans ((expression_reads 0 c).of_ok h)

/-- An expression that fills its line is read forward. -/
theorem lineExpression_reads (c : Cursor) : Reads c (·.2.1) (lineExpression c) := by
  unfold lineExpression
  split
  · next h => exact (expression_reads 0 c).of_error h
  · next e c₁ h =>
      split
      · next h' => exact (expect_reads c₁.1 .newline).of_error h'
      · next h' =>
          exact ((expect_reads c₁.1 .newline).of_ok h').trans ((expression_reads 0 c).of_ok h)

/-- The header of a `for` loop is read forward. -/
theorem forHeader_reads (c : Cursor) : Reads c (·.2.2.1) (forHeader c) := by
  unfold forHeader
  split
  · exact unexpected_ne c
  · next t c₁ htake =>
      split
      · split
        · next h => exact (expect_reads c₁.1 (.keyword .inWord)).of_error h
        · next c₂ h =>
            have h₂ := ((expect_reads c₁.1 (.keyword .inWord)).of_ok h).trans (take?_follows htake)
            split
            · next h' => exact (header_reads c₂.1).of_error h'
            · next h' => exact ((header_reads c₂.1).of_ok h').trans h₂
      · exact unexpected_ne c

-- A line of one word: the word and the end of the line.
theorem map_expect_reads {α : Type} {c d : Cursor} (hd : d.Follows c) (m : Mark)
    (place : α → Cursor) (f : d.Shorter → α) (hf : ∀ e, place (f e) = e.1) :
    Reads c place ((d.expect m).map f) := by
  have h := expect_reads d m
  cases he : d.expect m with
  | error fault => exact h.of_error he
  | ok e =>
      change (place (f e)).Follows c
      rw [hf]
      exact (h.of_ok he).trans hd

/-- A statement of one line is read forward, whichever it is. -/
theorem lineStatement_reads (c : Cursor) (t : Token) (next : c.Shorter)
    (htake : c.take? = some (t, next)) : Reads c (·.2.1) (lineStatement c t next) := by
  have h₁ := take?_follows htake
  unfold lineStatement
  split
  · split
    · next h => exact (skip?_follows h).trans h₁
    · split
      · next h => exact (lineExpression_reads next.1).of_error h
      · next h => exact ((lineExpression_reads next.1).of_ok h).trans h₁
  · exact map_expect_reads h₁ .newline _ _ fun _ => rfl
  · exact map_expect_reads h₁ .newline _ _ fun _ => rfl
  · exact map_expect_reads h₁ .newline _ _ fun _ => rfl
  · split
    · next name op t' c₁ _ _ htake' =>
        split
        · next h => exact (lineExpression_reads c₁.1).of_error h
        · next h =>
            exact ((lineExpression_reads c₁.1).of_ok h).trans ((take?_follows htake').trans h₁)
    · split
      · next h => exact (lineExpression_reads c).of_error h
      · next h => exact (lineExpression_reads c).of_ok h

namespace Cursor

-- Skipping a line drops tokens from the front.
theorem rest_skipLineFrom_suffix (last : Span) (tokens : List Token) :
    (skipLineFrom last tokens).rest <:+ tokens := by
  induction tokens generalizing last with
  | nil => exact List.suffix_refl _
  | cons t rest ih =>
      rw [skipLineFrom]
      split
      · exact List.suffix_cons t rest
      · split
        · exact List.suffix_refl _
        · exact (ih t.span).trans (List.suffix_cons t rest)

-- Skipping a block only takes tokens off the front.
theorem rest_skipBlockFrom_suffix (depth : Nat) (last : Span) (tokens : List Token) :
    (skipBlockFrom depth last tokens).rest <:+ tokens := by
  fun_induction skipBlockFrom depth last tokens with
  | case1 => exact List.suffix_refl _
  | case2 => exact List.suffix_refl _
  | case3 depth last t rest _ _ ih => exact ih.trans (List.suffix_cons t rest)
  | case4 last t rest => exact List.suffix_cons t rest
  | case5 last t rest _ _ _ depth ih => exact ih.trans (List.suffix_cons t rest)
  | case6 depth last t rest _ _ _ ih => exact ih.trans (List.suffix_cons t rest)

-- Skipping a line goes forward.
theorem skipLine_follows (c : Cursor) : c.skipLine.1.Follows c :=
  rest_skipLineFrom_suffix c.last c.rest

-- Skipping a block goes forward.
theorem skipBlock_follows (c : Cursor) : c.skipBlock.1.Follows c :=
  rest_skipBlockFrom_suffix 0 c.last c.rest

-- So does skipping the block under a line, if there is one.
theorem skipNested_follows (c : Cursor) : c.skipNested.1.Follows c := by
  unfold skipNested
  split
  · next next h => exact (skipBlock_follows next.1).trans (skip?_follows h)
  · exact Follows.refl c

-- What is done about a line that cannot be read goes forward.
theorem recover_follows {c : Cursor} (first : Token) (next : c.Shorter)
    (h : next.1.Follows c) : (recover first next).1.Follows c := by
  unfold recover
  split
  · exact (skipNested_follows next.1).trans h
  · exact (skipNested_follows next.1.skipLine.1).trans ((skipLine_follows next.1).trans h)

end Cursor

/-- What reading statements may answer: a position further on, and among the faults a bad
    indentation only for an opening that was read. -/
structure Sound (c : Cursor) (faults : List Fault) (d : Cursor) : Prop where
  follows : d.Follows c
  opening : ∀ f ∈ faults, f.error = .unexpectedIndent →
    ∃ t ∈ c.rest, t.kind.isMark .indent = true ∧ t.span.line = f.line

-- Without faults there is nothing to show but the way.
theorem Sound.nil {c d : Cursor} (h : d.Follows c) : Sound c [] d :=
  ⟨h, fun _ hf => absurd hf List.not_mem_nil⟩

-- A fault that is not about indentation needs no opening.
theorem Sound.single {c d : Cursor} {fault : Fault} (h : d.Follows c)
    (hfault : fault.error ≠ .unexpectedIndent) : Sound c [fault] d :=
  ⟨h, fun _ hf he => absurd he (List.mem_singleton.mp hf ▸ hfault)⟩

-- An opening further on is one of the tokens from here.
theorem Sound.of_follows {b c d : Cursor} {faults : List Fault} (h : Sound c faults d)
    (hc : c.Follows b) : Sound b faults d := by
  refine ⟨h.follows.trans hc, ?_⟩
  intro f hf he
  rcases h.opening f hf he with ⟨t, ht, hindent⟩
  exact ⟨t, hc.subset ht, hindent⟩

/-- Two stretches one after the other. -/
theorem Sound.append {c d e : Cursor} {faults more : List Fault} (h : Sound c faults d)
    (h' : Sound d more e) : Sound c (faults ++ more) e := by
  refine ⟨h'.follows.trans h.follows, ?_⟩
  intro f hf he
  rcases List.mem_append.mp hf with hf | hf
  · exact h.opening f hf he
  · exact (h'.of_follows h.follows).opening f hf he

/-- The same for the further branches of a conditional, whether or not a bad header spoils it. -/
def BranchesSound (c : Cursor) : Except (List Fault × c.AtMost)
    (List (Expr × Block) × Option Block × List Fault × c.AtMost) → Prop
  | .ok (_, _, faults, d) => Sound c faults d.1
  | .error (faults, d) => Sound c faults d.1

mutual

theorem statement_sound (source : Text.SourceLines) (c : Cursor) (t : Token) (next : c.Shorter)
    (htake : c.take? = some (t, next)) :
    Sound c (statement source c t next).2.1 (statement source c t next).2.2.1 := by
  have h₁ := take?_follows htake
  rw [statement]
  split
  · next hkind =>
      -- The only fault about indentation, and the opening is the token just taken.
      refine ⟨(skipBlock_follows next.1).trans h₁, ?_⟩
      intro f hf _
      refine ⟨t, (take?_eq_some htake).1 ▸ List.mem_cons_self,
        by simp [hkind, Token.Kind.isMark], ?_⟩
      rw [List.mem_singleton.mp hf]
  · split
    · next h => exact Sound.single (recover_follows t next h₁) ((header_reads next.1).of_error h)
    · next condition c₁ h =>
        have h₂ := ((header_reads next.1).of_ok h).trans h₁
        have hbody := (block_sound source c₁.1).of_follows h₂
        have hle := (block source c₁.1).2.2.2
        have hrest := branches_sound source (block source c₁.1).2.2.1
        dsimp only
        split
        · next h' =>
            rw [h'] at hrest
            exact hbody.append hrest
        · next h' =>
            rw [h'] at hrest
            exact hbody.append hrest
  · split
    · next h => exact Sound.single (recover_follows t next h₁) ((header_reads next.1).of_error h)
    · next condition c₁ h =>
        exact (block_sound source c₁.1).of_follows (((header_reads next.1).of_ok h).trans h₁)
  · split
    · next h => exact Sound.single (recover_follows t next h₁) ((forHeader_reads next.1).of_error h)
    · next name items c₁ h =>
        exact (block_sound source c₁.1).of_follows (((forHeader_reads next.1).of_ok h).trans h₁)
  · split
    · next h =>
        exact Sound.single (recover_follows t next h₁)
          ((lineStatement_reads c t next htake).of_error h)
    · next h => exact Sound.nil ((lineStatement_reads c t next htake).of_ok h)
termination_by (c.size, 0)

/-- A block notes a bad indentation only at openings inside it. -/
theorem block_sound (source : Text.SourceLines) (c : Cursor) :
    Sound c (block source c).2.1 (block source c).2.2.1 := by
  rw [block]
  split
  · exact Sound.single (Follows.refl c) nofun
  · next c₁ hskip =>
      have hbody := (statements_sound source c₁.1).of_follows (skip?_follows hskip)
      dsimp only
      split
      · exact hbody
      · next hskip' =>
          exact ⟨(skip?_follows hskip').trans hbody.follows, hbody.opening⟩
termination_by (c.size, 2)

theorem branches_sound (source : Text.SourceLines) (c : Cursor) :
    BranchesSound c (branches source c) := by
  rw [branches]
  split
  · exact Sound.nil (Follows.refl c)
  · next t next htake =>
      have h₁ := take?_follows htake
      split
      · split
        · next h =>
            exact Sound.single (recover_follows t next h₁) ((header_reads next.1).of_error h)
        · next condition c₁ h =>
            have h₂ := ((header_reads next.1).of_ok h).trans h₁
            have hbody := (block_sound source c₁.1).of_follows h₂
            have hle := (block source c₁.1).2.2.2
            have hrest := branches_sound source (block source c₁.1).2.2.1
            -- Further down a header may be spoiled; the faults of both parts are kept.
            dsimp only
            split
            · next h' =>
                rw [h'] at hrest
                exact hbody.append hrest
            · next h' =>
                rw [h'] at hrest
                exact hbody.append hrest
      · split
        · next h =>
            exact Sound.single (recover_follows t next h₁) ((headerEnd_reads next.1).of_error h)
        · next c₁ h =>
            exact (block_sound source c₁.1).of_follows (((headerEnd_reads next.1).of_ok h).trans h₁)
      · exact Sound.nil (Follows.refl c)
termination_by (c.size, 0)

/-- Statements one after the other are sound, since each is read further on. -/
theorem statements_sound (source : Text.SourceLines) (c : Cursor) :
    Sound c (statements source c).2.1 (statements source c).2.2.1 := by
  rw [statements]
  split
  · exact Sound.nil (Follows.refl c)
  · next t next htake =>
      split
      · exact Sound.nil (Follows.refl c)
      · have hless := (statement source c t next).2.2.2
        exact (statement_sound source c t next htake).append
          (statements_sound source (statement source c t next).2.2.1)
termination_by (c.size, 1)

end

/-- The faults of a whole program: a bad indentation is noted only at an opening. -/
theorem topLevel_opening (source : Text.SourceLines) (c : Cursor) :
    ∀ f ∈ (topLevel source c).2, f.error = .unexpectedIndent →
      ∃ t ∈ c.rest, t.kind.isMark .indent = true ∧ t.span.line = f.line := by
  rw [topLevel]
  split
  · exact fun f hf => absurd hf List.not_mem_nil
  · next t next htake =>
      split
      · intro f hf he
        rcases topLevel_opening source next.1 f hf he with ⟨t', ht', hindent⟩
        exact ⟨t', (take?_follows htake).subset ht', hindent⟩
      · have hsound := statement_sound source c t next htake
        have hless := (statement source c t next).2.2.2
        intro f hf he
        rcases List.mem_append.mp hf with hf | hf
        · exact hsound.opening f hf he
        · rcases topLevel_opening source (statement source c t next).2.2.1 f hf he with
            ⟨t', ht', hindent⟩
          exact ⟨t', hsound.follows.subset ht', hindent⟩
termination_by c.size

end Script

end Farmhand
