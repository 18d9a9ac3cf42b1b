import Farmhand.Proofs.Script.Layers

/-!
# Layout and Moved Lines

Blocks are told apart by columns, and lines are moved by characters. Moving all lines of a block by
as many characters can tear lines apart that stood at one width, since a tab is worth as many
columns as lead to the next tab stop. This module says when the tokens stay the same.

Every line but the first goes on with the block of a line above, or opens a block under it: this is
the nearest line above that does not stand to the right of it, its leader. The layout of the moved
lines is that of the lines, without the block around them, exactly if the first line comes to stand
at the margin and every other line stands to its leader as before, at the same width or to the right
of it.

The stack of open blocks is run twice, before and after the move. It holds the leaders of all widths
that may still come, so both stacks are one list of pairs, of which the outermost stands at the
margin after the move (`Paired`).

## Main definitions

* `leader`: The nearest line above that does not stand to the right of a width.
* `KeepsLayout`: Every line stands to its leader as before.
* `widthsMoved`: The widths of lines before and after a move.
* `Paired`: The stack, before and after the move.
* `StepsBoth`: What a line does to both stacks.
* `HasKinds`: The tokens of code lines, without their places.

## Theorems

* `changeIndent_dedents_iff`: When a line closes a number of blocks.
* `Paired.step`: A line that has a layout steps on both stacks.
* `HasKinds.first_le`: The first line of a block stands leftmost.
* `hasKinds_moved`: The layout of lines below a stack.
* `hasKinds_keepsLayout`: The layout of a whole section.
-/

namespace Farmhand

namespace Script

/-! ## Leaders -/

/-- The nearest of some lines that does not stand to the right of a width. The lines are given by
    their widths before and after a move, the nearest first. -/
def leader (above : List (Nat × Nat)) (w : Nat) : Option (Nat × Nat) :=
  above.find? fun p => p.1 ≤ w

/-- One line stands to another as before: at the same width, or to the right of it. -/
def StandsAsBefore (p q : Nat × Nat) : Prop :=
  (p.1 = q.1 → p.2 = q.2) ∧ (p.1 < q.1 → p.2 < q.2)

/-- Below some lines, every line stands to its leader as before. -/
def LedAsBefore (above : List (Nat × Nat)) (lines : List (Nat × Nat)) : Prop :=
  ∀ front q back, lines = front ++ q :: back →
    ∀ p ∈ leader (front.reverse ++ above) q.1, StandsAsBefore p q

/-- The first line comes to stand at the margin, and every other line stands to its leader as
    before. -/
structure KeepsLayout (lines : List (Nat × Nat)) : Prop where
  first : ∀ q ∈ lines.head?, q.2 = 0
  led : LedAsBefore [] lines

/-- A numbered line without a number of characters at its start. -/
def moveLeft (n : Nat) (p : Nat × List Char) : Nat × List Char :=
  (p.1, p.2.drop n)

/-- The widths of numbered lines before and after they are moved. -/
def widthsMoved (n : Nat) (code : List (Nat × List Char)) : List (Nat × Nat) :=
  code.map fun p => (width p, width (moveLeft n p))

theorem widthsMoved_cons (n : Nat) (p : Nat × List Char) (code : List (Nat × List Char)) :
    widthsMoved n (p :: code) =
      (width p, width (moveLeft n p)) :: widthsMoved n code :=
  rfl

section

variable {above lines : List (Nat × Nat)} {p q : Nat × Nat}

theorem ledAsBefore_nil (above : List (Nat × Nat)) : LedAsBefore above [] := by
  intro front q back h
  cases front <;> cases h

/-- The first line has its leader above, and is above the others itself. -/
theorem ledAsBefore_cons : LedAsBefore above (q :: lines) ↔
    (∀ p ∈ leader above q.1, StandsAsBefore p q) ∧ LedAsBefore (q :: above) lines := by
  constructor
  · intro h
    refine ⟨h [] q lines rfl, ?_⟩
    intro front r back hlines
    have hled := h (q :: front) r back (by rw [hlines, List.cons_append])
    rw [List.reverse_cons, List.append_assoc, List.singleton_append] at hled
    exact hled
  · rintro ⟨hfirst, hrest⟩ front r back hlines
    cases front with
    | nil =>
        cases hlines
        exact hfirst
    | cons v more =>
        rw [List.cons_append, List.cons.injEq] at hlines
        rw [List.reverse_cons, List.append_assoc, List.singleton_append, ← hlines.1]
        exact hrest more r back hlines.2

-- The first line has no leader: it stands at the margin instead.
theorem keepsLayout_cons : KeepsLayout (q :: lines) ↔ q.2 = 0 ∧ LedAsBefore [q] lines := by
  constructor
  · rintro ⟨hfirst, hled⟩
    exact ⟨hfirst q rfl, (ledAsBefore_cons.mp hled).2⟩
  · rintro ⟨hfirst, hled⟩
    refine ⟨fun r hr => Option.some.inj hr ▸ hfirst, ledAsBefore_cons.mpr ⟨?_, hled⟩⟩
    intro p hp
    cases hp

end

/-! ## Closing blocks -/

section

variable {blocks : List Nat} {w : Nat}

-- A line opens a block exactly if it is wider than the innermost one.
theorem changeIndent_indent_iff :
    (∃ inner, changeIndent w blocks = some ([.indent], inner)) ↔ blocks.headD 0 < w := by
  rw [changeIndent_eq_ite]
  by_cases hopen : blocks.headD 0 < w
  · rw [if_pos hopen]
    exact ⟨fun _ => hopen, fun _ => ⟨_, rfl⟩⟩
  · rw [if_neg hopen]
    refine ⟨?_, fun h => absurd h hopen⟩
    rintro ⟨inner, h⟩
    split at h
    · rw [Option.some.injEq, Prod.mk.injEq] at h
      have hmem : Layout.indent ∈ List.replicate (closeBlocks w blocks).1 Layout.dedent :=
        h.1 ▸ List.mem_singleton_self _
      cases List.eq_of_mem_replicate hmem
    · cases h

-- On a decreasing stack, the blocks wider than one of them are those in front of it.
theorem dropWhile_lt_eq_drop (hdecreasing : blocks.Pairwise (· > ·)) {count : Nat}
    (hpos : ∀ b ∈ blocks, 0 < b) (hw : (blocks.drop count).headD 0 = w) :
    blocks.dropWhile (w < ·) = blocks.drop count := by
  induction blocks generalizing count with
  | nil => rw [List.drop_nil, List.dropWhile_nil]
  | cons top outer ih =>
      rcases List.pairwise_cons.mp hdecreasing with ⟨htop, houter⟩
      cases count with
      | zero =>
          rw [List.drop_zero, List.headD_cons] at hw
          rw [List.dropWhile_cons_of_neg (by simp [hw]), List.drop_zero]
      | succ count =>
          rw [List.drop_succ_cons] at hw ⊢
          have hlt : w < top := by
            cases hleft : outer.drop count with
            | nil =>
                rw [hleft, List.headD_nil] at hw
                rw [← hw]
                exact hpos top List.mem_cons_self
            | cons b more =>
                rw [hleft, List.headD_cons] at hw
                rw [← hw]
                exact htop b (List.mem_of_mem_drop (hleft ▸ List.mem_cons_self))
          rw [List.dropWhile_cons_of_pos (by simpa using hlt)]
          exact ih houter (fun b hb => hpos b (List.mem_cons_of_mem top hb)) hw

/-- A line closes a number of blocks exactly if it stands at the width of the one below them. -/
theorem changeIndent_dedents_iff (hdecreasing : blocks.Pairwise (· > ·))
    (hpos : ∀ b ∈ blocks, 0 < b) {count : Nat} {inner : List Nat} (hcount : count ≤ blocks.length) :
    changeIndent w blocks = some (List.replicate count .dedent, inner) ↔
      (blocks.drop count).headD 0 = w ∧ inner = blocks.drop count := by
  have hlength := closeBlocks_length w blocks
  rw [closeBlocks_snd] at hlength
  constructor
  · intro h
    rw [changeIndent_eq_ite] at h
    split at h
    · rw [Option.some.injEq, Prod.mk.injEq] at h
      have hmem : Layout.indent ∈ List.replicate count Layout.dedent :=
        h.1 ▸ List.mem_singleton_self _
      cases List.eq_of_mem_replicate hmem
    · split at h
      · next hback =>
          rw [Option.some.injEq, Prod.mk.injEq] at h
          have hsame : (closeBlocks w blocks).1 = count := by
            have := congrArg List.length h.1
            rwa [List.length_replicate, List.length_replicate] at this
          have hdrop : blocks.dropWhile (w < ·) = blocks.drop count := by
            rw [List.suffix_iff_eq_drop.mp (List.dropWhile_suffix (w < ·))]
            congr 1
            omega
          rw [hdrop] at hback h
          exact ⟨hback, h.2.symm⟩
      · cases h
  · rintro ⟨hw, rfl⟩
    have hdrop := dropWhile_lt_eq_drop hdecreasing hpos hw
    have hopen : ¬ blocks.headD 0 < w := by
      -- The innermost block is the one that stays, or it is wider.
      rw [← hw]
      cases blocks with
      | nil => simp
      | cons top outer =>
          rw [List.headD_cons, Nat.not_lt]
          cases hleft : (top :: outer).drop count with
          | nil => exact Nat.zero_le _
          | cons b more =>
              have hb : b ∈ top :: outer := List.mem_of_mem_drop (hleft ▸ List.mem_cons_self)
              rcases List.mem_cons.mp hb with rfl | hb
              · exact Nat.le_refl _
              · exact Nat.le_of_lt (List.rel_of_pairwise_cons hdecreasing hb)
    rw [changeIndent_eq_ite, if_neg hopen, hdrop, if_pos hw]
    have hsame : (closeBlocks w blocks).1 = count := by
      rw [hdrop, List.length_drop] at hlength
      omega
    rw [hsame]

end

/-! ## Both stacks -/

/-- The stack before and after a move, below some lines: a list of pairs, of which the outermost
    stands at the margin after the move and is no block there. It has the leaders of all widths. -/
structure Paired (above : List (Nat × Nat)) (outermost : Nat) (stack : List (Nat × Nat)) :
    Prop where
  pos : 0 < outermost
  before : ((stack ++ [(outermost, 0)]).map Prod.fst).Pairwise (· > ·)
  after : ((stack ++ [(outermost, 0)]).map Prod.snd).Pairwise (· > ·)
  led : ∀ w, leader above w = leader (stack ++ [(outermost, 0)]) w

section

variable {above stack outer : List (Nat × Nat)} {w₀ w count : Nat} {p q : Nat × Nat}

-- At first the outermost pair is all there is.
theorem paired_singleton {w₀ : Nat} (h : 0 < w₀) : Paired [(w₀, 0)] w₀ [] :=
  ⟨h, List.pairwise_singleton _ _, List.pairwise_singleton _ _, fun _ => rfl⟩

-- Widths decrease outwards after the move as well, because they do so from leader to leader.
theorem Paired.decreasing (h : Paired above w₀ stack) : (stack.map Prod.snd).Pairwise (· > ·) := by
  have hafter := h.after
  rw [List.map_append] at hafter
  exact (List.pairwise_append.mp hafter).1

theorem Paired.pos_after (h : Paired above w₀ stack) : ∀ v ∈ stack.map Prod.snd, 0 < v := by
  have hafter := h.after
  rw [List.map_append] at hafter
  exact fun v hv => (List.pairwise_append.mp hafter).2.2 v hv 0 List.mem_cons_self

-- No open block stands to the left of the outermost one.
theorem Paired.le_before (h : Paired above w₀ stack) :
    ∀ v ∈ (stack ++ [(w₀, 0)]).map Prod.fst, w₀ ≤ v := by
  have hbefore := h.before
  rw [List.map_append] at hbefore ⊢
  intro v hv
  rcases List.mem_append.mp hv with hv | hv
  · exact Nat.le_of_lt ((List.pairwise_append.mp hbefore).2.2 v hv w₀ List.mem_cons_self)
  · exact Nat.le_of_eq (List.mem_singleton.mp hv).symm

-- What is left of the stack after the move stands below the outermost block.
theorem headD_drop_snd (hcount : count ≤ stack.length)
    (hdrop : (stack ++ [(w₀, 0)]).drop count = p :: outer) :
    ((stack.map Prod.snd).drop count).headD 0 = p.2 := by
  rw [List.drop_append_of_le_length hcount] at hdrop
  rw [← List.map_drop]
  cases hleft : stack.drop count with
  | nil =>
      rw [hleft, List.nil_append, List.cons.injEq] at hdrop
      rw [← hdrop.1]
      rfl
  | cons r more =>
      rw [hleft, List.cons_append, List.cons.injEq] at hdrop
      rw [← hdrop.1]
      rfl

-- The pairs in front of one on a decreasing stack lead no line that is not to the right of it.
theorem leader_eq_leader_drop (hbefore : (stack.map Prod.fst).Pairwise (· > ·))
    (hdrop : stack.drop count = p :: outer) (hw : w ≤ p.1) :
    leader stack w = leader (stack.drop count) w := by
  have hnone : leader (stack.take count) w = none := by
    rw [leader, List.find?_eq_none]
    intro r hr
    rw [← List.take_append_drop count stack, List.map_append, hdrop] at hbefore
    have hlt := (List.pairwise_append.mp hbefore).2.2 r.1 (List.mem_map_of_mem hr) p.1
      (List.mem_map_of_mem List.mem_cons_self)
    rw [decide_eq_true_eq, Nat.not_le]
    exact Nat.lt_of_le_of_lt hw hlt
  rw [leader] at hnone
  conv_lhs => rw [← List.take_append_drop count stack]
  rw [leader, List.find?_append, hnone, Option.none_or]
  rfl

-- The line just above leads unless it stands to the right.
theorem leader_cons (q : Nat × Nat) (above : List (Nat × Nat)) (w : Nat) :
    leader (q :: above) w = if q.1 ≤ w then some q else leader above w := by
  rw [leader, List.find?_cons]
  by_cases hq : q.1 ≤ w
  · rw [decide_eq_true hq, if_pos hq]
  · rw [decide_eq_false hq, if_neg hq]
    rfl

-- A line to the right of the innermost block.
theorem Paired.opens {top : Nat × Nat} (h : Paired above w₀ stack)
    (htop : stack ++ [(w₀, 0)] = top :: outer) (hw : top.1 < q.1) :
    leader above q.1 = some top ∧ (stack.map Prod.snd).headD 0 = top.2 ∧
      (top.2 < q.2 → Paired (q :: above) w₀ (q :: stack)) := by
  have hbefore := h.before
  have hafter := h.after
  rw [htop] at hbefore hafter
  refine ⟨?_, ?_, fun hv => ⟨h.pos, ?_, ?_, ?_⟩⟩
  · rw [h.led, htop, leader_cons, if_pos (Nat.le_of_lt hw)]
  · have hhead := headD_drop_snd (Nat.zero_le stack.length) (List.drop_zero.trans htop)
    rw [List.drop_zero] at hhead
    exact hhead
  · rw [List.cons_append, htop, List.map_cons]
    refine List.pairwise_cons.mpr ⟨?_, hbefore⟩
    intro v hv
    rcases List.mem_cons.mp hv with rfl | hv
    · exact hw
    · exact Nat.lt_trans (List.rel_of_pairwise_cons hbefore hv) hw
  · rw [List.cons_append, htop, List.map_cons]
    refine List.pairwise_cons.mpr ⟨?_, hafter⟩
    intro v' hv'
    rcases List.mem_cons.mp hv' with rfl | hv'
    · exact hv
    · exact Nat.lt_trans (List.rel_of_pairwise_cons hafter hv') hv
  · intro w
    rw [List.cons_append, leader_cons, leader_cons, h.led]

-- A line at the width of an open block, some blocks further out.
theorem Paired.closes (h : Paired above w₀ stack) (hcount : count ≤ stack.length)
    (hdrop : (stack ++ [(w₀, 0)]).drop count = p :: outer) (hw : p.1 = q.1) :
    leader above q.1 = some p ∧ (p = q → Paired (q :: above) w₀ (stack.drop count)) := by
  have hleft : stack.drop count ++ [(w₀, 0)] = (stack ++ [(w₀, 0)]).drop count :=
    (List.drop_append_of_le_length hcount).symm
  have hleader : ∀ v ≤ p.1, leader above v = leader (p :: outer) v := by
    intro v hv
    rw [h.led, leader_eq_leader_drop h.before hdrop hv, hdrop]
  refine ⟨?_, ?_⟩
  · rw [hleader q.1 (Nat.le_of_eq hw.symm), leader_cons, if_pos (Nat.le_of_eq hw)]
  · rintro rfl
    refine ⟨h.pos, ?_, ?_, fun v => ?_⟩
    · rw [hleft, List.map_drop]
      exact h.before.sublist (List.drop_sublist count _)
    · rw [hleft, List.map_drop]
      exact h.after.sublist (List.drop_sublist count _)
    · rw [hleft, hdrop, leader_cons, leader_cons]
      by_cases hv : p.1 ≤ v
      · rw [if_pos hv, if_pos hv]
      · rw [if_neg hv, if_neg hv, hleader v (Nat.le_of_lt (Nat.not_le.mp hv)), leader_cons,
          if_neg hv]

/-- What a line does to both stacks. It has a leader, and it has the same layout after the move
    exactly if it stands to its leader as before; then there is one stack for both again. -/
def StepsBoth (above stack : List (Nat × Nat)) (w₀ : Nat) (q : Nat × Nat) (shapes : List Layout)
    (left : List Nat) : Prop :=
  w₀ ≤ q.1 ∧ ∃ p, leader above q.1 = some p ∧
    ((∃ left', changeIndent q.2 (stack.map Prod.snd) = some (shapes, left')) →
      StandsAsBefore p q) ∧
    (StandsAsBefore p q → ∃ inner, left = (inner ++ [(w₀, 0)]).map Prod.fst ∧
      changeIndent q.2 (stack.map Prod.snd) = some (shapes, inner.map Prod.snd) ∧
      Paired (q :: above) w₀ inner)

/-- A line to the right of the innermost block opens one. Its leader is that innermost line. -/
theorem Paired.step_of_opens {top : Nat × Nat} (h : Paired above w₀ stack)
    (htop : stack ++ [(w₀, 0)] = top :: outer) (hopen : top.1 < q.1) :
    StepsBoth above stack w₀ q [.indent] (q.1 :: (stack ++ [(w₀, 0)]).map Prod.fst) := by
  rcases h.opens htop hopen with ⟨hleader, hhead, hpaired⟩
  have hle := h.le_before top.1 (List.mem_map_of_mem (htop ▸ List.mem_cons_self))
  refine ⟨Nat.le_of_lt (Nat.lt_of_le_of_lt hle hopen), top, hleader, ?_, ?_⟩
  · intro hsame
    rw [changeIndent_indent_iff, hhead] at hsame
    exact ⟨fun heq => absurd hopen (heq ▸ Nat.lt_irrefl _), fun _ => hsame⟩
  · intro hsame
    have hlt := hsame.2 hopen
    refine ⟨q :: stack, rfl, ?_, hpaired hlt⟩
    rw [changeIndent_eq_ite, hhead, if_pos hlt]
    rfl

theorem Paired.step_of_closes (h : Paired above w₀ stack) (hcount : count ≤ stack.length)
    (hdrop : (stack ++ [(w₀, 0)]).drop count = p :: outer) (hw : p.1 = q.1) :
    StepsBoth above stack w₀ q (List.replicate count .dedent) ((p :: outer).map Prod.fst) := by
  rcases h.closes hcount hdrop hw with ⟨hleader, hpaired⟩
  have hmem : p ∈ stack ++ [(w₀, 0)] := List.mem_of_mem_drop (hdrop ▸ List.mem_cons_self)
  -- After the move the line closes as many blocks exactly if it stands where the leader stands.
  have hmoved : ∀ left',
      changeIndent q.2 (stack.map Prod.snd) = some (List.replicate count .dedent, left') ↔
        p.2 = q.2 ∧ left' = (stack.map Prod.snd).drop count := by
    intro left'
    rw [changeIndent_dedents_iff h.decreasing h.pos_after (by rwa [List.length_map]),
      headD_drop_snd hcount hdrop]
  refine ⟨hw ▸ h.le_before p.1 (List.mem_map_of_mem hmem), p, hleader, ?_, ?_⟩
  · rintro ⟨left', hsame⟩
    exact ⟨fun _ => ((hmoved left').mp hsame).1, fun hlt => absurd hlt (hw ▸ Nat.lt_irrefl _)⟩
  · intro hsame
    refine ⟨stack.drop count, ?_, ?_, hpaired (Prod.ext hw (hsame.1 hw))⟩
    · rw [← hdrop, List.drop_append_of_le_length hcount]
    · exact (hmoved _).mpr ⟨hsame.1 hw, List.map_drop⟩

/-- A line that has a layout, and is not at the margin, steps on both stacks. -/
theorem Paired.step (h : Paired above w₀ stack) (hpos : 0 < q.1) {shapes : List Layout}
    {left : List Nat}
    (hchange : changeIndent q.1 ((stack ++ [(w₀, 0)]).map Prod.fst) = some (shapes, left)) :
    StepsBoth above stack w₀ q shapes left := by
  have hblocks : ∀ v ∈ (stack ++ [(w₀, 0)]).map Prod.fst, 0 < v :=
    fun v hv => Nat.lt_of_lt_of_le h.pos (h.le_before v hv)
  have hcases := hchange
  rw [changeIndent_eq_ite] at hcases
  split at hcases
  · next hopen =>
      rw [Option.some.injEq, Prod.mk.injEq] at hcases
      rcases hcases with ⟨rfl, rfl⟩
      cases htop : stack ++ [(w₀, 0)] with
      | nil => exact absurd htop (List.append_ne_nil_of_right_ne_nil stack (List.cons_ne_nil _ _))
      | cons top outer =>
          rw [htop] at hopen
          exact htop ▸ h.step_of_opens htop hopen
  · split at hcases
    · rw [Option.some.injEq, Prod.mk.injEq] at hcases
      have hlength := closeBlocks_length q.1 ((stack ++ [(w₀, 0)]).map Prod.fst)
      rw [← hcases.1] at hchange ⊢
      generalize (closeBlocks q.1 ((stack ++ [(w₀, 0)]).map Prod.fst)).1 = count at *
      rcases (changeIndent_dedents_iff h.before hblocks (by omega)).mp hchange with ⟨hw, hleft⟩
      -- The line is no line at the margin, so a block is left.
      rw [← List.map_drop] at hw hleft
      cases hdrop : (stack ++ [(w₀, 0)]).drop count with
      | nil =>
          rw [hdrop] at hw
          exact absurd hw (Nat.ne_of_lt hpos)
      | cons p outer =>
          have hcount := congrArg List.length hdrop
          rw [List.length_drop, List.length_append, List.length_singleton,
            List.length_cons] at hcount
          rw [hdrop] at hw hleft
          exact hleft ▸ h.step_of_closes (by omega) hdrop hw
    · cases hcases

end

/-! ## Tokens -/

/-- The tokens of code lines are of certain kinds. -/
def HasKinds (blocks : List Nat) (lastLine : Nat) (code : List (Nat × List Char))
    (ks : List Token.Kind) : Prop :=
  ∃ tokens, codeTokens blocks lastLine code = .ok tokens ∧ tokens.map Token.kind = ks

-- Characters that are taken off belong to the indentation.
theorem isIndent_of_mem_take {n : Nat} {line : List Char} (h : n ≤ indentLength line) :
    ∀ c ∈ line.take n, isIndent c = true := by
  intro c hc
  have hfront : line.takeWhile isIndent = line.take (indentLength line) :=
    List.prefix_iff_eq_take.mp (List.takeWhile_prefix isIndent)
  have hmem := (List.take_subset_take_left line h) hc
  rw [← hfront] at hmem
  exact List.mem_takeWhile_imp hmem

-- Characters of indentation are no tokens.
theorem lexemes_append_of_indent {front : List Char} (h : ∀ c ∈ front, isIndent c = true)
    (rest : List Char) : lexemes (front ++ rest) = lexemes rest := by
  induction front with
  | nil => rfl
  | cons c front ih =>
      rcases List.forall_mem_cons.mp h with ⟨hc, hfront⟩
      rw [List.cons_append, lexemes_gap (isGap_of_isIndent hc), ih hfront]

-- Taking them off leaves the tokens of the line as they are.
theorem lexemes_drop_indent {n : Nat} {line : List Char} (h : n ≤ indentLength line) :
    lexemes (line.drop n) = lexemes line := by
  conv_rhs => rw [← List.take_append_drop n line]
  rw [lexemes_append_of_indent (isIndent_of_mem_take h)]

theorem lexemes_moveLeft {n : Nat} {p : Nat × List Char} (h : n ≤ indentLength p.2) :
    lexemes (moveLeft n p).2 = lexemes p.2 :=
  lexemes_drop_indent h

/-- The kinds of layout tokens. -/
def layoutKinds (shapes : List Layout) : List Token.Kind :=
  shapes.map fun shape => .mark (.layout shape)

-- Behind the last line all open blocks close.
theorem hasKinds_nil {blocks : List Nat} {lastLine : Nat} {ks : List Token.Kind} :
    HasKinds blocks lastLine [] ks ↔
      ks = List.replicate blocks.length (.mark .dedent) ++ [.mark .endOfInput] := by
  have hkinds : ∀ tokens, codeTokens blocks lastLine [] = .ok tokens →
      tokens.map Token.kind =
        List.replicate blocks.length (.mark .dedent) ++ [.mark .endOfInput] := by
    intro tokens htokens
    rw [codeTokens, Except.ok.injEq, List.map_const'] at htokens
    rw [← htokens, List.map_append, List.map_replicate]
    rfl
  constructor
  · rintro ⟨tokens, htokens, rfl⟩
    exact hkinds tokens htokens
  · rintro rfl
    exact ⟨_, rfl, hkinds _ rfl⟩

/-- The tokens of the first line are its layout and those of its text; those of the others follow.
    -/
theorem hasKinds_cons {blocks : List Nat} {lastLine : Nat} {p : Nat × List Char}
    {rest : List (Nat × List Char)} {ks : List Token.Kind} :
    HasKinds blocks lastLine (p :: rest) ks ↔
      ∃ shapes inner more, changeIndent (width p) blocks = some (shapes, inner) ∧
        HasKinds inner p.1 rest more ∧ ks = layoutKinds shapes ++ (lexemes p.2 ++ more) := by
  rcases p with ⟨number, line⟩
  have hkinds : ∀ (shapes : List Layout) (after : List Token),
      ((shapes.map fun shape =>
          (⟨.mark (.layout shape), .inLine number 1 (indentLength line + 1)⟩ : Token)) ++
        lineTokens number (indentLength line + 1) (line.drop (indentLength line)) ++
        after).map Token.kind = layoutKinds shapes ++ (lexemes line ++ after.map Token.kind) := by
    intro shapes after
    rw [List.map_append, List.map_append, List.map_map, map_kind_lineTokens,
      lexemes_drop_indent (Nat.le_refl _), List.append_assoc]
    rfl
  constructor
  · rintro ⟨tokens, htokens, rfl⟩
    rcases codeTokens_cons_eq_ok_iff.mp htokens with ⟨shapes, inner, after, hchange, hafter, rfl⟩
    exact ⟨shapes, inner, _, hchange, ⟨after, hafter, rfl⟩, hkinds shapes after⟩
  · rintro ⟨shapes, inner, _, hchange, ⟨after, hafter, rfl⟩, rfl⟩
    exact ⟨_, codeTokens_cons_eq_ok_iff.mpr ⟨shapes, inner, after, hchange, hafter, rfl⟩,
      hkinds shapes after⟩

-- A code line begins with a token that is no layout.
theorem exists_lexemes {line : List Char} (h : isCode line = true) :
    ∃ k more, lexemes line = k :: more ∧ ∀ shape, k ≠ .mark (.layout shape) := by
  rw [isCode_eq_find?] at h
  rcases lineTokens_of_code 0 0 line h with ⟨t, more, htokens, hnewline⟩
  have hplain := (lineTokens_plain 0 0 line t (htokens ▸ List.mem_cons_self)).1
  refine ⟨t.kind, more.map Token.kind, by rw [lexemes, htokens, List.map_cons], ?_⟩
  intro shape hkind
  rw [Token.IsPlain, hkind] at hplain
  rw [hkind] at hnewline
  cases shape with
  | newline => cases hnewline
  | indent => cases hplain.1
  | dedent => cases hplain.2.1
  | endOfInput => cases hplain.2.2

-- Where the layout ends can be seen.
theorem layoutKinds_append_inj {shapes shapes' : List Layout} {k : Token.Kind}
    {more more' : List Token.Kind} (hk : ∀ shape, k ≠ .mark (.layout shape))
    (h : layoutKinds shapes ++ k :: more = layoutKinds shapes' ++ k :: more') :
    shapes = shapes' ∧ more = more' := by
  induction shapes generalizing shapes' with
  | nil =>
      cases shapes' with
      | nil => exact ⟨rfl, (List.cons.inj h).2⟩
      | cons shape rest => exact absurd (List.cons.inj h).1 (hk shape)
  | cons shape rest ih =>
      cases shapes' with
      | nil => exact absurd (List.cons.inj h).1.symm (hk shape)
      | cons shape' rest' =>
          rcases List.cons.inj h with ⟨hkind, htail⟩
          rcases ih htail with ⟨hrest, hmore⟩
          rw [Token.Kind.mark.injEq, Mark.layout.injEq] at hkind
          exact ⟨by rw [hkind, hrest], hmore⟩

-- A line of code begins with no layout token, so it is clear where its layout ends.
theorem lexemes_append_inj {shapes shapes' : List Layout} {line : List Char}
    {more more' : List Token.Kind} (hcode : isCode line = true)
    (h : layoutKinds shapes ++ (lexemes line ++ more) =
      layoutKinds shapes' ++ (lexemes line ++ more')) : shapes = shapes' ∧ more = more' := by
  rcases exists_lexemes hcode with ⟨k, front, hline, hk⟩
  rw [hline, List.cons_append, List.cons_append] at h
  rcases layoutKinds_append_inj hk h with ⟨hshapes, hmore⟩
  exact ⟨hshapes, List.append_cancel_left hmore⟩

section

variable {above stack : List (Nat × Nat)} {w₀ n lastLine : Nat} {code : List (Nat × List Char)}
  {ks body : List Token.Kind}

-- Some width after the move stands to the leader as before, so there is always a next stack.
theorem Paired.exists_next (h : Paired above w₀ stack) (hw : 0 < w) {shapes : List Layout}
    {left : List Nat}
    (hchange : changeIndent w ((stack ++ [(w₀, 0)]).map Prod.fst) = some (shapes, left)) :
    w₀ ≤ w ∧ ∃ v inner, left = (inner ++ [(w₀, 0)]).map Prod.fst ∧
      Paired ((w, v) :: above) w₀ inner := by
  rcases h.step (q := (w, 0)) hw hchange with ⟨hle, p, hleader, _⟩
  have hexists : ∃ v, StandsAsBefore p (w, v) := by
    by_cases heq : p.1 = w
    · exact ⟨p.2, fun _ => rfl, fun hlt => absurd hlt (heq ▸ Nat.lt_irrefl _)⟩
    · exact ⟨p.2 + 1, fun h => absurd h heq, fun _ => Nat.lt_succ_self _⟩
  rcases hexists with ⟨v, hv⟩
  rcases h.step (q := (w, v)) hw hchange with ⟨_, p', hleader', _, hstep⟩
  rw [hleader, Option.some.injEq] at hleader'
  rcases hstep (hleader' ▸ hv) with ⟨inner, hleft, _, hpaired⟩
  exact ⟨hle, v, inner, hleft, hpaired⟩

-- The outermost block is closed behind the last line and not before.
theorem HasKinds.outermost (h : Paired above w₀ stack) (hcode : ∀ p ∈ code, 0 < width p)
    (hks : HasKinds ((stack ++ [(w₀, 0)]).map Prod.fst) lastLine code ks) :
    (∀ p ∈ code, w₀ ≤ width p) ∧
      ∃ body, ks = body ++ [.mark .dedent, .mark .endOfInput] := by
  induction code generalizing above stack lastLine ks with
  | nil =>
      refine ⟨List.forall_mem_nil _, List.replicate stack.length (.mark .dedent), ?_⟩
      rw [hasKinds_nil.mp hks, List.length_map, List.length_append, List.length_singleton,
        List.replicate_succ', List.append_assoc]
      rfl
  | cons p rest ih =>
      rcases List.forall_mem_cons.mp hcode with ⟨hpos, hrest⟩
      rcases hasKinds_cons.mp hks with ⟨shapes, left, more, hchange, hmore, rfl⟩
      rcases h.exists_next hpos hchange with ⟨hle, v, inner, hleft, hpaired⟩
      rw [hleft] at hmore
      rcases ih hpaired hrest hmore with ⟨hwidths, body, rfl⟩
      refine ⟨List.forall_mem_cons.mpr ⟨hle, hwidths⟩,
        layoutKinds shapes ++ (lexemes p.2 ++ body), ?_⟩
      rw [List.append_assoc, List.append_assoc]

/-- Below a stack, the tokens of moved lines are the same but for the last closing exactly if every
    line stands to its leader as before. -/
theorem hasKinds_moved (h : Paired above w₀ stack)
    (hcode : ∀ p ∈ code, isCode p.2 = true ∧ 0 < width p ∧ n ≤ indentLength p.2)
    (hks : HasKinds ((stack ++ [(w₀, 0)]).map Prod.fst) lastLine code
      (body ++ [.mark .dedent, .mark .endOfInput])) (lastLine' : Nat) :
    HasKinds (stack.map Prod.snd) lastLine' (code.map (moveLeft n))
      (body ++ [.mark .endOfInput]) ↔ LedAsBefore above (widthsMoved n code) := by
  -- Induction on the lines; one line leads from stack to stack.
  induction code generalizing above stack lastLine lastLine' body with
  | nil =>
      refine iff_of_true (hasKinds_nil.mpr ?_) (ledAsBefore_nil above)
      have hends := hasKinds_nil.mp hks
      rw [List.length_map, List.length_append, List.length_singleton, List.replicate_succ',
        List.append_assoc] at hends
      rw [List.append_cancel_right hends, List.length_map]
  | cons p rest ih =>
      rcases List.forall_mem_cons.mp hcode with ⟨⟨hline, hpos, hn⟩, hrest⟩
      rcases hasKinds_cons.mp hks with ⟨shapes, left, more, hchange, hmore, hkinds⟩
      rcases h.exists_next hpos hchange with ⟨_, _, inner, hleft, hpaired⟩
      -- The closing of the outermost block stands behind the lines below.
      rcases (hleft ▸ hmore : HasKinds ((inner ++ [(w₀, 0)]).map Prod.fst) p.1 rest more).outermost
        hpaired (fun r hr => (hrest r hr).2.1) with ⟨_, below, rfl⟩
      rw [← List.append_assoc, ← List.append_assoc] at hkinds
      have hbody := List.append_cancel_right hkinds
      rcases h.step (q := (width p, width (moveLeft n p))) hpos hchange with
        ⟨_, leading, hleader, hsame, hstep⟩
      have hled : LedAsBefore above (widthsMoved n (p :: rest)) ↔
          StandsAsBefore leading (width p, width (moveLeft n p)) ∧
            LedAsBefore ((width p, width (moveLeft n p)) :: above) (widthsMoved n rest) := by
        rw [widthsMoved_cons, ledAsBefore_cons, hleader]
        simp only [Option.mem_def, Option.some.injEq, forall_eq']
      rw [List.map_cons, hasKinds_cons, hled, hbody, List.append_assoc, List.append_assoc]
      constructor
      · rintro ⟨shapes', left', more', hchange', hmore', hkinds'⟩
        rw [lexemes_moveLeft hn] at hkinds'
        rcases lexemes_append_inj hline hkinds' with ⟨rfl, rfl⟩
        have hstands := hsame ⟨left', hchange'⟩
        rcases hstep hstands with ⟨next, hleft', hnext, hpaired'⟩
        rw [hnext, Option.some.injEq, Prod.mk.injEq] at hchange'
        rw [← hchange'.2] at hmore'
        exact ⟨hstands, (ih hpaired' hrest (hleft' ▸ hmore) _).mp hmore'⟩
      · rintro ⟨hstands, hrestLed⟩
        rcases hstep hstands with ⟨next, hleft', hnext, hpaired'⟩
        refine ⟨shapes, next.map Prod.snd, below ++ [.mark .endOfInput], hnext,
          (ih hpaired' hrest (hleft' ▸ hmore) _).mpr hrestLed, ?_⟩
        rw [lexemes_moveLeft hn]

/-- The first line of a block opens it, and no line of the block stands to the left of it. -/
theorem HasKinds.first_le {p : Nat × List Char} {rest : List (Nat × List Char)}
    (hcode : ∀ q ∈ p :: rest, 0 < width q) (hks : HasKinds [] lastLine (p :: rest) ks) :
    (∀ q ∈ p :: rest, width p ≤ width q) ∧
      ∃ body, ks = .mark .indent :: (lexemes p.2 ++ (body ++ [.mark .dedent, .mark .endOfInput])) ∧
        HasKinds [width p] p.1 rest (body ++ [.mark .dedent, .mark .endOfInput]) := by
  rcases List.forall_mem_cons.mp hcode with ⟨hpos, hrest⟩
  rcases hasKinds_cons.mp hks with ⟨shapes, left, more, hchange, hmore, rfl⟩
  rw [changeIndent_nil, if_pos hpos, Option.some.injEq, Prod.mk.injEq] at hchange
  rcases hchange with ⟨rfl, rfl⟩
  rcases hmore.outermost (paired_singleton hpos) hrest with ⟨hwidths, body, rfl⟩
  exact ⟨List.forall_mem_cons.mpr ⟨Nat.le_refl _, hwidths⟩, body, rfl, hmore⟩

/-- A block of lines is moved to the left: its tokens are the same without the opening and the
    closing around them exactly if the first line comes to stand at the margin and every other line
    stands to its leader as before. -/
theorem hasKinds_keepsLayout
    (hcode : ∀ p ∈ code, isCode p.2 = true ∧ 0 < width p ∧ n ≤ indentLength p.2)
    (hks : HasKinds [] lastLine code
      (.mark .indent :: (body ++ [.mark .dedent, .mark .endOfInput]))) (lastLine' : Nat) :
    HasKinds [] lastLine' (code.map (moveLeft n)) (body ++ [.mark .endOfInput]) ↔
      KeepsLayout (widthsMoved n code) := by
  cases code with
  | nil =>
      have hnone := hasKinds_nil.mp hks
      cases hnone
  | cons p rest =>
      rcases List.forall_mem_cons.mp hcode with ⟨⟨hline, hpos, hn⟩, hrest⟩
      rcases hks.first_le (fun q hq => (hcode q hq).2.1) with ⟨_, below, hkinds, hmore⟩
      rw [List.cons.injEq, ← List.append_assoc] at hkinds
      have hbody := List.append_cancel_right hkinds.2
      have hmoved := fun lastLine' =>
        hasKinds_moved (paired_singleton hpos) hrest hmore lastLine'
      rw [widthsMoved_cons, keepsLayout_cons, List.map_cons, hasKinds_cons, hbody,
        List.append_assoc]
      constructor
      · rintro ⟨shapes, left, more, hchange, hmore', hkinds'⟩
        rw [lexemes_moveLeft hn] at hkinds'
        have hnone : layoutKinds [] ++ (lexemes p.2 ++ (below ++ [.mark .endOfInput])) =
            layoutKinds shapes ++ (lexemes p.2 ++ more) := hkinds'
        rcases lexemes_append_inj hline hnone with ⟨rfl, rfl⟩
        rw [changeIndent_nil, Option.some.injEq] at hchange
        -- Without an opening the first line is at the margin.
        by_cases hmargin : width (moveLeft n p) = 0
        · rw [hmargin, if_neg (Nat.lt_irrefl 0), Prod.mk.injEq] at hchange
          rw [← hchange.2] at hmore'
          rw [hmargin]
          exact ⟨rfl, (hmoved _).mp hmore'⟩
        · rw [if_pos (Nat.pos_of_ne_zero hmargin), Prod.mk.injEq] at hchange
          cases hchange.1
      · rintro ⟨hmargin, hled⟩
        change width (moveLeft n p) = 0 at hmargin
        rw [hmargin] at hled
        refine ⟨[], [], _, ?_, (hmoved p.1).mpr hled, ?_⟩
        · rw [changeIndent_nil, hmargin]
          rfl
        · rw [lexemes_moveLeft hn]
          rfl

end

end Script

end Farmhand
