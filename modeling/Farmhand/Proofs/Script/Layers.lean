import Mathlib.Data.Finset.Lattice.Fold
import Mathlib.Data.Finset.Sort
import Farmhand.Proofs.Script.Faultless

/-!
# The Shape of the Tokens

The tokens of a script are laid out line by line. In front of a line stands nothing, or one opening
of a block, or some closings; then come the tokens on the line, at least one of them, and the end
of the line. Behind the last line stand the closings that are left and the end of the script. The
openings and closings match as brackets do, and how deep a line stands is the number of widths that
are open there. A script has no tokens in one case only, that a line comes back to no open width.

Which widths are open is said of the lines and not of the stack on which they are kept: a width is
open if a line stands at it and no line since then is further to the left. The stack holds exactly
these widths, the innermost first, and this is what one line keeps.

## Main definitions

* `IsOpen`, `openWidths`, `innermost`: The widths that are open below some lines.
* `Misfit`, `FirstMisfit`: A line that comes back to no open width, and the first such line.
* `Stretch`: The tokens of one line.
* `indents`, `dedents`: The numbers of openings and of closings.
* `Layered`: Tokens laid out line by line.
* `Tracks`: A stack that holds the open widths.

## Theorems

* `indentWidth_tab`: The width of a tab.
* `changeIndent_eq_none_iff`: A line has no layout exactly if it is a misfit.
* `Tracks.changeIndent`: One line keeps the stack.
* `codeTokens_eq_error_iff`: Where the tokens of code lines fail.
* `codeTokens_layered`: The tokens of code lines are laid out line by line.
* `tokenize_layered`: The tokens of a script.
-/

namespace Farmhand

namespace Script

variable {above blocks inner : List Nat} {w : Nat} {code rest : List (Nat × List Char)}
  {p : Nat × List Char} {s : Stretch}

/-! ## Definitions -/

/-- A width is open below some lines, which are given by their widths: a line stands at it, and
    from that line on no line stands to the left of it. -/
def IsOpen (above : List Nat) (w : Nat) : Prop :=
  ∃ lines ∈ above.tails, lines.head? = some w ∧ ∀ v ∈ lines, w ≤ v

instance (above : List Nat) (w : Nat) : Decidable (IsOpen above w) :=
  List.decidableBEx _ _

/-- The widths of the blocks that are open below some lines. The top level is no block. -/
def openWidths (above : List Nat) : Finset Nat :=
  above.toFinset.filter fun w => 0 < w ∧ IsOpen above w

/-- The width of the innermost open block, and zero at the top level. -/
def innermost (above : List Nat) : Nat :=
  (openWidths above).sup id

/-- A line to the left of the innermost open block that stands neither at the top level nor at the
    width of an open block. -/
def Misfit (above : List Nat) (w : Nat) : Prop :=
  w < innermost above ∧ w ≠ 0 ∧ w ∉ openWidths above

/-- The code line at a position, below lines of given widths and the code lines in front of it, is
    a misfit with a given number. -/
def MisfitAt (above : List Nat) (code : List (Nat × List Char)) (i n : Nat) : Prop :=
  ∃ p, code[i]? = some p ∧ p.1 = n ∧ Misfit (above ++ (code.take i).map width) (width p)

/-- The first misfit among code lines has a given number. -/
def FirstMisfit (above : List Nat) (code : List (Nat × List Char)) (n : Nat) : Prop :=
  ∃ i, MisfitAt above code i n ∧ ∀ j < i, ∀ m, ¬ MisfitAt above code j m

/-- The tokens of one line: the layout in front of it, the tokens on it, and its end. -/
structure Stretch where
  layout : List Token
  words : List Token
  stop : Token

namespace Stretch

/-- All tokens of the line. -/
def tokens (s : Stretch) : List Token :=
  s.layout ++ s.words ++ [s.stop]

/-- What the tokens of a code line are: no layout, one opening, or one closing or more; at least
    one token that is no layout; and the end of the line. -/
structure Of (s : Stretch) (p : Nat × List Char) : Prop where
  layout : s.layout.map (·.kind) = [] ∨ s.layout.map (·.kind) = [.mark .indent] ∨
    ∃ count, s.layout.map (·.kind) = List.replicate (count + 1) (.mark .dedent)
  words : s.words ≠ []
  ordinary : ∀ t ∈ s.words, ∀ shape, t.kind ≠ .mark (.layout shape)
  stop : s.stop.kind = .mark .newline
  line : ∀ t ∈ s.tokens, t.span.line = p.1

end Stretch

/-- The number of openings. -/
def indents (tokens : List Token) : Nat :=
  tokens.countP (·.kind.isMark .indent)

/-- The number of closings. -/
def dedents (tokens : List Token) : Nat :=
  tokens.countP (·.kind.isMark .dedent)

/-- Tokens laid out line by line: a stretch for each code line, in order, and behind the last one
    closings and the end of the script. No closing comes before its opening, all blocks are closed
    in the end, and the tokens on a line are as deep as there are widths open at the line. -/
structure Layered (code : List (Nat × List Char)) (stretches : List Stretch)
    (closing : List Token) : Prop where
  lines : List.Forall₂ Stretch.Of stretches code
  closed : ∃ count,
    closing.map (·.kind) = List.replicate count (.mark .dedent) ++ [.mark .endOfInput]
  opened : ∀ front, front <+: stretches.flatMap Stretch.tokens ++ closing →
    dedents front ≤ indents front
  balanced : indents (stretches.flatMap Stretch.tokens ++ closing) =
    dedents (stretches.flatMap Stretch.tokens ++ closing)
  depth : ∀ i s, stretches[i]? = some s →
    indents ((stretches.take i).flatMap Stretch.tokens ++ s.layout) =
      dedents ((stretches.take i).flatMap Stretch.tokens ++ s.layout) +
        (openWidths ((code.take (i + 1)).map width)).card

/-- A stack of blocks that holds the widths open below some lines, the innermost first. -/
structure Tracks (blocks above : List Nat) : Prop where
  mem : ∀ w, w ∈ blocks ↔ w ∈ openWidths above
  decreasing : blocks.Pairwise (· > ·)

/-! ## Open widths -/

/-- A tab leads to the next tab stop. -/
theorem indentWidth_tab (column : Nat) (line : List Char) :
    indentWidth column ('\t' :: line) = indentWidth (4 * (column / 4 + 1)) line := by
  have hstop : column + (tabWidth - column % tabWidth) = 4 * (column / 4 + 1) := by
    unfold tabWidth
    omega
  rw [indentWidth, hstop]

theorem isOpen_nil (w : Nat) : ¬ IsOpen [] w := by
  rintro ⟨lines, hlines, hhead, _⟩
  rw [List.mem_tails, List.suffix_nil] at hlines
  rw [hlines] at hhead
  cases hhead

-- One more line is open itself, and leaves open what is not to the right of it.
theorem isOpen_concat (v : Nat) : IsOpen (above ++ [v]) w ↔ w = v ∨ w ≤ v ∧ IsOpen above w := by
  constructor
  · rintro ⟨lines, hlines, hhead, hle⟩
    rcases List.suffix_concat_iff.mp ((List.mem_tails _ _).mp hlines) with
      rfl | ⟨front, rfl, hfront⟩
    · cases hhead
    · cases front with
      | nil => exact Or.inl (Option.some.inj hhead).symm
      | cons u more =>
          refine Or.inr ⟨hle v (by simp), u :: more, (List.mem_tails _ _).mpr hfront, ?_, ?_⟩
          · simpa using hhead
          · exact fun x hx => hle x (List.mem_append_left _ hx)
  · rintro (rfl | ⟨hwv, lines, hlines, hhead, hle⟩)
    · refine ⟨[w], (List.mem_tails _ _).mpr (List.suffix_append above [w]), rfl, ?_⟩
      exact List.forall_mem_singleton.mpr le_rfl
    · refine ⟨lines ++ [v], ?_, ?_, ?_⟩
      · exact (List.mem_tails _ _).mpr
          (List.suffix_concat_iff.mpr (Or.inr ⟨lines, rfl, (List.mem_tails _ _).mp hlines⟩))
      · rw [List.head?_append, hhead, Option.some_or]
      · exact List.forall_mem_append.mpr ⟨hle, List.forall_mem_singleton.mpr hwv⟩

theorem IsOpen.mem (h : IsOpen above w) : w ∈ above := by
  rcases h with ⟨lines, hlines, hhead, _⟩
  exact ((List.mem_tails _ _).mp hlines).subset (List.mem_of_head? hhead)

theorem mem_openWidths : w ∈ openWidths above ↔ 0 < w ∧ IsOpen above w := by
  rw [openWidths, Finset.mem_filter, List.mem_toFinset]
  exact ⟨fun h => h.2, fun h => ⟨h.2.mem, h⟩⟩

theorem mem_openWidths_concat (v : Nat) : w ∈ openWidths (above ++ [v]) ↔
    0 < w ∧ (w = v ∨ w ≤ v ∧ w ∈ openWidths above) := by
  rw [mem_openWidths, mem_openWidths, isOpen_concat]
  tauto

-- Behind the lines of a block inside a block, only the outer one is open.
example : openWidths [0, 4, 8, 4] = {4} := by decide

/-! ## The stack -/

theorem tracks_nil : Tracks [] [] := by
  refine ⟨fun w => ?_, List.Pairwise.nil⟩
  rw [mem_openWidths]
  exact ⟨fun h => absurd h List.not_mem_nil, fun h => absurd h.2 (isOpen_nil w)⟩

theorem Tracks.pos (h : Tracks blocks above) (hw : w ∈ blocks) : 0 < w :=
  (mem_openWidths.mp ((h.mem w).mp hw)).1

theorem Tracks.length (h : Tracks blocks above) : blocks.length = (openWidths above).card := by
  have hset : openWidths above = blocks.toFinset := by
    ext w
    rw [List.mem_toFinset, h.mem]
  rw [hset, List.toFinset_card_of_nodup (h.decreasing.imp fun hlt => (ne_of_lt hlt).symm)]

-- The innermost open block is the widest one.
theorem Tracks.innermost (h : Tracks blocks above) : blocks.headD 0 = innermost above := by
  apply le_antisymm
  · cases hblocks : blocks with
    | nil => exact Nat.zero_le _
    | cons top outer =>
        have htop : top ∈ openWidths above := (h.mem top).mp (hblocks ▸ List.mem_cons_self)
        exact Finset.le_sup (f := id) htop
  · refine Finset.sup_le fun w hw => ?_
    rcases h with ⟨hmem, hdecreasing⟩
    have hw := (hmem w).mpr hw
    cases blocks with
    | nil => cases hw
    | cons top outer =>
        rcases List.mem_cons.mp hw with rfl | hw
        · exact le_rfl
        · exact (List.rel_of_pairwise_cons hdecreasing hw).le

-- On a decreasing stack the blocks wider than a line are those on top.
theorem mem_dropWhile_lt (hdecreasing : blocks.Pairwise (· > ·)) (v : Nat) :
    w ∈ blocks.dropWhile (v < ·) ↔ w ∈ blocks ∧ w ≤ v := by
  induction blocks with
  | nil => simp
  | cons top outer ih =>
      rcases List.pairwise_cons.mp hdecreasing with ⟨htop, houter⟩
      by_cases hv : v < top
      · rw [List.dropWhile_cons_of_pos (by simpa using hv), ih houter, List.mem_cons]
        constructor
        · exact fun h => ⟨Or.inr h.1, h.2⟩
        · rintro ⟨rfl | hw, hle⟩
          · exact absurd hle (Nat.not_le.mpr hv)
          · exact ⟨hw, hle⟩
      · rw [List.dropWhile_cons_of_neg (by simpa using hv)]
        refine ⟨fun hw => ⟨hw, ?_⟩, fun h => h.1⟩
        rcases List.mem_cons.mp hw with rfl | hw
        · exact Nat.not_lt.mp hv
        · exact (htop w hw).le.trans (Nat.not_lt.mp hv)

-- What a line leaves open ends at its own width exactly if that width is open.
theorem Tracks.headD_dropWhile (h : Tracks blocks above) :
    (blocks.dropWhile (w < ·)).headD 0 = w ↔ w = 0 ∨ w ∈ blocks := by
  have hmem := fun v => mem_dropWhile_lt (w := v) h.decreasing w
  have hleft : (blocks.dropWhile (w < ·)).Pairwise (· > ·) :=
    h.decreasing.sublist (List.dropWhile_sublist _)
  cases hopen : blocks.dropWhile (w < ·) with
  | nil =>
      rw [hopen] at hmem
      constructor
      · exact fun hw => Or.inl hw.symm
      · rintro (hw | hw)
        · exact hw.symm
        · exact absurd ((hmem w).mpr ⟨hw, le_rfl⟩) List.not_mem_nil
  | cons top outer =>
      rw [hopen] at hmem hleft
      rcases (hmem top).mp List.mem_cons_self with ⟨htop, hle⟩
      constructor
      · rintro rfl
        exact Or.inr htop
      · rintro (rfl | hw)
        · exact absurd (h.pos htop) (Nat.not_lt.mpr hle)
        · rcases List.mem_cons.mp ((hmem w).mpr ⟨hw, le_rfl⟩) with hw | hw
          · exact hw.symm
          · exact absurd (List.rel_of_pairwise_cons hleft hw) (Nat.not_lt.mpr hle)

theorem changeIndent_eq_ite (w : Nat) (blocks : List Nat) :
    changeIndent w blocks =
      if blocks.headD 0 < w then some ([.indent], w :: blocks)
      else if (blocks.dropWhile (w < ·)).headD 0 = w then
        some (List.replicate (closeBlocks w blocks).1 .dedent, blocks.dropWhile (w < ·))
      else none := by
  rw [← closeBlocks_snd]
  rfl

/-- A line has no layout exactly if it comes back to no open width. -/
theorem changeIndent_eq_none_iff (h : Tracks blocks above) :
    changeIndent w blocks = none ↔ Misfit above w := by
  rw [changeIndent_eq_ite, h.innermost, Misfit, ← h.mem]
  have hclosed := h.headD_dropWhile (w := w)
  by_cases hopen : Script.innermost above < w
  · rw [if_pos hopen]
    exact ⟨nofun, fun hmisfit => absurd hmisfit.1 hopen.le.not_gt⟩
  · rw [if_neg hopen]
    by_cases hback : w = 0 ∨ w ∈ blocks
    · rw [if_pos (hclosed.mpr hback)]
      refine ⟨nofun, fun hmisfit => ?_⟩
      rcases hback with hback | hback
      · exact absurd hback hmisfit.2.1
      · exact absurd hback hmisfit.2.2
    · rw [if_neg (mt hclosed.mp hback)]
      rcases not_or.mp hback with ⟨hzero, hmem⟩
      refine ⟨fun _ => ⟨lt_of_le_of_ne (Nat.not_lt.mp hopen) ?_, hzero, hmem⟩, fun _ => rfl⟩
      -- The innermost width is on the stack, or there is no block.
      intro hw
      rw [← h.innermost] at hw
      cases blocks with
      | nil => exact hzero hw
      | cons top outer => exact hmem (hw ▸ List.mem_cons_self)

/-- One line keeps the stack, and its layout is the difference of the stacks. -/
theorem Tracks.changeIndent {shapes : List Layout} (h : Tracks blocks above)
    (hchange : changeIndent w blocks = some (shapes, inner)) :
    Tracks inner (above ++ [w]) ∧
      (shapes = [.indent] ∧ inner.length = blocks.length + 1 ∨
        ∃ count, shapes = List.replicate count .dedent ∧
          blocks.length = count + inner.length) := by
  have hlength := closeBlocks_length w blocks
  have hmem := fun v => mem_dropWhile_lt (w := v) h.decreasing w
  have hclosed := h.headD_dropWhile (w := w)
  rw [closeBlocks_snd] at hlength
  rw [changeIndent_eq_ite] at hchange
  split at hchange
  · -- A wider line opens a block.
    next hopen =>
      simp only [Option.some.injEq, Prod.mk.injEq] at hchange
      rcases hchange with ⟨rfl, rfl⟩
      rw [h.innermost] at hopen
      have hwider : ∀ v ∈ blocks, v < w := fun v hv =>
        (Finset.le_sup (f := id) ((h.mem v).mp hv)).trans_lt hopen
      refine ⟨⟨fun v => ?_, List.pairwise_cons.mpr ⟨hwider, h.decreasing⟩⟩,
        Or.inl ⟨rfl, List.length_cons⟩⟩
      rw [List.mem_cons, mem_openWidths_concat, ← h.mem]
      constructor
      · rintro (rfl | hv)
        · exact ⟨Nat.zero_lt_of_lt hopen, Or.inl rfl⟩
        · exact ⟨h.pos hv, Or.inr ⟨(hwider v hv).le, hv⟩⟩
      · rintro ⟨_, hv | hv⟩
        · exact Or.inl hv
        · exact Or.inr hv.2
  · split at hchange
    · -- Any other line closes what is wider, and is at an open width itself.
      next hback =>
        simp only [Option.some.injEq, Prod.mk.injEq] at hchange
        rcases hchange with ⟨rfl, rfl⟩
        refine ⟨⟨fun v => ?_, h.decreasing.sublist (List.dropWhile_sublist _)⟩,
          Or.inr ⟨_, rfl, hlength.symm⟩⟩
        rw [hmem, mem_openWidths_concat, ← h.mem]
        constructor
        · exact fun hv => ⟨h.pos hv.1, Or.inr ⟨hv.2, hv.1⟩⟩
        · rintro ⟨hpos, rfl | hv⟩
          · exact ⟨(hclosed.mp hback).resolve_left hpos.ne', le_rfl⟩
          · exact ⟨hv.2, hv.1⟩
    · cases hchange

/-! ## Misfits -/

theorem misfitAt_zero {n : Nat} :
    MisfitAt above (p :: rest) 0 n ↔ p.1 = n ∧ Misfit above (width p) := by
  rw [MisfitAt, List.take_zero, List.map_nil, List.append_nil, List.getElem?_cons_zero]
  exact ⟨fun ⟨q, hq, h⟩ => Option.some.inj hq ▸ h, fun h => ⟨p, rfl, h⟩⟩

theorem misfitAt_succ {i n : Nat} :
    MisfitAt above (p :: rest) (i + 1) n ↔ MisfitAt (above ++ [width p]) rest i n := by
  rw [MisfitAt, MisfitAt, List.take_succ_cons, List.map_cons, List.getElem?_cons_succ,
    List.append_assoc, List.singleton_append]

-- The first misfit is the first line, or the first misfit below it.
theorem firstMisfit_cons {n : Nat} : FirstMisfit above (p :: rest) n ↔
    Misfit above (width p) ∧ p.1 = n ∨
      ¬ Misfit above (width p) ∧ FirstMisfit (above ++ [width p]) rest n := by
  constructor
  · rintro ⟨i, hmisfit, hfirst⟩
    cases i with
    | zero => exact Or.inl (misfitAt_zero.mp hmisfit).symm
    | succ i =>
        refine Or.inr ⟨fun h => hfirst 0 (Nat.succ_pos i) p.1 (misfitAt_zero.mpr ⟨rfl, h⟩), i,
          misfitAt_succ.mp hmisfit, fun j hj m h => ?_⟩
        exact hfirst (j + 1) (Nat.succ_lt_succ hj) m (misfitAt_succ.mpr h)
  · rintro (⟨h, hn⟩ | ⟨h, i, hmisfit, hfirst⟩)
    · exact ⟨0, misfitAt_zero.mpr ⟨hn, h⟩, fun j hj => absurd hj (Nat.not_lt_zero j)⟩
    · refine ⟨i + 1, misfitAt_succ.mpr hmisfit, fun j hj m hj' => ?_⟩
      cases j with
      | zero => exact h (misfitAt_zero.mp hj').2
      | succ j => exact hfirst j (Nat.lt_of_succ_lt_succ hj) m (misfitAt_succ.mp hj')

theorem not_firstMisfit_nil (n : Nat) : ¬ FirstMisfit above [] n :=
  fun ⟨_, ⟨_, hget, _⟩, _⟩ => by cases hget

/-- The tokens of code lines fail exactly at the first misfit. -/
theorem codeTokens_eq_error_iff (h : Tracks blocks above) (lastLine n : Nat) :
    codeTokens blocks lastLine code = .error (.inconsistentIndent n) ↔
      FirstMisfit above code n := by
  -- Induction on the lines; the stack holds what is open below those already read.
  induction code generalizing blocks above lastLine with
  | nil => exact iff_of_false (by intro hfails; cases hfails) (not_firstMisfit_nil n)
  | cons p rest ih =>
      rcases p with ⟨number, line⟩
      have hnone := changeIndent_eq_none_iff h (w := indentWidth 0 line)
      rw [codeTokens, firstMisfit_cons, width]
      cases hchange : changeIndent (indentWidth 0 line) blocks with
      | none =>
          have hmisfit := hnone.mp hchange
          simp [hmisfit]
      | some change =>
          rcases change with ⟨shapes, inner⟩
          have hfit := mt hnone.mpr (by simp [hchange])
          have hbelow := ih (h.changeIndent hchange).1 number
          cases hafter : codeTokens inner number rest with
          | error e => simp [hafter ▸ hbelow, hafter, hfit]
          | ok after =>
              rw [hafter] at hbelow
              simp [hafter, hfit, ← hbelow]

/-! ## Openings and closings -/

theorem indents_append (a b : List Token) : indents (a ++ b) = indents a + indents b :=
  List.countP_append

theorem dedents_append (a b : List Token) : dedents (a ++ b) = dedents a + dedents b :=
  List.countP_append

-- Tokens that close no more than what is open can stand in front of tokens that close no more
-- than what is then open.
theorem dedents_le_of_append {k k' : Nat} {a b : List Token} (ha : dedents a ≤ k)
    (hk : k + indents a = k' + dedents a)
    (hb : ∀ front, front <+: b → dedents front ≤ k' + indents front) (front : List Token)
    (hfront : front <+: a ++ b) : dedents front ≤ k + indents front := by
  rcases hfront with ⟨tail, htail⟩
  rcases List.append_eq_append_iff.mp htail with ⟨more, rfl, _⟩ | ⟨more, rfl, hmore⟩
  · rw [dedents_append] at ha
    omega
  · have hle := hb more ⟨tail, hmore.symm⟩
    rw [indents_append, dedents_append]
    omega

-- What stands on a line opens and closes nothing.
theorem Stretch.Of.count_tokens (h : s.Of p) :
    indents s.tokens = indents s.layout ∧ dedents s.tokens = dedents s.layout := by
  have hnone : ∀ m : Layout, m ≠ .newline →
      (s.words ++ [s.stop]).countP (·.kind.isMark (.layout m)) = 0 := by
    intro m hm
    rw [List.countP_eq_zero, List.forall_mem_append, List.forall_mem_singleton, h.stop]
    refine ⟨fun t ht hmark => h.ordinary t ht m (isMark_eq_true_iff.mp hmark), fun hmark => hm ?_⟩
    cases isMark_eq_true_iff.mp hmark
    rfl
  rw [Stretch.tokens, List.append_assoc, indents_append, dedents_append]
  exact ⟨congrArg (indents s.layout + ·) (hnone .indent (by decide)),
    congrArg (dedents s.layout + ·) (hnone .dedent (by decide))⟩

/-! ## Line by line -/

/-- The layout tokens in front of a line. -/
def layoutOf (p : Nat × List Char) (shapes : List Layout) : List Token :=
  shapes.map fun shape => ⟨.mark (.layout shape), .inLine p.1 1 (indentLength p.2 + 1)⟩

-- The tokens of a code line with layout in front of it.
theorem exists_stretch (hcode : isCode p.2 = true) {shapes : List Layout}
    (hshapes : shapes = [.indent] ∨ ∃ count, shapes = List.replicate count .dedent) :
    ∃ s : Stretch, s.Of p ∧ s.layout = layoutOf p shapes ∧
      s.tokens = layoutOf p shapes ++
        lineTokens p.1 (indentLength p.2 + 1) (p.2.drop (indentLength p.2)) := by
  rcases exists_lineTokens p.1 (indentLength p.2 + 1) (p.2.drop (indentLength p.2)) with
    ⟨words, stop, htokens, hwords, hstop⟩
  have hplain := lineTokens_plain p.1 (indentLength p.2 + 1) (p.2.drop (indentLength p.2))
  rw [htokens] at hplain
  refine ⟨⟨layoutOf p shapes, words, stop⟩, ⟨?_, ?_, ?_, isMark_eq_true_iff.mp hstop, ?_⟩, rfl, ?_⟩
  · rw [layoutOf, List.map_map]
    rcases hshapes with rfl | ⟨count, rfl⟩
    · exact Or.inr (Or.inl rfl)
    · cases count with
      | zero => exact Or.inl rfl
      | succ count => exact Or.inr (Or.inr ⟨count, List.map_replicate⟩)
  · -- The first token of the line is not its end.
    rintro (rfl : words = [])
    rw [isCode_eq_find?, ← find?_drop_indent (indentLength p.2) p.2 (Nat.le_refl _)] at hcode
    rcases lineTokens_of_code p.1 (indentLength p.2 + 1) _ hcode with ⟨t, more, hfirst, ht⟩
    rw [htokens] at hfirst
    rw [← (List.cons.inj hfirst).1, hstop] at ht
    cases ht
  · intro t ht shape hkind
    rcases (hplain t (List.mem_append_left _ ht)).1 with ⟨hindent, hdedent, hend⟩
    have hnewline := hwords t ht
    rw [hkind] at hindent hdedent hend hnewline
    cases shape with
    | newline => cases hnewline
    | indent => cases hindent
    | dedent => cases hdedent
    | endOfInput => cases hend
  · intro t ht
    rw [Stretch.tokens, List.append_assoc, List.mem_append] at ht
    rcases ht with ht | ht
    · rcases List.mem_map.mp ht with ⟨_, _, rfl⟩
      rfl
    · exact (hplain t ht).2
  · rw [Stretch.tokens, List.append_assoc, htokens]

-- The layout in front of a line is the difference of the open blocks.
theorem count_layoutOf {shapes : List Layout}
    (h : shapes = [.indent] ∧ inner.length = blocks.length + 1 ∨
      ∃ count, shapes = List.replicate count .dedent ∧ blocks.length = count + inner.length) :
    dedents (layoutOf p shapes) ≤ blocks.length ∧
      blocks.length + indents (layoutOf p shapes) =
        inner.length + dedents (layoutOf p shapes) := by
  rcases h with ⟨rfl, hlength⟩ | ⟨count, rfl, hlength⟩
  · exact ⟨Nat.zero_le _, hlength.symm⟩
  · have hindents : indents (layoutOf p (List.replicate count .dedent)) = 0 := by
      rw [indents, layoutOf, List.map_replicate, List.countP_replicate]
      rfl
    have hdedents : dedents (layoutOf p (List.replicate count .dedent)) = count := by
      rw [dedents, layoutOf, List.map_replicate, List.countP_replicate]
      rfl
    omega

/-- The tokens of code lines are laid out line by line, whatever is open in front of them. -/
theorem codeTokens_layered (h : Tracks blocks above) (hcode : ∀ p ∈ code, isCode p.2 = true)
    {lastLine : Nat} {tokens : List Token}
    (htokens : codeTokens blocks lastLine code = .ok tokens) :
    ∃ stretches closing, tokens = stretches.flatMap Stretch.tokens ++ closing ∧
      List.Forall₂ Stretch.Of stretches code ∧
      (∃ count,
        closing.map (·.kind) = List.replicate count (.mark .dedent) ++ [.mark .endOfInput]) ∧
      (∀ front, front <+: tokens → dedents front ≤ blocks.length + indents front) ∧
      blocks.length + indents tokens = dedents tokens ∧
      ∀ i s, stretches[i]? = some s →
        blocks.length + indents ((stretches.take i).flatMap Stretch.tokens ++ s.layout) =
          dedents ((stretches.take i).flatMap Stretch.tokens ++ s.layout) +
            (openWidths (above ++ (code.take (i + 1)).map width)).card := by
  induction code generalizing blocks above lastLine tokens with
  -- Behind the last line every open block closes.
  | nil =>
      rw [codeTokens, Except.ok.injEq, List.map_const'] at htokens
      have hindents : indents tokens = 0 := by
        rw [← htokens, indents, List.countP_append, List.countP_replicate]
        rfl
      have hdedents : dedents tokens = blocks.length := by
        rw [← htokens, dedents, List.countP_append, List.countP_replicate]
        rfl
      refine ⟨[], tokens, rfl, .nil, ⟨blocks.length, ?_⟩, fun front hfront => ?_, ?_,
        fun i s hget => by cases hget⟩
      · rw [← htokens, List.map_append, List.map_replicate]
        rfl
      · have hle : dedents front ≤ dedents tokens := hfront.sublist.countP_le
        omega
      · omega
  -- The first line moves the stack, and the induction hypothesis is about the stack it leaves.
  | cons p rest ih =>
      rcases codeTokens_cons_eq_ok_iff.mp htokens with ⟨shapes, inner, after, hchange, hafter, hall⟩
      rcases h.changeIndent hchange with ⟨htracks, hshapes⟩
      change Tracks inner (above ++ [width p]) at htracks
      rcases ih htracks (fun q hq => hcode q (List.mem_cons_of_mem p hq)) hafter with
        ⟨stretches, closing, hbelow, hlines, hclosed, hopened, hbalanced, hdepth⟩
      rcases exists_stretch (hcode p List.mem_cons_self)
        (hshapes.imp And.left fun hclosed => hclosed.imp fun _ => And.left) with
        ⟨s, hs, hlayout, htokens'⟩
      rcases count_layoutOf (p := p) hshapes with ⟨hle, hdifference⟩
      rw [← hlayout] at hle hdifference
      rcases hs.count_tokens with ⟨hindents, hdedents⟩
      have hsplit : tokens = s.tokens ++ after := hall.trans (by rw [htokens']; rfl)
      refine ⟨s :: stretches, closing, ?_, .cons hs hlines, hclosed, ?_, ?_, ?_⟩
      · rw [hsplit, hbelow, List.flatMap_cons, List.append_assoc]
      · rw [hsplit]
        refine dedents_le_of_append ?_ ?_ hopened
        · rw [hdedents]
          exact hle
        · rw [hindents, hdedents]
          exact hdifference
      · rw [hsplit, indents_append, dedents_append, hindents, hdedents]
        omega
      · intro i s' hget
        -- The depth of this line, and those of the lines below it.
        cases i with
        | zero =>
            cases hget
            rw [List.take_zero, List.flatMap_nil, List.nil_append, hdifference, htracks.length,
              Nat.add_comm, List.take_succ_cons, List.take_zero, List.map_singleton]
        | succ i =>
            have hrest := hdepth i s' hget
            rw [List.append_assoc, List.singleton_append] at hrest
            rw [List.take_succ_cons, List.flatMap_cons, List.append_assoc, indents_append,
              dedents_append, hindents, hdedents, List.take_succ_cons, List.map_cons]
            omega

/-- The tokens of a script are laid out line by line, and a script fails to have tokens exactly at
    the first line that comes back to no open width. -/
theorem tokenize_layered (source : String) :
    (∀ n, tokenize source = .error (.inconsistentIndent n) ↔
      FirstMisfit [] (codeLines 1 (Text.lines source.toList)) n) ∧
    ((∃ n, FirstMisfit [] (codeLines 1 (Text.lines source.toList)) n) ∨
      ∃ stretches closing,
        tokenize source = .ok (stretches.flatMap Stretch.tokens ++ closing) ∧
        Layered (codeLines 1 (Text.lines source.toList)) stretches closing) := by
  have hcode : ∀ p ∈ codeLines 1 (Text.lines source.toList), isCode p.2 = true :=
    fun p hp => (numbered_codeLines _ p hp).1
  have hfails : ∀ n, codeTokens [] 0 (codeLines 1 (Text.lines source.toList)) =
      .error (.inconsistentIndent n) ↔ FirstMisfit [] (codeLines 1 (Text.lines source.toList)) n :=
    codeTokens_eq_error_iff tracks_nil 0
  rw [tokenize_eq_codeTokens]
  refine ⟨hfails, ?_⟩
  cases hread : codeTokens [] 0 (codeLines 1 (Text.lines source.toList)) with
  | error e =>
      rcases e with ⟨n⟩
      exact Or.inl ⟨n, (hfails n).mp hread⟩
  | ok tokens =>
      rcases codeTokens_layered tracks_nil hcode hread with
        ⟨stretches, closing, rfl, hlines, hclosed, hopened, hbalanced, hdepth⟩
      simp only [List.length_nil, Nat.zero_add, List.nil_append] at hopened hbalanced hdepth
      exact Or.inr ⟨stretches, closing, rfl, hlines, hclosed, hopened, hbalanced, hdepth⟩

end Script

end Farmhand
