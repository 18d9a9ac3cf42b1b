import Farmhand.Proofs.Script.Dedent
import Farmhand.Proofs.Script.Kept
import Farmhand.Proofs.Script.Within

/-!
# Between the Lines

Reading goes from line to line. In front of each line stands what is left of the layout, which says
whether a block opens or closes there, and a position is described by the lines below it and the
blocks that are open. From such a position the next token closes a block, opens one, or is the
first of a line; and a line that is read to its end, or passed over with the block under it, leads
to another such position.

## Main definitions

* `Stands`: A position in front of code lines, with the blocks that are open there.
* `OnLine`: A position on a line, with the lines below it.
* `Next`: What stands in front of a position.

## Theorems

* `changeIndent_cases`: The layout in front of a line, one token at a time.
* `Stands.next`: What can come next.
* `Finishes.below`, `Finishes.refused`: A line that is read to its end, or is refused.
* `rest_skipBlockFrom_stands`: A block is passed over up to the first line to the left of it.
* `stands_recover`: A line that is no statement is passed over with what is nested under it.
-/

namespace Farmhand

namespace Script

open Cursor
open Text (SourceLines)

variable {blocks : List Nat} {code rest : List (Nat × List Char)} {p : Nat × List Char}
  {c d : Cursor}

/-! ## Positions -/

/-- A position in front of code lines: what is left are their tokens, with certain blocks open. Some
    of the layout in front of the first line may have been read. -/
def Stands (blocks : List Nat) (code : List (Nat × List Char)) (c : Cursor) : Prop :=
  ∃ last, codeTokens blocks last code = .ok c.rest

/-- A position on a line: some tokens of the line, its end, and the tokens of the lines below. -/
def OnLine (p : Nat × List Char) (blocks : List Nat) (rest : List (Nat × List Char)) (c : Cursor) :
    Prop :=
  ∃ front stop after, c.rest = front ++ stop :: after ∧
    (∀ t ∈ front, t.kind.isMark .newline = false) ∧ stop.kind.isMark .newline = true ∧
    (∀ t ∈ front ++ [stop], t.IsPlain ∧ t.span.line = p.1) ∧
    codeTokens blocks p.1 rest = .ok after

/-- Code lines with their numbers, counted from one. -/
def Numbered (code : List (Nat × List Char)) : Prop :=
  ∀ p ∈ code, isCode p.2 = true ∧ p.1 ≠ 0

theorem numbered_codeLines (lines : List (List Char)) : Numbered (codeLines 1 lines) := by
  rintro ⟨n, line⟩ hp
  rcases getElem?_of_mem_codeLines hp with ⟨hn, _, hcode⟩
  exact ⟨hcode, Nat.ne_of_gt hn⟩

-- The tokens of a line are its end and what stands in front of it.
theorem exists_lineTokens (line column : Nat) (cs : List Char) :
    ∃ front stop, lineTokens line column cs = front ++ [stop] ∧
      (∀ t ∈ front, t.kind.isMark .newline = false) ∧ stop.kind.isMark .newline = true := by
  fun_induction lineTokens line column cs with
  | case1 column => exact ⟨[], _, rfl, List.forall_mem_nil _, rfl⟩
  | case2 column c rest _ ih => exact ih
  | case3 column rest stop _ => exact ⟨[], _, rfl, List.forall_mem_nil _, rfl⟩
  | case4 column c rest _ _ next stop ih =>
      rcases ih with ⟨front, last, htokens, hfront, hlast⟩
      refine ⟨_ :: front, last, by rw [htokens, List.cons_append], ?_, hlast⟩
      exact List.forall_mem_cons.mpr ⟨scan_isMark c rest _, hfront⟩

-- A code line does not begin with its end.
theorem lineTokens_of_code (line column : Nat) (cs : List Char)
    (h : (cs.find? fun c => !Text.isBlank c).any (fun c => c != '#') = true) :
    ∃ t more, lineTokens line column cs = t :: more ∧ t.kind.isMark .newline = false := by
  fun_induction lineTokens line column cs with
  | case1 => cases h
  | case2 column c rest hgap ih =>
      refine ih ?_
      rw [List.find?_cons, isBlank_of_isGap hgap] at h
      exact h
  | case3 column rest stop _ =>
      have hcomment : Text.isBlank '#' = false := by decide
      simp [hcomment] at h
  | case4 column c rest _ _ next stop _ => exact ⟨_, _, rfl, scan_isMark c rest _⟩

/-- What the tokens of a line are on their own. -/
theorem onLine_of_tokens (hcode : isCode p.2 = true) {after : List Token}
    (hafter : codeTokens blocks p.1 rest = .ok after)
    (hrest : c.rest =
      lineTokens p.1 (indentLength p.2 + 1) (p.2.drop (indentLength p.2)) ++ after) :
    OnLine p blocks rest c ∧ ∃ t more, c.rest = t :: more ∧ t.IsPlain ∧ t.span.line = p.1 ∧
      t.kind.isMark .newline = false ∧
      (lexemes (p.2.drop (indentLength p.2))).head? = some t.kind := by
  have hplain := lineTokens_plain p.1 (indentLength p.2 + 1) (p.2.drop (indentLength p.2))
  rcases exists_lineTokens p.1 (indentLength p.2 + 1) (p.2.drop (indentLength p.2)) with
    ⟨front, stop, htokens, hfront, hstop⟩
  have hfind := find?_drop_indent (indentLength p.2) p.2 (Nat.le_refl _)
  rw [isCode_eq_find?, ← hfind] at hcode
  rcases lineTokens_of_code p.1 (indentLength p.2 + 1) _ hcode with ⟨t, more, hfirst, ht⟩
  have hmem : t ∈ lineTokens p.1 (indentLength p.2 + 1) (p.2.drop (indentLength p.2)) :=
    hfirst ▸ List.mem_cons_self
  refine ⟨⟨front, stop, after, ?_, hfront, hstop, htokens ▸ hplain, hafter⟩, t, more ++ after, ?_,
    (hplain t hmem).1, (hplain t hmem).2, ht, ?_⟩
  · rw [hrest, htokens, List.append_assoc, List.singleton_append]
  · rw [hrest, hfirst, List.cons_append]
  · rw [← map_kind_lineTokens p.1 (indentLength p.2 + 1), hfirst]
    rfl

/-! ## Layout -/

theorem changeIndent_self (w : Nat) (blocks : List Nat) :
    changeIndent w (w :: blocks) = some ([], w :: blocks) := by
  simp only [changeIndent, List.headD_cons, Nat.lt_irrefl, if_false, closeBlocks, if_true]
  rfl

-- The layout in front of a line, one token at a time.
theorem changeIndent_cases {w : Nat} {shapes : List Layout} {inner : List Nat}
    (h : changeIndent w blocks = some (shapes, inner)) :
    (shapes = [] ∧ inner = blocks ∧ blocks.headD 0 = w) ∨
      (shapes = [.indent] ∧ inner = w :: blocks ∧ blocks.headD 0 < w) ∨
      ∃ b outer shapes', blocks = b :: outer ∧ w < b ∧ shapes = .dedent :: shapes' ∧
        changeIndent w outer = some (shapes', inner) := by
  unfold changeIndent at h
  by_cases hopen : blocks.headD 0 < w
  · simp only [if_pos hopen, Option.some.injEq, Prod.mk.injEq] at h
    exact Or.inr (Or.inl ⟨h.1.symm, h.2.symm, hopen⟩)
  · by_cases hleft : (closeBlocks w blocks).2.headD 0 = w
    · simp only [if_neg hopen, if_pos hleft, Option.some.injEq, Prod.mk.injEq] at h
      cases blocks with
      | nil => exact Or.inl ⟨h.1.symm, h.2.symm, hleft⟩
      | cons b outer =>
          by_cases hclose : w < b
          · -- One block is closed; the others are closed as if it had never been open.
            simp only [closeBlocks, if_pos hclose, List.replicate_succ] at h hleft
            have houter : ¬outer.headD 0 < w := by
              intro hlt
              cases outer with
              | nil =>
                  change 0 < w at hlt
                  change 0 = w at hleft
                  omega
              | cons b' more =>
                  have hkeep : ¬w < b' := Nat.not_lt.mpr (Nat.le_of_lt hlt)
                  simp only [closeBlocks, if_neg hkeep] at hleft
                  change b' < w at hlt
                  change b' = w at hleft
                  omega
            refine Or.inr (Or.inr ⟨b, outer, _, rfl, hclose, h.1.symm, ?_⟩)
            simp only [changeIndent, if_neg houter, if_pos hleft]
            rw [h.2]
          · simp only [closeBlocks, if_neg hclose] at h hleft
            exact Or.inl ⟨h.1.symm, h.2.symm, hleft⟩
    · simp only [if_neg hopen, if_neg hleft, reduceCtorEq] at h

/-- What stands in front of a position: a closing, an opening, or a line. -/
inductive Next (blocks : List Nat) (code : List (Nat × List Char)) (c : Cursor) (t : Token)
    (next : Cursor) : Prop
  | closing {b outer} (hblocks : blocks = b :: outer) (hkind : t.kind = .mark .dedent)
      (hlow : ∀ q ∈ code.head?, width q < b) (hnext : Stands outer code next)
  | opening {first below} (hcode : code = first :: below) (hkind : t.kind = .mark .indent)
      (hline : t.span.line = first.1) (hdeep : blocks.headD 0 < width first)
      (hnext : Stands (width first :: blocks) code next)
  | line {first below} (hcode : code = first :: below) (hwidth : width first = blocks.headD 0)
      (hplain : t.IsPlain) (hline : t.span.line = first.1)
      (hnewline : t.kind.isMark .newline = false)
      (hword : (lexemes (first.2.drop (indentLength first.2))).head? = some t.kind)
      (hc : OnLine first blocks below c)

/-- What can come next. -/
theorem Stands.next {t : Token} {next : c.Shorter} (h : Stands blocks code c)
    (hnumbered : Numbered code) (htake : c.take? = some (t, next)) :
    Next blocks code c t next.1 := by
  rcases h with ⟨last, htokens⟩
  have hrest := (take?_eq_some htake).1
  cases code with
  | nil =>
      -- No line is left: one of the open blocks closes, or this is the end and cannot be taken.
      cases blocks with
      | nil =>
          rw [codeTokens, List.map_nil, List.nil_append, Except.ok.injEq, hrest,
            List.cons.injEq] at htokens
          have hend := (take?_eq_some htake).2
          rw [← htokens.1] at hend
          cases hend
      | cons b outer =>
          rw [codeTokens, List.map_cons, List.cons_append, Except.ok.injEq, hrest,
            List.cons.injEq] at htokens
          refine .closing rfl (by rw [← htokens.1]) (fun q hq => absurd hq (by simp)) ⟨last, ?_⟩
          rw [codeTokens, htokens.2]
  | cons p rest =>
      rcases codeTokens_cons_eq_ok_iff.mp htokens with ⟨shapes, inner, after, hchange, hafter, hall⟩
      rcases changeIndent_cases hchange with ⟨hshapes, hinner, hwidth⟩ |
        ⟨hshapes, hinner, hopen⟩ | ⟨b, outer, shapes', hblocks, hclose, hshapes, hchange'⟩
      -- A line at the width of the innermost block.
      · rw [hshapes, List.map_nil, List.nil_append] at hall
        rw [hinner] at hafter
        rcases onLine_of_tokens (hnumbered p List.mem_cons_self).1 hafter hall with
          ⟨honline, t', more, hfirst, hplain, hline, hnewline, hword⟩
        rw [hrest, List.cons.injEq] at hfirst
        rw [← hfirst.1] at hplain hline hnewline hword
        exact .line rfl hwidth.symm hplain hline hnewline hword honline
      -- A line further in: the opening is next, and the line stands behind it.
      · rw [hrest, hshapes, List.map_cons, List.map_nil, List.append_assoc, List.singleton_append,
          List.cons.injEq] at hall
        refine .opening rfl (by rw [hall.1]) (by rw [hall.1]; rfl) hopen ⟨last, ?_⟩
        refine codeTokens_cons_eq_ok_iff.mpr ⟨[], inner, after, ?_, hafter, ?_⟩
        · rw [hinner]
          exact changeIndent_self _ _
        · rw [hall.2, List.map_nil, List.nil_append]
      -- A line further out: one closing is next, and the others follow it.
      · rw [hrest, hshapes, List.map_cons, List.cons_append, List.cons_append,
          List.cons.injEq] at hall
        refine .closing hblocks (by rw [hall.1]) ?_ ⟨last, ?_⟩
        · intro q hq
          rw [List.head?_cons, Option.mem_some] at hq
          exact hq ▸ hclose
        · exact codeTokens_cons_eq_ok_iff.mpr ⟨shapes', inner, after, hchange', hafter, hall.2⟩

-- Only the end of the script stands where nothing can be taken.
theorem Stands.of_none (h : Stands blocks code c) (htake : c.take? = none) :
    blocks = [] ∧ code = [] := by
  have hsome : ∀ t more, c.rest = t :: more → t.kind.isMark .endOfInput = false → False := by
    intro t more hrest hend
    rcases exists_take? hrest hend with ⟨next, hnext, _⟩
    rw [htake] at hnext
    cases hnext
  rcases h with ⟨last, htokens⟩
  cases code with
  | nil =>
      cases blocks with
      | nil => exact ⟨rfl, rfl⟩
      | cons b outer =>
          rw [codeTokens, List.map_cons, List.cons_append, Except.ok.injEq] at htokens
          exact (hsome _ _ htokens.symm rfl).elim
  | cons p rest =>
      rcases codeTokens_cons_eq_ok_iff.mp htokens with ⟨shapes, inner, after, hchange, _, hall⟩
      rcases changeIndent_cases hchange with ⟨hshapes, _⟩ | ⟨hshapes, _⟩ |
        ⟨_, _, shapes', _, _, hshapes, _⟩
      · rcases List.exists_cons_of_ne_nil (lineTokens_ne_nil p.1 (indentLength p.2 + 1)
          (p.2.drop (indentLength p.2))) with ⟨t, more, hline⟩
        have hplain := (lineTokens_plain p.1 (indentLength p.2 + 1) (p.2.drop (indentLength p.2)) t
          (hline ▸ List.mem_cons_self)).1
        rw [hshapes, List.map_nil, List.nil_append, hline, List.cons_append] at hall
        exact (hsome _ _ hall hplain.2.2).elim
      · rw [hshapes, List.map_cons, List.cons_append, List.cons_append] at hall
        exact (hsome _ _ hall rfl).elim
      · rw [hshapes, List.map_cons, List.cons_append, List.cons_append] at hall
        exact (hsome _ _ hall rfl).elim

/-! ## Lines -/

theorem OnLine.along (h : OnLine p blocks rest c) (hd : d.Along c) : OnLine p blocks rest d := by
  rcases h with ⟨front, stop, after, hrest, hfront, hstop, hline, hafter⟩
  rcases hd with ⟨used, hused, hplain⟩
  rw [hrest] at hused
  -- What was taken is a part of what stands in front of the end of the line.
  rcases List.append_eq_append_iff.mp hused with ⟨more, hused', hmore⟩ | ⟨left, hfront', hd⟩
  · cases more with
    | nil =>
        rw [List.append_nil] at hused'
        rw [List.nil_append] at hmore
        exact ⟨[], stop, after, hmore.symm, nofun, hstop,
          fun t ht => hline t (List.mem_append_right _ ht), hafter⟩
    | cons t more =>
        rw [List.cons_append, List.cons.injEq] at hmore
        have hnot := hplain stop (by rw [hused', hmore.1]; simp)
        rw [hstop] at hnot
        cases hnot
  · refine ⟨left, stop, after, hd, ?_, hstop, ?_, hafter⟩
    · exact fun t ht => hfront t (by rw [hfront']; exact List.mem_append_right _ ht)
    · intro t ht
      refine hline t ?_
      rw [hfront', List.append_assoc]
      exact List.mem_append_right _ ht

theorem OnLine.line_eq (h : OnLine p blocks rest c) : c.line = p.1 := by
  rcases h with ⟨front, stop, after, hrest, _, _, hline, _⟩
  cases front with
  | nil =>
      rw [Cursor.line, hrest]
      exact (hline stop (by simp)).2
  | cons t more =>
      rw [Cursor.line, hrest]
      exact (hline t (by simp)).2

-- Behind the end of a line come the tokens of the lines below.
theorem OnLine.below {t : Token} (h : OnLine p blocks rest c) (hrest : c.rest = t :: d.rest)
    (ht : t.kind.isMark .newline = true) : codeTokens blocks p.1 rest = .ok d.rest := by
  rcases h with ⟨front, stop, after, hrest', hfront, _, _, hafter⟩
  rw [hrest] at hrest'
  cases front with
  | nil =>
      rw [List.nil_append, List.cons.injEq] at hrest'
      rw [hrest'.2, hafter]
  | cons t' more =>
      rw [List.cons_append, List.cons.injEq] at hrest'
      have hnot := hfront t' List.mem_cons_self
      rw [← hrest'.1, ht] at hnot
      cases hnot

-- A line that is read to its end leaves the lines below.
theorem Finishes.below {α : Type} {place : α → Cursor} {r : Except Fault α} {answer : α}
    (h : Finishes c place r) (hr : r = .ok answer) (hc : OnLine p blocks rest c) :
    codeTokens blocks p.1 rest = .ok (place answer).rest := by
  rw [hr] at h
  rcases h with ⟨d, t, hd, hrest, ht⟩
  exact (hc.along hd).below hrest ht

-- A line that cannot be read is refused.
theorem Finishes.refused {α : Type} {place : α → Cursor} {r : Except Fault α} {fault : Fault}
    (h : Finishes c place r) (hr : r = .error fault) (hc : OnLine p blocks rest c)
    {faults : List Fault} (hfault : fault ∈ faults) : Refused faults p := by
  rw [hr] at h
  rcases h with ⟨⟨d, hd, hline⟩, herror⟩
  exact ⟨fault, hfault, hline.trans (hc.along hd).line_eq, herror⟩

/-! ## What is passed over -/

theorem rest_skipLineFrom {front : List Token} {stop : Token} (last : Span) (after : List Token)
    (hfront : ∀ t ∈ front, t.IsPlain ∧ t.kind.isMark .newline = false)
    (hstop : stop.kind.isMark .newline = true) :
    (skipLineFrom last (front ++ stop :: after)).rest = after := by
  induction front generalizing last with
  | nil => rw [List.nil_append, skipLineFrom, if_pos hstop]
  | cons t more ih =>
      rcases hfront t List.mem_cons_self with ⟨⟨_, hdedent, hend⟩, hnewline⟩
      rw [List.cons_append, skipLineFrom]
      simp only [hnewline, hdedent, hend, Bool.or_self, Bool.false_eq_true, if_false]
      exact ih t.span fun t' ht' => hfront t' (List.mem_cons_of_mem t ht')

theorem OnLine.skipLine (h : OnLine p blocks rest c) : Stands blocks rest c.skipLine.1 := by
  rcases h with ⟨front, stop, after, hrest, hfront, hstop, hline, hafter⟩
  refine ⟨p.1, ?_⟩
  have hskip := rest_skipLineFrom c.last after
    (fun t ht => ⟨(hline t (List.mem_append_left _ ht)).1, hfront t ht⟩) hstop
  rw [← hrest] at hskip
  change codeTokens blocks p.1 rest = .ok (skipLineFrom c.last c.rest).rest
  rw [hskip, hafter]

-- Blocks at or to the left of a width stay open, and so do those around them.
theorem closeBlocks_append {w b : Nat} (extra outer : List Nat) (hb : b ≤ w) :
    ∃ dropped left, extra = dropped ++ left ∧
      closeBlocks w (extra ++ b :: outer) = (dropped.length, left ++ b :: outer) := by
  induction extra with
  | nil =>
      refine ⟨[], [], rfl, ?_⟩
      rw [List.nil_append, closeBlocks, if_neg (Nat.not_lt.mpr hb)]
      rfl
  | cons x more ih =>
      rcases ih with ⟨dropped, left, hmore, hclose⟩
      rw [List.cons_append, closeBlocks]
      by_cases hx : w < x
      · refine ⟨x :: dropped, left, by rw [hmore, List.cons_append], ?_⟩
        simp only [if_pos hx, hclose, List.length_cons]
      · refine ⟨[], x :: more, rfl, ?_⟩
        rw [if_neg hx]
        rfl

-- A line to the left of a block closes it with all blocks inside it.
theorem changeIndent_append {w b : Nat} {extra outer inner : List Nat} {shapes : List Layout}
    (hw : w < b) (hextra : ∀ x ∈ extra, b < x)
    (h : changeIndent w (extra ++ b :: outer) = some (shapes, inner)) :
    ∃ shapes', shapes = List.replicate (extra.length + 1) .dedent ++ shapes' ∧
      changeIndent w outer = some (shapes', inner) := by
  induction extra generalizing shapes with
  | nil =>
      rcases changeIndent_cases h with ⟨_, _, hwidth⟩ | ⟨_, _, hopen⟩ |
        ⟨b', outer', shapes', hblocks, _, hshapes, hchange⟩
      · change b = w at hwidth
        omega
      · change b < w at hopen
        omega
      · rw [List.nil_append, List.cons.injEq] at hblocks
        rw [← hblocks.2] at hchange
        exact ⟨shapes', hshapes, hchange⟩
  | cons x more ih =>
      have hx := hextra x List.mem_cons_self
      rcases changeIndent_cases h with ⟨_, _, hwidth⟩ | ⟨_, _, hopen⟩ |
        ⟨b', outer', shapes', hblocks, _, hshapes, hchange⟩
      · change x = w at hwidth
        omega
      · change x < w at hopen
        omega
      · rw [List.cons_append, List.cons.injEq] at hblocks
        rw [← hblocks.2] at hchange
        rcases ih (fun y hy => hextra y (List.mem_cons_of_mem x hy)) hchange with
          ⟨shapes'', hshapes', hchange'⟩
        refine ⟨shapes'', ?_, hchange'⟩
        rw [hshapes, hshapes', List.length_cons, List.replicate_succ, List.cons_append]
        rfl

-- A line inside a block stays inside it, whatever blocks open or close there.
theorem changeIndent_inside {w b : Nat} {extra outer inner : List Nat} {shapes : List Layout}
    (hw : b ≤ w) (hextra : ∀ x ∈ extra, b < x)
    (h : changeIndent w (extra ++ b :: outer) = some (shapes, inner)) :
    ∃ extra', inner = extra' ++ b :: outer ∧ (∀ x ∈ extra', b < x) ∧
      (shapes = [.indent] ∧ extra'.length = extra.length + 1 ∨
        ∃ count, shapes = List.replicate count .dedent ∧ extra.length = count + extra'.length) := by
  unfold changeIndent at h
  by_cases hopen : (extra ++ b :: outer).headD 0 < w
  · simp only [if_pos hopen, Option.some.injEq, Prod.mk.injEq] at h
    have hbw : b < w := by
      cases extra with
      | nil => exact hopen
      | cons x more => exact Nat.lt_trans (hextra x List.mem_cons_self) hopen
    exact ⟨w :: extra, h.2.symm, List.forall_mem_cons.mpr ⟨hbw, hextra⟩, Or.inl ⟨h.1.symm, rfl⟩⟩
  · rcases closeBlocks_append extra outer hw with
      ⟨dropped, left, hsplit, hclose⟩
    simp only [if_neg hopen, hclose] at h
    by_cases hleft : (left ++ b :: outer).headD 0 = w
    · simp only [if_pos hleft, Option.some.injEq, Prod.mk.injEq] at h
      refine ⟨left, h.2.symm,
        fun x hx => hextra x (by rw [hsplit]; exact List.mem_append_right _ hx),
        Or.inr ⟨dropped.length, h.1.symm, by rw [hsplit, List.length_append]⟩⟩
    · simp only [if_neg hleft, reduceCtorEq] at h

/-- A block is passed over up to the first line that stands further to the left. -/
theorem rest_skipBlockFrom_stands {b lastLine : Nat} (extra : List Nat) {outer : List Nat}
    {tokens : List Token} (hextra : ∀ x ∈ extra, b < x)
    (h : codeTokens (extra ++ b :: outer) lastLine code = .ok tokens) (last : Span) :
    ∃ nested after line, code = nested ++ after ∧
      codeTokens outer line after = .ok (skipBlockFrom extra.length last tokens).rest ∧
      (∀ q ∈ nested, b ≤ width q) ∧ ∀ q ∈ after.head?, width q < b := by
  -- Induction on the lines; the blocks inside the block are wider than it.
  induction code generalizing extra lastLine tokens last with
  | nil =>
      refine ⟨[], [], lastLine, rfl, ?_, nofun, nofun⟩
      rw [codeTokens, Except.ok.injEq, List.map_append, List.map_const', List.map_cons,
        List.append_assoc, List.cons_append, List.append_cons, ← List.replicate_succ'] at h
      rw [← h, rest_skipBlockFrom_close, codeTokens]
  | cons p rest ih =>
      rcases codeTokens_cons_eq_ok_iff.mp h with ⟨shapes, inner, after, hchange, hafter, hall⟩
      have hplain := fun t ht => (lineTokens_plain p.1 (indentLength p.2 + 1)
        (p.2.drop (indentLength p.2)) t ht).1
      by_cases hw : width p < b
      · -- The line closes the block, and some of the blocks around it.
        rcases changeIndent_append hw hextra hchange with ⟨shapes', hshapes, hchange'⟩
        refine ⟨[], p :: rest, lastLine, rfl, ?_, nofun, ?_⟩
        · rw [hall, hshapes, List.map_append, List.map_replicate, List.append_assoc,
            List.append_assoc, rest_skipBlockFrom_close]
          refine codeTokens_cons_eq_ok_iff.mpr ⟨shapes', inner, after, hchange', hafter, ?_⟩
          rw [List.append_assoc]
        · intro q hq
          rw [List.head?_cons, Option.mem_some] at hq
          exact hq ▸ hw
      · -- The line is inside the block, and its own tokens are passed over.
        have hwidth : b ≤ width p := Nat.not_lt.mp hw
        rcases changeIndent_inside hwidth hextra hchange with ⟨extra', hinner, hextra', hshapes⟩
        rw [hinner] at hafter
        have hskip : (skipBlockFrom extra.length last tokens).rest
            = (skipBlockFrom extra'.length last after).rest := by
          rcases hshapes with ⟨hshapes, hlength⟩ | ⟨count, hshapes, hlength⟩
          · rw [hall, hshapes, List.append_assoc, List.map_cons, List.map_nil,
              List.singleton_append, hlength]
            exact (rest_skipBlockFrom_indent _ _ _ _).trans
              (rest_skipBlockFrom_plain _ _ _ _ hplain)
          · rw [hall, hshapes, List.append_assoc, List.map_replicate, hlength]
            exact (rest_skipBlockFrom_dedents _ _ _ _ _).trans
              (rest_skipBlockFrom_plain _ _ _ _ hplain)
        rcases ih extra' hextra' hafter last with
          ⟨nested, below, line, hrest, hbelow, hnested, hlow⟩
        refine ⟨p :: nested, below, line, by rw [hrest, List.cons_append], ?_, ?_, hlow⟩
        · rw [hskip]
          exact hbelow
        · exact List.forall_mem_cons.mpr ⟨hwidth, hnested⟩

/-- The block that has just been opened is passed over. -/
theorem Stands.skipBlock {b : Nat} {outer : List Nat} (h : Stands (b :: outer) code c) :
    ∃ nested after, code = nested ++ after ∧ Stands outer after c.skipBlock.1 ∧
      (∀ q ∈ nested, b ≤ width q) ∧ ∀ q ∈ after.head?, width q < b := by
  rcases h with ⟨lastLine, htokens⟩
  rcases rest_skipBlockFrom_stands [] nofun htokens c.last with
    ⟨nested, after, line, hcode, hafter, hnested, hlow⟩
  exact ⟨nested, after, hcode, ⟨line, hafter⟩, hnested, hlow⟩

/-- Behind a line that is no statement and the block under it come the lines below. -/
theorem stands_recover {t : Token} {next : c.Shorter} (hc : OnLine p blocks rest c)
    (hnumbered : Numbered rest) (htake : c.take? = some (t, next))
    (ht : t.kind.isMark .newline = false) :
    ∃ nested after, rest = nested ++ after ∧ Stands blocks after (recover t next).1 ∧
      ∀ q ∈ nested, blocks.headD 0 < width q := by
  have hline : Stands blocks rest next.1.skipLine.1 := (hc.along (take?_along htake ht)).skipLine
  have hrecover : (recover t next).1 = next.1.skipLine.1.skipNested.1 := by
    have hbehind : (if t.kind.isMark .newline then next.1.here else next.1.skipLine)
        = next.1.skipLine := if_neg (by rw [ht]; exact Bool.false_ne_true)
    unfold recover
    rw [hbehind]
    rfl
  rw [hrecover]
  unfold skipNested
  split
  · next inner hskip =>
      rcases skip?_eq_some hskip with ⟨t', htake', hkind⟩
      rcases hline.next hnumbered htake' with ⟨_, hkind', _⟩ | ⟨hcode, _, _, hdeep, hnext⟩ |
        ⟨_, _, hplain, _⟩
      · rw [hkind] at hkind'
        cases hkind'
      · rcases hnext.skipBlock with ⟨nested, after, hsplit, hafter, hnested, _⟩
        exact ⟨nested, after, hsplit, hafter,
          fun q hq => Nat.lt_of_lt_of_le hdeep (hnested q hq)⟩
      · rw [Token.IsPlain, hkind] at hplain
        cases hplain.1
  · exact ⟨[], rest, rfl, hline, nofun⟩

end Script

end Farmhand
