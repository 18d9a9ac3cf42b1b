import Mathlib
import Farmhand.Proofs.Script.Grammar

/-!
# Scripts Without Faults

A script that is read without a complaint is read whole. Each of its code lines is the first line of
one statement, or it is a further header of a conditional, and no line is either of them twice; no
statement is a line that was given up, and no block is empty. The tree has the shape of the text:
the statements stand in the tree in the order of their lines, and a statement is as deep in it as
there are blocks open at its line.

Which blocks are open at a line is a matter of the widths alone. A line closes the blocks that are
wider than it, and it opens one if it is wider than what is left.

## Main definitions

* `Stmt.blocks`: The blocks of a statement.
* `Stmt.nested`: A statement with all statements inside it, and how deep each of them is.
* `Stmt.headers`: The further headers of a conditional.
* `openAt`, `outline`: The blocks open at a line, and their number along the lines.
* `Complete`: A program has everything that is in its lines, once.
* `Plain`: The grammar without the rules that end in a complaint.

## Theorems

* `Forms.plain`: A stretch without faults is read by the rules that have none.
* `Plain.kept`, `Plain.filled`, `Plain.countP_headers`, `Plain.levelled`: What such a stretch comes
  to.
* `faultless_complete`: A script without faults is read whole.
-/

namespace Farmhand

namespace Script

/-! ## Definitions -/

/-- The blocks of a statement, in the order of the text. -/
def Stmt.blocks : Stmt → List Block
  | .cond branches otherwise _ => branches.map Prod.snd ++ otherwise.toList
  | .whileLoop _ body _ => [body]
  | .forLoop _ _ body _ => [body]
  | _ => []

mutual

/-- A statement with all statements inside it, each with its depth in the tree. -/
def Stmt.nested (depth : Nat) : Stmt → List (Stmt × Nat)
  | .cond branches otherwise span =>
    (.cond branches otherwise span, depth) :: (Stmt.nestedInBranches (depth + 1) branches ++
      match otherwise with
      | some body => Stmt.nestedInBlock (depth + 1) body
      | none => [])
  | .whileLoop condition body span =>
    (.whileLoop condition body span, depth) :: Stmt.nestedInBlock (depth + 1) body
  | .forLoop name items body span =>
    (.forLoop name items body span, depth) :: Stmt.nestedInBlock (depth + 1) body
  | .assign name op value span => [(.assign name op value span, depth)]
  | .expr value span => [(.expr value span, depth)]
  | .returnWith value span => [(.returnWith value span, depth)]
  | .breakLoop span => [(.breakLoop span, depth)]
  | .continueLoop span => [(.continueLoop span, depth)]
  | .pass span => [(.pass span, depth)]
  | .skipped text span => [(.skipped text span, depth)]

/-- The statements inside the branches of a conditional, with their depths. -/
def Stmt.nestedInBranches (depth : Nat) : List (Expr × List Stmt) → List (Stmt × Nat)
  | [] => []
  | (_, body) :: rest => Stmt.nestedInBlock depth body ++ Stmt.nestedInBranches depth rest

/-- The statements of a block at a depth, with all statements inside them. -/
def Stmt.nestedInBlock (depth : Nat) : List Stmt → List (Stmt × Nat)
  | [] => []
  | stmt :: rest => stmt.nested depth ++ Stmt.nestedInBlock depth rest

end

/-- The number of headers that begin with a keyword, among those of the branches behind the first:
    one `elif` for each of them, and an `else` for the case that no condition holds. -/
def headersOf (k : Keyword) (others : List (Expr × Block)) (otherwise : Option Block) : Nat :=
  match k with
  | .elifWord => others.length
  | .elseWord => otherwise.toList.length
  | _ => 0

/-- The number of further headers of a statement that begin with a keyword. -/
def Stmt.headers (k : Keyword) : Stmt → Nat
  | .cond branches otherwise _ => headersOf k branches.tail otherwise
  | _ => 0

/-- The blocks that are open at a line of a given width, by their widths, the innermost first. The
    line closes the wider ones, and opens one if it is wider than what is left. -/
def openAt (w : Nat) (blocks : List Nat) : List Nat :=
  let outer := blocks.dropWhile (w < ·)
  if outer.headD 0 < w then w :: outer else outer

/-- Code lines, each with the number of blocks that are open at it. -/
def levels (blocks : List Nat) : List (Nat × List Char) → List ((Nat × List Char) × Nat)
  | [] => []
  | p :: rest =>
    (p, (openAt (width p) blocks).length) :: levels (openAt (width p) blocks) rest

/-- The blocks that are open at the last of some lines. -/
def blocksAfter (blocks : List Nat) (code : List (Nat × List Char)) : List Nat :=
  code.foldl (fun blocks p => openAt (width p) blocks) blocks

/-- Where a statement is, in the text and in the tree: its line, and how deep it is. -/
def placeOf (q : Stmt × Nat) : Nat × Nat :=
  (q.1.span.line, q.2)

instance (k : Keyword) (p : Nat × List Char) : Decidable (Begins k p) :=
  decidable_of_iff
    ((lexemes (p.2.drop (indentLength p.2))).head?.any (·.isMark (.keyword k)) = true) (by
      rw [Begins]
      cases (lexemes (p.2.drop (indentLength p.2))).head? with
      | none => exact ⟨nofun, nofun⟩
      | some kind => rw [Option.any_some, isMark_eq_true_iff, Option.some.injEq])

instance (p : Nat × List Char) : Decidable (BeginsBranch p) :=
  inferInstanceAs (Decidable (_ ∨ _))

/-- The lines that begin no further branch: their numbers, and the number of open blocks. -/
def outline (blocks : List Nat) (code : List (Nat × List Char)) : List (Nat × Nat) :=
  ((levels blocks code).filter fun q => ¬ BeginsBranch q.1).map fun q => (q.1.1, q.2)

/-- A program has everything that is in its code lines, once: the statements are the lines that
    begin no further branch, in order; the further headers are the other lines; and a statement is
    as deep in the program as there are blocks open at its line. -/
structure Complete (code : List (Nat × List Char)) (body : Block) : Prop where
  kept : ∀ s ∈ Stmt.partsOfBlock body, s.isSkipped = false
  filled : ∀ s ∈ Stmt.partsOfBlock body, ∀ b ∈ s.blocks, b ≠ []
  listed : (Stmt.partsOfBlock body).map (·.span.line) =
    (code.filter fun p => ¬ BeginsBranch p).map Prod.fst
  increasing : ((Stmt.partsOfBlock body).map (·.span.line)).Pairwise (· < ·)
  elifs : code.countP (Begins .elifWord ·) =
    ((Stmt.partsOfBlock body).map (Stmt.headers .elifWord)).sum
  elses : code.countP (Begins .elseWord ·) =
    ((Stmt.partsOfBlock body).map (Stmt.headers .elseWord)).sum
  deep : (Stmt.nestedInBlock 0 body).map placeOf = outline [] code

/-- The lines of a portion that stands at a width, when nothing is wrong with them. -/
inductive Plain : Nat → Portion → List (Nat × List Char) → Prop
  | simple {w p s} (hs : s.isSimple = true) (hline : s.span.line = p.1) (hwidth : width p = w)
      (hword : ¬ BeginsBranch p) : Plain w (.stmt s) [p]
  | loop {w p s body seg} (hs : s.loopBody? = some body) (hline : s.span.line = p.1)
      (hwidth : width p = w) (hword : ¬ BeginsBranch p) (hbody : Plain w (.under p.1 body) seg) :
      Plain w (.stmt s) (p :: seg)
  | cond {w p condition body others otherwise span seg segs} (hline : span.line = p.1)
      (hwidth : width p = w) (hword : ¬ BeginsBranch p) (hbody : Plain w (.under p.1 body) seg)
      (hothers : Plain w (.branches others otherwise) segs) :
      Plain w (.stmt (.cond ((condition, body) :: others) otherwise span)) (p :: (seg ++ segs))
  | nil {w} : Plain w (.stmts []) []
  | cons {w s body seg segs} (hfirst : Plain w (.stmt s) seg) (hrest : Plain w (.stmts body) segs) :
      Plain w (.stmts (s :: body)) (seg ++ segs)
  | block {w w' n s body seg} (hdeep : w < w') (hbody : Plain w' (.stmts (s :: body)) seg) :
      Plain w (.under n (s :: body)) seg
  | done {w} : Plain w (.branches [] none) []
  | elifBranch {w p condition body others otherwise seg segs} (hwidth : width p = w)
      (hword : Begins .elifWord p) (hbody : Plain w (.under p.1 body) seg)
      (hothers : Plain w (.branches others otherwise) segs) :
      Plain w (.branches ((condition, body) :: others) otherwise) (p :: (seg ++ segs))
  | elseBranch {w p body seg} (hwidth : width p = w) (hword : Begins .elseWord p)
      (hbody : Plain w (.under p.1 body) seg) : Plain w (.branches [] (some body)) (p :: seg)

variable {below code seg : List (Nat × List Char)} {p : Nat × List Char} {w : Nat}
  {portion : Portion} {faults : List Fault} {blocks st : List Nat} {s : Stmt} {body : Block}

/-! ## Open blocks -/

theorem closeBlocks_snd (w : Nat) (blocks : List Nat) :
    (closeBlocks w blocks).2 = blocks.dropWhile (w < ·) := by
  induction blocks with
  | nil => rfl
  | cons top outer ih =>
      rw [closeBlocks]
      by_cases h : w < top
      · rw [List.dropWhile_cons_of_pos (by simpa using h), if_pos h, ← ih]
      · rw [List.dropWhile_cons_of_neg (by simpa using h), if_neg h]

-- Blocks that are not wider than a line stay open.
theorem dropWhile_eq_self (h : blocks.headD 0 ≤ w) : blocks.dropWhile (w < ·) = blocks := by
  cases blocks with
  | nil => rfl
  | cons top outer => exact List.dropWhile_cons_of_neg (by simpa using h)

-- A line at the width of the innermost block changes nothing.
theorem openAt_headD (blocks : List Nat) : openAt (blocks.headD 0) blocks = blocks := by
  rw [openAt, dropWhile_eq_self le_rfl, if_neg (Nat.lt_irrefl _)]

theorem openAt_of_lt (h : blocks.headD 0 < w) : openAt w blocks = w :: blocks := by
  rw [openAt, dropWhile_eq_self h.le, if_pos h]

theorem openAt_width (hwidth : width p = w) (hw : blocks.headD 0 = w)
    (h : openAt (blocks.headD 0) st = blocks) : openAt (width p) st = blocks := by
  rw [hwidth, ← hw]
  exact h

-- A line to the left of a block leaves open what was open around the block.
theorem openAt_outer (hlt : blocks.headD 0 < w) (h : openAt w st = w :: blocks) :
    openAt (blocks.headD 0) st = blocks := by
  -- What is wider than the block is wider than the line.
  have hdrop : st.dropWhile (blocks.headD 0 < ·) =
      (st.dropWhile (w < ·)).dropWhile (blocks.headD 0 < ·) := by
    clear h
    induction st with
    | nil => rfl
    | cons top outer ih =>
        by_cases htop : w < top
        · rw [List.dropWhile_cons_of_pos (by simpa using hlt.trans htop), ih,
            List.dropWhile_cons_of_pos (by simpa using htop)]
        · rw [List.dropWhile_cons_of_neg (a := top) (l := outer) (p := (w < ·))
            (by simpa using htop)]
  have hleft : (st.dropWhile (w < ·)).dropWhile (blocks.headD 0 < ·) = blocks := by
    rw [openAt] at h
    split at h
    · rw [(List.cons.inj h).2]
      exact dropWhile_eq_self le_rfl
    · rw [h, List.dropWhile_cons_of_pos (by simpa using hlt)]
      exact dropWhile_eq_self le_rfl
  rw [openAt, hdrop, hleft, if_neg (Nat.lt_irrefl _)]

theorem levels_append (blocks : List Nat) (code code' : List (Nat × List Char)) :
    levels blocks (code ++ code') =
      levels blocks code ++ levels (blocksAfter blocks code) code' := by
  induction code generalizing blocks with
  | nil => rfl
  | cons p rest ih =>
      rw [List.cons_append, levels, levels, List.cons_append, ih]
      rfl

theorem outline_append (blocks : List Nat) (code code' : List (Nat × List Char)) :
    outline blocks (code ++ code') =
      outline blocks code ++ outline (blocksAfter blocks code) code' := by
  rw [outline, levels_append, List.filter_append, List.map_append]
  rfl

-- A line at the width of the blocks that are left.
theorem outline_cons (h : ¬ BeginsBranch p) (hopen : openAt (width p) st = blocks) :
    outline st (p :: code) = (p.1, blocks.length) :: outline blocks code := by
  rw [outline, levels, hopen, List.filter_cons_of_pos (by simpa using h)]
  rfl

theorem outline_cons_of_branch (h : BeginsBranch p) (hopen : openAt (width p) st = blocks) :
    outline st (p :: code) = outline blocks code := by
  rw [outline, levels, hopen, List.filter_cons_of_neg (by simpa using h)]
  rfl

theorem map_fst_outline (blocks : List Nat) (code : List (Nat × List Char)) :
    (outline blocks code).map Prod.fst =
      (code.filter fun p => ¬ BeginsBranch p).map Prod.fst := by
  induction code generalizing blocks with
  | nil => rfl
  | cons p rest ih =>
      by_cases h : BeginsBranch p
      · rw [outline_cons_of_branch h rfl, ih, List.filter_cons_of_neg (by simpa using h)]
      · rw [outline_cons h rfl, List.map_cons, ih, List.filter_cons_of_pos (by simpa using h),
          List.map_cons]

theorem blocksAfter_cons (hopen : openAt (width p) st = blocks) :
    blocksAfter st (p :: code) = blocksAfter blocks code := by
  rw [blocksAfter, List.foldl_cons, hopen]
  rfl

theorem blocksAfter_append (blocks : List Nat) (code code' : List (Nat × List Char)) :
    blocksAfter blocks (code ++ code') = blocksAfter (blocksAfter blocks code) code' :=
  List.foldl_append

/-! ## Portions -/

/-- The statements of a portion at a depth, and the depths of the statements inside them. -/
def Portion.nested (depth : Nat) : Portion → List (Stmt × Nat)
  | .stmt s => s.nested depth
  | .stmts body => Stmt.nestedInBlock depth body
  | .under _ body => Stmt.nestedInBlock (depth + 1) body
  | .branches others otherwise =>
    Stmt.nestedInBranches (depth + 1) others ++
      otherwise.toList.flatMap (Stmt.nestedInBlock (depth + 1))
  | .spoiled => []

/-- The blocks that stand right under the headers of a portion. -/
def Portion.inner : Portion → List Block
  | .under _ body => [body]
  | .branches others otherwise => others.map Prod.snd ++ otherwise.toList
  | _ => []

/-- The headers of a portion that begin with a keyword, those inside its blocks apart. -/
def Portion.headers (k : Keyword) : Portion → Nat
  | .branches others otherwise => headersOf k others otherwise
  | _ => 0

theorem nested_cond (depth : Nat) (condition : Expr) (body : Block)
    (others : List (Expr × Block)) (otherwise : Option Block) (span : Span) :
    (Stmt.cond ((condition, body) :: others) otherwise span).nested depth =
      (.cond ((condition, body) :: others) otherwise span, depth) ::
        (Stmt.nestedInBlock (depth + 1) body ++
          (Portion.branches others otherwise).nested depth) := by
  cases otherwise <;> simp [Portion.nested, Stmt.nested, Stmt.nestedInBranches]

theorem nested_elif (depth : Nat) (condition : Expr) (body : Block)
    (others : List (Expr × Block)) (otherwise : Option Block) :
    (Portion.branches ((condition, body) :: others) otherwise).nested depth =
      Stmt.nestedInBlock (depth + 1) body ++ (Portion.branches others otherwise).nested depth := by
  rw [Portion.nested, Portion.nested, Stmt.nestedInBranches, List.append_assoc]

theorem nested_else (depth : Nat) (body : Block) :
    (Portion.branches [] (some body)).nested depth = Stmt.nestedInBlock (depth + 1) body := by
  simp [Portion.nested, Stmt.nestedInBranches]

-- A statement of one line has nothing inside it.
theorem of_isSimple (h : s.isSimple = true) :
    s.parts = [s] ∧ (∀ depth, s.nested depth = [(s, depth)]) ∧ s.isSkipped = false ∧
      s.blocks = [] ∧ ∀ k, s.headers k = 0 := by
  cases s with
  | cond branches otherwise span => cases h
  | whileLoop condition body span => cases h
  | forLoop name items body span => cases h
  | skipped text span => cases h
  | _ => exact ⟨rfl, fun _ => rfl, rfl, rfl, fun _ => rfl⟩

-- A loop has its body inside it.
theorem of_loopBody? (h : s.loopBody? = some body) :
    s.parts = s :: Stmt.partsOfBlock body ∧
      (∀ depth, s.nested depth = (s, depth) :: Stmt.nestedInBlock (depth + 1) body) ∧
      s.isSkipped = false ∧ s.blocks = [body] ∧ ∀ k, s.headers k = 0 := by
  cases s with
  | whileLoop condition inner span =>
      cases h
      exact ⟨rfl, fun _ => rfl, rfl, rfl, fun _ => rfl⟩
  | forLoop name items inner span =>
      cases h
      exact ⟨rfl, fun _ => rfl, rfl, rfl, fun _ => rfl⟩
  | _ => cases h

/-! ## The grammar without faults -/

-- A conditional is given up for a reason.
theorem Forms.faults_of_spoiled (h : Forms below w portion seg faults) (hp : portion = .spoiled) :
    faults ≠ [] := by
  induction h with
  | refusedBranch _ _ _ _ => exact List.cons_ne_nil _ _
  | spoiledBranch _ _ _ _ _ ih => exact List.append_ne_nil_of_right_ne_nil _ (ih rfl)
  | _ => cases hp

/-- A stretch without faults is read by the rules that have none. -/
theorem Forms.plain (h : Forms below w portion seg faults) (hf : faults = []) :
    Plain w portion seg := by
  induction h with
  | simple hs hline hwidth hword => exact .simple hs hline hwidth hword
  | refused _ _ _ _ => cases hf
  | stray _ _ _ => cases hf
  | loop hs hline hwidth hword _ ih =>
      exact .loop hs hline hwidth (not_beginsBranch (Or.inr hword)) (ih hf)
  | cond hline hwidth hword _ _ ih ih' =>
      rcases List.append_eq_nil_iff.mp hf with ⟨hf, hf'⟩
      exact .cond hline hwidth (not_beginsBranch (Or.inl hword)) (ih hf) (ih' hf')
  | spoiled _ _ _ _ hothers _ _ =>
      exact absurd (List.append_eq_nil_iff.mp hf).2 (hothers.faults_of_spoiled rfl)
  | nil => exact .nil
  | cons _ _ ih ih' =>
      rcases List.append_eq_nil_iff.mp hf with ⟨hf, hf'⟩
      exact .cons (ih hf) (ih' hf')
  | missing _ => cases hf
  | block hdeep _ ih => exact .block hdeep (ih hf)
  | done => exact .done
  | elifBranch hwidth hword _ _ ih ih' =>
      rcases List.append_eq_nil_iff.mp hf with ⟨hf, hf'⟩
      exact .elifBranch hwidth hword (ih hf) (ih' hf')
  | elseBranch hwidth hword _ ih => exact .elseBranch hwidth hword (ih hf)
  | refusedBranch _ _ _ _ => cases hf
  | spoiledBranch _ _ _ hothers _ _ =>
      exact absurd (List.append_eq_nil_iff.mp hf).2 (hothers.faults_of_spoiled rfl)

/-! ## What is read -/

-- Nothing is given up.
theorem Plain.kept (h : Plain w portion seg) : ∀ s ∈ portion.parts, s.isSkipped = false := by
  induction h with
  | simple hs _ _ _ =>
      rw [Portion.parts, (of_isSimple hs).1]
      exact List.forall_mem_singleton.mpr (of_isSimple hs).2.2.1
  | loop hs _ _ _ _ ih =>
      rw [Portion.parts, (of_loopBody? hs).1]
      exact List.forall_mem_cons.mpr ⟨(of_loopBody? hs).2.2.1, ih⟩
  | cond _ _ _ _ _ ih ih' =>
      rw [Portion.parts, parts_cond]
      exact List.forall_mem_cons.mpr ⟨rfl, List.forall_mem_append.mpr ⟨ih, ih'⟩⟩
  | nil => exact List.forall_mem_nil _
  | cons _ _ ih ih' => exact List.forall_mem_append.mpr ⟨ih, ih'⟩
  | block _ _ ih => exact ih
  | done => exact List.forall_mem_nil _
  | elifBranch _ _ _ _ ih ih' =>
      rw [parts_elif]
      exact List.forall_mem_append.mpr ⟨ih, ih'⟩
  | elseBranch _ _ _ ih =>
      rw [parts_else]
      exact ih

-- No block is empty.
theorem Plain.filled (h : Plain w portion seg) :
    (∀ s ∈ portion.parts, ∀ b ∈ s.blocks, b ≠ []) ∧ ∀ b ∈ portion.inner, b ≠ [] := by
  induction h with
  | simple hs _ _ _ =>
      rw [Portion.parts, (of_isSimple hs).1]
      refine ⟨List.forall_mem_singleton.mpr ?_, List.forall_mem_nil _⟩
      rw [(of_isSimple hs).2.2.2.1]
      exact List.forall_mem_nil _
  | loop hs _ _ _ _ ih =>
      rw [Portion.parts, (of_loopBody? hs).1]
      refine ⟨List.forall_mem_cons.mpr ⟨?_, ih.1⟩, List.forall_mem_nil _⟩
      rw [(of_loopBody? hs).2.2.2.1]
      exact ih.2
  | cond _ _ _ _ _ ih ih' =>
      rw [Portion.parts, parts_cond]
      refine ⟨List.forall_mem_cons.mpr ⟨?_, List.forall_mem_append.mpr ⟨ih.1, ih'.1⟩⟩,
        List.forall_mem_nil _⟩
      exact List.forall_mem_cons.mpr ⟨ih.2 _ (List.mem_singleton_self _), ih'.2⟩
  | nil => exact ⟨List.forall_mem_nil _, List.forall_mem_nil _⟩
  | cons _ _ ih ih' =>
      exact ⟨List.forall_mem_append.mpr ⟨ih.1, ih'.1⟩, List.forall_mem_nil _⟩
  | block _ _ ih => exact ⟨ih.1, List.forall_mem_singleton.mpr (List.cons_ne_nil _ _)⟩
  | done => exact ⟨List.forall_mem_nil _, List.forall_mem_nil _⟩
  | elifBranch _ _ _ _ ih ih' =>
      rw [parts_elif]
      exact ⟨List.forall_mem_append.mpr ⟨ih.1, ih'.1⟩,
        List.forall_mem_cons.mpr ⟨ih.2 _ (List.mem_singleton_self _), ih'.2⟩⟩
  | elseBranch _ _ _ ih =>
      rw [parts_else]
      exact ih

-- A line that begins no further branch is none of the headers that are counted.
theorem countP_begins {k : Keyword} (hk : k = .elifWord ∨ k = .elseWord) (h : ¬ BeginsBranch p) :
    List.countP (Begins k ·) [p] = 0 := by
  rw [List.countP_eq_zero, List.forall_mem_singleton, decide_eq_true_eq]
  intro hbegins
  rcases hk with rfl | rfl
  · exact h (Or.inl hbegins)
  · exact h (Or.inr hbegins)

-- Each further header is there once.
theorem Plain.countP_headers {k : Keyword} (hk : k = .elifWord ∨ k = .elseWord)
    (h : Plain w portion seg) :
    seg.countP (Begins k ·) = portion.headers k + (portion.parts.map (Stmt.headers k)).sum := by
  induction h with
  | simple hs _ _ hword =>
      rw [countP_begins hk hword, Portion.parts, (of_isSimple hs).1, List.map_singleton,
        (of_isSimple hs).2.2.2.2]
      rfl
  | loop hs _ _ hword _ ih =>
      rw [← List.singleton_append, List.countP_append, countP_begins hk hword, ih, Portion.parts,
        Portion.parts, (of_loopBody? hs).1, List.map_cons, (of_loopBody? hs).2.2.2.2]
      simp [Portion.headers]
  | cond _ _ hword _ _ ih ih' =>
      rw [← List.singleton_append, List.countP_append, countP_begins hk hword, List.countP_append,
        ih, ih', Portion.parts, Portion.parts, parts_cond]
      simp [Portion.headers, Stmt.headers]
      omega
  | nil => rfl
  | cons _ _ ih ih' =>
      rw [List.countP_append, ih, ih', Portion.parts, Portion.parts, Portion.parts,
        Stmt.partsOfBlock]
      simp [Portion.headers]
  | block _ _ ih => exact ih
  | done => rcases hk with rfl | rfl <;> rfl
  | elifBranch _ hword _ _ ih ih' =>
      rw [List.countP_cons, List.countP_append, ih, ih', parts_elif]
      rcases hk with rfl | rfl
      · simp [hword, Portion.headers, headersOf, Portion.parts]
        omega
      · have hother : ¬ Begins .elseWord _ := fun h => absurd (hword.eq h) (by decide)
        simp [hother, Portion.headers, headersOf, Portion.parts]
        omega
  | elseBranch _ hword _ ih =>
      rw [List.countP_cons, ih, parts_else]
      rcases hk with rfl | rfl
      · have hother : ¬ Begins .elifWord _ := fun h => absurd (hword.eq h) (by decide)
        simp [hother, Portion.headers, headersOf, Portion.parts]
      · simp [hword, Portion.headers, headersOf, Portion.parts]
        omega

/-- The blocks that are open in front of a portion: in front of a block exactly those around it, in
    front of a statement or a further branch perhaps some that its line closes. -/
def Portion.Enters (blocks st : List Nat) : Portion → Prop
  | .under _ _ => st = blocks
  | _ => openAt (blocks.headD 0) st = blocks

/-- A statement is as deep in the tree as there are blocks open at its line, and behind a portion
    nothing is open that a line at its width does not close. -/
theorem Plain.levelled (h : Plain w portion seg) {blocks st : List Nat}
    (hst : portion.Enters blocks st) (hw : blocks.headD 0 = w) :
    outline st seg = (portion.nested blocks.length).map placeOf ∧
      openAt w (blocksAfter st seg) = blocks := by
  induction h generalizing blocks st with
  | simple hs hline hwidth hword =>
      have hopen := openAt_width hwidth hw hst
      rw [outline_cons hword hopen, blocksAfter_cons hopen, Portion.nested,
        (of_isSimple hs).2.1, List.map_singleton, placeOf, hline]
      exact ⟨rfl, hw ▸ openAt_headD blocks⟩
  | loop hs hline hwidth hword _ ih =>
      rcases @ih blocks blocks rfl hw with ⟨hlines, hleft⟩
      have hopen := openAt_width hwidth hw hst
      rw [outline_cons hword hopen, blocksAfter_cons hopen, hlines,
        Portion.nested, Portion.nested, (of_loopBody? hs).2.1, List.map_cons, placeOf, hline]
      exact ⟨rfl, hleft⟩
  -- The blocks that the first branch leaves open are those that the other branches begin with.
  | cond hline hwidth hword _ _ ih ih' =>
      rcases @ih blocks blocks rfl hw with ⟨hlines, hleft⟩
      rcases ih' (hw ▸ hleft) hw with ⟨hlines', hleft'⟩
      have hopen := openAt_width hwidth hw hst
      rw [outline_cons hword hopen, blocksAfter_cons hopen, outline_append,
        blocksAfter_append, hlines, hlines', Portion.nested, Portion.nested, nested_cond,
        List.map_cons, List.map_append, placeOf, ← hline]
      exact ⟨rfl, hleft'⟩
  | nil => exact ⟨rfl, hw ▸ hst⟩
  | cons _ _ ih ih' =>
      rcases ih hst hw with ⟨hlines, hleft⟩
      rcases ih' (hw ▸ hleft) hw with ⟨hlines', hleft'⟩
      rw [outline_append, hlines, hlines', blocksAfter_append]
      exact ⟨(List.map_append ..).symm, hleft'⟩
  -- A block stands one level further in, and its width is on top of the stack until it ends.
  | block hdeep _ ih =>
      rw [← hw] at hdeep ⊢
      have hopen := openAt_of_lt hdeep
      rcases @ih (_ :: blocks) blocks hopen rfl with ⟨hlines, hleft⟩
      rw [hst]
      exact ⟨hlines, openAt_outer hdeep hleft⟩
  | done => exact ⟨rfl, hw ▸ hst⟩
  | elifBranch hwidth hword _ _ ih ih' =>
      rcases @ih blocks blocks rfl hw with ⟨hlines, hleft⟩
      rcases ih' (hw ▸ hleft) hw with ⟨hlines', hleft'⟩
      have hopen := openAt_width hwidth hw hst
      rw [outline_cons_of_branch (Or.inl hword) hopen, blocksAfter_cons hopen,
        outline_append, blocksAfter_append, hlines, hlines', nested_elif, List.map_append]
      exact ⟨rfl, hleft'⟩
  | elseBranch hwidth hword _ ih =>
      rcases @ih blocks blocks rfl hw with ⟨hlines, hleft⟩
      have hopen := openAt_width hwidth hw hst
      rw [outline_cons_of_branch (Or.inr hword) hopen, blocksAfter_cons hopen,
        hlines, nested_else]
      exact ⟨rfl, hleft⟩

/-! ## Whole scripts -/

mutual

-- Depths apart, the nested parts are the parts.
theorem map_fst_nested (depth : Nat) (s : Stmt) : (s.nested depth).map Prod.fst = s.parts := by
  cases s with
  | cond branches otherwise span =>
      cases otherwise with
      | none =>
          simp only [Stmt.nested, Stmt.parts, List.map_cons, List.map_append,
            map_fst_nestedInBranches, List.map_nil]
      | some body =>
          simp only [Stmt.nested, Stmt.parts, List.map_cons, List.map_append,
            map_fst_nestedInBranches, map_fst_nestedInBlock]
  | whileLoop condition body span =>
      simp only [Stmt.nested, Stmt.parts, List.map_cons, map_fst_nestedInBlock]
  | forLoop name items body span =>
      simp only [Stmt.nested, Stmt.parts, List.map_cons, map_fst_nestedInBlock]
  | _ => rfl

theorem map_fst_nestedInBranches (depth : Nat) (branches : List (Expr × List Stmt)) :
    (Stmt.nestedInBranches depth branches).map Prod.fst = Stmt.partsOfBranches branches := by
  cases branches with
  | nil => rfl
  | cons branch rest =>
      simp only [Stmt.nestedInBranches, Stmt.partsOfBranches, List.map_append,
        map_fst_nestedInBlock, map_fst_nestedInBranches]

theorem map_fst_nestedInBlock (depth : Nat) (body : List Stmt) :
    (Stmt.nestedInBlock depth body).map Prod.fst = Stmt.partsOfBlock body := by
  cases body with
  | nil => rfl
  | cons s rest =>
      simp only [Stmt.nestedInBlock, Stmt.partsOfBlock, List.map_append, map_fst_nested,
        map_fst_nestedInBlock]

end

/-- A script that is read without a fault is read whole: nothing of it is given up or dropped,
    nothing is there twice, and the tree has the shape of the indentation. -/
theorem faultless_complete (source : String) (parsed : Parsed) (h : compile source = .ok parsed)
    (hfaults : parsed.faults = []) :
    Complete (codeLines 1 (Text.lines source.toList)) parsed.body := by
  have hplain := (compile_forms h).plain hfaults
  have henters : (Portion.stmts parsed.body).Enters [] [] := rfl
  have hdeep := (hplain.levelled henters rfl).1
  have hlisted : (Stmt.partsOfBlock parsed.body).map (·.span.line) =
      ((codeLines 1 (Text.lines source.toList)).filter fun p => ¬ BeginsBranch p).map
        Prod.fst := by
    rw [← map_fst_outline [], hdeep, ← map_fst_nestedInBlock 0, List.map_map, List.map_map]
    rfl
  refine ⟨hplain.kept, hplain.filled.1, hlisted, ?_, ?_, ?_, hdeep.symm⟩
  · rw [hlisted, List.pairwise_map]
    exact (pairwise_codeLines 1 _).filter _
  · rw [hplain.countP_headers (Or.inl rfl)]
    exact Nat.zero_add _
  · rw [hplain.countP_headers (Or.inr rfl)]
    exact Nat.zero_add _

theorem faultless_complete_conditional :
    ∃ parsed, compile "while a:\n  if b:\n    x()\n  else:\n    pass\ny()\n" = .ok parsed ∧
      parsed.faults = [] ∧
      Complete (codeLines 1
        (Text.lines "while a:\n  if b:\n    x()\n  else:\n    pass\ny()\n".toList)) parsed.body ∧
      (Stmt.nestedInBlock 0 parsed.body).map placeOf =
        [(1, 0), (2, 1), (3, 2), (5, 2), (6, 0)] := by
  have hread : (compile "while a:\n  if b:\n    x()\n  else:\n    pass\ny()\n").map
      (fun p => (p.faults.map Fault.line, (Stmt.nestedInBlock 0 p.body).map placeOf)) =
      .ok ([], [(1, 0), (2, 1), (3, 2), (5, 2), (6, 0)]) := by
    cbv
  cases hcompile : compile "while a:\n  if b:\n    x()\n  else:\n    pass\ny()\n" with
  | error e =>
      rw [hcompile] at hread
      cases hread
  | ok parsed =>
      rw [hcompile] at hread
      rcases Prod.mk.inj (Except.ok.inj hread) with ⟨hlines, hplaces⟩
      have hfaults := List.map_eq_nil_iff.mp hlines
      exact ⟨parsed, rfl, hfaults, faultless_complete _ parsed hcompile hfaults, hplaces⟩

end Script

end Farmhand
