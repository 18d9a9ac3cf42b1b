import Farmhand.Proofs.Script.Lexemes
import Farmhand.Script.Statement

/-!
# Kept Lines

What becomes of the code lines of a script. A line is kept if a statement of the program stands on
it, or if it is a further header of a conditional of the program. A line that is not kept has to be
accounted for: it is refused itself, or stands below a refused line, or in a block that no header
opened, or in a conditional one of whose further headers is refused. All of this is said of a
stretch of code lines, and what holds of a stretch holds of every longer one.

## Main definitions

* `Stmt.parts`: A statement with all statements inside it.
* `Held`: A line that is kept.
* `Refused`, `Under`, `Stray`, `Spoiled`: The lines that are not.
* `Accounts`: Each line of a stretch is kept or accounted for.
* `Chain`: The further branches of a conditional, line by line.

## Theorems

* `Accounts.append`: Stretches one after the other.
* `accounts_refused`, `accounts_stray`, `accounts_spoiled`: Stretches that are lost.
* `Chain.accounts`: A conditional with its branches.
-/

namespace Farmhand

namespace Script

/-! ## Definitions -/

/-- The width at which a numbered line stands. -/
def width (p : Nat × List Char) : Nat :=
  indentWidth 0 p.2

/-- A numbered line whose first word is a given keyword. -/
def Begins (k : Keyword) (p : Nat × List Char) : Prop :=
  (lexemes (p.2.drop (indentLength p.2))).head? = some (.mark (.keyword k))

/-- Whether a statement is a line that is no statement of the language. -/
def Stmt.isSkipped : Stmt → Bool
  | .skipped _ _ => true
  | _ => false

mutual

/-- A statement with all statements inside it. -/
def Stmt.parts : Stmt → List Stmt
  | .cond branches otherwise span =>
    .cond branches otherwise span :: (Stmt.partsOfBranches branches ++
      match otherwise with
      | some body => Stmt.partsOfBlock body
      | none => [])
  | .whileLoop condition body span => .whileLoop condition body span :: Stmt.partsOfBlock body
  | .forLoop name items body span => .forLoop name items body span :: Stmt.partsOfBlock body
  | .assign name op value span => [.assign name op value span]
  | .expr value span => [.expr value span]
  | .returnWith value span => [.returnWith value span]
  | .breakLoop span => [.breakLoop span]
  | .continueLoop span => [.continueLoop span]
  | .pass span => [.pass span]
  | .skipped text span => [.skipped text span]

/-- The statements inside the branches of a conditional. -/
def Stmt.partsOfBranches : List (Expr × List Stmt) → List Stmt
  | [] => []
  | (_, body) :: rest => Stmt.partsOfBlock body ++ Stmt.partsOfBranches rest

/-- The statements of a block with all statements inside them. -/
def Stmt.partsOfBlock : List Stmt → List Stmt
  | [] => []
  | stmt :: rest => stmt.parts ++ Stmt.partsOfBlock rest

end

variable {code code' seg : List (Nat × List Char)} {body body' : Block}
  {faults faults' : List Fault} {p : Nat × List Char}

/-- Of the lines behind a line, the `k`-th that stands at its width, if no line in between stands
    further to the left. -/
def Further (code : List (Nat × List Char)) (first p : Nat × List Char) (k : Nat) : Prop :=
  ∃ before between after, code = before ++ first :: (between ++ p :: after) ∧
    width p = width first ∧ (∀ q ∈ between, width first ≤ width q) ∧
    (between.filter fun q => width q = width first).length + 1 = k

/-- A further header of a conditional: it begins with `elif` and there is a branch for it, or it
    begins with `else` and comes behind all branches. -/
def HeaderOf (code : List (Nat × List Char)) (s : Stmt) (p : Nat × List Char) : Prop :=
  ∃ branches otherwise span first k, s = .cond branches otherwise span ∧ first.1 = span.line ∧
    Further code first p k ∧
    (Begins .elifWord p ∧ k < branches.length ∨
      Begins .elseWord p ∧ k = branches.length ∧ otherwise ≠ none)

/-- A line that is kept in a program: a statement stands on it, or it is a further header of a
    conditional. -/
def Held (code : List (Nat × List Char)) (body : Block) (p : Nat × List Char) : Prop :=
  ∃ s ∈ Stmt.partsOfBlock body, s.isSkipped = false ∧ s.span.line = p.1 ∨ HeaderOf code s p

/-- A line at which a fault is noted. That the line above has no block under it is noted at the
    next line, but is no fault of that line. -/
def Refused (faults : List Fault) (p : Nat × List Char) : Prop :=
  ∃ f ∈ faults, f.line = p.1 ∧ f.error ≠ .expectedBlock

/-- A line nested under a bad line. -/
def Under (code : List (Nat × List Char)) (bad : Nat × List Char → Prop) (p : Nat × List Char) :
    Prop :=
  ∃ before first between after, code = before ++ first :: (between ++ p :: after) ∧
    bad first ∧ ∀ q ∈ between ++ [p], width first < width q

/-- A line of a block that is indented where no block may start. -/
def Stray (code : List (Nat × List Char)) (faults : List Fault) (p : Nat × List Char) : Prop :=
  ∃ before first between after, code = before ++ first :: (between ++ p :: after) ∧
    (∃ f ∈ faults, f.line = first.1 ∧ f.error = .unexpectedIndent) ∧
    ∀ q ∈ between ++ [p], width first ≤ width q

/-- A line of a conditional in front of a refused header of it: the `if` line itself, a line of one
    of its blocks, or a further header. -/
def Spoiled (code : List (Nat × List Char)) (faults : List Fault) (p : Nat × List Char) : Prop :=
  ∃ before first between header after, code = before ++ first :: (between ++ header :: after) ∧
    p ∈ first :: between ∧ Begins .ifWord first ∧
    (∀ q ∈ between, width first < width q ∨ width q = width first ∧ Begins .elifWord q) ∧
    width header = width first ∧ (Begins .elifWord header ∨ Begins .elseWord header) ∧
    Refused faults header

/-- A line that is not kept, for a reason. -/
def Excused (code : List (Nat × List Char)) (faults : List Fault) (p : Nat × List Char) : Prop :=
  Refused faults p ∨ Under code (Refused faults) p ∨ Stray code faults p ∨ Spoiled code faults p

/-- Each line of a stretch is kept or accounted for. -/
def Accounts (code : List (Nat × List Char)) (body : Block) (faults : List Fault) : Prop :=
  ∀ p ∈ code, Held code body p ∨ Excused code faults p

/-! ## Longer stretches -/

theorem Further.mono {first : Nat × List Char} {k : Nat} (h : Further seg first p k)
    (hcode : seg <:+: code) : Further code first p k := by
  rcases h with ⟨before, between, after, hseg, hwidth, hdeep, hk⟩
  rcases hcode with ⟨front, back, rfl⟩
  refine ⟨front ++ before, between, after ++ back, ?_, hwidth, hdeep, hk⟩
  simp only [hseg, List.append_assoc, List.cons_append]

theorem Held.mono (h : Held seg body p) (hcode : seg <:+: code)
    (hbody : Stmt.partsOfBlock body ⊆ Stmt.partsOfBlock body') : Held code body' p := by
  rcases h with ⟨s, hs, hkept | ⟨branches, otherwise, span, first, k, hcond, hfirst, hk, hwords⟩⟩
  · exact ⟨s, hbody hs, Or.inl hkept⟩
  · exact ⟨s, hbody hs, Or.inr ⟨branches, otherwise, span, first, k, hcond, hfirst,
      hk.mono hcode, hwords⟩⟩

theorem Refused.mono (h : Refused faults p) (hfaults : faults ⊆ faults') : Refused faults' p := by
  rcases h with ⟨f, hf, hline⟩
  exact ⟨f, hfaults hf, hline⟩

/-- What excuses a line in a part of the code excuses it in all of it. -/
theorem Excused.mono (h : Excused seg faults p) (hcode : seg <:+: code)
    (hfaults : faults ⊆ faults') : Excused code faults' p := by
  rcases hcode with ⟨front, back, rfl⟩
  rcases h with h | ⟨before, first, between, after, rfl, hfirst, hdeep⟩ |
    ⟨before, first, between, after, rfl, ⟨f, hf, hline⟩, hdeep⟩ |
    ⟨before, first, between, header, after, rfl, hp, hif, hbetween, hwidth, hword, hheader⟩
  · exact Or.inl (h.mono hfaults)
  · refine Or.inr (Or.inl ⟨front ++ before, first, between, after ++ back, ?_,
      hfirst.mono hfaults, hdeep⟩)
    simp only [List.append_assoc, List.cons_append]
  · refine Or.inr (Or.inr (Or.inl ⟨front ++ before, first, between, after ++ back, ?_,
      ⟨f, hfaults hf, hline⟩, hdeep⟩))
    simp only [List.append_assoc, List.cons_append]
  · refine Or.inr (Or.inr (Or.inr ⟨front ++ before, first, between, header, after ++ back, ?_, hp,
      hif, hbetween, hwidth, hword, hheader.mono hfaults⟩))
    simp only [List.append_assoc, List.cons_append]

-- What is said of a line in a stretch holds in every stretch around it and every larger program.
theorem Accounts.mono (h : Accounts seg body faults) (hcode : seg <:+: code)
    (hbody : Stmt.partsOfBlock body ⊆ Stmt.partsOfBlock body') (hfaults : faults ⊆ faults') :
    ∀ p ∈ seg, Held code body' p ∨ Excused code faults' p :=
  fun p hp => (h p hp).imp (fun hheld => hheld.mono hcode hbody)
    (fun hexcused => hexcused.mono hcode hfaults)

theorem partsOfBlock_append (body body' : Block) :
    Stmt.partsOfBlock (body ++ body') = Stmt.partsOfBlock body ++ Stmt.partsOfBlock body' := by
  induction body with
  | nil => rfl
  | cons stmt rest ih =>
      rw [List.cons_append, Stmt.partsOfBlock, Stmt.partsOfBlock, ih, List.append_assoc]

theorem partsOfBlock_singleton (s : Stmt) : Stmt.partsOfBlock [s] = s.parts := by
  rw [Stmt.partsOfBlock, Stmt.partsOfBlock, List.append_nil]

theorem Stmt.mem_parts (s : Stmt) : s ∈ s.parts := by
  cases s with
  | cond branches otherwise span => cases otherwise <;> exact List.mem_cons_self
  | _ => exact List.mem_cons_self

/-- Stretches one after the other. -/
theorem Accounts.append (h : Accounts code body faults) (h' : Accounts code' body' faults') :
    Accounts (code ++ code') (body ++ body') (faults ++ faults') := by
  intro p hp
  rcases List.mem_append.mp hp with hp | hp
  · refine h.mono (List.infix_append' [] code code') ?_ (List.subset_append_left _ _) p hp
    rw [partsOfBlock_append]
    exact List.subset_append_left _ _
  · refine h'.mono ⟨code, [], by rw [List.append_nil]⟩ ?_ (List.subset_append_right _ _) p hp
    rw [partsOfBlock_append]
    exact List.subset_append_right _ _

theorem accounts_nil : Accounts [] body faults :=
  nofun

/-! ## Stretches of one statement -/

/-- A refused line with the lines nested under it. -/
theorem accounts_refused {nested : List (Nat × List Char)} (hp : Refused faults p)
    (hnested : ∀ q ∈ nested, width p < width q) : Accounts (p :: nested) body faults := by
  intro q hq
  refine Or.inr ?_
  rcases List.mem_cons.mp hq with rfl | hq
  · exact Or.inl hp
  · rcases List.append_of_mem hq with ⟨between, after, rfl⟩
    refine Or.inr (Or.inl ⟨[], p, between, after, rfl, hp, ?_⟩)
    intro r hr
    refine hnested r (List.mem_append.mpr ((List.mem_append.mp hr).imp_right fun hr => ?_))
    exact List.mem_singleton.mp hr ▸ List.mem_cons_self

/-- A block that no header opened. -/
theorem accounts_stray {more : List (Nat × List Char)}
    (hp : ∃ f ∈ faults, f.line = p.1 ∧ f.error = .unexpectedIndent)
    (hmore : ∀ q ∈ more, width p ≤ width q) : Accounts (p :: more) body faults := by
  intro q hq
  refine Or.inr ?_
  rcases List.mem_cons.mp hq with rfl | hq
  · rcases hp with ⟨f, hf, hline, herror⟩
    exact Or.inl ⟨f, hf, hline, by rw [herror]; exact nofun⟩
  · rcases List.append_of_mem hq with ⟨between, after, rfl⟩
    refine Or.inr (Or.inr (Or.inl ⟨[], p, between, after, rfl, hp, ?_⟩))
    intro r hr
    refine hmore r (List.mem_append.mpr ((List.mem_append.mp hr).imp_right fun hr => ?_))
    exact List.mem_singleton.mp hr ▸ List.mem_cons_self

/-- A conditional up to a refused header, with the lines nested under that header. -/
theorem accounts_spoiled {between nested : List (Nat × List Char)}
    {header : Nat × List Char} (hif : Begins .ifWord p)
    (hbetween : ∀ q ∈ between, width p < width q ∨ width q = width p ∧ Begins .elifWord q)
    (hwidth : width header = width p) (hword : Begins .elifWord header ∨ Begins .elseWord header)
    (hheader : Refused faults header) (hnested : ∀ q ∈ nested, width header < width q) :
    Accounts (p :: (between ++ header :: nested)) body faults := by
  intro q hq
  rw [← List.cons_append, List.mem_append] at hq
  rcases hq with hq | hq
  · exact Or.inr (Or.inr (Or.inr (Or.inr ⟨[], p, between, header, nested, rfl, hq, hif, hbetween,
      hwidth, hword, hheader⟩)))
  · have hlost : Accounts (header :: nested) body faults := accounts_refused hheader hnested
    refine hlost.mono ⟨p :: between, [], ?_⟩ (List.Subset.refl _) (List.Subset.refl _) q hq
    rw [List.append_nil, List.cons_append]

/-- A statement on the first line, and below it a block that is part of the statement. -/
theorem accounts_header {s : Stmt} (hs : s.isSkipped = false) (hline : s.span.line = p.1)
    (hparts : s.parts = s :: Stmt.partsOfBlock body) (h : Accounts seg body faults) :
    Accounts (p :: seg) [s] faults := by
  have hblock : Stmt.partsOfBlock [s] = s :: Stmt.partsOfBlock body := by
    rw [partsOfBlock_singleton, hparts]
  intro q hq
  rcases List.mem_cons.mp hq with rfl | hq
  · exact Or.inl ⟨s, hblock ▸ List.mem_cons_self, Or.inl ⟨hs, hline⟩⟩
  · refine h.mono ⟨[p], [], by rw [List.append_nil]; rfl⟩ ?_ (List.Subset.refl _) q hq
    rw [hblock]
    exact List.subset_cons_self _ _

/-! ## Conditionals -/

/-- The further branches of a conditional at a width, with the lines they were read from and the
    faults of those lines. -/
inductive Chain (w : Nat) : List (Nat × List Char) → List (Expr × Block) → Option Block →
    List Fault → Prop
  | done : Chain w [] [] none []
  | elifBranch {header seg segs condition body others otherwise faults more}
      (hwidth : width header = w) (hword : Begins .elifWord header)
      (hdeep : ∀ q ∈ seg, w < width q) (hseg : Accounts seg body faults)
      (hrest : Chain w segs others otherwise more) :
      Chain w (header :: (seg ++ segs)) ((condition, body) :: others) otherwise (faults ++ more)
  | elseBlock {header seg body faults} (hwidth : width header = w)
      (hword : Begins .elseWord header) (hdeep : ∀ q ∈ seg, w < width q)
      (hseg : Accounts seg body faults) :
      Chain w (header :: seg) [] (some body) faults

theorem partsOfBranches_subset {branches : List (Expr × Block)} {branch : Expr × Block}
    (h : branch ∈ branches) : Stmt.partsOfBlock branch.2 ⊆ Stmt.partsOfBranches branches := by
  induction branches with
  | nil => exact absurd h List.not_mem_nil
  | cons first rest ih =>
      rcases first with ⟨condition, body⟩
      rw [Stmt.partsOfBranches]
      rcases List.mem_cons.mp h with rfl | h
      · exact List.subset_append_left _ _
      · exact List.Subset.trans (ih h) (List.subset_append_right _ _)

-- A block deeper than the headers does not count among them.
theorem filter_width_eq_nil {w : Nat} (h : ∀ q ∈ seg, w < width q) :
    seg.filter (fun q => width q = w) = [] := by
  rw [List.filter_eq_nil_iff]
  intro q hq
  have := h q hq
  rw [decide_eq_true_eq]
  omega

-- A further header, with the lines between the first and it.
theorem further_header {w : Nat} {first header : Nat × List Char}
    {between after : List (Nat × List Char)} (hfirst : width first = w) (hheader : width header = w)
    (hbetween : ∀ q ∈ between, w ≤ width q) (hcode : code = first :: (between ++ header :: after)) :
    Further code first header ((between.filter fun q => width q = w).length + 1) := by
  refine ⟨[], between, after, hcode, hheader.trans hfirst.symm, ?_, ?_⟩
  · rw [hfirst]
    exact hbetween
  · rw [hfirst]

/-- The further branches of a conditional are kept or accounted for, whatever branches stand in
    front of them. The branches in front are counted by the lines at the width of the first. -/
theorem Chain.held {w : Nat} {others : List (Expr × Block)} {otherwise : Option Block}
    {more : List Fault} (h : Chain w seg others otherwise more) {first : Nat × List Char}
    {between : List (Nat × List Char)} (hfirst : width first = w)
    (hbetween : ∀ q ∈ between, w ≤ width q) {branches : List (Expr × Block)} {span : Span}
    (hline : first.1 = span.line)
    (hcount : (between.filter fun q => width q = w).length + 1 + others.length = branches.length)
    (hothers : ∀ branch ∈ others, Stmt.partsOfBlock branch.2 ⊆ Stmt.partsOfBlock body)
    (hlast : ∀ last, otherwise = some last → Stmt.partsOfBlock last ⊆ Stmt.partsOfBlock body)
    (hself : .cond branches otherwise span ∈ Stmt.partsOfBlock body)
    (hcode : code = first :: (between ++ seg)) (hfaults : more ⊆ faults) :
    ∀ q ∈ seg, Held code body q ∨ Excused code faults q := by
  induction h generalizing between with
  | done => exact nofun
  | @elifBranch header seg segs condition inner others otherwise front back hwidth hword hdeep hseg
      _ ih =>
      have hfurther := further_header hfirst hwidth hbetween hcode
      rw [List.length_cons] at hcount
      intro q hq
      rcases List.mem_cons.mp hq with rfl | hq
      · exact Or.inl ⟨_, hself, Or.inr ⟨branches, otherwise, span, first, _, rfl, hline, hfurther,
          Or.inl ⟨hword, by omega⟩⟩⟩
      · rcases List.mem_append.mp hq with hq | hq
        · refine hseg.mono ⟨first :: (between ++ [header]), segs, ?_⟩
            (hothers _ List.mem_cons_self)
            (List.Subset.trans (List.subset_append_left _ _) hfaults) q hq
          simp only [hcode, List.cons_append, List.append_assoc, List.nil_append]
        · -- The branch just passed stands in front of the ones that follow.
          have hfilter : ((between ++ header :: seg).filter fun q => width q = w).length
              = (between.filter fun q => width q = w).length + 1 := by
            rw [List.filter_append, List.filter_cons, filter_width_eq_nil hdeep]
            simp [hwidth]
          have hpassed : ∀ r ∈ between ++ header :: seg, w ≤ width r :=
            List.forall_mem_append.mpr ⟨hbetween, List.forall_mem_cons.mpr
              ⟨Nat.le_of_eq hwidth.symm, fun r hr => Nat.le_of_lt (hdeep r hr)⟩⟩
          refine ih hpassed ?_
            (fun branch hbranch => hothers branch (List.mem_cons_of_mem _ hbranch)) hlast hself ?_
            (List.Subset.trans (List.subset_append_right _ _) hfaults) q hq
          · rw [hfilter]
            omega
          · rw [hcode]
            simp only [List.append_assoc, List.cons_append]
  | @elseBlock header seg last faults' hwidth hword hdeep hseg =>
      have hfurther := further_header hfirst hwidth hbetween hcode
      rw [List.length_nil, Nat.add_zero] at hcount
      intro q hq
      rcases List.mem_cons.mp hq with rfl | hq
      · exact Or.inl ⟨_, hself, Or.inr ⟨branches, some last, span, first, _, rfl, hline, hfurther,
          Or.inr ⟨hword, hcount, nofun⟩⟩⟩
      · refine hseg.mono ⟨first :: (between ++ [header]), [], ?_⟩ (hlast last rfl) hfaults q hq
        simp only [hcode, List.cons_append, List.append_assoc, List.nil_append, List.append_nil]

/-- A conditional with its further branches. -/
theorem Chain.accounts {w : Nat} {first : Nat × List Char} {others : List (Expr × Block)}
    {otherwise : Option Block} {more : List Fault} {segs : List (Nat × List Char)} {span : Span}
    (h : Chain w segs others otherwise more) (condition : Expr) (hfirst : width first = w)
    (hline : span.line = first.1) (hdeep : ∀ q ∈ seg, w < width q)
    (hseg : Accounts seg body faults) :
    Accounts (first :: (seg ++ segs)) [.cond ((condition, body) :: others) otherwise span]
      (faults ++ more) := by
  have hparts : Stmt.partsOfBlock [.cond ((condition, body) :: others) otherwise span]
      = .cond ((condition, body) :: others) otherwise span ::
        (Stmt.partsOfBranches ((condition, body) :: others) ++
          match otherwise with
          | some last => Stmt.partsOfBlock last
          | none => []) := by
    rw [partsOfBlock_singleton]
    cases otherwise <;> rfl
  have hbranch : ∀ branch ∈ (condition, body) :: others, Stmt.partsOfBlock branch.2
      ⊆ Stmt.partsOfBlock [.cond ((condition, body) :: others) otherwise span] := by
    intro branch hbranch
    rw [hparts]
    exact List.Subset.trans (partsOfBranches_subset hbranch)
      (List.Subset.trans (List.subset_append_left _ _) (List.subset_cons_self _ _))
  have hself : .cond ((condition, body) :: others) otherwise span
      ∈ Stmt.partsOfBlock [.cond ((condition, body) :: others) otherwise span] := by
    rw [hparts]
    exact List.mem_cons_self
  intro q hq
  rcases List.mem_cons.mp hq with rfl | hq
  · exact Or.inl ⟨_, hself, Or.inl ⟨rfl, hline⟩⟩
  · rcases List.mem_append.mp hq with hq | hq
    · refine hseg.mono ⟨[first], segs, ?_⟩ (hbranch _ List.mem_cons_self)
        (List.subset_append_left _ _) q hq
      rw [List.append_assoc]
      rfl
    · refine h.held hfirst (fun r hr => Nat.le_of_lt (hdeep r hr)) hline.symm ?_
        (fun branch hmem => hbranch branch (List.mem_cons_of_mem _ hmem)) ?_ hself rfl
        (List.subset_append_right _ _) q hq
      · rw [filter_width_eq_nil hdeep, List.length_cons, List.length_nil]
        omega
      · rintro last rfl
        rw [hparts]
        exact List.Subset.trans (List.subset_append_right _ _) (List.subset_cons_self _ _)

end Script

end Farmhand
