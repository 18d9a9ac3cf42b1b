import Mathlib
import Farmhand.Proofs.Script.Grammar

/-!
# One Bad Line

Every code line of a script is kept or accounted for. What a part of a program makes of its lines is
said of those lines alone, by the rules of the grammar, and the lines of a script are put together
from the lines of its statements.

A bad line costs itself and the lines nested under it. There is one exception: a refused `elif` or
`else` spoils the conditional in front of it, and then the `if` line, the headers and the blocks
above the refused header are lost as well, although nothing is wrong with them.

## Main definitions

* `Portion.Accounted`: What becomes of the lines of a part of a program.
* `BadLinesContained`: A bad line costs no more than itself and the lines nested under it.

## Theorems

* `Forms.accounted`: Each line of a part of a program is kept or accounted for.
* `lines_accounted`: Every code line is kept or accounted for.
* `not_badLinesContained`: A refused `elif` costs lines with which nothing is wrong.
-/

namespace Farmhand

namespace Script

variable {code : List (Nat × List Char)} {p : Nat × List Char}

/-! ## Parts of a program -/

/-- What becomes of the lines of a part of a program that stands at a width. The further branches of
    a conditional are a chain; if one of their headers is refused, the lines in front of it are
    blocks and headers of the conditional. -/
def Portion.Accounted (w : Nat) (seg : List (Nat × List Char)) (faults : List Fault) :
    Portion → Prop
  | .stmt s => Accounts seg [s] faults
  | .stmts body => Accounts seg body faults
  | .under _ body => Accounts seg body faults
  | .branches others otherwise => Chain w seg others otherwise faults
  | .spoiled =>
    ∃ between header nested, seg = between ++ header :: nested ∧
      (∀ q ∈ between, w < width q ∨ width q = w ∧ Begins .elifWord q) ∧ width header = w ∧
      BeginsBranch header ∧ Refused faults header ∧ ∀ q ∈ nested, w < width q

theorem accounts_simple {s : Stmt} {faults : List Fault} (hs : s.isSimple = true)
    (hline : s.span.line = p.1) : Accounts [p] [s] faults := by
  have hkept : s.isSkipped = false := by
    cases s with
    | skipped text span => cases hs
    | _ => rfl
  intro q hq
  rw [List.mem_singleton.mp hq, Held, partsOfBlock_singleton]
  exact Or.inl ⟨s, s.mem_parts, Or.inl ⟨hkept, hline⟩⟩

theorem accounts_loop {s : Stmt} {body : Block} {seg : List (Nat × List Char)}
    {faults : List Fault} (hs : s.loopBody? = some body) (hline : s.span.line = p.1)
    (h : Accounts seg body faults) : Accounts (p :: seg) [s] faults := by
  cases s with
  | whileLoop condition inner span =>
      cases hs
      exact accounts_header rfl hline rfl h
  | forLoop name items inner span =>
      cases hs
      exact accounts_header rfl hline rfl h
  | _ => cases hs

/-- Each line of a part of a program is kept or accounted for. -/
theorem Forms.accounted {below seg : List (Nat × List Char)} {w : Nat} {portion : Portion}
    {faults : List Fault} (h : Forms below w portion seg faults) :
    portion.Accounted w seg faults := by
  induction h with
  | simple hs hline _ _ => exact accounts_simple hs hline
  | refused _ hwidth hfault hnested =>
      exact accounts_refused hfault fun q hq => hwidth ▸ hnested q hq
  | stray _ _ hnested => exact accounts_stray ⟨_, List.mem_singleton_self _, rfl, rfl⟩ hnested
  | loop hs hline _ _ _ ih => exact accounts_loop hs hline ih
  | cond hline hwidth _ hbody _ ih ih' =>
      exact ih'.accounts _ hwidth hline (hbody.le_width.2 _ _ rfl) ih
  | spoiled _ hwidth hword hbody _ _ ih' =>
      rcases ih' with ⟨between, header, nested, rfl, hbetween, hheader, hbranch, hrefused, hnested⟩
      rw [← List.append_assoc]
      refine accounts_spoiled hword (List.forall_mem_append.mpr ⟨?_, ?_⟩)
        (hheader.trans hwidth.symm) hbranch (hrefused.mono (List.subset_append_right _ _)) ?_
      · exact fun q hq => Or.inl (hwidth ▸ hbody.le_width.2 _ _ rfl q hq)
      · exact fun q hq => hwidth ▸ hbetween q hq
      · exact fun q hq => hheader ▸ hnested q hq
  | nil => exact accounts_nil
  | cons _ _ ih ih' => exact Accounts.append ih ih'
  | missing _ => exact accounts_nil
  | block _ _ ih => exact ih
  | done => exact .done
  | elifBranch hwidth hword hbody _ ih ih' =>
      exact .elifBranch hwidth hword (hbody.le_width.2 _ _ rfl) ih ih'
  | elseBranch hwidth hword hbody ih =>
      exact .elseBlock hwidth hword (hbody.le_width.2 _ _ rfl) ih
  | refusedBranch hwidth hword hfault hnested =>
      exact ⟨[], _, _, rfl, nofun, hwidth, hword, hfault, hnested⟩
  | @spoiledBranch below w p condition seg segs _ _ hwidth hword hbody _ _ ih' =>
      -- The header and its block stand in front of the refused header.
      rcases ih' with ⟨between, header, nested, rfl, hbetween, hheader, hbranch, hrefused, hnested⟩
      refine ⟨p :: (seg ++ between), header, nested, by simp, ?_, hheader, hbranch,
        hrefused.mono (List.subset_append_right _ _), hnested⟩
      refine List.forall_mem_cons.mpr
        ⟨Or.inr ⟨hwidth, hword⟩, List.forall_mem_append.mpr ⟨?_, hbetween⟩⟩
      exact fun q hq => Or.inl (hbody.le_width.2 _ _ rfl q hq)

/-! ## Whole scripts -/

/-- Every code line of a script is kept in the program, or it is refused, nested under a refused
    line, in a block that no header opened, or in a conditional in front of a refused header. -/
theorem lines_accounted (source : String) (parsed : Parsed) (h : compile source = .ok parsed) :
    Accounts (codeLines 1 (Text.lines source.toList)) parsed.body parsed.faults :=
  (compile_forms h).accounted

-- A conditional whose second header is refused: nothing is left but lines that are no statements.
theorem compile_refusedElif :
    ∃ parsed, compile "if a:\n    x()\nelif ):\n    y()\n" = .ok parsed ∧
      parsed.body.all Stmt.isSkipped = true ∧ parsed.faults.map Fault.line = [3] := by
  have hread : (compile "if a:\n    x()\nelif ):\n    y()\n").map
      (fun p => (p.body.all Stmt.isSkipped, p.faults.map Fault.line)) = .ok (true, [3]) := by
    cbv
  cases hcompile : compile "if a:\n    x()\nelif ):\n    y()\n" with
  | error e =>
      rw [hcompile] at hread
      cases hread
  | ok parsed =>
      rw [hcompile] at hread
      exact ⟨parsed, rfl, Prod.mk.inj (Except.ok.inj hread)⟩

theorem lines_accounted_refusedElif :
    ∃ parsed, compile "if a:\n    x()\nelif ):\n    y()\n" = .ok parsed ∧
      parsed.faults.map Fault.line = [3] ∧
      Accounts (codeLines 1 (Text.lines "if a:\n    x()\nelif ):\n    y()\n".toList))
        parsed.body parsed.faults := by
  rcases compile_refusedElif with ⟨parsed, hcompile, _, hlines⟩
  exact ⟨parsed, hcompile, hlines, lines_accounted _ parsed hcompile⟩

/-- A line at which any fault is noted. -/
def Noted (faults : List Fault) (p : Nat × List Char) : Prop :=
  ∃ f ∈ faults, f.line = p.1

/-- In a script with faults each code line is kept, or a fault is noted at it, or it is nested under
    such a line, or it is in a block that no header opened. -/
def BadLinesContained (source : String) : Prop :=
  ∀ parsed, compile source = .ok parsed → parsed.faults ≠ [] →
    ∀ p ∈ codeLines 1 (Text.lines source.toList),
      Held (codeLines 1 (Text.lines source.toList)) parsed.body p ∨ Noted parsed.faults p ∨
        Under (codeLines 1 (Text.lines source.toList)) (Noted parsed.faults) p ∨
        Stray (codeLines 1 (Text.lines source.toList)) parsed.faults p

-- Nothing is kept in a program without a statement.
theorem not_held_of_skipped {body : Block} (h : body.all Stmt.isSkipped = true) :
    ¬ Held code body p := by
  have hparts : ∀ s ∈ Stmt.partsOfBlock body, s.isSkipped = true := by
    induction body with
    | nil => exact nofun
    | cons stmt more ih =>
        rw [List.all_cons, Bool.and_eq_true] at h
        cases stmt with
        | skipped text span => exact List.forall_mem_cons.mpr ⟨rfl, ih h.2⟩
        | _ => cases h.1
  rintro ⟨s, hs, ⟨hkept, _⟩ | ⟨_, _, _, _, _, rfl, _⟩⟩
  · rw [hparts s hs] at hkept
    cases hkept
  · cases hparts _ hs

-- Lines further down have greater numbers.
theorem lt_of_codeLines {number : Nat} {lines : List (List Char)}
    {before between after : List (Nat × List Char)} {first : Nat × List Char}
    (h : codeLines number lines = before ++ first :: (between ++ p :: after)) : first.1 < p.1 := by
  have hsorted := pairwise_codeLines number lines
  rw [h] at hsorted
  have hbelow := (List.pairwise_append.mp hsorted).2.1
  exact List.rel_of_pairwise_cons hbelow (List.mem_append_right _ List.mem_cons_self)

/-- A refused `elif` costs the `if` line above it and the block of that line. -/
theorem not_badLinesContained : ¬ BadLinesContained "if a:\n    x()\nelif ):\n    y()\n" := by
  intro h
  rcases compile_refusedElif with ⟨parsed, hcompile, hskipped, hlines⟩
  have hfaults : parsed.faults ≠ [] := by
    intro hnil
    rw [hnil] at hlines
    exact absurd hlines (by decide)
  -- The only fault is noted at the third line, and the second stands above it.
  have hthird : ∀ q : Nat × List Char, Noted parsed.faults q → q.1 = 3 := by
    rintro q ⟨f, hf, hq⟩
    have hline := List.mem_map_of_mem (f := Fault.line) hf
    rw [hlines, List.mem_singleton] at hline
    rw [← hq, hline]
  have hsecond : (2, "    x()".toList)
      ∈ codeLines 1 (Text.lines "if a:\n    x()\nelif ):\n    y()\n".toList) := by
    decide
  rcases h parsed hcompile hfaults _ hsecond with hheld | hnoted |
    ⟨before, first, between, after, hcode, hfirst, _⟩ |
    ⟨before, first, between, after, hcode, ⟨f, hf, hfirst, _⟩, _⟩
  · exact not_held_of_skipped hskipped hheld
  · exact absurd (hthird _ hnoted) (by decide)
  · have habove := lt_of_codeLines hcode
    rw [hthird first hfirst] at habove
    exact absurd habove (by decide)
  · have habove := lt_of_codeLines hcode
    rw [hthird first ⟨f, hf, hfirst⟩] at habove
    exact absurd habove (by decide)

end Script

end Farmhand
