import Mathlib
import Farmhand.Interpreter.Evaluate
import Farmhand.Proofs.Script.Faultless

/-!
# What Is Said to Be Skipped

Every fault is noted at a line, and whoever reads of it is told that the line is skipped. That is
true of all faults but one. A line that cannot be read, and an indented line where no block may
start, are kept as lines that are no statements, and such a line does nothing but tell that it is
there. The exception is the fault that a header has no block under it: it is noted at the line below
the header, which is as good as any other line. It is read and it is run.

A fault is noted at a line of the stretch it belongs to, and what is read from a stretch stands on
the lines of the stretch. Different stretches have different lines, so a fault of one says nothing
about the statements of another.

## Main definitions

* `Silent`: A statement that does nothing but tell that it is there.
* `SkippedAt`: Nothing but silent lines that are no statements starts on a line.
* `NoBlockAt`: A line below a header that has no block.
* `Located`: Statements and faults are on the lines of their stretch.

## Theorems

* `silent_of_isSkipped`: A line that is no statement is silent.
* `Forms.located`: Where a line was given up, nothing else starts.
* `Forms.missing_noBlock`: A missing block is noted at the line below its header.
* `faults_located`: What is noted at a line of a script.
* `not_reportedSkipped`: A line is noted and yet run.
-/

namespace Farmhand

namespace Script

/-! ## Definitions -/

/-- A statement that ends at once and changes nothing. The run is told that it begins, unless it has
    been stopped before. -/
def Silent (s : Stmt) : Prop :=
  ∀ call limit i e, ∃ name text, runStmt call limit s i e =
    if e.isRunning i.handle then
      .done (.ok .normal, i) (e.emit (.statement i.actor.id name s.span.line text))
    else .done (.error .stopped, i) e

/-- Whatever starts on a line of a program is no statement, and is silent. -/
def SkippedAt (body : Block) (n : Nat) : Prop :=
  ∀ s ∈ Stmt.partsOfBlock body, s.span.line = n → s.isSkipped = true ∧ Silent s

/-- A line with a word that opens a block. -/
def OpensBlock (p : Nat × List Char) : Prop :=
  Begins .ifWord p ∨ BeginsLoop p ∨ BeginsBranch p

/-- The number of the line below a header that has no block: the next line is no deeper than the
    header, or there is none. -/
def NoBlockAt (code : List (Nat × List Char)) (n : Nat) : Prop :=
  ∃ before header after, code = before ++ header :: after ∧ OpensBlock header ∧
    (∀ q ∈ after.head?, width q ≤ width header) ∧ n = lineBelow header.1 after

variable {below code seg : List (Nat × List Char)} {w : Nat} {portion : Portion}
  {faults : List Fault}

/-- What is said of the lines of a stretch: the statements read from it and the faults noted of its
    own lines stand on them, and where such a fault is noted, nothing else starts. -/
structure Located (seg : List (Nat × List Char)) (parts : List Stmt) (faults : List Fault) :
    Prop where
  standing : ∀ s ∈ parts, s.span.line ∈ seg.map Prod.fst
  noted : ∀ f ∈ faults, f.error ≠ .expectedBlock → f.line ∈ seg.map Prod.fst
  apart : (seg.map Prod.fst).Nodup → ∀ f ∈ faults, f.error ≠ .expectedBlock → ∀ s ∈ parts,
    s.span.line = f.line → s.isSkipped = true

/-- What is said of the headers without a block in a stretch. The block under a header may be the
    one that is missing, so it is looked at together with the header. -/
def Portion.Missing (w : Nat) (below seg : List (Nat × List Char)) (faults : List Fault) :
    Portion → Prop
  | .under n _ => ∀ p, p.1 = n → width p = w → OpensBlock p →
    ∀ f ∈ faults, f.error = .expectedBlock → NoBlockAt (p :: (seg ++ below)) f.line
  | _ => ∀ f ∈ faults, f.error = .expectedBlock → NoBlockAt (seg ++ below) f.line

variable {below code seg segs : List (Nat × List Char)} {w : Nat} {portion : Portion}
  {faults more : List Fault} {p : Nat × List Char} {parts parts' : List Stmt} {s : Stmt}

/-! ## Silent lines -/

theorem silent_of_isSkipped (h : s.isSkipped = true) : Silent s := by
  cases s with
  | skipped text span =>
      intro call limit i e
      by_cases hrunning : e.isRunning i.handle = true
      · simp only [runStmt, bind, Step.bind, Step.checkRunning, Step.announce, hrunning, if_true,
          Process.andThen]
        exact ⟨_, _, rfl⟩
      · simp only [runStmt, bind, Step.bind, Step.checkRunning, Process.andThen, hrunning]
        exact ⟨"", "", rfl⟩
  | _ => cases h

/-! ## Lines of a stretch -/

theorem located_nil : Located [] [] [] :=
  ⟨List.forall_mem_nil _, List.forall_mem_nil _, fun _ => List.forall_mem_nil _⟩

-- Two stretches have no line in common.
theorem Located.append (h : Located seg parts faults) (h' : Located segs parts' more) :
    Located (seg ++ segs) (parts ++ parts') (faults ++ more) := by
  refine ⟨?_, ?_, ?_⟩
  · rw [List.map_append]
    exact List.forall_mem_append.mpr
      ⟨fun s hs => List.mem_append_left _ (h.standing s hs),
        fun s hs => List.mem_append_right _ (h'.standing s hs)⟩
  · rw [List.map_append]
    exact List.forall_mem_append.mpr
      ⟨fun f hf herror => List.mem_append_left _ (h.noted f hf herror),
        fun f hf herror => List.mem_append_right _ (h'.noted f hf herror)⟩
  · intro hnodup f hf herror s hs hline
    rw [List.map_append, List.nodup_append] at hnodup
    rcases hnodup with ⟨hnodup, hnodup', hdisjoint⟩
    rcases List.mem_append.mp hf with hf | hf <;> rcases List.mem_append.mp hs with hs | hs
    · exact h.apart hnodup f hf herror s hs hline
    · exact absurd hline.symm (hdisjoint _ (h.noted f hf herror) _ (h'.standing s hs))
    · exact absurd hline (hdisjoint _ (h.standing s hs) _ (h'.noted f hf herror))
    · exact h'.apart hnodup' f hf herror s hs hline

-- A statement on a line in front of a stretch.
theorem Located.header (h : Located seg parts faults) (hline : s.span.line = p.1) :
    Located (p :: seg) (s :: parts) faults := by
  have hfirst : Located [p] [s] [] :=
    ⟨List.forall_mem_singleton.mpr (List.mem_singleton.mpr hline), List.forall_mem_nil _,
      fun _ => List.forall_mem_nil _⟩
  exact hfirst.append h

-- A line in front of a stretch on which no statement starts.
theorem Located.cons (h : Located seg parts faults) (p : Nat × List Char) :
    Located (p :: seg) parts faults := by
  have hfirst : Located [p] [] [] :=
    ⟨List.forall_mem_nil _, List.forall_mem_nil _, fun _ => List.forall_mem_nil _⟩
  exact hfirst.append h

-- A stretch of which nothing is kept.
theorem Located.forget (h : Located seg parts faults) : Located seg [] faults :=
  ⟨List.forall_mem_nil _, h.noted, fun _ _ _ _ => List.forall_mem_nil _⟩

-- A line that was given up, with the lines that are lost with it.
theorem located_refused {fault : Fault} {text : String} {span : Span}
    (nested : List (Nat × List Char)) (hline : span.line = p.1) (hfault : fault.line = p.1) :
    Located (p :: nested) [.skipped text span] [fault] := by
  refine ⟨?_, ?_, ?_⟩
  · rw [List.forall_mem_singleton, List.map_cons]
    exact List.mem_cons.mpr (Or.inl hline)
  · rw [List.forall_mem_singleton, List.map_cons]
    exact fun _ => List.mem_cons.mpr (Or.inl hfault)
  · exact fun _ _ _ _ => List.forall_mem_singleton.mpr fun _ => rfl

theorem line_of_refused {fault : Fault} (h : Refused [fault] p) :
    fault.line = p.1 ∧ fault.error ≠ .expectedBlock := by
  rcases h with ⟨f, hf, hline, herror⟩
  rw [List.mem_singleton.mp hf] at hline herror
  exact ⟨hline, herror⟩

/-- Statements and faults are on the lines of their stretch, and where a line was given up, nothing
    else starts. -/
theorem Forms.located (h : Forms below w portion seg faults) :
    Located seg portion.parts faults := by
  induction h with
  | simple hs hline _ _ =>
      rw [Portion.parts, (of_isSimple hs).1]
      exact located_nil.header hline
  | refused hline _ hfault _ => exact located_refused _ hline (line_of_refused hfault).1
  | stray hline _ _ => exact located_refused _ hline rfl
  | loop hs hline _ _ _ ih =>
      rw [Portion.parts, (of_loopBody? hs).1]
      exact ih.header hline
  | cond hline _ _ _ _ ih ih' =>
      rw [Portion.parts, parts_cond]
      exact (ih.append ih').header hline
  | spoiled hline _ _ _ _ ih ih' => exact (ih.forget.append ih').header hline
  | nil => exact located_nil
  | cons _ _ ih ih' => exact ih.append ih'
  | missing _ =>
      refine ⟨List.forall_mem_nil _, ?_, fun _ _ _ _ => List.forall_mem_nil _⟩
      exact List.forall_mem_singleton.mpr fun herror => absurd rfl herror
  | block _ _ ih => exact ih
  | done => exact located_nil
  | elifBranch _ _ _ _ ih ih' =>
      rw [parts_elif]
      exact (ih.append ih').cons _
  | elseBranch _ _ _ ih =>
      rw [parts_else]
      exact ih.cons _
  | @refusedBranch _ _ p nested fault _ _ hfault _ =>
      have hlost : Located (p :: nested) [.skipped "" ⟨⟨p.1, 0⟩, ⟨p.1, 0⟩⟩] [fault] :=
        located_refused nested rfl (line_of_refused hfault).1
      exact hlost.forget
  | spoiledBranch _ _ _ _ ih ih' => exact (ih.forget.append ih').cons _

/-! ## Headers without a block -/

theorem NoBlockAt.append_left {n : Nat} (h : NoBlockAt code n) (front : List (Nat × List Char)) :
    NoBlockAt (front ++ code) n := by
  rcases h with ⟨before, header, after, rfl, hopens, hlow, hline⟩
  exact ⟨front ++ before, header, after, by rw [List.append_assoc], hopens, hlow, hline⟩

-- A header with its block, in front of further lines.
theorem missing_header {body : Block} (hwidth : width p = w) (hopens : OpensBlock p)
    (h : (Portion.under p.1 body).Missing w (segs ++ below) seg faults)
    (h' : ∀ f ∈ more, f.error = .expectedBlock → NoBlockAt (segs ++ below) f.line) :
    ∀ f ∈ faults ++ more, f.error = .expectedBlock →
      NoBlockAt (p :: (seg ++ segs) ++ below) f.line := by
  rw [List.cons_append, List.append_assoc]
  refine List.forall_mem_append.mpr ⟨h p rfl hwidth hopens, fun f hf herror => ?_⟩
  exact (h' f hf herror).append_left (p :: seg)

/-- The fault that a header has no block is noted at the line below the header. -/
theorem Forms.missing_noBlock (h : Forms below w portion seg faults) :
    portion.Missing w below seg faults := by
  induction h with
  | simple _ _ _ _ => exact List.forall_mem_nil _
  | refused _ _ hfault _ =>
      exact List.forall_mem_singleton.mpr fun herror =>
        absurd herror (line_of_refused hfault).2
  | stray _ _ _ => exact List.forall_mem_singleton.mpr nofun
  | loop _ _ hwidth hword _ ih => exact ih _ rfl hwidth (Or.inr (Or.inl hword))
  | cond _ hwidth hword _ _ ih ih' => exact missing_header hwidth (Or.inl hword) ih ih'
  | spoiled _ hwidth hword _ _ ih ih' => exact missing_header hwidth (Or.inl hword) ih ih'
  | nil => exact List.forall_mem_nil _
  | cons _ _ ih ih' =>
      intro f hf herror
      rw [List.append_assoc]
      rcases List.mem_append.mp hf with hf | hf
      · exact ih f hf herror
      · exact (ih' f hf herror).append_left _
  | missing hlow =>
      intro p hn hwidth hopens
      refine List.forall_mem_singleton.mpr fun _ => ?_
      exact ⟨[], p, _, rfl, hopens, fun q hq => hwidth ▸ hlow q hq, by rw [hn]; rfl⟩
  | block _ _ ih => exact fun p _ _ _ f hf herror => (ih f hf herror).append_left [p]
  | done => exact List.forall_mem_nil _
  | elifBranch hwidth hword _ _ ih ih' =>
      exact missing_header hwidth (Or.inr (Or.inr (Or.inl hword))) ih ih'
  | elseBranch hwidth hword _ ih => exact ih _ rfl hwidth (Or.inr (Or.inr (Or.inr hword)))
  | refusedBranch _ _ hfault _ =>
      exact List.forall_mem_singleton.mpr fun herror =>
        absurd herror (line_of_refused hfault).2
  | spoiledBranch hwidth hword _ _ ih ih' =>
      exact missing_header hwidth (Or.inr (Or.inr (Or.inl hword))) ih ih'

/-! ## Whole scripts -/

/-- What is noted at a line of a script. A line at which a fault is noted is skipped when the script
    runs, unless the fault is that a header has no block: then the line is the one below the
    header. -/
theorem faults_located (source : String) (parsed : Parsed) (h : compile source = .ok parsed) :
    ∀ f ∈ parsed.faults,
      (f.error ≠ .expectedBlock → SkippedAt parsed.body f.line) ∧
      (f.error = .expectedBlock →
        NoBlockAt (codeLines 1 (Text.lines source.toList)) f.line) := by
  have hforms := compile_forms h
  have hnodup : ((codeLines 1 (Text.lines source.toList)).map Prod.fst).Nodup := by
    rw [List.Nodup, List.pairwise_map]
    exact (pairwise_codeLines 1 _).imp Nat.ne_of_lt
  intro f hf
  constructor
  · intro herror s hs hline
    have hskipped := hforms.located.apart hnodup f hf herror s hs hline
    exact ⟨hskipped, silent_of_isSkipped hskipped⟩
  · intro herror
    have hmissing := hforms.missing_noBlock f hf herror
    rw [List.append_nil] at hmissing
    exact hmissing

/-- Every line at which a fault of a script is noted is skipped when the script runs. -/
def ReportedSkipped (source : String) : Prop :=
  ∀ parsed, compile source = .ok parsed → ∀ f ∈ parsed.faults, SkippedAt parsed.body f.line

-- A header without a block, in front of a line with which nothing is wrong and one that is refused.
theorem compile_missingBlock :
    ∃ parsed, compile "if a:\nx()\n)\n" = .ok parsed ∧
      parsed.faults.map Fault.line = [2, 3] ∧
      (Stmt.partsOfBlock parsed.body).map (fun s => (s.span.line, s.isSkipped)) =
        [(1, false), (2, false), (3, true)] := by
  have hread : (compile "if a:\nx()\n)\n").map (fun p => (p.faults.map Fault.line,
      (Stmt.partsOfBlock p.body).map fun s => (s.span.line, s.isSkipped))) =
      .ok ([2, 3], [(1, false), (2, false), (3, true)]) := by
    cbv
  cases hcompile : compile "if a:\nx()\n)\n" with
  | error e =>
      rw [hcompile] at hread
      cases hread
  | ok parsed =>
      rw [hcompile] at hread
      exact ⟨parsed, rfl, Prod.mk.inj (Except.ok.inj hread)⟩

theorem faults_located_missingBlock :
    ∃ parsed, compile "if a:\nx()\n)\n" = .ok parsed ∧
      parsed.faults.map Fault.line = [2, 3] ∧ ∀ f ∈ parsed.faults,
        (f.error ≠ .expectedBlock → SkippedAt parsed.body f.line) ∧
        (f.error = .expectedBlock →
          NoBlockAt (codeLines 1 (Text.lines "if a:\nx()\n)\n".toList)) f.line) := by
  rcases compile_missingBlock with ⟨parsed, hcompile, hlines, _⟩
  exact ⟨parsed, hcompile, hlines, faults_located _ parsed hcompile⟩

/-- A fault is noted at a line, and the line is run. -/
theorem not_reportedSkipped : ¬ ReportedSkipped "if a:\nx()\n)\n" := by
  intro h
  rcases compile_missingBlock with ⟨parsed, hcompile, hlines, hparts⟩
  -- The first fault is noted at the second line.
  have hnoted : 2 ∈ parsed.faults.map Fault.line := by
    rw [hlines]
    exact List.mem_cons_self
  rcases List.mem_map.mp hnoted with ⟨f, hf, hline⟩
  -- On the second line stands a statement.
  have hstands : (2, false) ∈
      (Stmt.partsOfBlock parsed.body).map fun s => (s.span.line, s.isSkipped) := by
    rw [hparts]
    exact List.mem_cons_of_mem _ List.mem_cons_self
  rcases List.mem_map.mp hstands with ⟨s, hs, hplace⟩
  rw [Prod.mk.injEq] at hplace
  have hskipped := (h parsed hcompile f hf s hs (hplace.1.trans hline.symm)).1
  rw [hplace.2] at hskipped
  cases hskipped

end Script

end Farmhand
