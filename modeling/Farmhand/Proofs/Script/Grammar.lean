import Mathlib.Order.Nat
import Farmhand.Proofs.Script.Standing

/-!
# Line by Line

The grammar of scripts, in terms of lines. A part of a program is read from a stretch of the code
lines: a statement from its line and the lines of its blocks, a block from the lines under its
header. `Forms` has one rule for each way to read a stretch, those that end in a complaint
included, and the rules speak of lines and their widths only.

The parser follows the grammar. It is shown once, along the recursion of the parser, that it takes
its lines as the rules say; what is to be said about the lines of a script and its program is then
an induction over the rules, with neither tokens nor positions in it.

The complaint that a header has no block under it is noted only when the header has been read to
its end. It is therefore noted at the line below the header, which the rule `missing` says.

## Main definitions

* `Portion`, `Portion.parts`: What is read from a stretch of lines, and the statements in it.
* `lineBelow`: The number of the line below a line.
* `Forms`: The grammar.

## Theorems

* `Forms.le_width`: No line of a statement is to the left of it.
* `statement_forms`, `block_forms`, `branches_forms`, `statements_forms`: The parser follows the
  grammar.
* `compile_forms`: A whole script.
-/

namespace Farmhand

namespace Script

open Cursor
open Text (SourceLines)

/-! ## The grammar -/

/-- What is read from a stretch of lines. -/
inductive Portion where
  /-- One statement. -/
  | stmt (s : Stmt)
  /-- Statements one after the other. -/
  | stmts (body : Block)
  /-- The block under the header on a line. -/
  | under (n : Nat) (body : Block)
  /-- The further branches of a conditional. -/
  | branches (others : List (Expr × Block)) (otherwise : Option Block)
  /-- The further branches of a conditional, up to a refused header. -/
  | spoiled

/-- The body of a loop. -/
def Stmt.loopBody? : Stmt → Option Block
  | .whileLoop _ body _ => some body
  | .forLoop _ _ body _ => some body
  | _ => none

/-- Whether a statement takes one line. -/
def Stmt.isSimple : Stmt → Bool
  | .cond _ _ _ => false
  | .whileLoop _ _ _ => false
  | .forLoop _ _ _ _ => false
  | .skipped _ _ => false
  | _ => true

-- A statement of one line has no statements inside it.
theorem Stmt.parts_of_isSimple {s : Stmt} (h : s.isSimple = true) : s.parts = [s] := by
  cases s with
  | cond branches otherwise span => cases h
  | whileLoop condition body span => cases h
  | forLoop name items body span => cases h
  | skipped text span => cases h
  | _ => rfl

/-- A line that begins with one of the words of a loop. -/
def BeginsLoop (p : Nat × List Char) : Prop :=
  Begins .whileWord p ∨ Begins .forWord p

/-- A line that begins with one of the words of a further branch. -/
def BeginsBranch (p : Nat × List Char) : Prop :=
  Begins .elifWord p ∨ Begins .elseWord p

/-- The statements of a portion with all statements inside them. -/
def Portion.parts : Portion → List Stmt
  | .stmt s => s.parts
  | .stmts body => Stmt.partsOfBlock body
  | .under _ body => Stmt.partsOfBlock body
  | .branches others otherwise =>
    Stmt.partsOfBranches others ++ otherwise.toList.flatMap Stmt.partsOfBlock
  | .spoiled => []

/-- The number of the line below a line: that of the next code line, or the one after its own if
    there is none. -/
def lineBelow (n : Nat) : List (Nat × List Char) → Nat
  | [] => n + 1
  | p :: _ => p.1

/-- The lines of a part that stands at a width, in front of the lines `below`, and what is wrong
    with them. -/
inductive Forms :
    List (Nat × List Char) → Nat → Portion → List (Nat × List Char) → List Fault → Prop
  | simple {below w p s} (hs : s.isSimple = true) (hline : s.span.line = p.1) (hwidth : width p = w)
      (hword : ¬ BeginsBranch p) : Forms below w (.stmt s) [p] []
  | refused {below w p nested text span fault} (hline : span.line = p.1) (hwidth : width p = w)
      (hfault : Refused [fault] p) (hnested : ∀ q ∈ nested, w < width q) :
      Forms below w (.stmt (.skipped text span)) (p :: nested) [fault]
  | stray {below w p nested text span} (hline : span.line = p.1) (hwidth : w < width p)
      (hnested : ∀ q ∈ nested, width p ≤ width q) :
      Forms below w (.stmt (.skipped text span)) (p :: nested) [⟨p.1, .unexpectedIndent⟩]
  | loop {below w p s body seg faults} (hs : s.loopBody? = some body) (hline : s.span.line = p.1)
      (hwidth : width p = w) (hword : BeginsLoop p)
      (hbody : Forms below w (.under p.1 body) seg faults) :
      Forms below w (.stmt s) (p :: seg) faults
  | cond {below w p condition body others otherwise span seg segs faults more}
      (hline : span.line = p.1) (hwidth : width p = w) (hword : Begins .ifWord p)
      (hbody : Forms (segs ++ below) w (.under p.1 body) seg faults)
      (hothers : Forms below w (.branches others otherwise) segs more) :
      Forms below w (.stmt (.cond ((condition, body) :: others) otherwise span))
        (p :: (seg ++ segs)) (faults ++ more)
  | spoiled {below w p text span body seg segs faults more} (hline : span.line = p.1)
      (hwidth : width p = w) (hword : Begins .ifWord p)
      (hbody : Forms (segs ++ below) w (.under p.1 body) seg faults)
      (hothers : Forms below w .spoiled segs more) :
      Forms below w (.stmt (.skipped text span)) (p :: (seg ++ segs)) (faults ++ more)
  | nil {below w} : Forms below w (.stmts []) [] []
  | cons {below w s body seg segs faults more}
      (hfirst : Forms (segs ++ below) w (.stmt s) seg faults)
      (hrest : Forms below w (.stmts body) segs more) :
      Forms below w (.stmts (s :: body)) (seg ++ segs) (faults ++ more)
  | missing {below w n} (hlow : ∀ q ∈ below.head?, width q ≤ w) :
      Forms below w (.under n []) [] [⟨lineBelow n below, .expectedBlock⟩]
  | block {below w w' n s body seg faults} (hdeep : w < w')
      (hbody : Forms below w' (.stmts (s :: body)) seg faults) :
      Forms below w (.under n (s :: body)) seg faults
  | done {below w} : Forms below w (.branches [] none) [] []
  | elifBranch {below w p condition body others otherwise seg segs faults more}
      (hwidth : width p = w) (hword : Begins .elifWord p)
      (hbody : Forms (segs ++ below) w (.under p.1 body) seg faults)
      (hothers : Forms below w (.branches others otherwise) segs more) :
      Forms below w (.branches ((condition, body) :: others) otherwise) (p :: (seg ++ segs))
        (faults ++ more)
  | elseBranch {below w p body seg faults} (hwidth : width p = w) (hword : Begins .elseWord p)
      (hbody : Forms below w (.under p.1 body) seg faults) :
      Forms below w (.branches [] (some body)) (p :: seg) faults
  | refusedBranch {below w p nested fault} (hwidth : width p = w) (hword : BeginsBranch p)
      (hfault : Refused [fault] p) (hnested : ∀ q ∈ nested, w < width q) :
      Forms below w .spoiled (p :: nested) [fault]
  | spoiledBranch {below w p body seg segs faults more} (hwidth : width p = w)
      (hword : Begins .elifWord p) (hbody : Forms (segs ++ below) w (.under p.1 body) seg faults)
      (hothers : Forms below w .spoiled segs more) :
      Forms below w .spoiled (p :: (seg ++ segs)) (faults ++ more)

variable {blocks : List Nat} {code below rest : List (Nat × List Char)} {p : Nat × List Char}
  {c d : Cursor} {w : Nat} {portion : Portion} {seg segs : List (Nat × List Char)}
  {faults more : List Fault} {s : Stmt} {body : Block}

theorem Begins.eq {k k' : Keyword} (h : Begins k p) (h' : Begins k' p) : k = k' := by
  unfold Begins at h h'
  rw [h] at h'
  cases h'
  rfl

theorem not_beginsBranch (h : Begins .ifWord p ∨ BeginsLoop p) : ¬ BeginsBranch p := by
  rintro (h' | h') <;> rcases h with h | h | h <;> cases h.eq h'

-- What a conditional is made of, branch by branch.
theorem parts_cond (condition : Expr) (body : Block) (others : List (Expr × Block))
    (otherwise : Option Block) (span : Span) :
    (Stmt.cond ((condition, body) :: others) otherwise span).parts =
      .cond ((condition, body) :: others) otherwise span ::
        (Stmt.partsOfBlock body ++ (Portion.branches others otherwise).parts) := by
  cases otherwise <;> simp [Portion.parts, Stmt.parts, Stmt.partsOfBranches]

theorem parts_elif (condition : Expr) (body : Block) (others : List (Expr × Block))
    (otherwise : Option Block) :
    (Portion.branches ((condition, body) :: others) otherwise).parts =
      Stmt.partsOfBlock body ++ (Portion.branches others otherwise).parts := by
  rw [Portion.parts, Portion.parts, Stmt.partsOfBranches, List.append_assoc]

theorem parts_else (body : Block) :
    (Portion.branches [] (some body)).parts = Stmt.partsOfBlock body := by
  simp [Portion.parts, Stmt.partsOfBranches]

/-- No line of a part stands to the left of it, and the lines of a block stand to the right of its
    header. -/
theorem Forms.le_width (h : Forms below w portion seg faults) :
    (∀ q ∈ seg, w ≤ width q) ∧ ∀ n body, portion = .under n body → ∀ q ∈ seg, w < width q := by
  induction h with
  | simple _ _ hwidth _ => exact ⟨by simp [hwidth], nofun⟩
  | refused _ hwidth _ hnested =>
      exact ⟨List.forall_mem_cons.mpr ⟨hwidth.ge, fun q hq => (hnested q hq).le⟩, nofun⟩
  | stray _ hwidth hnested =>
      exact ⟨List.forall_mem_cons.mpr ⟨hwidth.le, fun q hq => hwidth.le.trans (hnested q hq)⟩,
        nofun⟩
  | loop _ _ hwidth _ _ ih => exact ⟨List.forall_mem_cons.mpr ⟨hwidth.ge, ih.1⟩, nofun⟩
  | cond _ hwidth _ _ _ ih ih' =>
      exact ⟨List.forall_mem_cons.mpr ⟨hwidth.ge, List.forall_mem_append.mpr ⟨ih.1, ih'.1⟩⟩, nofun⟩
  | spoiled _ hwidth _ _ _ ih ih' =>
      exact ⟨List.forall_mem_cons.mpr ⟨hwidth.ge, List.forall_mem_append.mpr ⟨ih.1, ih'.1⟩⟩, nofun⟩
  | nil => exact ⟨nofun, nofun⟩
  | cons _ _ ih ih' => exact ⟨List.forall_mem_append.mpr ⟨ih.1, ih'.1⟩, nofun⟩
  | missing _ => exact ⟨nofun, fun _ _ _ => nofun⟩
  | block hdeep _ ih =>
      have hlt := fun q hq => hdeep.trans_le (ih.1 q hq)
      exact ⟨fun q hq => (hlt q hq).le, fun _ _ _ => hlt⟩
  | done => exact ⟨nofun, nofun⟩
  | elifBranch hwidth _ _ _ ih ih' =>
      exact ⟨List.forall_mem_cons.mpr ⟨hwidth.ge, List.forall_mem_append.mpr ⟨ih.1, ih'.1⟩⟩, nofun⟩
  | elseBranch hwidth _ _ ih => exact ⟨List.forall_mem_cons.mpr ⟨hwidth.ge, ih.1⟩, nofun⟩
  | refusedBranch hwidth _ _ hnested =>
      exact ⟨List.forall_mem_cons.mpr ⟨hwidth.ge, fun q hq => (hnested q hq).le⟩, nofun⟩
  | spoiledBranch hwidth _ _ _ ih ih' =>
      exact ⟨List.forall_mem_cons.mpr ⟨hwidth.ge, List.forall_mem_append.mpr ⟨ih.1, ih'.1⟩⟩, nofun⟩

/-! ## Single lines -/

-- What is read from one line holds no block.
theorem lineStatement_simple {t : Token} {next : c.Shorter} {d : c.Shorter}
    (h : lineStatement c t next = .ok (s, d)) : s.isSimple = true := by
  unfold lineStatement at h
  split at h
  · split at h
    · cases h
      rfl
    · split at h <;> cases h
      rfl
  · rcases ok_of_map_eq_ok h with ⟨_, _, heq⟩
    cases heq
    rfl
  · rcases ok_of_map_eq_ok h with ⟨_, _, heq⟩
    cases heq
    rfl
  · rcases ok_of_map_eq_ok h with ⟨_, _, heq⟩
    cases heq
    rfl
  · split at h
    · split at h <;> cases h
      rfl
    · split at h <;> cases h
      rfl

-- No expression starts with a word of a further branch, so neither does a statement of one line.
theorem lineStatement_ne_ok {t : Token} {next : c.Shorter} {k : Keyword}
    (htake : c.take? = some (t, next)) (hkind : t.kind = .mark (.keyword k))
    (hk : k = .elifWord ∨ k = .elseWord) {answer : Stmt × c.Shorter} :
    lineStatement c t next ≠ .ok answer := by
  have hoperand : operand c = .error c.unexpected := by
    rw [operand, htake]
    rcases hk with rfl | rfl <;> simp only [hkind]
  have hline : lineExpression c = .error c.unexpected := by
    rw [lineExpression, expression, hoperand]
  rw [lineStatement]
  rcases hk with rfl | rfl <;> simp only [hkind, hline] <;> exact nofun

/-! ## The parser -/

/-- A portion read from the first of the lines in front of a position, with the rest of them left
    in front of another. -/
def Takes (blocks : List Nat) (code : List (Nat × List Char)) (portion : Portion)
    (faults : List Fault) (d : Cursor) : Prop :=
  ∃ seg after, code = seg ++ after ∧ Stands blocks after d ∧
    Forms after (blocks.headD 0) portion seg faults

/-- What reading the further branches of a conditional comes to. -/
def BranchesTake (blocks : List Nat) (code : List (Nat × List Char)) (c : Cursor) :
    Except (List Fault × c.AtMost)
      (List (Expr × Block) × Option Block × List Fault × c.AtMost) → Prop
  | .ok (others, otherwise, faults, d) =>
    Takes blocks code (.branches others otherwise) faults d.1
  | .error (faults, d) => Takes blocks code .spoiled faults d.1

/-- Where the statements of a block end: at the closing of the block or at the end of the script. -/
def AtEnd (c : Cursor) : Prop :=
  c.take? = none ∨ c.isAt .dedent = true

-- A mark that the cursor is at can be passed over.
theorem skip?_of_isAt {m : Mark} (h : c.isAt m = true) (hm : m ≠ .endOfInput) :
    ∃ next, c.skip? m = some next := by
  cases hrest : c.rest with
  | nil =>
      rw [isAt, hrest] at h
      cases h
  | cons t more =>
      rw [isAt, hrest] at h
      have hend : t.kind.isMark .endOfInput = false := by
        rw [isMark_eq_true_iff.mp h, Token.Kind.isMark, decide_eq_false_iff_not]
        exact hm
      rcases exists_take? hrest hend with ⟨next, htake, _⟩
      exact ⟨next, by rw [skip?, htake]; simp only [h, if_true]⟩

-- Behind the statements of a block comes its closing.
theorem exists_closing {b : Nat} (h : Stands (b :: blocks) code c) (hnumbered : Numbered code)
    (hend : AtEnd c) : ∃ next, c.skip? .dedent = some next ∧ Stands blocks code next.1 := by
  rcases hend with hnone | hdedent
  · cases (h.of_none hnone).1
  · rcases skip?_of_isAt hdedent nofun with ⟨next, hskip⟩
    refine ⟨next, hskip, ?_⟩
    rcases skip?_eq_some hskip with ⟨t, htake, hkind⟩
    rcases h.next hnumbered htake with ⟨hblocks, _, _, hnext⟩ | ⟨_, hopen, _⟩ | ⟨_, _, hplain, _⟩
    · rw [List.cons.injEq] at hblocks
      rw [hblocks.2]
      exact hnext
    · rw [hkind] at hopen
      cases hopen
    · rw [Token.IsPlain, hkind] at hplain
      cases hplain.2.1

theorem Numbered.of_append {seg after : List (Nat × List Char)} (h : Numbered code)
    (hcode : code = seg ++ after) : Numbered after :=
  fun q hq => h q (hcode ▸ List.mem_append_right seg hq)

-- A keyword stands on a line, and the line is no deeper than the blocks that are open.
theorem Stands.line_of_keyword {t : Token} {next : c.Shorter} {k : Keyword}
    (h : Stands blocks code c) (hnumbered : Numbered code) (htake : c.take? = some (t, next))
    (hkind : t.kind = .mark (.keyword k)) :
    ∃ p rest, code = p :: rest ∧ width p = blocks.headD 0 ∧ t.kind.isMark .newline = false ∧
      Begins k p ∧ OnLine p blocks rest c := by
  rcases h.next hnumbered htake with ⟨_, hdedent, _⟩ | ⟨_, hindent, _⟩ |
    ⟨hcode, hwidth, _, _, hnewline, hword, hc⟩
  · rw [hkind] at hdedent
    cases hdedent
  · rw [hkind] at hindent
    cases hindent
  · rw [hkind] at hword
    exact ⟨_, _, hcode, hwidth, hnewline, hword, hc⟩

-- What is next after a header is noted at the line below.
theorem line_eq_lineBelow {n : Nat} (h : codeTokens blocks n code = .ok c.rest) :
    c.line = lineBelow n code := by
  cases code with
  | nil =>
      rw [codeTokens, Except.ok.injEq] at h
      rw [Cursor.line, ← h]
      cases blocks <;> rfl
  | cons p rest =>
      rcases codeTokens_cons_eq_ok_iff.mp h with ⟨shapes, inner, after, _, _, hall⟩
      rcases List.exists_cons_of_ne_nil (lineTokens_ne_nil p.1 (indentLength p.2 + 1)
        (p.2.drop (indentLength p.2))) with ⟨t, more, hline⟩
      have ht := (lineTokens_plain p.1 (indentLength p.2 + 1) (p.2.drop (indentLength p.2)) t
        (hline ▸ List.mem_cons_self)).2
      rw [Cursor.line, hall]
      cases shapes with
      | nil =>
          rw [hline]
          exact ht
      | cons shape shapes => rfl

-- A line that is no statement, with what is nested under it.
theorem takes_refused {t : Token} {next : c.Shorter} {fault : Fault} {text : String} {span : Span}
    (hcode : code = p :: rest) (hnumbered : Numbered code) (hwidth : width p = blocks.headD 0)
    (hc : OnLine p blocks rest c) (htake : c.take? = some (t, next))
    (ht : t.kind.isMark .newline = false) (hline : span.line = p.1) (hp : Refused [fault] p) :
    Takes blocks code (.stmt (.skipped text span)) [fault] (recover t next).1 := by
  rcases stands_recover hc (fun q hq => hnumbered q (hcode ▸ List.mem_cons_of_mem p hq)) htake ht
    with ⟨nested, after, hrest, hafter, hnested⟩
  exact ⟨p :: nested, after, by rw [hcode, hrest, List.cons_append], hafter,
    .refused hline hwidth hp hnested⟩

-- A header of a further branch that is refused takes its line and the block under it.
theorem takes_refusedBranch {t : Token} {next : c.Shorter} {fault : Fault}
    (hcode : code = p :: rest) (hnumbered : Numbered code) (hwidth : width p = blocks.headD 0)
    (hword : BeginsBranch p) (hc : OnLine p blocks rest c) (htake : c.take? = some (t, next))
    (ht : t.kind.isMark .newline = false) (hp : Refused [fault] p) :
    Takes blocks code .spoiled [fault] (recover t next).1 := by
  rcases stands_recover hc (fun q hq => hnumbered q (hcode ▸ List.mem_cons_of_mem p hq)) htake ht
    with ⟨nested, after, hrest, hafter, hnested⟩
  exact ⟨p :: nested, after, by rw [hcode, hrest, List.cons_append], hafter,
    .refusedBranch hwidth hword hp hnested⟩

-- A block that no header opened.
theorem takes_stray {n : Nat} {text : String} {span : Span} (hcode : code = p :: rest)
    (hline : span.line = p.1) (hn : n = p.1) (hdeep : blocks.headD 0 < width p)
    (hnext : Stands (width p :: blocks) code c) :
    Takes blocks code (.stmt (.skipped text span)) [⟨n, .unexpectedIndent⟩] c.skipBlock.1 := by
  rcases hnext.skipBlock with ⟨nested, after, hsplit, hafter, hnested, hlow⟩
  -- The first line of the block is passed over with it.
  cases nested with
  | nil =>
      rw [hcode, List.nil_append] at hsplit
      have := hlow p (by rw [← hsplit, List.head?_cons, Option.mem_some])
      omega
  | cons first nested =>
      rw [hcode, List.cons_append, List.cons.injEq] at hsplit
      rcases hsplit with ⟨rfl, hsplit⟩
      refine ⟨p :: nested, after, by rw [hcode, hsplit, List.cons_append], hafter, ?_⟩
      rw [hn]
      exact .stray hline hdeep fun q hq => hnested q (List.mem_cons_of_mem p hq)

-- A loop with its block.
theorem takes_loop (hcode : code = p :: rest) (hs : s.loopBody? = some body)
    (hline : s.span.line = p.1) (hwidth : width p = blocks.headD 0) (hword : BeginsLoop p)
    (h : Takes blocks rest (.under p.1 body) faults d) : Takes blocks code (.stmt s) faults d := by
  rcases h with ⟨seg, after, hrest, hafter, hseg⟩
  exact ⟨p :: seg, after, by rw [hcode, hrest, List.cons_append], hafter,
    .loop hs hline hwidth hword hseg⟩

-- The block under a header, and the branches behind it.
theorem takes_branches {e : Cursor} {first others : Portion} (hcode : code = p :: rest)
    (h : Takes blocks rest first faults e)
    (h' : ∀ after, Stands blocks after e → Numbered after → Takes blocks after others more d)
    (hnumbered : Numbered code) :
    ∃ seg segs after, code = p :: (seg ++ segs) ++ after ∧ Stands blocks after d ∧
      Forms (segs ++ after) (blocks.headD 0) first seg faults ∧
      Forms after (blocks.headD 0) others segs more := by
  rcases h with ⟨seg, after, hrest, hafter, hseg⟩
  have hsplit : code = (p :: seg) ++ after := by rw [hcode, hrest, List.cons_append]
  rcases h' after hafter (hnumbered.of_append hsplit) with ⟨segs, below, hbelow, hstands, hsegs⟩
  refine ⟨seg, segs, below, ?_, hstands, hbelow ▸ hseg, hsegs⟩
  rw [hcode, hrest, hbelow, List.cons_append, List.append_assoc]

-- A block that has just been opened has a statement.
theorem statements_ne_nil (source : SourceLines) {b : Nat}
    (h : Stands (b :: blocks) (p :: rest) c) (hnumbered : Numbered (p :: rest))
    (hwidth : width p = b) : (statements source c).1 ≠ [] := by
  rw [statements]
  split
  · next htake => cases (h.of_none htake).1
  · next t next htake =>
      split
      · next hdedent =>
          rcases h.next hnumbered htake with ⟨hblocks, _, hlow, _⟩ | ⟨_, hopen, _⟩ |
            ⟨_, _, hplain, _⟩
          · -- A line that closes the block stands to the left of it.
            rw [List.cons.injEq] at hblocks
            have := hlow p rfl
            omega
          · rw [isMark_eq_true_iff.mp hdedent] at hopen
            cases hopen
          · rw [Token.IsPlain, hdedent] at hplain
            cases hplain.2.1
      · exact List.cons_ne_nil _ _

mutual

/-- A statement takes some of the lines that are left: a block without a header, a line that is
    refused, a conditional with its branches, a loop, or a line by itself. -/
theorem statement_forms (source : SourceLines) (c : Cursor) (t : Token) (next : c.Shorter)
    {blocks : List Nat} {code : List (Nat × List Char)} (h : Stands blocks code c)
    (hnumbered : Numbered code) (htake : c.take? = some (t, next))
    (hdedent : t.kind.isMark .dedent = false) :
    Takes blocks code (.stmt (statement source c t next).1) (statement source c t next).2.1
      (statement source c t next).2.2.1 := by
  rcases h.next hnumbered htake with ⟨_, hkind, _⟩ | ⟨hcode, hkind, hline, hdeep, hnext⟩ |
    @⟨p, rest, hcode, hwidth, hplain, hline, hnewline, hword, hc⟩
  -- A closing is no statement.
  · rw [hkind] at hdedent
    cases hdedent
  -- A block that no header opens is kept as it stands.
  · rw [statement, hkind]
    exact takes_stray hcode hline hline hdeep hnext
  -- The first token of a line tells a conditional, the two loops, and a line by itself apart.
  · have hrest : Numbered rest := fun q hq => hnumbered q (hcode ▸ List.mem_cons_of_mem p hq)
    have hnonzero : t.span.line ≠ 0 := by
      rw [hline]
      exact (hnumbered p (hcode ▸ List.mem_cons_self)).2
    have hnext := hc.along (take?_along htake hnewline)
    have hbegins : ∀ k, t.kind = .mark (.keyword k) → Begins k p := fun k hk => by
      rw [Begins, hword, hk]
    rw [statement]
    split
    · next hkind =>
        rw [Token.IsPlain, hkind] at hplain
        cases hplain.1
    · next hkind =>
        split
        · next hfault =>
            exact takes_refused hcode hnumbered hwidth hc htake hnewline hline
              ((header_finishes next.1).refused hfault hnext List.mem_cons_self)
        · next condition c₁ hheader =>
            have hle := (block source c₁.1).2.2.2
            have hblock := block_forms source c₁.1 p.1
              ((header_finishes next.1).below hheader hnext) hrest
            have hbranches : ∀ after, Stands blocks after (block source c₁.1).2.2.1 →
                Numbered after → BranchesTake blocks after _ (branches source _) :=
              fun after => branches_forms source (block source c₁.1).2.2.1
            dsimp only
            split
            -- A header further down cannot be read, and the branches in front of it are lost with
            -- it.
            · next h' =>
                rw [h'] at hbranches
                rcases takes_branches hcode hblock hbranches hnumbered with
                  ⟨seg, segs, after, hsplit, hafter, hseg, hsegs⟩
                exact ⟨_, after, hsplit, hafter,
                  .spoiled hline hwidth (hbegins _ hkind) hseg hsegs⟩
            · next h' =>
                rw [h'] at hbranches
                rcases takes_branches hcode hblock hbranches hnumbered with
                  ⟨seg, segs, after, hsplit, hafter, hseg, hsegs⟩
                exact ⟨_, after, hsplit, hafter, .cond hline hwidth (hbegins _ hkind) hseg hsegs⟩
    · next hkind =>
        split
        · next hfault =>
            exact takes_refused hcode hnumbered hwidth hc htake hnewline hline
              ((header_finishes next.1).refused hfault hnext List.mem_cons_self)
        · next condition c₁ hheader =>
            exact takes_loop hcode rfl hline hwidth (Or.inl (hbegins _ hkind))
              (block_forms source c₁.1 p.1 ((header_finishes next.1).below hheader hnext) hrest)
    · next hkind =>
        split
        · next hfault =>
            exact takes_refused hcode hnumbered hwidth hc htake hnewline hline
              ((forHeader_finishes next.1).refused hfault hnext List.mem_cons_self)
        · next name items c₁ hheader =>
            exact takes_loop hcode rfl hline hwidth (Or.inr (hbegins _ hkind))
              (block_forms source c₁.1 p.1 ((forHeader_finishes next.1).below hheader hnext) hrest)
    -- A line by itself. It begins with no word of a branch, since such a line is refused.
    · split
      · next hfault =>
          exact takes_refused hcode hnumbered hwidth hc htake hnewline hline
            ((lineStatement_finishes c t next htake hnewline).refused hfault hc
              List.mem_cons_self)
      · next stmt c₁ hstmt =>
          refine ⟨[p], rest, hcode, ⟨p.1, (lineStatement_finishes c t next htake hnewline).below
            hstmt hc⟩, .simple (lineStatement_simple hstmt)
            ((lineStatement_kept hstmt hnonzero).1.trans hline) hwidth ?_⟩
          rintro (hbranch | hbranch)
          · exact lineStatement_ne_ok htake (Option.some.inj (hword.symm.trans hbranch))
              (Or.inl rfl) hstmt
          · exact lineStatement_ne_ok htake (Option.some.inj (hword.symm.trans hbranch))
              (Or.inr rfl) hstmt
termination_by (c.size, 0)

/-- A block takes the lines to the right of its header. Where there are none, the block is missing.
    -/
theorem block_forms (source : SourceLines) (c : Cursor) (n : Nat) {blocks : List Nat}
    {code : List (Nat × List Char)} (h : codeTokens blocks n code = .ok c.rest)
    (hnumbered : Numbered code) :
    Takes blocks code (.under n (block source c).1) (block source c).2.1
      (block source c).2.2.1 := by
  have hstands : Stands blocks code c := ⟨n, h⟩
  rw [block]
  split
  · next hskip =>
      refine ⟨[], code, rfl, hstands, ?_⟩
      rw [line_eq_lineBelow h]
      -- No block opens here, so the next line is not to the right of the header.
      refine .missing fun q hq => ?_
      cases htake : c.take? with
      | none =>
          rw [(hstands.of_none htake).2] at hq
          cases hq
      | some taken =>
          rcases hstands.next hnumbered htake with ⟨hblocks, _, hlow, _⟩ | ⟨_, hopen, _⟩ |
            ⟨hcode, hwidth, _⟩
          · rw [hblocks]
            exact (hlow q hq).le
          · rw [skip?, htake] at hskip
            simp [hopen, Token.Kind.isMark] at hskip
          · rw [hcode, List.head?_cons, Option.mem_some] at hq
            exact hq ▸ hwidth.le
  · next c₁ hskip =>
      rcases skip?_eq_some hskip with ⟨t, htake, hopen⟩
      rcases hstands.next hnumbered htake with ⟨_, hkind, _⟩ | ⟨hcode, _, _, hdeep, hnext⟩ |
        ⟨_, _, hplain, _⟩
      · rw [hopen] at hkind
        cases hkind
      -- The statements end at a closing, since a block is open.
      · rcases statements_forms source c₁.1 hnext hnumbered with
          ⟨⟨seg, after, hsplit, hafter, hseg⟩, hend⟩
        rcases exists_closing hafter (hnumbered.of_append hsplit) hend with ⟨c₃, hclose, hbelow⟩
        rw [hcode] at hnext hnumbered
        rcases List.exists_cons_of_ne_nil (statements_ne_nil source hnext hnumbered rfl) with
          ⟨s, body, hbody⟩
        dsimp only
        rw [hclose]
        refine ⟨seg, after, hsplit, hbelow, ?_⟩
        rw [hbody] at hseg ⊢
        exact .block hdeep hseg
      · rw [Token.IsPlain, hopen] at hplain
        cases hplain.1
termination_by (c.size, 2)

/-- The further branches take the lines that begin with `elif` or `else`, and the blocks under them.
    -/
theorem branches_forms (source : SourceLines) (c : Cursor) {blocks : List Nat}
    {code : List (Nat × List Char)} (h : Stands blocks code c) (hnumbered : Numbered code) :
    BranchesTake blocks code c (branches source c) := by
  rw [branches]
  split
  · exact ⟨[], code, rfl, h, .done⟩
  · next t next htake =>
      split
      · next hkind =>
          -- An `elif`: its own block, and then the branches below that.
          rcases h.line_of_keyword hnumbered htake hkind with
            ⟨p, rest, hcode, hwidth, hnewline, hword, hc⟩
          have hrest : Numbered rest := fun q hq => hnumbered q (hcode ▸ List.mem_cons_of_mem p hq)
          have hnext := hc.along (take?_along htake hnewline)
          split
          · next hfault =>
              exact takes_refusedBranch hcode hnumbered hwidth (Or.inl hword) hc htake hnewline
                ((header_finishes next.1).refused hfault hnext (List.mem_singleton_self _))
          · next condition c₁ hheader =>
              have hle := (block source c₁.1).2.2.2
              have hblock := block_forms source c₁.1 p.1
                ((header_finishes next.1).below hheader hnext) hrest
              have hbranches : ∀ after, Stands blocks after (block source c₁.1).2.2.1 →
                  Numbered after → BranchesTake blocks after _ (branches source _) :=
                fun after => branches_forms source (block source c₁.1).2.2.1
              dsimp only
              split
              · next h' =>
                  rw [h'] at hbranches
                  rcases takes_branches hcode hblock hbranches hnumbered with
                    ⟨seg, segs, after, hsplit, hafter, hseg, hsegs⟩
                  exact ⟨_, after, hsplit, hafter, .spoiledBranch hwidth hword hseg hsegs⟩
              · next h' =>
                  rw [h'] at hbranches
                  rcases takes_branches hcode hblock hbranches hnumbered with
                    ⟨seg, segs, after, hsplit, hafter, hseg, hsegs⟩
                  exact ⟨_, after, hsplit, hafter, .elifBranch hwidth hword hseg hsegs⟩
      · next hkind =>
          -- An `else`, behind which there are no more branches.
          rcases h.line_of_keyword hnumbered htake hkind with
            ⟨p, rest, hcode, hwidth, hnewline, hword, hc⟩
          have hrest : Numbered rest := fun q hq => hnumbered q (hcode ▸ List.mem_cons_of_mem p hq)
          have hnext := hc.along (take?_along htake hnewline)
          split
          · next hfault =>
              exact takes_refusedBranch hcode hnumbered hwidth (Or.inr hword) hc htake hnewline
                ((headerEnd_finishes next.1).refused hfault hnext (List.mem_singleton_self _))
          · next c₁ hheader =>
              rcases block_forms source c₁.1 p.1
                ((headerEnd_finishes next.1).below hheader hnext) hrest with
                ⟨seg, after, hsplit, hafter, hseg⟩
              exact ⟨p :: seg, after, by rw [hcode, hsplit, List.cons_append], hafter,
                .elseBranch hwidth hword hseg⟩
      · exact ⟨[], code, rfl, h, .done⟩
termination_by (c.size, 0)

/-- Statements take their lines one after the other, up to the end of the block. -/
theorem statements_forms (source : SourceLines) (c : Cursor) {blocks : List Nat}
    {code : List (Nat × List Char)} (h : Stands blocks code c) (hnumbered : Numbered code) :
    Takes blocks code (.stmts (statements source c).1) (statements source c).2.1
        (statements source c).2.2.1 ∧
      AtEnd (statements source c).2.2.1 := by
  rw [statements]
  split
  · next htake => exact ⟨⟨[], code, rfl, h, .nil⟩, Or.inl htake⟩
  · next t next htake =>
      split
      · next hdedent =>
          refine ⟨⟨[], code, rfl, h, .nil⟩, Or.inr ?_⟩
          change c.isAt .dedent = true
          rw [isAt, (take?_eq_some htake).1]
          exact hdedent
      · next hdedent =>
          have hless := (statement source c t next).2.2.2
          rcases statement_forms source c t next h hnumbered htake
            (Bool.eq_false_iff.mpr hdedent) with ⟨seg, after, hsplit, hafter, hseg⟩
          rcases statements_forms source (statement source c t next).2.2.1 hafter
            (hnumbered.of_append hsplit) with ⟨⟨segs, below, hbelow, hstands, hsegs⟩, hstop⟩
          refine ⟨⟨seg ++ segs, below, ?_, hstands, .cons (hbelow ▸ hseg) hsegs⟩, hstop⟩
          rw [hsplit, hbelow, List.append_assoc]
termination_by (c.size, 1)

end

/-! ## Whole scripts -/

theorem topLevel_forms (source : SourceLines) (c : Cursor) {code : List (Nat × List Char)}
    (h : Stands [] code c) (hnumbered : Numbered code) :
    Forms [] 0 (.stmts (topLevel source c).1) code (topLevel source c).2 := by
  rw [topLevel]
  split
  · next htake =>
      rw [(h.of_none htake).2]
      exact .nil
  · next t next htake =>
      split
      · next hdedent =>
          -- No block is open, so none can be closed.
          have hkind := isMark_eq_true_iff.mp hdedent
          rcases h.next hnumbered htake with ⟨hblocks, _⟩ | ⟨_, hopen, _⟩ | ⟨_, _, hplain, _⟩
          · cases hblocks
          · rw [hkind] at hopen
            cases hopen
          · rw [Token.IsPlain, hkind] at hplain
            cases hplain.2.1
      · next hdedent =>
          have hless := (statement source c t next).2.2.2
          rcases statement_forms source c t next h hnumbered htake
            (Bool.eq_false_iff.mpr hdedent) with ⟨seg, after, hsplit, hafter, hseg⟩
          have hrest := topLevel_forms source (statement source c t next).2.2.1 hafter
            (hnumbered.of_append hsplit)
          rw [hsplit]
          exact .cons (by rw [List.append_nil]; exact hseg) hrest
termination_by c.size

/-- A script is read from its code lines as the grammar says. -/
theorem compile_forms {source : String} {parsed : Parsed} (h : compile source = .ok parsed) :
    Forms [] 0 (.stmts parsed.body) (codeLines 1 (Text.lines source.toList)) parsed.faults := by
  unfold compile at h
  split at h
  · cases h
  · next tokens htokens =>
      rw [tokenize_eq_codeTokens] at htokens
      have hstands : Stands [] (codeLines 1 (Text.lines source.toList)) (.start tokens) :=
        ⟨0, htokens⟩
      rw [← Except.ok.inj h]
      exact topLevel_forms (.ofString source) (.start tokens) hstands (numbered_codeLines _)

end Script

end Farmhand
