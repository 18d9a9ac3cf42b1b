import Farmhand.Proofs.Script.Rereading

/-!
# Written Programs Are Read Back

A written program is read back without a fault, and it is the same program up to places. A line is
told from a header by its first word, and an assignment from an expression by its second token. A
block ends where its closing stands, and a conditional where no further branch follows; so what
stands behind a statement must not begin with `elif` or `else`, and no statement does.

## Main definitions

* `Apart`: Tokens that do not go on with a conditional.
* `StatementReadable`, `StatementsReadable`: A statement or the statements of a block are read as
  they were written.

## Theorems

* `statement_of_line`: Statements of one line.
* `block_rereads`: Blocks.
* `Stmt.readable`: All statements.
* `compile_written`: A written program is read back.
-/

namespace Farmhand

namespace Script

open Cursor
open Text (SourceLines)

-- The token taken is the first of those left.
theorem kinds_of_take? {c : Cursor} {t : Token} {next : c.Shorter}
    (h : c.take? = some (t, next)) : c.kinds = t.kind :: next.1.kinds := by
  rw [Cursor.kinds, (take?_eq_some h).1]
  rfl

/-- Tokens that do not go on with a conditional. -/
def Apart (ks : List Token.Kind) : Prop :=
  ks.head? ≠ some (.mark (.keyword .elifWord)) ∧ ks.head? ≠ some (.mark (.keyword .elseWord))

/-- A statement is read as it was written, whatever stands behind it that does not go on with it. -/
def StatementReadable (s : Stmt) : Prop :=
  ∀ (source : SourceLines) (c : Cursor) (t : Token) (next : c.Shorter) (ks : List Token.Kind),
    c.take? = some (t, next) → c.kinds = s.kinds ++ ks → Apart ks →
    ∃ s' d, statement source c t next = (s', [], d) ∧ s'.unplaced = s.unplaced ∧ d.1.kinds = ks

/-- The statements of a block are read as they were written, up to its closing. -/
def StatementsReadable (body : Block) : Prop :=
  ∀ (source : SourceLines) (c : Cursor) (ks : List Token.Kind),
    c.kinds = Stmt.kindsOfBlock body ++ .mark .dedent :: ks →
    ∃ body' d, statements source c = (body', [], d) ∧
      Stmt.unplacedBlock body' = Stmt.unplacedBlock body ∧ d.1.kinds = .mark .dedent :: ks

-- A line whose first token is no header's word.
theorem statement_of_line {source : SourceLines} {c : Cursor} {t : Token} {next : c.Shorter}
    (hk : ∀ m ∈ [.indent, .keyword .ifWord, .keyword .whileWord, .keyword .forWord],
      t.kind ≠ .mark m) {s : Stmt} {d : c.Shorter} (h : lineStatement c t next = .ok (s, d)) :
    statement source c t next = (s, [], d) := by
  rw [statement]
  split
  · next hkind => exact absurd hkind (hk _ (by decide))
  · next hkind => exact absurd hkind (hk _ (by decide))
  · next hkind => exact absurd hkind (hk _ (by decide))
  · next hkind => exact absurd hkind (hk _ (by decide))
  · rw [h]

/-- An assignment is told by its second token. -/
theorem readable_assign (name : String) (op : AssignOp) (value : Expr) (span : Span) :
    StatementReadable (.assign name op value span) := by
  intro source c t next ks htake hc _
  rw [kinds_of_take? htake, Stmt.kinds, List.cons_append, List.cons_append, List.append_assoc,
    List.cons.injEq] at hc
  rcases hc with ⟨hkind, hnext⟩
  have hend : op.kind.isMark .endOfInput = false := by
    cases op <;> rfl
  have hop : AssignOp.ofKind? next.1.kind = some op := by
    rw [kind_of_kinds hnext]
    cases op <;> rfl
  rcases take?_of_kinds hnext hend with ⟨t₁, c₁, htake₁, _, h₁⟩
  rcases lineExpression_rereads value h₁ with ⟨e', c₂, he, hsame, h₂⟩
  have hline : lineStatement c t next = .ok (.assign name op e' (t.span.through c₂.1.last),
      next.andThen (c₁.andThen c₂.atMost).atMost) := by
    simp only [lineStatement, hkind, hop, htake₁, he]
  refine ⟨_, _, statement_of_line (by rw [hkind]; simp) hline, ?_, h₂⟩
  rw [Stmt.unplaced, Stmt.unplaced, hsame]

-- A line that begins like an expression, and whose second token assigns nothing to a name.
theorem lineStatement_of_expression {c : Cursor} {t : Token} {next : c.Shorter}
    (hopens : Opens t.kind)
    (hassign : ∀ name, t.kind = .name name → AssignOp.ofKind? next.1.kind = none) {e : Expr}
    {d : c.Shorter} (h : lineExpression c = .ok (e, d)) :
    lineStatement c t next = .ok (.expr e (t.span.through d.1.last), d) := by
  -- None of the words that a statement begins with opens an expression.
  have hword : ∀ k : Keyword, k ≠ .notWord → t.kind ≠ .mark (.keyword k) := by
    intro k hk hkind
    rw [hkind] at hopens
    simp [Opens, hk] at hopens
  unfold lineStatement
  split
  · next hkind => exact absurd hkind (hword _ (by decide))
  · next hkind => exact absurd hkind (hword _ (by decide))
  · next hkind => exact absurd hkind (hword _ (by decide))
  · next hkind => exact absurd hkind (hword _ (by decide))
  · split
    · next name op t' c₁ hkind hop _ =>
        rw [hassign name hkind] at hop
        cases hop
    · rw [h]

/-- An expression that stands alone. Its second token, if there is one, is no assignment sign. -/
theorem readable_expr (value : Expr) (span : Span) : StatementReadable (.expr value span) := by
  intro source c t next ks htake hc _
  rw [Stmt.kinds, List.append_assoc, List.singleton_append] at hc
  rcases lineExpression_rereads value hc with ⟨e', d, he, hsame, hd⟩
  rcases value.exists_kinds with ⟨k, more, hkinds, hopens⟩
  rw [kinds_of_take? htake] at hc
  have hk : t.kind = k := by
    rw [hkinds, List.cons_append, List.cons.injEq] at hc
    exact hc.1
  rw [← hk] at hopens
  have hassign : ∀ name, t.kind = .name name → AssignOp.ofKind? next.1.kind = none := by
    intro name hname
    rw [hname] at hc
    cases hnext : next.1.kinds with
    | nil =>
        rw [hnext, hkinds] at hc
        simp at hc
    | cons k₂ tail =>
        rw [kind_of_kinds hnext]
        rw [hnext] at hc
        exact assign_of_line hc.symm
  refine ⟨_, _, statement_of_line ?_ (lineStatement_of_expression hopens hassign he), ?_, hd⟩
  · rintro m hm hkind
    rw [hkind] at hopens
    simp only [Opens, List.mem_cons, List.not_mem_nil, or_false] at hm hopens
    rcases hm with rfl | rfl | rfl | rfl <;> simp at hopens
  · rw [Stmt.unplaced, Stmt.unplaced, hsame]

-- A statement of one word.
theorem readable_word {k : Keyword}
    (hk : ∀ m ∈ [.indent, .keyword .ifWord, .keyword .whileWord, .keyword .forWord],
      Mark.keyword k ≠ m)
    (make : Span → Stmt)
    (hkinds : ∀ span, (make span).kinds = [.mark (.keyword k), .mark .newline])
    (hsame : ∀ span span', (make span).unplaced = (make span').unplaced)
    (hline : ∀ {c : Cursor} {t : Token} {next : c.Shorter} {d : next.1.Shorter},
      t.kind = .mark (.keyword k) → next.1.skip? .newline = some d →
      ∃ span, lineStatement c t next = .ok (make span, next.andThen d.atMost)) (span : Span) :
    StatementReadable (make span) := by
  intro source c t next ks htake hc _
  rw [kinds_of_take? htake, hkinds, List.cons_append, List.cons.injEq] at hc
  rcases skip?_of_kinds hc.2 (by decide) with ⟨d, hskip, hd⟩
  rcases hline hc.1 hskip with ⟨span', hanswer⟩
  refine ⟨_, _, statement_of_line ?_ hanswer, hsame _ _, hd⟩
  intro m hm
  rw [hc.1, Ne, Token.Kind.mark.injEq]
  exact hk m hm

theorem readable_returnWith (value : Option Expr) (span : Span) :
    StatementReadable (.returnWith value span) := by
  cases value with
  | none =>
      refine readable_word (k := .returnWord) (by decide) (.returnWith none) (fun _ => rfl)
        (fun _ _ => rfl) ?_ span
      intro c t next d hkind hskip
      exact ⟨_, by simp only [lineStatement, hkind, hskip]; rfl⟩
  | some value =>
      intro source c t next ks htake hc _
      rw [kinds_of_take? htake, Stmt.kinds, List.cons_append, List.append_assoc,
        List.singleton_append, List.cons.injEq] at hc
      rcases lineExpression_rereads value hc.2 with ⟨e', d, he, hsame, hd⟩
      -- The word does not stand alone, because no expression begins with the end of the line.
      have hskip : next.1.skip? .newline = none := by
        rcases value.exists_kinds with ⟨k, more, hkinds, hopens⟩
        refine skip?_eq_none ?_
        rw [hc.2, hkinds, List.cons_append, List.head?_cons, Ne, Option.some.injEq]
        rintro rfl
        exact absurd hopens (by simp [Opens])
      have hline : lineStatement c t next
          = .ok (.returnWith (some e') (t.span.through d.1.last), next.andThen d.atMost) := by
        simp only [lineStatement, hc.1, hskip, he]
      refine ⟨_, _, statement_of_line (by rw [hc.1]; simp) hline, ?_, hd⟩
      rw [Stmt.unplaced, Stmt.unplaced, hsame]

-- These are lines of one word.
theorem readable_breakLoop (span : Span) : StatementReadable (.breakLoop span) := by
  refine readable_word (k := .breakWord) (by decide) .breakLoop (fun _ => rfl) (fun _ _ => rfl) ?_
    span
  intro c t next d hkind hskip
  exact ⟨t.span, by simp only [lineStatement, hkind, expect, hskip]; rfl⟩

theorem readable_continueLoop (span : Span) : StatementReadable (.continueLoop span) := by
  refine readable_word (k := .continueWord) (by decide) .continueLoop (fun _ => rfl)
    (fun _ _ => rfl) ?_ span
  intro c t next d hkind hskip
  exact ⟨t.span, by simp only [lineStatement, hkind, expect, hskip]; rfl⟩

theorem readable_pass (span : Span) : StatementReadable (.pass span) := by
  refine readable_word (k := .passWord) (by decide) .pass (fun _ => rfl) (fun _ _ => rfl) ?_ span
  intro c t next d hkind hskip
  exact ⟨t.span, by simp only [lineStatement, hkind, expect, hskip]; rfl⟩

/-! ## Blocks -/

/-- A block opens and closes: what stands between are its statements. -/
theorem block_rereads {body : Block} (h : StatementsReadable body) (source : SourceLines)
    {c : Cursor} {ks : List Token.Kind} (hc : c.kinds = bodyKinds body ++ ks) :
    ∃ body' d, block source c = (body', [], d) ∧
      Stmt.unplacedBlock body' = Stmt.unplacedBlock body ∧ d.1.kinds = ks := by
  rw [bodyKinds, List.cons_append, List.append_assoc, List.singleton_append] at hc
  rcases skip?_of_kinds hc (by decide) with ⟨c₁, hopen, h₁⟩
  rcases h source c₁.1 ks h₁ with ⟨body', c₂, hbody, hsame, h₂⟩
  rcases skip?_of_kinds h₂ (by decide) with ⟨c₃, hclose, h₃⟩
  refine ⟨body', (c₁.andThen (c₂.andThen c₃.atMost)).atMost, ?_, hsame, h₃⟩
  rw [block, hopen]
  dsimp only
  generalize statements source c₁.1 = answer at hbody ⊢
  subst hbody
  simp only [hclose]

/-- The kinds of the tokens of the block for the case that no condition holds. -/
def otherwiseKinds : Option Block → List Token.Kind
  | some body =>
    .mark (.keyword .elseWord) :: .mark colon :: .mark .newline :: bodyKinds body
  | none => []

/-- That block without its places. -/
def unplacedOtherwise : Option Block → Option Block
  | some body => some (Stmt.unplacedBlock body)
  | none => none

/-- The further branches of a conditional are read as they were written. -/
def BranchesReadable (others : List (Expr × Block)) (otherwise : Option Block) : Prop :=
  ∀ (source : SourceLines) (c : Cursor) (ks : List Token.Kind),
    c.kinds = Stmt.kindsOfBranches .elifWord others ++ (otherwiseKinds otherwise ++ ks) →
    Apart ks → ∃ others' otherwise' d,
      branches source c = .ok (others', otherwise', [], d) ∧
        Stmt.unplacedBranches others' = Stmt.unplacedBranches others ∧
        unplacedOtherwise otherwise' = unplacedOtherwise otherwise ∧ d.1.kinds = ks

/-- Behind the last branch comes the block for the other case, or something that does not go on with
    the conditional. -/
theorem branchesReadable_nil {otherwise : Option Block}
    (h : ∀ body, otherwise = some body → StatementsReadable body) :
    BranchesReadable [] otherwise := by
  intro source c ks hc hks
  rw [Stmt.kindsOfBranches, List.nil_append] at hc
  cases otherwise with
  | none =>
      refine ⟨[], none, c.here, ?_, rfl, rfl, hc⟩
      rw [branches]
      split
      · rfl
      · next t next htake =>
          have hhead := kinds_of_take? htake
          split
          · next hkind =>
              rw [hc, hkind] at hhead
              exact absurd (congrArg List.head? hhead) hks.1
          · next hkind =>
              rw [hc, hkind] at hhead
              exact absurd (congrArg List.head? hhead) hks.2
          · rfl
  | some body =>
      rw [otherwiseKinds, List.cons_append, List.cons_append, List.cons_append] at hc
      rcases take?_of_kinds hc rfl with ⟨t, c₁, htake, hkind, h₁⟩
      rcases headerEnd_rereads h₁ with ⟨c₂, hend, h₂⟩
      rcases block_rereads (h body rfl) source h₂ with ⟨body', c₃, hbody, hsame, h₃⟩
      refine ⟨[], some body', (c₁.andThen (c₂.andThen c₃).atMost).atMost, ?_, rfl, ?_, h₃⟩
      · rw [branches, htake]
        simp only [hkind, hend, hbody]
      · rw [unplacedOtherwise, unplacedOtherwise, hsame]

/-- A further branch is a header and a block, and then the branches behind it. -/
theorem branchesReadable_cons (condition : Expr) {body : Block} (hbody : StatementsReadable body)
    {others : List (Expr × Block)} {otherwise : Option Block}
    (hothers : BranchesReadable others otherwise) :
    BranchesReadable ((condition, body) :: others) otherwise := by
  intro source c ks hc hks
  have hkinds : c.kinds = .mark (.keyword .elifWord) :: (condition.kinds ++ .mark colon ::
      .mark .newline :: (bodyKinds body ++ (Stmt.kindsOfBranches .elifWord others ++
        (otherwiseKinds otherwise ++ ks)))) := by
    rw [hc]
    simp only [Stmt.kindsOfBranches, headerKinds, bodyKinds, List.cons_append, List.append_assoc,
      List.nil_append]
  rcases take?_of_kinds hkinds rfl with ⟨t, c₁, htake, hkind, h₁⟩
  rcases header_rereads condition h₁ with ⟨e', c₂, he, hsame₂, h₂⟩
  rcases block_rereads hbody source h₂ with ⟨body', c₃, hblock, hsame₃, h₃⟩
  rcases hothers source c₃.1 ks h₃ hks with
    ⟨others', otherwise', c₄, hbranches, hsame₄, hsame, h₄⟩
  refine ⟨(e', body') :: others', otherwise',
    (c₁.andThen (c₂.andThen (c₃.andThen c₄)).atMost).atMost, ?_, ?_, hsame, h₄⟩
  · rw [branches, htake]
    simp only [hkind, he]
    dsimp only at hblock
    generalize block source c₂.1 = answer at hblock ⊢
    subst hblock
    simp only [hbranches, List.append_nil]
  · rw [Stmt.unplacedBranches, Stmt.unplacedBranches, hsame₂, hsame₃, hsame₄]

/-- A conditional takes all its branches, and stops where none follows. -/
theorem readable_cond (condition : Expr) {body : Block} (hbody : StatementsReadable body)
    {others : List (Expr × Block)} {otherwise : Option Block}
    (hothers : BranchesReadable others otherwise) (span : Span) :
    StatementReadable (.cond ((condition, body) :: others) otherwise span) := by
  intro source c t c₁ ks htake hc hks
  have hkinds : c.kinds = .mark (.keyword .ifWord) :: (condition.kinds ++ .mark colon ::
      .mark .newline :: (bodyKinds body ++ (Stmt.kindsOfBranches .elifWord others ++
        (otherwiseKinds otherwise ++ ks)))) := by
    rw [hc]
    cases otherwise <;>
      simp only [Stmt.kinds, Stmt.kindsOfBranches, headerKinds, bodyKinds, otherwiseKinds,
        List.cons_append, List.append_assoc, List.nil_append, List.append_nil]
  rw [kinds_of_take? htake, List.cons.injEq] at hkinds
  rcases hkinds with ⟨hkind, h₁⟩
  rcases header_rereads condition h₁ with ⟨e', c₂, he, hsame₂, h₂⟩
  rcases block_rereads hbody source h₂ with ⟨body', c₃, hblock, hsame₃, h₃⟩
  rcases hothers source c₃.1 ks h₃ hks with
    ⟨others', otherwise', c₄, hbranches, hsame₄, hsame, h₄⟩
  refine ⟨.cond ((e', body') :: others') otherwise' t.span,
    c₁.andThen (c₂.andThen (c₃.andThen c₄)).atMost, ?_, ?_, h₄⟩
  · rw [statement]
    simp only [hkind, he]
    dsimp only at hblock
    generalize block source c₂.1 = answer at hblock ⊢
    subst hblock
    simp only [hbranches, List.append_nil]
  · have hcond : ∀ branches otherwise span, (Stmt.cond branches otherwise span).unplaced
        = .cond (Stmt.unplacedBranches branches) (unplacedOtherwise otherwise) .nowhere := by
      intro branches otherwise span
      cases otherwise <;> rfl
    rw [hcond, hcond, Stmt.unplacedBranches, Stmt.unplacedBranches, hsame₂, hsame₃, hsame₄, hsame]

/-- Loops are a header and a block. -/
theorem readable_whileLoop (condition : Expr) {body : Block} (hbody : StatementsReadable body)
    (span : Span) : StatementReadable (.whileLoop condition body span) := by
  intro source c t c₁ ks htake hc _
  have hkinds : c.kinds = .mark (.keyword .whileWord) :: (condition.kinds ++ .mark colon ::
      .mark .newline :: (bodyKinds body ++ ks)) := by
    rw [hc]
    simp only [Stmt.kinds, headerKinds, bodyKinds, List.cons_append, List.append_assoc,
      List.nil_append]
  rw [kinds_of_take? htake, List.cons.injEq] at hkinds
  rcases hkinds with ⟨hkind, h₁⟩
  rcases header_rereads condition h₁ with ⟨e', c₂, he, hsame₂, h₂⟩
  rcases block_rereads hbody source h₂ with ⟨body', c₃, hblock, hsame₃, h₃⟩
  refine ⟨.whileLoop e' body' t.span, c₁.andThen (c₂.andThen c₃).atMost, ?_, ?_, h₃⟩
  · rw [statement]
    simp only [hkind, he]
    dsimp only at hblock
    generalize block source c₂.1 = answer at hblock ⊢
    subst hblock
    rfl
  · rw [Stmt.unplaced, Stmt.unplaced, hsame₂, hsame₃]

theorem readable_forLoop (name : String) (items : Expr) {body : Block}
    (hbody : StatementsReadable body) (span : Span) :
    StatementReadable (.forLoop name items body span) := by
  intro source c t c₁ ks htake hc _
  have hkinds : c.kinds = .mark (.keyword .forWord) :: .name name ::
      (headerKinds .inWord items ++ (bodyKinds body ++ ks)) := by
    rw [hc]
    simp only [Stmt.kinds, bodyKinds, List.cons_append, List.append_assoc]
  rw [kinds_of_take? htake, List.cons.injEq] at hkinds
  rcases hkinds with ⟨hkind, h₁⟩
  rcases forHeader_rereads name items h₁ with ⟨e', c₂, he, hsame₂, h₂⟩
  rcases block_rereads hbody source h₂ with ⟨body', c₃, hblock, hsame₃, h₃⟩
  refine ⟨.forLoop name e' body' t.span, c₁.andThen (c₂.andThen c₃).atMost, ?_, ?_, h₃⟩
  · rw [statement]
    simp only [hkind, he]
    generalize block source c₂.1 = answer at hblock ⊢
    subst hblock
    rfl
  · rw [Stmt.unplaced, Stmt.unplaced, hsame₂, hsame₃]

/-- What a statement can begin with: neither the closing of a block nor the end of the script, and
    nothing that goes on with a conditional. -/
theorem Stmt.exists_kinds {s : Stmt} (h : s.Writable) :
    ∃ k more, s.kinds = k :: more ∧ ∀ m ∈ [.dedent, .endOfInput, .keyword .elifWord,
      .keyword .elseWord], k ≠ .mark m := by
  have hmark : ∀ m : Mark, m ∉ [.dedent, .endOfInput, .keyword .elifWord, .keyword .elseWord] →
      ∀ m' ∈ [.dedent, .endOfInput, .keyword .elifWord, .keyword .elseWord],
        Token.Kind.mark m ≠ .mark m' := by
    intro m hm m' hm' heq
    rw [Token.Kind.mark.injEq] at heq
    exact hm (heq ▸ hm')
  cases s with
  | assign name op value _ => exact ⟨.name name, _, rfl, fun _ _ => nofun⟩
  | expr value _ =>
      rcases value.exists_kinds with ⟨k, more, hkinds, hopens⟩
      refine ⟨k, more ++ [.mark .newline], by rw [Stmt.kinds, hkinds]; rfl, ?_⟩
      rintro m hm rfl
      simp only [Opens, List.mem_cons, List.not_mem_nil, or_false] at hm hopens
      rcases hm with rfl | rfl | rfl | rfl <;> simp at hopens
  | cond branches otherwise _ =>
      cases branches with
      | nil => cases otherwise <;> exact absurd rfl h.1
      | cons branch rest =>
          rcases branch with ⟨condition, body⟩
          cases otherwise <;> exact ⟨_, _, rfl, hmark (.keyword .ifWord) (by decide)⟩
  | whileLoop condition body _ => exact ⟨_, _, rfl, hmark (.keyword .whileWord) (by decide)⟩
  | forLoop name items body _ => exact ⟨_, _, rfl, hmark (.keyword .forWord) (by decide)⟩
  | returnWith value _ =>
      cases value <;> exact ⟨_, _, rfl, hmark (.keyword .returnWord) (by decide)⟩
  | breakLoop _ => exact ⟨_, _, rfl, hmark (.keyword .breakWord) (by decide)⟩
  | continueLoop _ => exact ⟨_, _, rfl, hmark (.keyword .continueWord) (by decide)⟩
  | pass _ => exact ⟨_, _, rfl, hmark (.keyword .passWord) (by decide)⟩
  | skipped text _ => exact h.elim

/-! ## Programs -/

-- The first token of a statement, which closes no block.
theorem take?_of_statement {s : Stmt} (h : s.Writable) {c : Cursor} {ks : List Token.Kind}
    (hc : c.kinds = s.kinds ++ ks) :
    ∃ t next, c.take? = some (t, next) ∧ t.kind.isMark .dedent = false := by
  rcases Stmt.exists_kinds h with ⟨k, more, hkinds, hk⟩
  have hsub : ∀ m ∈ [.dedent, .endOfInput],
      m ∈ [Mark.dedent, .endOfInput, .keyword .elifWord, .keyword .elseWord] := by
    decide
  have hmark : ∀ m ∈ [.dedent, .endOfInput], k.isMark m = false :=
    fun m hm => Bool.eq_false_iff.mpr fun hm' => hk m (hsub m hm) (isMark_eq_true_iff.mp hm')
  rw [hkinds, List.cons_append] at hc
  rcases take?_of_kinds hc (hmark _ (by decide)) with ⟨t, next, htake, hkind, _⟩
  exact ⟨t, next, htake, hkind ▸ hmark _ (by decide)⟩

-- What stands behind a statement of a block: another one, or what stands behind the block.
theorem apart_kindsOfBlock {body : Block} (h : Stmt.WritableBlock body) {ks : List Token.Kind}
    (hks : Apart ks) : Apart (Stmt.kindsOfBlock body ++ ks) := by
  cases body with
  | nil => exact hks
  | cons stmt rest =>
      rcases Stmt.exists_kinds h.1 with ⟨k, more, hkinds, hk⟩
      rw [Stmt.kindsOfBlock, hkinds]
      refine ⟨?_, ?_⟩
      · exact fun heq => hk (.keyword .elifWord) (by decide) (Option.some.inj heq)
      · exact fun heq => hk (.keyword .elseWord) (by decide) (Option.some.inj heq)

theorem statementsReadable_nil : StatementsReadable [] := by
  intro source c ks hc
  rcases take?_of_kinds hc rfl with ⟨t, next, htake, hkind, _⟩
  refine ⟨[], c.here, ?_, rfl, hc⟩
  rw [statements, htake]
  simp only [hkind, Token.Kind.isMark, decide_true, if_true]

/-- Statements follow one another. The next one begins with no `elif` and no `else`, so it does not
    go on with a conditional in front of it. -/
theorem statementsReadable_cons {stmt : Stmt} {rest : Block} (h : stmt.Writable)
    (hwritable : Stmt.WritableBlock rest) (hstmt : StatementReadable stmt)
    (hrest : StatementsReadable rest) : StatementsReadable (stmt :: rest) := by
  intro source c ks hc
  rw [Stmt.kindsOfBlock, List.append_assoc] at hc
  rcases take?_of_statement h hc with ⟨t, next, htake, hdedent⟩
  have hbelow : Apart (.mark .dedent :: ks) := ⟨nofun, nofun⟩
  rcases hstmt source c t next _ htake hc (apart_kindsOfBlock hwritable hbelow) with
    ⟨stmt', c₁, hanswer, hsame, h₁⟩
  rcases hrest source c₁.1 ks h₁ with ⟨rest', c₂, hanswers, hsame₂, h₂⟩
  refine ⟨stmt' :: rest', (c₁.andThen c₂).atMost, ?_, ?_, h₂⟩
  · rw [statements, htake]
    simp only [hdedent, Bool.false_eq_true, if_false]
    generalize statement source c t next = answer at hanswer ⊢
    subst hanswer
    simp only [hanswers, List.append_nil]
  · rw [Stmt.unplacedBlock, Stmt.unplacedBlock, hsame, hsame₂]

mutual

/-- Statements are read as they were written. -/
theorem Stmt.readable (s : Stmt) (h : s.Writable) : StatementReadable s := by
  cases s with
  | assign name op value span => exact readable_assign name op value span
  | expr value span => exact readable_expr value span
  | cond branches otherwise span =>
      cases branches with
      | nil => cases otherwise <;> exact absurd rfl h.1
      | cons branch rest =>
          rcases branch with ⟨condition, body⟩
          cases otherwise with
          | none =>
              rw [Stmt.Writable] at h
              exact readable_cond condition (Stmt.readableBlock body h.2.1.2.2.1)
                (Stmt.readableBranches rest h.2.1.2.2.2 none nofun) span
          | some last =>
              rw [Stmt.Writable] at h
              have hlast := Stmt.readableBlock last h.2.2.2
              exact readable_cond condition (Stmt.readableBlock body h.2.1.2.2.1)
                (Stmt.readableBranches rest h.2.1.2.2.2 (some last)
                  fun _ heq => Option.some.inj heq ▸ hlast) span
  | whileLoop condition body span =>
      exact readable_whileLoop condition (Stmt.readableBlock body h.2.2) span
  | forLoop name items body span =>
      exact readable_forLoop name items (Stmt.readableBlock body h.2.2.2) span
  | returnWith value span => exact readable_returnWith value span
  | breakLoop span => exact readable_breakLoop span
  | continueLoop span => exact readable_continueLoop span
  | pass span => exact readable_pass span
  | skipped text span => exact h.elim

-- The branches and the statements of a block, by the same recursion.
theorem Stmt.readableBranches (branches : List (Expr × List Stmt))
    (h : Stmt.WritableBranches branches) (otherwise : Option Block)
    (hlast : ∀ body, otherwise = some body → StatementsReadable body) :
    BranchesReadable branches otherwise := by
  cases branches with
  | nil => exact branchesReadable_nil hlast
  | cons branch rest =>
      rcases branch with ⟨condition, body⟩
      exact branchesReadable_cons condition (Stmt.readableBlock body h.2.2.1)
        (Stmt.readableBranches rest h.2.2.2 otherwise hlast)

theorem Stmt.readableBlock (body : Block) (h : Stmt.WritableBlock body) :
    StatementsReadable body := by
  cases body with
  | nil => exact statementsReadable_nil
  | cons stmt rest =>
      exact statementsReadable_cons h.1 h.2 (Stmt.readable stmt h.1) (Stmt.readableBlock rest h.2)

end

/-- At the top level statements follow one another up to the end of the input. -/
theorem topLevel_rereads (source : SourceLines) (program : Block)
    (h : Stmt.WritableBlock program) {c : Cursor}
    (hc : c.kinds = Stmt.kindsOfBlock program ++ [.mark .endOfInput]) :
    ∃ program', topLevel source c = (program', []) ∧
      Stmt.unplacedBlock program' = Stmt.unplacedBlock program := by
  induction program generalizing c with
  | nil =>
      refine ⟨[], ?_, rfl⟩
      rw [topLevel, take?_of_endOfInput hc]
  | cons stmt rest ih =>
      rw [Stmt.kindsOfBlock, List.append_assoc] at hc
      rcases take?_of_statement h.1 hc with ⟨t, next, htake, hdedent⟩
      have hbelow : Apart [.mark .endOfInput] := ⟨by simp, by simp⟩
      rcases Stmt.readable stmt h.1 source c t next _ htake hc (apart_kindsOfBlock h.2 hbelow) with
        ⟨stmt', c₁, hanswer, hsame, h₁⟩
      rcases ih h.2 h₁ with ⟨rest', hanswers, hsame₂⟩
      refine ⟨stmt' :: rest', ?_, ?_⟩
      · rw [topLevel, htake]
        simp only [hdedent, Bool.false_eq_true, if_false]
        generalize statement source c t next = answer at hanswer ⊢
        subst hanswer
        simp only [hanswers, List.append_nil]
      · rw [Stmt.unplacedBlock, Stmt.unplacedBlock, hsame, hsame₂]

/-- A written program is read back: without a fault, and as the same program up to places. -/
theorem compile_written (program : Block) (h : Stmt.WritableBlock program) :
    ∃ parsed, compile (written program) = .ok parsed ∧ parsed.faults = [] ∧
      Stmt.unplacedBlock parsed.body = Stmt.unplacedBlock program := by
  rcases tokenize_written program h with ⟨tokens, htokens, hkinds⟩
  rcases topLevel_rereads (.ofString (written program)) program h (c := .start tokens) hkinds with
    ⟨program', htop, hsame⟩
  refine ⟨parse tokens (written program), ?_, ?_, ?_⟩
  · rw [compile, htokens]
  · rw [parse, htop]
  · rw [parse, htop]
    exact hsame

/-- A patrol along a list of fields, with a block in each branch and a text that has to be
    escaped. -/
def patrol : Block :=
  let var := fun name => Expr.var name .nowhere
  let int := fun n => Expr.lit (.int n) .nowhere
  let call := fun name args => Expr.call name args .nowhere
  [ .assign "fields" .set (.list [.list [int 3, int 0] .nowhere, int 7] .nowhere) .nowhere,
    .forLoop "field" (var "fields")
      [ .cond
          [ (.binary .le (call "energy" []) (.unary .neg (var "low") .nowhere) .nowhere,
              [.expr (call "print" [.lit (.str "a \"short\" rest\n") .nowhere]) .nowhere,
                .continueLoop .nowhere]),
            (.unary .not (.index (.index (var "fields") (int 0) .nowhere) (int 1) .nowhere)
                .nowhere,
              [.whileLoop (.lit (.bool true) .nowhere) [.breakLoop .nowhere] .nowhere]) ]
          (some [.assign "low" .add (int 1) .nowhere]) .nowhere ]
      .nowhere,
    .returnWith (some (.lit .none .nowhere)) .nowhere ]

-- A text in quotes, a nested block and a conditional in one.
theorem compile_written_patrol :
    Stmt.WritableBlock patrol ∧ ∃ parsed, compile (written patrol) = .ok parsed ∧
      parsed.faults = [] ∧ Stmt.unplacedBlock parsed.body = Stmt.unplacedBlock patrol := by
  have h : Stmt.WritableBlock patrol := by
    simp only [patrol, Stmt.WritableBlock, Stmt.Writable, Stmt.WritableBranches, Expr.Writable,
      Expr.WritableAll, Literal.Writable, ne_eq, reduceCtorEq, not_false_eq_true]
    decide
  exact ⟨h, compile_written patrol h⟩

end Script

end Farmhand
