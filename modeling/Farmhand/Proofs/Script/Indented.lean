import Farmhand.Proofs.Script.Quoting

/-!
# Indented Scripts

What becomes of a script whose first line is indented: that line opens a block without a header,
and the whole block is passed over as one bad statement. The block lasts until a line comes back to
the margin. If none does, nothing of the script is left but the one complaint; if one does, there
is a statement after it. A script whose first line stands at the margin gets no such complaint
about that line. So shifting a script to the right so far that no line is left at the margin is
always noticed, unless both texts are refused at the same line.

## Main definitions

* `account`: The number of statements of a script and what is wrong with its lines.

## Theorems

* `changeIndent_eq_some`: What the blocks are after a line.
* `rest_skipBlockFrom_codeTokens`: A block ends where a line comes back to the margin.
* `account_of_indented`: A script without a line at the margin is one complaint.
* `account_ne_of_margin`: A script with a line at the margin is something else.
-/

namespace Farmhand

namespace Script

open Cursor

/-- The number of statements of a script and what is wrong with its lines. -/
def account (source : String) : Except LexError (Nat × List Fault) :=
  (compile source).map fun p => (p.body.length, p.faults)

theorem closeBlocks_length (width : Nat) (blocks : List Nat) :
    (closeBlocks width blocks).1 + (closeBlocks width blocks).2.length = blocks.length := by
  induction blocks with
  | nil => rfl
  | cons top outer ih =>
      rw [closeBlocks]
      by_cases h : width < top
      · simp only [if_pos h, List.length_cons]
        omega
      · simp only [if_neg h, List.length_cons, Nat.zero_add]

theorem mem_of_mem_closeBlocks (width : Nat) (blocks : List Nat) :
    ∀ b ∈ (closeBlocks width blocks).2, b ∈ blocks := by
  induction blocks with
  | nil => exact nofun
  | cons top outer ih =>
      rw [closeBlocks]
      by_cases h : width < top
      · simp only [if_pos h]
        exact fun b hb => List.mem_cons_of_mem top (ih b hb)
      · simp only [if_neg h]
        exact fun b hb => hb

/-- A line either opens a block, or it closes some and stands at the width of what is left. A width
    of zero is the margin, at which no block is left. -/
theorem changeIndent_eq_some {width : Nat} {blocks inner : List Nat} {shapes : List Layout}
    (hpos : ∀ b ∈ blocks, 0 < b) (h : changeIndent width blocks = some (shapes, inner)) :
    (∀ b ∈ inner, 0 < b) ∧ (inner = [] ↔ width = 0) ∧
      (shapes = [.indent] ∧ inner.length = blocks.length + 1 ∨
        ∃ count, shapes = List.replicate count .dedent ∧ count + inner.length = blocks.length) := by
  unfold changeIndent at h
  by_cases hopen : blocks.headD 0 < width
  · simp only [if_pos hopen, Option.some.injEq, Prod.mk.injEq] at h
    rcases h with ⟨hshapes, hinner⟩
    rw [← hshapes, ← hinner]
    refine ⟨?_, ⟨nofun, fun hw => by omega⟩, Or.inl ⟨rfl, rfl⟩⟩
    intro b hb
    rcases List.mem_cons.mp hb with hb | hb
    · rw [hb]
      exact Nat.lt_of_le_of_lt (Nat.zero_le _) hopen
    · exact hpos b hb
  · -- The line closes the blocks that are wider, and has to stand at the width of the next one.
    have hlength := closeBlocks_length width blocks
    have hmem := mem_of_mem_closeBlocks width blocks
    by_cases hhead : (closeBlocks width blocks).2.headD 0 = width
    · simp only [if_neg hopen, if_pos hhead, Option.some.injEq, Prod.mk.injEq] at h
      rcases h with ⟨hshapes, hinner⟩
      rw [hinner] at hlength hmem hhead
      refine ⟨fun b hb => hpos b (hmem b hb), ?_, Or.inr ⟨_, hshapes.symm, hlength⟩⟩
      cases inner with
      | nil => exact ⟨fun _ => hhead.symm, fun _ => rfl⟩
      | cons top outer =>
          have htop := hpos top (hmem top List.mem_cons_self)
          rw [List.headD_cons] at hhead
          exact ⟨nofun, fun hw => by omega⟩
    · simp only [if_neg hopen, if_neg hhead, reduceCtorEq] at h

theorem isMark_eq_true_iff {k : Token.Kind} {m : Mark} : k.isMark m = true ↔ k = .mark m := by
  cases k with
  | mark m' => simp only [Token.Kind.isMark, decide_eq_true_eq, Token.Kind.mark.injEq]
  | _ => exact ⟨nofun, nofun⟩

-- Where skipping ends does not depend on what was read last.
theorem rest_skipBlockFrom (depth : Nat) (last last' : Span) (tokens : List Token) :
    (skipBlockFrom depth last tokens).rest = (skipBlockFrom depth last' tokens).rest := by
  cases tokens with
  | nil => rfl
  | cons t rest =>
      unfold skipBlockFrom
      split
      · rfl
      · rfl

theorem rest_skipBlockFrom_plain (depth : Nat) (last : Span) (plain tokens : List Token)
    (h : ∀ t ∈ plain, t.IsPlain) :
    (skipBlockFrom depth last (plain ++ tokens)).rest = (skipBlockFrom depth last tokens).rest := by
  induction plain generalizing last with
  | nil => rfl
  | cons t rest ih =>
      rcases h t List.mem_cons_self with ⟨hindent, hdedent, hend⟩
      rw [List.cons_append, skipBlockFrom.eq_def]
      simp only [hindent, hdedent, hend, Bool.false_eq_true, if_false]
      rw [ih t.span fun t' ht => h t' (List.mem_cons_of_mem t ht)]
      exact rest_skipBlockFrom depth _ _ tokens

theorem rest_skipBlockFrom_indent (depth : Nat) (last span : Span) (tokens : List Token) :
    (skipBlockFrom depth last (⟨.mark .indent, span⟩ :: tokens)).rest
      = (skipBlockFrom (depth + 1) last tokens).rest :=
  rest_skipBlockFrom (depth + 1) span last tokens

-- Closings take away as many of the open blocks, as long as one is left.
theorem rest_skipBlockFrom_dedents (count depth : Nat) (last span : Span) (tokens : List Token) :
    (skipBlockFrom (count + depth) last
        (List.replicate count (⟨.mark .dedent, span⟩ : Token) ++ tokens)).rest
      = (skipBlockFrom depth last tokens).rest := by
  induction count generalizing last with
  | zero => rw [Nat.zero_add, List.replicate_zero, List.nil_append]
  | succ count ih =>
      rw [Nat.add_right_comm, List.replicate_succ, List.cons_append]
      exact (ih span).trans (rest_skipBlockFrom depth span last tokens)

-- One closing more ends the block.
theorem rest_skipBlockFrom_close (depth : Nat) (last span : Span) (tokens : List Token) :
    (skipBlockFrom depth last
        (List.replicate (depth + 1) (⟨.mark .dedent, span⟩ : Token) ++ tokens)).rest = tokens := by
  rw [List.replicate_succ', List.append_assoc]
  exact rest_skipBlockFrom_dedents depth 0 last span (⟨.mark .dedent, span⟩ :: tokens)

/-- A block goes on until a line comes back to the margin. Without such a line it ends with the
    script; with one, the tokens of that line are left. -/
theorem rest_skipBlockFrom_codeTokens {code : List (Nat × List Char)} {blocks : List Nat}
    {lastLine : Nat} {tokens : List Token} (hne : blocks ≠ []) (hpos : ∀ b ∈ blocks, 0 < b)
    (h : codeTokens blocks lastLine code = .ok tokens) (last : Span) :
    (∀ p ∈ code, 0 < indentWidth 0 p.2) ∧
        (∃ t, (skipBlockFrom (blocks.length - 1) last tokens).rest = [t] ∧
          t.kind.isMark .endOfInput = true) ∨
      (∃ p ∈ code, indentWidth 0 p.2 = 0) ∧
        ∃ t more, (skipBlockFrom (blocks.length - 1) last tokens).rest = t :: more ∧ t.IsPlain := by
  -- Induction on the lines; the open blocks are never used up before the margin is reached.
  induction code generalizing blocks lastLine tokens with
  | nil =>
      have hlength : blocks.length = blocks.length - 1 + 1 := by
        have := List.length_pos_iff.mpr hne
        omega
      simp only [codeTokens, Except.ok.injEq] at h
      rw [← h, List.map_const', hlength, Nat.add_sub_cancel]
      exact Or.inl ⟨fun p hp => absurd hp List.not_mem_nil, _, rest_skipBlockFrom_close _ _ _ _,
        rfl⟩
  | cons p rest ih =>
      rcases p with ⟨number, line⟩
      rcases codeTokens_cons_eq_ok_iff.mp h with ⟨shapes, inner, after, hchange, hafter, htokens⟩
      rcases changeIndent_eq_some hpos hchange with ⟨hposInner, hmargin, hshapes⟩
      have hplain := fun t ht => (lineTokens_plain number (indentLength line + 1)
        (line.drop (indentLength line)) t ht).1
      have hlength := List.length_pos_iff.mpr hne
      by_cases hinner : inner = []
      · -- The line is at the margin: its layout closes every block, and its own tokens are left.
        rcases hshapes with ⟨_, hgrown⟩ | ⟨count, hshapes, hcount⟩
        · rw [hinner, List.length_nil] at hgrown
          omega
        · rw [hinner, List.length_nil, Nat.add_zero] at hcount
          have hdepth : count = blocks.length - 1 + 1 := by omega
          refine Or.inr ⟨⟨_, List.mem_cons_self, hmargin.mp hinner⟩, ?_⟩
          rcases List.exists_cons_of_ne_nil (lineTokens_ne_nil number (indentLength line + 1)
            (line.drop (indentLength line))) with ⟨t, more, hline⟩
          rw [htokens, hshapes, List.map_replicate, List.append_assoc, hdepth,
            rest_skipBlockFrom_close, hline]
          exact ⟨t, more ++ after, rfl, hplain t (hline ▸ List.mem_cons_self)⟩
      · -- The line is inside: a block is still open behind it, and the lines below decide.
        have hinnerLength := List.length_pos_iff.mpr hinner
        have hwidth : 0 < indentWidth 0 line :=
          Nat.pos_of_ne_zero fun hw => hinner (hmargin.mpr hw)
        have hskip : (skipBlockFrom (blocks.length - 1) last tokens).rest
            = (skipBlockFrom (inner.length - 1) last after).rest := by
          rcases hshapes with ⟨hshapes, hgrown⟩ | ⟨count, hshapes, hcount⟩
          · have hdepth : blocks.length - 1 + 1 = inner.length - 1 := by omega
            rw [htokens, hshapes, List.append_assoc, List.map_cons, List.map_nil,
              List.singleton_append]
            exact (rest_skipBlockFrom_indent _ _ _ _).trans
              (hdepth ▸ rest_skipBlockFrom_plain _ _ _ _ hplain)
          · have hdepth : blocks.length - 1 = count + (inner.length - 1) := by omega
            rw [htokens, hshapes, List.append_assoc, List.map_replicate, hdepth]
            exact (rest_skipBlockFrom_dedents _ _ _ _ _).trans
              (rest_skipBlockFrom_plain _ _ _ _ hplain)
        rw [hskip]
        rcases ih hinner hposInner hafter with ⟨hall, hend⟩ | ⟨⟨p, hp, hp0⟩, hleft⟩
        · exact Or.inl ⟨List.forall_mem_cons.mpr ⟨hwidth, hall⟩, hend⟩
        · exact Or.inr ⟨⟨p, List.mem_cons_of_mem _ hp, hp0⟩, hleft⟩

theorem take?_eq_none {c : Cursor} {t : Token} {rest : List Token} (hrest : c.rest = t :: rest)
    (hend : t.kind.isMark .endOfInput = true) : c.take? = none := by
  cases htake : c.take? with
  | none => rfl
  | some answer =>
      rcases answer with ⟨t', next⟩
      have hsome := take?_eq_some htake
      rw [hrest, List.cons.injEq] at hsome
      rw [← hsome.1.1, hend] at hsome
      exact absurd hsome.2 nofun

theorem exists_take? {c : Cursor} {t : Token} {rest : List Token} (hrest : c.rest = t :: rest)
    (hend : t.kind.isMark .endOfInput = false) :
    ∃ next, c.take? = some (t, next) ∧ next.1 = ⟨t.span, rest⟩ := by
  rcases c with ⟨last, tokens⟩
  subst hrest
  refine ⟨⟨⟨t.span, rest⟩, Nat.lt_succ_self _⟩, ?_, rfl⟩
  simp only [take?, hend, Bool.false_eq_true, if_false]

theorem topLevel_of_end (source : Text.SourceLines) {c : Cursor} {t : Token}
    (hrest : c.rest = [t]) (hend : t.kind.isMark .endOfInput = true) :
    topLevel source c = ([], []) := by
  rw [topLevel, take?_eq_none hrest hend]

theorem topLevel_of_plain (source : Text.SourceLines) {c : Cursor} {t : Token}
    {rest : List Token} (hrest : c.rest = t :: rest) (hplain : t.IsPlain) :
    (topLevel source c).1 ≠ [] := by
  rcases exists_take? hrest hplain.2.2 with ⟨next, htake, _⟩
  rw [topLevel, htake]
  simp only [hplain.2.1, Bool.false_eq_true, if_false]
  exact List.cons_ne_nil _ _

-- An opening without a header is one bad statement, together with its whole block.
theorem topLevel_of_indent (source : Text.SourceLines) {c : Cursor} {span : Span}
    {rest : List Token} (hrest : c.rest = ⟨.mark .indent, span⟩ :: rest) :
    ∃ d stmt, d.rest = (skipBlockFrom 0 span rest).rest ∧
      topLevel source c = (stmt :: (topLevel source d).1,
        ⟨span.line, .unexpectedIndent⟩ :: (topLevel source d).2) := by
  rcases exists_take? hrest rfl with ⟨next, htake, hnext⟩
  refine ⟨next.1.skipBlock.1, .skipped ((source.line? span.line).getD "") span, ?_, ?_⟩
  · rw [hnext]
    rfl
  · rw [topLevel, htake]
    simp only [Token.Kind.isMark]
    rw [statement]
    rfl

theorem changeIndent_nil (width : Nat) :
    changeIndent width [] = some (if 0 < width then ([.indent], [width]) else ([], [])) := by
  cases width with
  | zero => rfl
  | succ n => rfl

-- The start of a script whose first line is indented.
theorem rest_of_indented (source : Text.SourceLines) {number : Nat} {line : List Char}
    {rest : List (Nat × List Char)} {tokens : List Token}
    (h : codeTokens [] 0 ((number, line) :: rest) = .ok tokens)
    (hwidth : 0 < indentWidth 0 line) :
    ∃ d stmt, topLevel source (.start tokens) = (stmt :: (topLevel source d).1,
        ⟨number, .unexpectedIndent⟩ :: (topLevel source d).2) ∧
      ((∀ p ∈ rest, 0 < indentWidth 0 p.2) ∧
          (∃ t, d.rest = [t] ∧ t.kind.isMark .endOfInput = true) ∨
        (∃ p ∈ rest, indentWidth 0 p.2 = 0) ∧ ∃ t more, d.rest = t :: more ∧ t.IsPlain) := by
  rcases codeTokens_cons_eq_ok_iff.mp h with ⟨shapes, inner, after, hchange, hafter, htokens⟩
  rw [changeIndent_nil, if_pos hwidth, Option.some.injEq, Prod.mk.injEq] at hchange
  rw [← hchange.1, List.map_cons, List.map_nil, List.append_assoc, List.singleton_append]
    at htokens
  rcases topLevel_of_indent source (c := .start tokens) htokens with ⟨d, stmt, hd, htop⟩
  have hplain := fun t ht => (lineTokens_plain number (indentLength line + 1)
    (line.drop (indentLength line)) t ht).1
  rw [rest_skipBlockFrom_plain _ _ _ _ hplain] at hd
  rw [← hchange.2] at hafter
  refine ⟨d, stmt, htop, ?_⟩
  rw [hd]
  have hpos : ∀ b ∈ [indentWidth 0 line], 0 < b :=
    fun b hb => List.mem_singleton.mp hb ▸ hwidth
  exact rest_skipBlockFrom_codeTokens (List.cons_ne_nil _ _) hpos hafter _

/-- The complaint about a script of which nothing stands at the margin. -/
def complaint (number : Nat) : Nat × List Fault :=
  (1, [⟨number, .unexpectedIndent⟩])

-- An account is one of the tokens, once the layout can be read.
theorem account_eq_ok_iff {source : String} {answer : Nat × List Fault} :
    account source = .ok answer ↔
      ∃ tokens, codeTokens [] 0 (codeLines 1 (Text.lines source.toList)) = .ok tokens ∧
        ((topLevel (.ofString source) (.start tokens)).1.length,
          (topLevel (.ofString source) (.start tokens)).2) = answer := by
  unfold account compile
  rw [tokenize_eq_codeTokens]
  cases codeTokens [] 0 (codeLines 1 (Text.lines source.toList)) with
  | error e => exact ⟨nofun, fun ⟨_, h, _⟩ => nomatch h⟩
  | ok tokens =>
      constructor
      · exact fun h => ⟨tokens, rfl, Except.ok.inj h⟩
      · rintro ⟨_, htokens, h⟩
        rw [Except.ok.inj htokens, ← h]
        rfl

theorem compile_of_account {source : String} {e : LexError} (h : account source = .error e) :
    compile source = .error e := by
  unfold account at h
  cases hcompile : compile source with
  | error e' =>
      rw [hcompile] at h
      rw [Except.error.inj h]
  | ok p =>
      rw [hcompile] at h
      cases h

/-- A script without a line at the margin is nothing but one complaint, unless it is refused. -/
theorem account_of_indented {source : String} {number : Nat} {line : List Char}
    {rest : List (Nat × List Char)} {answer : Nat × List Fault}
    (hcode : codeLines 1 (Text.lines source.toList) = (number, line) :: rest)
    (hwidth : ∀ p ∈ (number, line) :: rest, 0 < indentWidth 0 p.2)
    (h : account source = .ok answer) : answer = complaint number := by
  rw [account_eq_ok_iff, hcode] at h
  rcases h with ⟨tokens, htokens, hanswer⟩
  rcases rest_of_indented (.ofString source) htokens (hwidth _ List.mem_cons_self) with
    ⟨d, stmt, htop, ⟨_, t, hd, hend⟩ | ⟨⟨p, hp, hp0⟩, _⟩⟩
  · -- The block of the first line goes on to the end, so nothing is left to be read.
    rw [htop, topLevel_of_end _ hd hend] at hanswer
    exact hanswer.symm
  · have := hwidth p (List.mem_cons_of_mem _ hp)
    omega

/-- A script with a line at the margin is not just a complaint about its first line. -/
theorem account_ne_of_margin {source : String} {number : Nat} {line : List Char}
    {rest : List (Nat × List Char)}
    (hcode : codeLines 1 (Text.lines source.toList) = (number, line) :: rest)
    (hmargin : ∃ p ∈ (number, line) :: rest, indentWidth 0 p.2 = 0) :
    account source ≠ .ok (complaint number) := by
  intro h
  rw [account_eq_ok_iff, hcode] at h
  rcases h with ⟨tokens, htokens, hanswer⟩
  by_cases hwidth : 0 < indentWidth 0 line
  · -- The first line opens a block that ends at the margin, and there another statement starts.
    rcases rest_of_indented (.ofString source) htokens hwidth with
      ⟨d, stmt, htop, ⟨hall, _⟩ | ⟨_, t, more, hd, hplain⟩⟩
    · rcases hmargin with ⟨p, hp, hp0⟩
      rcases List.mem_cons.mp hp with hp | hp
      · rw [hp] at hp0
        exact Nat.ne_of_gt hwidth hp0
      · have := hall p hp
        omega
    · rw [htop, complaint, Prod.mk.injEq, List.length_cons] at hanswer
      have hmore := List.length_pos_iff.mpr (topLevel_of_plain (.ofString source) hd hplain)
      omega
  · -- The first line opens nothing, so the complaint would be about an opening further down.
    have hfault : ⟨number, .unexpectedIndent⟩
        ∈ (topLevel (.ofString source) (.start tokens)).2 := by
      rw [(Prod.mk.inj hanswer).2]
      exact List.mem_singleton_self _
    rcases topLevel_opening _ _ _ hfault rfl with ⟨t, ht, hindent, hline⟩
    rcases codeTokens_cons_eq_ok_iff.mp htokens with
      ⟨shapes, inner, after, hchange, hafter, htokens⟩
    rw [changeIndent_nil, if_neg hwidth, Option.some.injEq, Prod.mk.injEq] at hchange
    change t ∈ tokens at ht
    rw [htokens, ← hchange.1, List.map_nil, List.nil_append, List.mem_append] at ht
    rcases ht with ht | ht
    · rw [(lineTokens_plain _ _ _ t ht).1.1] at hindent
      exact absurd hindent nofun
    · have hkind := isMark_eq_true_iff.mp hindent
      rcases exists_of_mem_codeTokens hafter ht (hkind ▸ rfl) (hkind ▸ rfl) with ⟨p, hp, hpline⟩
      -- The lines below have greater numbers than the first.
      have hsorted := pairwise_codeLines 1 (Text.lines source.toList)
      rw [hcode] at hsorted
      have hlater := List.rel_of_pairwise_cons hsorted hp
      rw [← hpline, hline] at hlater
      exact Nat.lt_irrefl number hlater

end Script

end Farmhand
