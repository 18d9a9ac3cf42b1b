import Farmhand.Proofs.Script.Code
import Farmhand.Proofs.Script.Reading

/-!
# What a Program Depends On

A program is read off the tokens, and from the source itself only the lines that are no statements
are quoted. Both come from code lines. Two texts with the same numbered code lines are therefore
the same program, with the same faults, however the other lines differ.

## Main definitions

* `QuotedAlike`: Two sources that quote alike every line at which a statement can start.

## Theorems

* `statement_congr`, `block_congr`, `branches_congr`, `statements_congr`: Sources that quote alike
  are read alike.
* `compile_eq_of_codeLines`: The program of a text depends on its code lines only.
-/

namespace Farmhand

namespace Script

open Cursor

/-- Two sources that quote alike every line at which a statement can still start. -/
def QuotedAlike (source source' : Text.SourceLines) (c : Cursor) : Prop :=
  ∀ t ∈ c.rest, t.kind.isMark .dedent = false → t.kind.isMark .endOfInput = false →
    source.line? t.span.line = source'.line? t.span.line

section

variable {source source' : Text.SourceLines}

theorem QuotedAlike.of_follows {c d : Cursor} (h : QuotedAlike source source' c)
    (hd : d.Follows c) : QuotedAlike source source' d :=
  fun t ht => h t (hd.subset ht)

mutual

theorem statement_congr (c : Cursor) (t : Token) (next : c.Shorter)
    (htake : c.take? = some (t, next)) (hdedent : t.kind.isMark .dedent = false)
    (h : QuotedAlike source source' c) :
    statement source c t next = statement source' c t next := by
  -- Only the line of the first token is quoted here; the rest is read from further on.
  have hrest := take?_eq_some htake
  have hline : source.line? t.span.line = source'.line? t.span.line :=
    h t (hrest.1 ▸ List.mem_cons_self) hdedent hrest.2
  have h₁ := take?_follows htake
  rw [statement, statement, hline]
  split
  · rfl
  · split
    · rfl
    · next condition c₁ hheader =>
        have h₂ := ((header_reads next.1).of_ok hheader).trans h₁
        have h₃ := ((block_sound source' c₁.1).of_follows h₂).follows
        have hle := (block source' c₁.1).2.2.2
        rw [block_congr c₁.1 (h.of_follows h₂)]
        dsimp only
        rw [branches_congr (block source' c₁.1).2.2.1 (h.of_follows h₃)]
  · split
    · rfl
    · next condition c₁ hheader =>
        rw [block_congr c₁.1 (h.of_follows (((header_reads next.1).of_ok hheader).trans h₁))]
  · split
    · rfl
    · next name items c₁ hheader =>
        rw [block_congr c₁.1 (h.of_follows (((forHeader_reads next.1).of_ok hheader).trans h₁))]
  · rfl
termination_by (c.size, 0)

theorem block_congr (c : Cursor) (h : QuotedAlike source source' c) :
    block source c = block source' c := by
  rw [block, block]
  split
  · rfl
  · next c₁ hskip => rw [statements_congr c₁.1 (h.of_follows (skip?_follows hskip))]
termination_by (c.size, 2)

-- Sources that quote the lines left alike are read alike.
theorem branches_congr (c : Cursor) (h : QuotedAlike source source' c) :
    branches source c = branches source' c := by
  rw [branches, branches]
  split
  · rfl
  · next t next htake =>
      have h₁ := take?_follows htake
      split
      · split
        · rfl
        · next condition c₁ hheader =>
            have h₂ := ((header_reads next.1).of_ok hheader).trans h₁
            have h₃ := ((block_sound source' c₁.1).of_follows h₂).follows
            have hle := (block source' c₁.1).2.2.2
            rw [block_congr c₁.1 (h.of_follows h₂)]
            dsimp only
            rw [branches_congr (block source' c₁.1).2.2.1 (h.of_follows h₃)]
      · split
        · rfl
        · next c₁ hheader =>
            rw [block_congr c₁.1 (h.of_follows (((headerEnd_reads next.1).of_ok hheader).trans h₁))]
      · rfl
termination_by (c.size, 0)

theorem statements_congr (c : Cursor) (h : QuotedAlike source source' c) :
    statements source c = statements source' c := by
  rw [statements, statements]
  split
  · rfl
  · next t next htake =>
      split
      · rfl
      · next hdedent =>
          have hfirst := statement_congr c t next htake (Bool.eq_false_iff.mpr hdedent) h
          have hsound := statement_sound source' c t next htake
          have hless := (statement source' c t next).2.2.2
          rw [hfirst]
          dsimp only
          rw [statements_congr (statement source' c t next).2.2.1 (h.of_follows hsound.follows)]
termination_by (c.size, 1)

end

theorem topLevel_congr (c : Cursor) (h : QuotedAlike source source' c) :
    topLevel source c = topLevel source' c := by
  rw [topLevel, topLevel]
  split
  · rfl
  · next t next htake =>
      split
      · exact topLevel_congr next.1 (h.of_follows (take?_follows htake))
      · next hdedent =>
          have hfirst := statement_congr c t next htake (Bool.eq_false_iff.mpr hdedent) h
          have hsound := statement_sound source' c t next htake
          have hless := (statement source' c t next).2.2.2
          rw [hfirst]
          dsimp only
          rw [topLevel_congr (statement source' c t next).2.2.1 (h.of_follows hsound.follows)]
termination_by c.size

end

-- The lines of a source text are quoted alike by all texts with the same code lines.
theorem quotedAlike_of_codeLines {source source' : String} {tokens : List Token}
    (htokens : tokenize source = .ok tokens)
    (hcode : codeLines 1 (Text.lines source.toList) = codeLines 1 (Text.lines source'.toList)) :
    QuotedAlike (.ofString source) (.ofString source') (.start tokens) := by
  intro t ht hdedent hend
  rw [tokenize_eq_codeTokens] at htokens
  rcases exists_of_mem_codeTokens htokens ht hdedent hend with ⟨⟨n, line⟩, hp, hline⟩
  have hget := getElem?_of_mem_codeLines hp
  have hget' := getElem?_of_mem_codeLines (hcode ▸ hp)
  rcases Nat.exists_eq_add_of_le' hget.1 with ⟨m, hm⟩
  rw [hm, Nat.add_sub_cancel] at hget hget'
  rw [hline, hm]
  simp only [Text.SourceLines.line?, Text.SourceLines.ofString, hget.2.1, hget'.2.1]

/-- The program of a text depends on its code lines only. -/
theorem compile_eq_of_codeLines {source source' : String}
    (hcode : codeLines 1 (Text.lines source.toList) = codeLines 1 (Text.lines source'.toList)) :
    compile source = compile source' := by
  have htokens : tokenize source = tokenize source' := by
    rw [tokenize_eq_codeTokens, tokenize_eq_codeTokens, hcode]
  unfold compile
  rw [← htokens]
  cases h : tokenize source with
  | error e => rfl
  | ok tokens =>
      have hread := topLevel_congr _ (quotedAlike_of_codeLines h hcode)
      simp only [parse, hread]

end Script

end Farmhand
