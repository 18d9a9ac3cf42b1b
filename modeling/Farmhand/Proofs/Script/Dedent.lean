import Farmhand.Proofs.Script.Code
import Farmhand.Script.Sections

/-!
# Moving Lines to the Left

A section is moved to the left by its common indentation. The lines move by a number of characters
while blocks are told apart by columns, which differ when tabs are about; but a line has no columns
of indentation exactly when it has no characters of it. So what can be said of the characters left
says which lines stand at the margin.

## Main definitions

* `moved`: A line as it is read back from the text of a section.

## Theorems

* `isCode_moved`: Code stays code.
* `indentLength_moved`: A line moves by as many characters as asked for.
* `indentWidth_eq_zero_iff`: A line at the margin has no indentation, in columns or characters.
* `commonIndent_spec`: The common indentation is the least one.
-/

namespace Farmhand

namespace Script

/-- A line as it is read back from the text of a section. -/
def moved (indent : Nat) (line : List Char) : List Char :=
  Text.dropReturn (dedentLine indent line)

theorem isBlank_of_isIndent {c : Char} (h : isIndent c = true) : Text.isBlank c = true := by
  rw [isIndent, Bool.or_eq_true, beq_iff_eq, beq_iff_eq] at h
  rcases h with rfl | rfl
  · decide
  · decide

-- What is dropped of an indentation would be trimmed away.
theorem trimStart_drop_indent (n : Nat) (line : List Char) (h : n ≤ indentLength line) :
    Text.trimStart (line.drop n) = Text.trimStart line := by
  induction n generalizing line with
  | zero => rfl
  | succ n ih =>
      cases line with
      | nil => rfl
      | cons c rest =>
          unfold indentLength at h
          by_cases hc : isIndent c = true
          · rw [List.takeWhile_cons_of_pos hc, List.length_cons] at h
            rw [List.drop_succ_cons, ih rest (Nat.le_of_succ_le_succ h)]
            exact (List.dropWhile_cons_of_pos (isBlank_of_isIndent hc)).symm
          · rw [List.takeWhile_cons_of_neg hc, List.length_nil] at h
            omega

theorem find?_trimStart (line : List Char) :
    (Text.trimStart line).find? (fun c => !Text.isBlank c)
      = line.find? (fun c => !Text.isBlank c) := by
  unfold Text.trimStart
  induction line with
  | nil => rfl
  | cons c rest ih =>
      by_cases hc : Text.isBlank c = true
      · rw [List.dropWhile_cons_of_pos hc, ih, List.find?_cons, hc]
        rfl
      · rw [List.dropWhile_cons_of_neg hc]

theorem find?_drop_indent (n : Nat) (line : List Char) (h : n ≤ indentLength line) :
    (line.drop n).find? (fun c => !Text.isBlank c) = line.find? (fun c => !Text.isBlank c) := by
  rw [← find?_trimStart, trimStart_drop_indent n line h, find?_trimStart]

/-- Code stays code when it is moved. -/
theorem isCode_moved (indent : Nat) (line : List Char) :
    isCode (moved indent line) = isCode line := by
  unfold moved dedentLine
  rw [isCode_dropReturn]
  split
  · next h => exact isCode_congr (find?_drop_indent indent line h)
  · exact isCode_congr (find?_trimStart line)

theorem not_mem_dedentLine {c : Char} {line : List Char} (h : c ∉ line) (indent : Nat) :
    c ∉ dedentLine indent line := by
  unfold dedentLine
  split
  · exact fun hc => h (List.mem_of_mem_drop hc)
  · exact fun hc => h ((List.dropWhile_suffix _).subset hc)

-- Characters of the indentation that are dropped are missing from its length.
theorem indentLength_drop (n : Nat) (line : List Char) (h : n ≤ indentLength line) :
    indentLength (line.drop n) = indentLength line - n := by
  induction n generalizing line with
  | zero => rfl
  | succ n ih =>
      cases line with
      | nil => exact (Nat.zero_sub _).symm
      | cons c rest =>
          unfold indentLength at h ⊢
          by_cases hc : isIndent c = true
          · rw [List.takeWhile_cons_of_pos hc, List.length_cons] at h ⊢
            rw [List.drop_succ_cons, Nat.add_sub_add_right]
            exact ih rest (Nat.le_of_succ_le_succ h)
          · rw [List.takeWhile_cons_of_neg hc, List.length_nil] at h
            omega

/-- A line moves by as many characters as asked for, if it is indented so far. -/
theorem indentLength_moved {indent : Nat} {line : List Char} (h : indent ≤ indentLength line) :
    indentLength (moved indent line) = indentLength line - indent := by
  unfold moved dedentLine
  rw [if_pos h, indentLength, Text.takeWhile_dropReturn isIndent (by decide)]
  exact indentLength_drop indent line h

theorem le_indentWidth (width : Nat) (line : List Char) :
    width + indentLength line ≤ indentWidth width line := by
  fun_induction indentWidth width line with
  | case1 width rest ih =>
      have hlength : indentLength (' ' :: rest) = indentLength rest + 1 := rfl
      omega
  | case2 width rest ih =>
      have hlength : indentLength ('\t' :: rest) = indentLength rest + 1 := rfl
      -- A tab reaches the next stop, which is at least one column away.
      have hstop : width % tabWidth < tabWidth := Nat.mod_lt width (by decide)
      omega
  | case3 line width hspace htab =>
      cases line with
      | nil => exact Nat.le_refl width
      | cons c rest =>
          have hc : isIndent c = false := by
            rw [isIndent, Bool.or_eq_false_iff, beq_eq_false_iff_ne, beq_eq_false_iff_ne]
            exact ⟨fun h => hspace rest (h ▸ rfl), fun h => htab rest (h ▸ rfl)⟩
          rw [indentLength, List.takeWhile_cons_of_neg (by rw [hc]; exact Bool.false_ne_true)]
          exact Nat.le_refl width

/-- A line at the margin has no indentation, in columns or in characters. -/
theorem indentWidth_eq_zero_iff (line : List Char) :
    indentWidth 0 line = 0 ↔ indentLength line = 0 := by
  constructor
  · intro h
    have := le_indentWidth 0 line
    omega
  · intro h
    cases line with
    | nil => rfl
    | cons c rest =>
        unfold indentLength at h
        by_cases hc : isIndent c = true
        · rw [List.takeWhile_cons_of_pos hc, List.length_cons] at h
          omega
        · rw [indentWidth]
          · exact fun _ hspace => hc (by rw [(List.cons.inj hspace).1]; rfl)
          · exact fun _ htab => hc (by rw [(List.cons.inj htab).1]; rfl)

/-- The common indentation is that of a line, and no line has less, the blank ones aside. -/
theorem commonIndent_spec {lines : List (List Char)} {line : List Char} (h : line ∈ lines)
    (hink : Text.isAllBlank line = false) :
    commonIndent lines ≤ indentLength line ∧
      ∃ least ∈ lines, Text.isAllBlank least = false ∧ indentLength least = commonIndent lines := by
  have hmem : indentLength line
      ∈ (lines.filter fun line => !Text.isAllBlank line).map indentLength :=
    List.mem_map.mpr ⟨line, List.mem_filter.mpr ⟨h, by rw [hink]; rfl⟩, rfl⟩
  unfold commonIndent
  cases hmin : ((lines.filter fun line => !Text.isAllBlank line).map indentLength).min? with
  | none =>
      rw [List.min?_eq_none_iff] at hmin
      exact absurd hmem (hmin ▸ List.not_mem_nil)
  | some n =>
      rcases List.min?_eq_some_iff.mp hmin with ⟨hn, hle⟩
      rcases List.mem_map.mp hn with ⟨least, hleast, hlength⟩
      rcases List.mem_filter.mp hleast with ⟨hin, hblank⟩
      rw [Bool.not_eq_true'] at hblank
      exact ⟨hle _ hmem, least, hin, hblank, hlength⟩

end Script

end Farmhand
