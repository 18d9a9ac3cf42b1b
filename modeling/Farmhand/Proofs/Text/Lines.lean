import Farmhand.Text.Lines

/-!
# Lines of Joined Rows

Splitting a text at its line feeds and splitting it into lines differ in two ways: a line leaves
the carriage return at its end to the line feed after it, and nothing stands behind the last line
feed. Both are said here, so that a text can be changed row by row and read again line by line.

## Main definitions

* `dropReturn`: A row without the carriage return that its line feed takes along.

## Theorems

* `lines_append_newline`: The first line of a text is its first row.
* `not_mem_of_mem_lines`: No line holds a line feed.
* `lines_flatMap_newline`: Rows that are all ended are read back.
* `not_mem_of_mem_splitOn`: No row holds a line feed.
-/

namespace Farmhand

namespace Text

/-- A row without the carriage return that the line feed behind it takes along. -/
def dropReturn : List Char → List Char
  | [] => []
  | c :: rest => if c = '\r' ∧ rest = [] then [] else c :: dropReturn rest

theorem find?_dropReturn (p : Char → Bool) (hp : p '\r' = false) (row : List Char) :
    (dropReturn row).find? p = row.find? p := by
  induction row with
  | nil => rfl
  | cons c rest ih =>
      unfold dropReturn
      by_cases h : c = '\r' ∧ rest = []
      · rw [if_pos h, h.1, h.2, List.find?_cons_of_neg (by rw [hp]; exact Bool.false_ne_true)]
      · rw [if_neg h, List.find?_cons, List.find?_cons, ih]

theorem takeWhile_dropReturn (p : Char → Bool) (hp : p '\r' = false) (row : List Char) :
    (dropReturn row).takeWhile p = row.takeWhile p := by
  induction row with
  | nil => rfl
  | cons c rest ih =>
      unfold dropReturn
      by_cases h : c = '\r' ∧ rest = []
      · rw [if_pos h, h.1, h.2, List.takeWhile_cons_of_neg (by rw [hp]; exact Bool.false_ne_true)]
        rfl
      · rw [if_neg h, List.takeWhile_cons, List.takeWhile_cons, ih]

-- A character that does not end a line goes to the front of the first line.
theorem lines_cons (c : Char) (text : List Char) (hc : c ≠ '\n')
    (hreturn : c = '\r' → text.head? ≠ some '\n') :
    lines (c :: text) =
      match lines text with
      | [] => [[c]]
      | line :: more => (c :: line) :: more := by
  have hpair : ∀ rest, c = '\r' → text = '\n' :: rest → False := by
    intro rest hr htext
    rw [htext] at hreturn
    exact hreturn hr rfl
  exact lines.eq_4 c text hc hpair

/-- The first line of a text is what stands before its first line feed. -/
theorem lines_append_newline (row text : List Char) (h : '\n' ∉ row) :
    lines (row ++ '\n' :: text) = dropReturn row :: lines text := by
  induction row with
  | nil => rfl
  | cons c rest ih =>
      rw [List.mem_cons, not_or] at h
      by_cases hend : c = '\r' ∧ rest = []
      · rw [hend.1, hend.2]
        rfl
      · have hreturn : c = '\r' → (rest ++ '\n' :: text).head? ≠ some '\n' := by
          intro hc
          cases rest with
          | nil => exact absurd ⟨hc, rfl⟩ hend
          | cons d more =>
              rw [List.cons_append, List.head?_cons, Ne, Option.some.injEq]
              exact fun hd => h.2 (hd ▸ List.mem_cons_self)
        rw [List.cons_append, lines_cons c _ (fun hc => h.1 hc.symm) hreturn, ih h.2]
        simp only [dropReturn, if_neg hend]

-- A row without a break is one line.
theorem lines_of_not_mem (row : List Char) (h : '\n' ∉ row) (hne : row ≠ []) :
    lines row = [row] := by
  induction row with
  | nil => exact absurd rfl hne
  | cons c rest ih =>
      rw [List.mem_cons, not_or] at h
      have hreturn : c = '\r' → rest.head? ≠ some '\n' :=
        fun _ hd => h.2 (List.mem_of_mem_head? hd)
      rw [lines_cons c rest (fun hc => h.1 hc.symm) hreturn]
      by_cases hrest : rest = []
      · rw [hrest]
        rfl
      · rw [ih h.2 hrest]

-- No line holds a break.
theorem not_mem_of_mem_lines (text line : List Char) (h : line ∈ lines text) : '\n' ∉ line := by
  fun_induction lines text generalizing line with
  | case1 => exact absurd h List.not_mem_nil
  | case2 rest ih =>
      rcases List.mem_cons.mp h with h | h
      · exact h ▸ List.not_mem_nil
      · exact ih line h
  | case3 rest ih =>
      rcases List.mem_cons.mp h with h | h
      · exact h ▸ List.not_mem_nil
      · exact ih line h
  | case4 c rest hc _ hlines _ =>
      rw [List.mem_singleton.mp h, List.mem_singleton]
      exact fun e => hc e.symm
  | case5 c rest hc _ first more hlines ih =>
      rw [hlines] at ih
      rcases List.mem_cons.mp h with h | h
      · rw [h, List.mem_cons, not_or]
        exact ⟨fun e => hc e.symm, ih first List.mem_cons_self⟩
      · exact ih line (List.mem_cons_of_mem first h)

/-- Rows that are all ended are read back. -/
theorem lines_flatMap_newline (rows : List (List Char)) (h : ∀ row ∈ rows, '\n' ∉ row) :
    lines (rows.flatMap (· ++ ['\n'])) = rows.map dropReturn := by
  induction rows with
  | nil => rfl
  | cons row rest ih =>
      have hrow : (row :: rest).flatMap (· ++ ['\n'])
          = row ++ '\n' :: rest.flatMap (· ++ ['\n']) := by
        simp only [List.flatMap_cons, List.append_assoc, List.singleton_append]
      rw [hrow, lines_append_newline row _ (h row List.mem_cons_self),
        ih fun r hr => h r (List.mem_cons_of_mem row hr), List.map_cons]

-- No row of a text that is split at breaks holds one.
theorem not_mem_of_mem_splitOn (text row : List Char) (h : row ∈ text.splitOn '\n') :
    '\n' ∉ row := by
  induction text generalizing row with
  | nil =>
      rw [List.splitOn_nil, List.mem_singleton] at h
      exact h ▸ List.not_mem_nil
  | cons c rest ih =>
      rw [List.splitOn_cons_eq_if_modifyHead] at h
      split at h
      · rcases List.mem_cons.mp h with h | h
        · exact h ▸ List.not_mem_nil
        · exact ih row h
      · next hc =>
          rcases List.exists_cons_of_ne_nil (List.splitOn_ne_nil '\n' rest) with ⟨first, more, hs⟩
          rw [hs, List.modifyHead_cons] at h
          rw [hs] at ih
          rcases List.mem_cons.mp h with h | h
          · rw [h, List.mem_cons, not_or]
            exact ⟨fun e => hc (beq_iff_eq.mpr e.symm), ih first List.mem_cons_self⟩
          · exact ih row (List.mem_cons_of_mem first h)

end Text

end Farmhand
