import Farmhand.Proofs.Script.Section

/-!
# Files Without Comments

A file and the same file with its comment lines emptied. The lines are the same otherwise, except
that the last one may be missing where it was a comment that no line feed ended. A comment line
never opens a section, so the lines keep their owners, the subroutines keep their names, and every
section keeps its code. What is left that is not blank is code, which is where the two files part:
a comment is not blank.

## Main definitions

* `isComment`: The lines that hold nothing but a comment.
* `withoutComments`: A source text with its comment lines emptied.
* `Stripped`: The lines of the one and of the other, each with its owner.

## Theorems

* `lines_withoutComments`: The lines of a text without its comments.
* `exists_owners_withoutComments`: Comments do not change who owns a line.
* `codeLines_stripped`: Comments do not change the code that a section owns.
* `filter_stripped`: Without the comments, what is not blank in a section is its code.
-/

namespace Farmhand

namespace Script

/-- A line whose first character that is not blank starts a comment. -/
def isComment (line : List Char) : Bool :=
  (Text.trimStart line).head? == some '#'

/-- A comment line becomes empty, any other line stays. -/
def emptied (line : List Char) : List Char :=
  if isComment line then [] else line

/-- A source text with its comment lines emptied. Line feeds stay where they are. -/
def withoutComments (source : String) : String :=
  String.ofList (['\n'].intercalate ((source.toList.splitOn '\n').map emptied))

/-! ## One line -/

theorem isComment_eq_find? (line : List Char) :
    isComment line = ((line.find? fun c => !Text.isBlank c) == some '#') := by
  rw [isComment, head?_trimStart]

theorem isAllBlank_eq_find? (line : List Char) :
    Text.isAllBlank line = (line.find? fun c => !Text.isBlank c).isNone := by
  unfold Text.isAllBlank
  induction line with
  | nil => rfl
  | cons c rest ih =>
      rw [List.all_cons, List.find?_cons, ih]
      cases Text.isBlank c with
      | false => rfl
      | true => rfl

-- A line is blank, code or a comment.
theorem isAllBlank_eq_false_iff (line : List Char) :
    Text.isAllBlank line = false ↔ isCode line = true ∨ isComment line = true := by
  rw [isAllBlank_eq_find?, isCode_eq_find?, isComment_eq_find?]
  cases line.find? fun c => !Text.isBlank c with
  | none => simp only [Option.isNone_none, Option.any_none, Bool.true_eq_false, Bool.false_eq_true,
      reduceCtorEq, beq_iff_eq, or_self]
  | some c =>
      by_cases hc : c = '#'
      · simp [hc]
      · simp [hc]

theorem isCode_eq_false_of_isComment {line : List Char} (h : isComment line = true) :
    isCode line = false := by
  rw [isComment_eq_find?, beq_iff_eq] at h
  rw [isCode_eq_find?, h]
  rfl

theorem emptied_of_isCode {line : List Char} (h : isCode line = true) : emptied line = line := by
  unfold emptied
  split
  · next hcomment =>
      rw [isCode_eq_false_of_isComment hcomment] at h
      exact absurd h Bool.false_ne_true
  · rfl

theorem isCode_emptied (line : List Char) : isCode (emptied line) = isCode line := by
  unfold emptied
  split
  · next hcomment => exact (isCode_eq_false_of_isComment hcomment).symm
  · rfl

theorem isComment_emptied (line : List Char) : isComment (emptied line) = false := by
  unfold emptied
  split
  · rfl
  · next hcomment => exact Bool.eq_false_iff.mpr hcomment

-- What is not blank without the comments is code.
theorem isAllBlank_emptied (line : List Char) :
    (!Text.isAllBlank (emptied line)) = isCode line := by
  rw [Bool.eq_iff_iff, Bool.not_eq_true', isAllBlank_eq_false_iff, isComment_emptied,
    isCode_emptied]
  exact or_iff_left Bool.false_ne_true

theorem emptied_dropReturn (row : List Char) :
    emptied (Text.dropReturn row) = Text.dropReturn (emptied row) := by
  unfold emptied
  rw [isComment_eq_find?, isComment_eq_find?, Text.find?_dropReturn _ (by decide)]
  split
  · rfl
  · rfl

theorem not_mem_emptied {c : Char} {row : List Char} (h : c ∉ row) : c ∉ emptied row := by
  unfold emptied
  split
  · exact List.not_mem_nil
  · exact h

/-! ## The lines of a file -/

theorem lines_intercalate_emptied (rows : List (List Char)) (h : ∀ row ∈ rows, '\n' ∉ row) :
    ∃ n, (Text.lines (['\n'].intercalate rows)).map emptied
      = Text.lines (['\n'].intercalate (rows.map emptied)) ++ List.replicate n [] := by
  induction rows with
  | nil => exact ⟨0, rfl⟩
  | cons row rest ih =>
      have hrow := h row List.mem_cons_self
      cases rest with
      | nil =>
          -- The last row is no line when it is empty, which it may become.
          rw [List.map_cons, List.map_nil, List.intercalate_singleton, List.intercalate_singleton]
          by_cases hempty : emptied row = []
          · rw [hempty]
            by_cases hnil : row = []
            · exact ⟨0, by rw [hnil]; rfl⟩
            · refine ⟨1, ?_⟩
              rw [Text.lines_of_not_mem row hrow hnil, List.map_cons, List.map_nil, hempty]
              rfl
          · have hsame : emptied row = row := by
              unfold emptied at hempty ⊢
              split
              · next hcomment => exact absurd (if_pos hcomment) hempty
              · rfl
            rw [hsame] at hempty ⊢
            refine ⟨0, ?_⟩
            rw [Text.lines_of_not_mem row hrow hempty, List.map_cons, List.map_nil, hsame]
            rfl
      | cons next more =>
          rcases ih fun r hr => h r (List.mem_cons_of_mem row hr) with ⟨n, hn⟩
          refine ⟨n, ?_⟩
          rw [List.map_cons, List.map_cons, List.intercalate_cons_cons,
            List.intercalate_cons_cons, List.append_assoc, List.append_assoc,
            List.singleton_append, List.singleton_append, Text.lines_append_newline row _ hrow,
            Text.lines_append_newline _ _ (not_mem_emptied hrow), List.map_cons,
            emptied_dropReturn, hn, List.map_cons, List.cons_append]

/-- The lines without comments are the lines with the comments emptied. Where the last line was a
    comment that nothing ended, it is gone. -/
theorem lines_withoutComments (source : String) :
    ∃ n, (Text.lines source.toList).map emptied
      = Text.lines (withoutComments source).toList ++ List.replicate n [] := by
  have h := lines_intercalate_emptied (source.toList.splitOn '\n')
    (Text.not_mem_of_mem_splitOn source.toList)
  rw [List.intercalate_splitOn] at h
  rw [withoutComments, String.toList_ofList]
  exact h

/-- A file and its lines without the comments, each line with its owner. -/
def Stripped (owned owned' : List (List Char × Owner)) : Prop :=
  ∃ back, (owned.map fun p => (emptied p.1, p.2)) = owned' ++ back ∧ ∀ p ∈ back, p.1 = []

-- An emptied line has the owner that it had: comments belong to the section they stand in.
theorem ownersFrom_emptied (number : Nat) (current : Owner) (seen : List String)
    (lines : List (List Char)) :
    ownersFrom number current seen (lines.map emptied) = ownersFrom number current seen lines := by
  induction lines generalizing number current seen with
  | nil => rfl
  | cons line rest ih =>
      have hstep : ownerStep number current seen (emptied line)
          = ownerStep number current seen line := by
        by_cases hcode : isCode line = true
        · rw [emptied_of_isCode hcode]
        · have hcode := Bool.eq_false_iff.mpr hcode
          rw [ownerStep_of_not_code hcode,
            ownerStep_of_not_code ((isCode_emptied line).trans hcode)]
      rw [List.map_cons, ownersFrom_cons, ownersFrom_cons, hstep]
      simp only [ih]

/-- Comments do not change who owns a line. -/
theorem exists_owners_withoutComments {source : String} {os : List Owner}
    (h : owners (Text.lines source.toList) = .ok os) :
    ∃ os', owners (Text.lines (withoutComments source).toList) = .ok os' ∧
      headerNames os' = headerNames os ∧
      Stripped ((Text.lines source.toList).zip os)
        ((Text.lines (withoutComments source).toList).zip os') := by
  rcases lines_withoutComments source with ⟨n, hlines⟩
  have hblanks : ∀ line ∈ List.replicate n ([] : List Char), isCode line = false := by
    intro line hline
    rw [(List.mem_replicate.mp hline).2]
    rfl
  -- Owners do not depend on the comments, nor on blank lines at the end.
  have hos : ownersFrom 1 .main [] (Text.lines (withoutComments source).toList
      ++ List.replicate n []) = .ok os := by
    rw [← hlines, ownersFrom_emptied]
    exact h
  rcases ownersFrom_append hblanks rfl hos with ⟨front, back, hfront, hsplit, hback⟩
  refine ⟨front, hfront, ?_, (List.replicate n []).zip back, ?_, ?_⟩
  · rw [hsplit]
    unfold headerNames at hback ⊢
    rw [List.filterMap_append, hback, List.append_nil]
  · have hzip : ((Text.lines source.toList).zip os).map (fun p => (emptied p.1, p.2))
        = ((Text.lines source.toList).map emptied).zip os := by
      rw [List.zip_map_left]
      rfl
    rw [hzip, hlines, hsplit, List.zip_append (length_of_ownersFrom hfront).symm]
  · exact fun p hp => (List.mem_replicate.mp (List.of_mem_zip hp).1).2

/-! ## The lines of a section -/

section

variable {owned owned' : List (List Char × Owner)}

/-- Comments do not change the code that a section owns. -/
theorem codeLines_stripped (h : Stripped owned owned') (owner : Owner) :
    codeLines 1 (ownedLines owner owned') = codeLines 1 (ownedLines owner owned) := by
  rcases h with ⟨back, hback, hempty⟩
  -- The lines that are gone at the end were emptied before, and carry no code.
  have hblanks : ∀ line ∈ ownedLines owner back, isCode line = false := by
    intro line hline
    rcases List.mem_map.mp hline with ⟨p, hp, rfl⟩
    rw [hempty p hp, ite_self]
    rfl
  have hsplit : ownedLines owner (owned.map fun p => (emptied p.1, p.2))
      = ownedLines owner owned' ++ ownedLines owner back := by
    rw [hback]
    exact List.map_append
  rw [← codeLines_append 1 _ _ hblanks, ← hsplit]
  unfold ownedLines
  rw [List.map_map]
  refine codeLines_map_congr _ _ 1 owned fun ⟨line, o⟩ _ => ?_
  by_cases ho : o = owner
  · simp only [Function.comp, if_pos ho]
    exact ⟨isCode_emptied line, fun hcode => emptied_of_isCode (isCode_emptied line ▸ hcode)⟩
  · simp only [Function.comp, if_neg ho]
    exact ⟨trivial, fun _ => trivial⟩

/-- Without the comments, what is not blank in a section is its code. -/
theorem filter_stripped (h : Stripped owned owned') (owner : Owner) :
    (ownLines owner owned').filter (fun line => !Text.isAllBlank line)
      = (ownLines owner owned).filter isCode := by
  rcases h with ⟨back, hback, hempty⟩
  have hmap : ownLines owner (owned.map fun p => (emptied p.1, p.2))
      = (ownLines owner owned).map emptied := by
    unfold ownLines
    rw [List.filter_map, List.map_map, List.map_map]
    rfl
  have hsplit : ownLines owner (owned' ++ back) = ownLines owner owned' ++ ownLines owner back := by
    unfold ownLines
    rw [List.filter_append, List.map_append]
  have hblank : (ownLines owner back).filter (fun line => !Text.isAllBlank line) = [] := by
    rw [List.filter_eq_nil_iff]
    intro line hline
    rcases List.mem_map.mp hline with ⟨p, hp, rfl⟩
    rw [hempty p (List.mem_filter.mp hp).1]
    exact Bool.false_ne_true
  rw [hback, hsplit] at hmap
  -- What is left of the emptied lines is what is left of the lines, filtered by code.
  have hfilter := congrArg (List.filter fun line => !Text.isAllBlank line) hmap
  rw [List.filter_append, hblank, List.append_nil, List.filter_map] at hfilter
  rw [hfilter]
  have hcode : ((fun line => !Text.isAllBlank line) ∘ emptied) = isCode :=
    funext fun line => isAllBlank_emptied line
  rw [hcode]
  exact (List.map_congr_left fun line hline =>
    emptied_of_isCode (List.mem_filter.mp hline).2).trans (List.map_id _)

end

end Script

end Farmhand
