import Farmhand.Proofs.Script.Dedent
import Farmhand.Proofs.Table

/-!
# Sections and Their Code

How a file falls into sections, one line at a time: a step looks at a line, the section of the line
above and the names so far, and settles the owner of the line. Names are never taken twice, so the
sections of a file are listed as they come. The code lines of a section are the code lines that it
owns in the file, under the same numbers, each moved to the left by the same amount.

## Main definitions

* `ownerStep`: What one line does to the section around it.
* `ownedLines`: The lines of a file as one section owns them.
* `linesOf`: The lines of a source text that belong to a section.
* `sectionEntries`: The sections of a file in order.

## Theorems

* `ownersFrom_cons`: The owners of a file are settled step by step.
* `nodup_headerNames`: No name is taken twice, and none is that of the entry script.
* `entries_sections`: A file has just these sections.
* `codeLines_sectionText`: The code lines of a section.
-/

namespace Farmhand

namespace Script

/-- The lines of a file with those of the other sections emptied. -/
def ownedLines (owner : Owner) (owned : List (List Char × Owner)) : List (List Char) :=
  owned.map fun p => if p.2 = owner then p.1 else []

/-- The lines of a source text that belong to a section. -/
def linesOf (source : String) (owner : Owner) : List (List Char) :=
  let lines := Text.lines source.toList
  match owners lines with
  | .error _ => []
  | .ok owners => ownLines owner (lines.zip owners)

/-- What one line does: its owner, the section that goes on behind it, and the names so far. -/
def ownerStep (number : Nat) (current : Owner) (seen : List String) (line : List Char) :
    Except ScriptFileError (Owner × Owner × List String) :=
  if isCode line && !isIndent (line.headD ' ') then
    match dropStart? "def ".toList line with
    | none => .ok (.main, .main, seen)
    | some text =>
      match headerName? text with
      | none => .error (.invalidHeader number (String.ofList (Text.trim line)))
      | some name =>
        if name = mainName || seen.contains name then .error (.duplicate number name)
        else .ok (.header name, .subroutine name, name :: seen)
  else .ok (current, current, seen)

/-- The owners of a file are settled step by step. -/
theorem ownersFrom_cons (number : Nat) (current : Owner) (seen : List String) (line : List Char)
    (rest : List (List Char)) :
    ownersFrom number current seen (line :: rest) =
      match ownerStep number current seen line with
      | .error e => .error e
      | .ok (owner, next, seen') =>
        (ownersFrom (number + 1) next seen' rest).map (owner :: ·) := by
  rw [ownersFrom, ownerStep]
  by_cases hstart : (isCode line && !isIndent (line.headD ' ')) = true
  · rw [if_pos hstart, if_pos hstart]
    cases dropStart? "def ".toList line with
    | none => rfl
    | some text =>
        cases hname : headerName? text with
        | none => simp only [hname]
        | some name =>
            by_cases htaken : (decide (name = mainName) || seen.contains name) = true
            · simp only [hname, if_pos htaken]
            · simp only [hname, if_neg htaken]
  · rw [if_neg hstart, if_neg hstart]

-- A line has its owner, and the others follow from the section it leaves open.
theorem ownersFrom_cons_eq_ok {number : Nat} {current : Owner} {seen : List String}
    {line : List Char} {rest : List (List Char)} {os : List Owner}
    (h : ownersFrom number current seen (line :: rest) = .ok os) :
    ∃ owner next seen' tail, ownerStep number current seen line = .ok (owner, next, seen') ∧
      ownersFrom (number + 1) next seen' rest = .ok tail ∧ os = owner :: tail := by
  rw [ownersFrom_cons] at h
  cases hstep : ownerStep number current seen line with
  | error e =>
      rw [hstep] at h
      cases h
  | ok answer =>
      rcases answer with ⟨owner, next, seen'⟩
      rw [hstep] at h
      cases htail : ownersFrom (number + 1) next seen' rest with
      | error e =>
          simp only [htail, Except.map, reduceCtorEq] at h
      | ok tail =>
          simp only [htail, Except.map, Except.ok.injEq] at h
          exact ⟨owner, next, seen', tail, rfl, htail, h.symm⟩

-- A line that is no code changes nothing.
theorem ownerStep_of_not_code {line : List Char} (h : isCode line = false) (number : Nat)
    (current : Owner) (seen : List String) :
    ownerStep number current seen line = .ok (current, current, seen) := by
  simp only [ownerStep, h, Bool.false_and, Bool.false_eq_true, if_false]

-- A step takes no name, or a new one from a header.
theorem ownerStep_eq_ok {number : Nat} {current owner next : Owner} {seen seen' : List String}
    {line : List Char} (h : ownerStep number current seen line = .ok (owner, next, seen')) :
    (owner = next ∧ (next = current ∨ next = .main) ∧ seen' = seen) ∨
      ∃ name, owner = .header name ∧ next = .subroutine name ∧ seen' = name :: seen ∧
        name ≠ mainName ∧ name ∉ seen := by
  unfold ownerStep at h
  split at h
  · split at h
    · simp only [Except.ok.injEq, Prod.mk.injEq] at h
      exact Or.inl ⟨h.1.symm.trans h.2.1, Or.inr h.2.1.symm, h.2.2.symm⟩
    · split at h
      · cases h
      · next name _ =>
          split at h
          · cases h
          · next hnew =>
              rw [Bool.or_eq_true, not_or, decide_eq_true_eq, List.contains_iff_mem] at hnew
              simp only [Except.ok.injEq, Prod.mk.injEq] at h
              exact Or.inr ⟨name, h.1.symm, h.2.1.symm, h.2.2.symm, hnew⟩
  · simp only [Except.ok.injEq, Prod.mk.injEq] at h
    exact Or.inl ⟨h.1.symm.trans h.2.1, Or.inl h.2.1.symm, h.2.2.symm⟩

theorem length_of_ownersFrom {number : Nat} {current : Owner} {seen : List String}
    {lines : List (List Char)} {os : List Owner}
    (h : ownersFrom number current seen lines = .ok os) : os.length = lines.length := by
  induction lines generalizing number current seen os with
  | nil =>
      rw [ownersFrom, Except.ok.injEq] at h
      rw [← h]
      rfl
  | cons line rest ih =>
      rcases ownersFrom_cons_eq_ok h with ⟨owner, next, seen', tail, _, htail, hos⟩
      rw [hos, List.length_cons, List.length_cons, ih htail]

theorem headerNames_cons (owner : Owner) (os : List Owner) :
    headerNames (owner :: os) = headerNames [owner] ++ headerNames os := by
  cases owner with
  | main => rfl
  | subroutine name => rfl
  | header name => rfl

/-- No name is taken twice, and none is that of the entry script. -/
theorem nodup_headerNames {number : Nat} {current : Owner} {seen : List String}
    {lines : List (List Char)} {os : List Owner}
    (h : ownersFrom number current seen lines = .ok os) (hcurrent : headerNames [current] = []) :
    (headerNames os).Nodup ∧ ∀ name ∈ headerNames os, name ≠ mainName ∧ name ∉ seen := by
  induction lines generalizing number current seen os with
  | nil =>
      rw [ownersFrom, Except.ok.injEq] at h
      rw [← h]
      exact ⟨List.nodup_nil, nofun⟩
  | cons line rest ih =>
      rcases ownersFrom_cons_eq_ok h with ⟨owner, next, seen', tail, hstep, htail, hos⟩
      rw [hos, headerNames_cons]
      rcases ownerStep_eq_ok hstep with ⟨howner, hnext, hseen⟩ | ⟨name, howner, hnext, hseen, hnew⟩
      · -- A line that is no header takes no name.
        have hnone : headerNames [next] = [] := by
          rcases hnext with hnext | hnext
          · rw [hnext, hcurrent]
          · rw [hnext]
            rfl
        rw [howner, hnone, List.nil_append, ← hseen]
        exact ih htail hnone
      · -- The new name is among those that the lines below may not take.
        rw [hnext] at htail
        rcases ih htail rfl with ⟨hnodup, hnames⟩
        rw [howner]
        refine ⟨List.nodup_cons.mpr ⟨fun hmem => ?_, hnodup⟩, ?_⟩
        · exact (hnames name hmem).2 (hseen ▸ List.mem_cons_self)
        · intro other hother
          rcases List.mem_cons.mp hother with hother | hother
          · rw [hother]
            exact hnew
          · have hfar := (hnames other hother).2
            rw [hseen, List.mem_cons, not_or] at hfar
            exact ⟨(hnames other hother).1, hfar.2⟩

-- Lines at the end that are no code belong to the section above them.
theorem ownersFrom_append {number : Nat} {current : Owner} {seen : List String}
    {lines blanks : List (List Char)} {os : List Owner}
    (hblanks : ∀ line ∈ blanks, isCode line = false) (hcurrent : headerNames [current] = [])
    (h : ownersFrom number current seen (lines ++ blanks) = .ok os) :
    ∃ front back, ownersFrom number current seen lines = .ok front ∧ os = front ++ back ∧
      headerNames back = [] := by
  induction lines generalizing number current seen os with
  | nil =>
      refine ⟨[], os, rfl, rfl, ?_⟩
      rw [List.nil_append] at h
      -- Lines without code keep the owner they find, and name nobody.
      induction blanks generalizing number os with
      | nil =>
          rw [ownersFrom, Except.ok.injEq] at h
          rw [← h]
          rfl
      | cons line rest ih =>
          rcases ownersFrom_cons_eq_ok h with ⟨owner, next, seen', tail, hstep, htail, hos⟩
          rw [ownerStep_of_not_code (hblanks line List.mem_cons_self), Except.ok.injEq,
            Prod.mk.injEq, Prod.mk.injEq] at hstep
          rw [← hstep.2.1, ← hstep.2.2] at htail
          rw [hos, headerNames_cons, ← hstep.1, hcurrent, List.nil_append]
          exact ih (fun l hl => hblanks l (List.mem_cons_of_mem line hl)) htail
  | cons line rest ih =>
      rcases ownersFrom_cons_eq_ok h with ⟨owner, next, seen', tail, hstep, htail, hos⟩
      have hnone : headerNames [next] = [] := by
        rcases ownerStep_eq_ok hstep with ⟨_, hnext | hnext, _⟩ | ⟨name, _, hnext, _⟩
        · rw [hnext, hcurrent]
        · rw [hnext]
          rfl
        · rw [hnext]
          rfl
      rcases ih hnone htail with ⟨front, back, hfront, htail', hback⟩
      refine ⟨owner :: front, back, ?_, by rw [hos, htail', List.cons_append], hback⟩
      rw [ownersFrom_cons, hstep]
      simp only [hfront, Except.map]

/-- The entry script, if a line that is not blank belongs to it. -/
def mainSection (owned : List (List Char × Owner)) : List (String × String) :=
  if (ownLines .main owned).any fun line => !Text.isAllBlank line then
    [(mainName, sectionText .main 0 owned)]
  else []

/-- The text of a subroutine. -/
def subroutineText (owned : List (List Char × Owner)) (name : String) : String :=
  sectionText (.subroutine name) (commonIndent (ownLines (.subroutine name) owned)) owned

/-- The sections of a file in order: the entry script if it is there, and the subroutines. -/
def sectionEntries (owned : List (List Char × Owner)) (os : List Owner) : List (String × String) :=
  mainSection owned ++ (headerNames os).map fun name => (name, subroutineText owned name)

/-- The names of the sections, the entry script being there or not. -/
def sectionNames (present : Bool) (names : List String) : List String :=
  (if present then [mainName] else []) ++ names

-- The names of the sections are those of the headers, and the main one where it has text.
theorem keys_sectionEntries (owned : List (List Char × Owner)) (os : List Owner) :
    (sectionEntries owned os).map Prod.fst =
      sectionNames ((ownLines .main owned).any fun line => !Text.isAllBlank line)
        (headerNames os) := by
  have hnames : ((headerNames os).map fun name => (name, subroutineText owned name)).map Prod.fst
      = headerNames os := by
    rw [List.map_map]
    exact List.map_id _
  rw [sectionEntries, List.map_append, hnames, sectionNames, mainSection]
  split
  · rfl
  · rfl

section

variable {names : List String} (hmain : mainName ∉ names)
include hmain

theorem nodup_sectionNames (present : Bool) (h : names.Nodup) :
    (sectionNames present names).Nodup := by
  cases present with
  | false => exact h
  | true => exact List.nodup_cons.mpr ⟨hmain, h⟩

theorem mem_sectionNames_iff (present : Bool) :
    mainName ∈ sectionNames present names ↔ present = true := by
  cases present with
  | false => exact ⟨fun h => absurd h hmain, nofun⟩
  | true => exact ⟨fun _ => rfl, fun _ => List.mem_cons_self⟩

theorem filter_sectionNames (present : Bool) :
    (sectionNames present names).filter (· ≠ mainName) = names := by
  have hnames : names.filter (· ≠ mainName) = names := by
    rw [List.filter_eq_self]
    exact fun name hname => decide_eq_true fun h => hmain (h ▸ hname)
  cases present with
  | false => exact hnames
  | true => exact hnames

end

-- The main section is told from the others, since no header names it.
theorem sectionNames_inj {present present' : Bool} {names : List String} :
    sectionNames present names = sectionNames present' names ↔ present = present' := by
  constructor
  · intro h
    have hlength := congrArg List.length h
    cases present with
    | false =>
        cases present' with
        | false => rfl
        | true => exact absurd hlength (Nat.ne_of_lt (Nat.lt_succ_self _))
    | true =>
        cases present' with
        | false => exact absurd hlength (Nat.ne_of_gt (Nat.lt_succ_self _))
        | true => rfl
  · exact fun h => h ▸ rfl

theorem entries_sections {source : String} {os : List Owner}
    (h : owners (Text.lines source.toList) = .ok os) :
    ∃ parts, sections source = .ok parts ∧
      parts.entries = sectionEntries ((Text.lines source.toList).zip os) os := by
  rcases nodup_headerNames h rfl with ⟨hnodup, hnames⟩
  refine ⟨.ofList (sectionEntries ((Text.lines source.toList).zip os) os), ?_,
    Table.entries_ofList _ ?_⟩
  · rw [sections, h]
    rfl
  · rw [keys_sectionEntries]
    exact nodup_sectionNames (fun hmain => (hnames mainName hmain).1 rfl) _ hnodup

-- What is found in a file under a name: the entry script, or the text of a subroutine.
theorem get?_eq_some_iff {parts : Table String} {owned : List (List Char × Owner)}
    {os : List Owner} (h : parts.entries = sectionEntries owned os) (name text : String) :
    parts.get? name = some text ↔
      (name = mainName ∧ text = sectionText .main 0 owned ∧
          ((ownLines .main owned).any fun line => !Text.isAllBlank line) = true) ∨
        (name ∈ headerNames os ∧ text = subroutineText owned name) := by
  have hmem : parts.get? name = some text ↔ (name, text) ∈ parts.entries :=
    ⟨Entries.mem_of_get?, Entries.get?_of_mem parts.nodup_keys⟩
  rw [hmem, h, sectionEntries, List.mem_append, mainSection]
  refine or_congr ?_ ?_
  · split
    · next hink =>
        rw [List.mem_singleton, Prod.mk.injEq]
        exact ⟨fun ⟨hname, htext⟩ => ⟨hname, htext, hink⟩, fun ⟨hname, htext, _⟩ => ⟨hname, htext⟩⟩
    · next hink => exact ⟨fun hnil => absurd hnil List.not_mem_nil, fun ⟨_, _, h⟩ => absurd h hink⟩
  · rw [List.mem_map]
    constructor
    · rintro ⟨other, hother, heq⟩
      rw [Prod.mk.injEq] at heq
      rw [← heq.1, ← heq.2]
      exact ⟨hother, rfl⟩
    · rintro ⟨hname, htext⟩
      exact ⟨name, hname, by rw [htext]⟩

theorem exists_owners_of_sections {source : String} {parts : Table String}
    (h : sections source = .ok parts) : ∃ os, owners (Text.lines source.toList) = .ok os := by
  cases hos : owners (Text.lines source.toList) with
  | error e =>
      rw [sections, hos] at h
      cases h
  | ok os => exact ⟨os, rfl⟩

/-- The code lines of a section are the code lines it owns, each moved to the left. -/
theorem codeLines_sectionText (owner : Owner) (indent : Nat) (owned : List (List Char × Owner))
    (h : ∀ p ∈ owned, '\n' ∉ p.1) :
    codeLines 1 (Text.lines (sectionText owner indent owned).toList)
      = (codeLines 1 (ownedLines owner owned)).map fun p => (p.1, moved indent p.2) := by
  have hrows : ∀ row ∈ sectionLines owner indent owned, '\n' ∉ row := by
    intro row hrow
    rcases List.mem_map.mp hrow with ⟨⟨line, o⟩, hp, heq⟩
    rw [← heq]
    by_cases ho : o = owner
    · simp only [if_pos ho]
      exact not_mem_dedentLine (h _ hp) indent
    · simp only [if_neg ho]
      exact List.not_mem_nil
  -- Reading the text back gives the lines that are owned, moved, and the others as blank ones.
  have hmoved : (sectionLines owner indent owned).map Text.dropReturn
      = (ownedLines owner owned).map (moved indent) := by
    unfold sectionLines ownedLines
    rw [List.map_map, List.map_map]
    refine List.map_congr_left fun ⟨line, o⟩ _ => ?_
    by_cases ho : o = owner
    · simp only [Function.comp, if_pos ho, moved]
    · simp only [Function.comp, if_neg ho, moved, dedentLine, Text.trimStart, List.drop_nil,
        List.dropWhile_nil, ite_self]
  rw [sectionText, String.toList_ofList, Text.lines_flatMap_newline _ hrows, hmoved]
  exact codeLines_map (moved indent) (isCode_moved indent) 1 _

end Script

end Farmhand
