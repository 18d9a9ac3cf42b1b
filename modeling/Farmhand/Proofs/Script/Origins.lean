import Farmhand.Interpreter.State
import Farmhand.Proofs.Script.Grammar
import Farmhand.Proofs.Script.Reading
import Farmhand.Proofs.Script.Section
import Mathlib.Data.List.DropRight

/-!
# Where Statements Come From

A statement of a loaded script has a number and no text. The text of its line is looked up in the
text of its section, which is not the file: the lines of the other sections are empty in it, those
of a subroutine are moved to the left, and the parser may have passed over some of them. This
module takes the number the whole way back. The statement begins with a token that was read, the
token stands on a code line of the section, and that line is the line of the file with the same
number, which belongs to the section and reads the same without the blanks at its ends.

## Main definitions

* `Stems`: A statement begins with a token that is still to be read.
* `Owner.named`: The section of a name.
* `Quotes`: A text is that of a line of a file that belongs to the section of a name.
* `Subroutine.IsFrom`: All statements of a subroutine are lines of a file.

## Theorems

* `statement_stems`, `block_stems`, `branches_stems`, `statements_stems`: What is read stems from
  what was to be read.
* `compile_stands`: Every statement of a program stands on a code line of its text.
* `trim_moved`: A line that is moved to the left still reads the same.
* `quotes_of_section`: The code lines of a section are lines of the file.
* `Interpreter.load_eq_ok`: What an interpreter has after a file was loaded.
* `Interpreter.load_isFrom`: Every statement of a loaded script is a line of the file.
-/

namespace Farmhand

namespace Script

open Cursor

/-! ## Statements and tokens -/

/-- The statements inside a conditional. -/
def Stmt.partsOfChain (branches : List (Expr × Block)) (otherwise : Option Block) : List Stmt :=
  Stmt.partsOfBranches branches ++ Stmt.partsOfBlock (otherwise.getD [])

theorem Stmt.parts_cond (branches : List (Expr × Block)) (otherwise : Option Block) (span : Span) :
    (Stmt.cond branches otherwise span).parts =
      .cond branches otherwise span :: Stmt.partsOfChain branches otherwise := by
  cases otherwise with
  | none =>
      rw [Stmt.parts]
      rfl
  | some body =>
      rw [Stmt.parts]
      rfl

theorem Stmt.partsOfChain_cons (condition : Expr) (body : Block)
    (others : List (Expr × Block)) (otherwise : Option Block) :
    Stmt.partsOfChain ((condition, body) :: others) otherwise =
      Stmt.partsOfBlock body ++ Stmt.partsOfChain others otherwise :=
  List.append_assoc _ _ _

/-- A statement begins with a token that is still to be read, and that neither closes a block nor
    ends the input. -/
def Stems (c : Cursor) (s : Stmt) : Prop :=
  ∃ t ∈ c.rest, t.kind.isMark .dedent = false ∧ t.kind.isMark .endOfInput = false ∧
    (t.span.line ≠ 0 → s.span.line = t.span.line)

theorem Stems.of_follows {c d : Cursor} {s : Stmt} (h : Stems d s) (hd : d.Follows c) :
    Stems c s := by
  rcases h with ⟨t, ht, hplain⟩
  exact ⟨t, hd.subset ht, hplain⟩

/-- The same for the further branches of a conditional, if no bad header spoils it. -/
def BranchesStem (c : Cursor) : Except (List Fault × c.AtMost)
    (List (Expr × Block) × Option Block × List Fault × c.AtMost) → Prop
  | .ok (others, otherwise, _, _) => ∀ s ∈ Stmt.partsOfChain others otherwise, Stems c s
  | .error _ => True

mutual

theorem statement_stems (source : Text.SourceLines) (c : Cursor) (t : Token) (next : c.Shorter)
    (htake : c.take? = some (t, next)) (hdedent : t.kind.isMark .dedent = false) :
    ∀ s ∈ (statement source c t next).1.parts, Stems c s := by
  have h₁ := take?_follows htake
  rcases take?_eq_some htake with ⟨hrest, hend⟩
  -- What the token itself begins.
  have hfirst : ∀ s : Stmt, (t.span.line ≠ 0 → s.span.line = t.span.line) → Stems c s :=
    fun s hs => ⟨t, hrest ▸ List.mem_cons_self, hdedent, hend, hs⟩
  have hskipped : ∀ text, ∀ s ∈ (Stmt.skipped text t.span).parts, Stems c s := by
    intro text s hs
    rw [List.mem_singleton.mp hs]
    exact hfirst _ fun _ => rfl
  rw [statement]
  split
  · exact hskipped _
  · split
    · exact hskipped _
    · next condition c₁ h =>
        have h₂ := ((header_reads next.1).of_ok h).trans h₁
        have h₃ := ((block_sound source c₁.1).of_follows h₂).follows
        have hbody := block_stems source c₁.1
        have hle := (block source c₁.1).2.2.2
        have hrest := branches_stems source (block source c₁.1).2.2.1
        dsimp only
        split
        · exact hskipped _
        · next others otherwise more c₃ h' =>
            rw [h'] at hrest
            intro s hs
            rw [Stmt.parts_cond, Stmt.partsOfChain_cons] at hs
            rcases List.mem_cons.mp hs with rfl | hs
            · exact hfirst _ fun _ => rfl
            · rcases List.mem_append.mp hs with hs | hs
              · exact (hbody s hs).of_follows h₂
              · exact (hrest s hs).of_follows h₃
  · split
    · exact hskipped _
    · next condition c₁ h =>
        have h₂ := ((header_reads next.1).of_ok h).trans h₁
        have hbody := block_stems source c₁.1
        intro s hs
        rcases List.mem_cons.mp hs with rfl | hs
        · exact hfirst _ fun _ => rfl
        · exact (hbody s hs).of_follows h₂
  · split
    · exact hskipped _
    · next name items c₁ h =>
        have h₂ := ((forHeader_reads next.1).of_ok h).trans h₁
        have hbody := block_stems source c₁.1
        intro s hs
        rcases List.mem_cons.mp hs with rfl | hs
        · exact hfirst _ fun _ => rfl
        · exact (hbody s hs).of_follows h₂
  · split
    · exact hskipped _
    · next stmt c₁ h =>
        intro s hs
        rw [Stmt.parts_of_isSimple (lineStatement_simple h)] at hs
        rw [List.mem_singleton.mp hs]
        exact hfirst _ fun hline => (lineStatement_kept h hline).1
termination_by (c.size, 0)

theorem block_stems (source : Text.SourceLines) (c : Cursor) :
    ∀ s ∈ Stmt.partsOfBlock (block source c).1, Stems c s := by
  rw [block]
  split
  · exact fun s hs => absurd hs List.not_mem_nil
  · next c₁ hskip =>
      have hbody := statements_stems source c₁.1
      dsimp only
      split
      · exact fun s hs => (hbody s hs).of_follows (skip?_follows hskip)
      · exact fun s hs => (hbody s hs).of_follows (skip?_follows hskip)
termination_by (c.size, 2)

-- The branches of a conditional stem from further positions.
theorem branches_stems (source : Text.SourceLines) (c : Cursor) :
    BranchesStem c (branches source c) := by
  rw [branches]
  split
  · exact fun s hs => absurd hs List.not_mem_nil
  · next t next htake =>
      have h₁ := take?_follows htake
      split
      · split
        · trivial
        · next condition c₁ h =>
            have h₂ := ((header_reads next.1).of_ok h).trans h₁
            have h₃ := ((block_sound source c₁.1).of_follows h₂).follows
            have hbody := block_stems source c₁.1
            have hle := (block source c₁.1).2.2.2
            have hrest := branches_stems source (block source c₁.1).2.2.1
            dsimp only
            split
            · trivial
            · next h' =>
                rw [h'] at hrest
                intro s hs
                rw [Stmt.partsOfChain_cons] at hs
                rcases List.mem_append.mp hs with hs | hs
                · exact (hbody s hs).of_follows h₂
                · exact (hrest s hs).of_follows h₃
      · split
        · trivial
        · next c₁ h =>
            have h₂ := ((headerEnd_reads next.1).of_ok h).trans h₁
            have hbody := block_stems source c₁.1
            exact fun s hs => (hbody s hs).of_follows h₂
      · exact fun s hs => absurd hs List.not_mem_nil
termination_by (c.size, 0)

theorem statements_stems (source : Text.SourceLines) (c : Cursor) :
    ∀ s ∈ Stmt.partsOfBlock (statements source c).1, Stems c s := by
  rw [statements]
  split
  · exact fun s hs => absurd hs List.not_mem_nil
  · next t next htake =>
      split
      · exact fun s hs => absurd hs List.not_mem_nil
      · next hdedent =>
          have hfirst := statement_stems source c t next htake (Bool.eq_false_iff.mpr hdedent)
          have hsound := statement_sound source c t next htake
          have hless := (statement source c t next).2.2.2
          have hothers := statements_stems source (statement source c t next).2.2.1
          intro s hs
          rcases List.mem_append.mp hs with hs | hs
          · exact hfirst s hs
          · exact (hothers s hs).of_follows hsound.follows
termination_by (c.size, 1)

end

-- All statements of a whole script stem from its tokens.
theorem topLevel_stems (source : Text.SourceLines) (c : Cursor) :
    ∀ s ∈ Stmt.partsOfBlock (topLevel source c).1, Stems c s := by
  rw [topLevel]
  split
  · exact fun s hs => absurd hs List.not_mem_nil
  · next t next htake =>
      split
      · have hrest := topLevel_stems source next.1
        exact fun s hs => (hrest s hs).of_follows (take?_follows htake)
      · next hdedent =>
          have hfirst := statement_stems source c t next htake (Bool.eq_false_iff.mpr hdedent)
          have hsound := statement_sound source c t next htake
          have hless := (statement source c t next).2.2.2
          have hothers := topLevel_stems source (statement source c t next).2.2.1
          intro s hs
          rcases List.mem_append.mp hs with hs | hs
          · exact hfirst s hs
          · exact (hothers s hs).of_follows hsound.follows
termination_by c.size

/-- Every statement of a program stands on a code line of its text. -/
theorem compile_stands {text : String} {parsed : Parsed} (h : compile text = .ok parsed) :
    ∀ s ∈ Stmt.partsOfBlock parsed.body,
      ∃ line, (s.span.line, line) ∈ codeLines 1 (Text.lines text.toList) := by
  intro s hs
  unfold compile at h
  cases htokens : tokenize text with
  | error error => simp only [htokens, reduceCtorEq] at h
  | ok tokens =>
      simp only [htokens, Except.ok.injEq] at h
      rw [← h] at hs
      rcases topLevel_stems _ _ s hs with ⟨t, ht, hdedent, hend, hline⟩
      rw [tokenize_eq_codeTokens] at htokens
      rcases exists_of_mem_codeTokens htokens ht hdedent hend with ⟨⟨n, line⟩, hcode, hn⟩
      have hpositive := (getElem?_of_mem_codeLines hcode).1
      have hnumber : s.span.line = n := (hline (by omega)).trans hn
      exact ⟨line, hnumber ▸ hcode⟩

/-! ## Lines of sections -/

-- A blank at the end is trimmed away.
theorem trim_append_blank {c : Char} (h : Text.isBlank c = true) (line : List Char) :
    Text.trim (line ++ [c]) = Text.trim line := by
  unfold Text.trim Text.trimStart
  rw [List.dropWhile_append]
  split
  · next hempty =>
    rw [List.isEmpty_iff.mp hempty, List.dropWhile_cons_of_pos h]
    rfl
  · unfold Text.trimEnd
    rw [List.reverse_append, List.reverse_singleton, List.singleton_append,
      List.dropWhile_cons_of_pos h]

-- At most one character is dropped from the end of a row.
theorem dropReturn_cases (row : List Char) :
    Text.dropReturn row = row ∨ row = Text.dropReturn row ++ ['\r'] := by
  induction row with
  | nil => exact .inl rfl
  | cons c rest ih =>
      unfold Text.dropReturn
      split
      · next h =>
        rw [h.1, h.2]
        exact .inr rfl
      · rcases ih with hsame | hlast
        · exact .inl (congrArg (c :: ·) hsame)
        · exact .inr (congrArg (c :: ·) hlast)

/-- A line that is moved to the left still reads the same. -/
theorem trim_moved (indent : Nat) (line : List Char) :
    Text.trim (moved indent line) = Text.trim line := by
  have hreturn : Text.trim (moved indent line) = Text.trim (dedentLine indent line) := by
    rcases dropReturn_cases (dedentLine indent line) with hsame | hlast
    · exact congrArg Text.trim hsame
    · have htrimmed := trim_append_blank (c := '\r') (by decide) (moved indent line)
      exact htrimmed.symm.trans (congrArg Text.trim hlast).symm
  rw [hreturn]
  unfold dedentLine Text.trim
  split
  · next h => rw [trimStart_drop_indent indent line h]
  · unfold Text.trimStart
    rw [List.dropWhile_idempotent]

/-- The section of a name. -/
def Owner.named (name : String) : Owner :=
  if name = mainName then .main else .subroutine name

/-- A text is that of a line of a file, without the blanks at its ends, and the line belongs to the
    section of a name. -/
structure Quotes (source name : String) (number : Nat) (text : String) : Prop where
  line : (Text.SourceLines.ofString source).line? number = some text
  owned : ∃ os, owners (Text.lines source.toList) = .ok os ∧
    os[number - 1]? = some (.named name)

-- The code lines of a section are those that it owns, with their numbers.
theorem exists_of_mem_sectionText {owner : Owner} {indent n : Nat} {lines : List (List Char)}
    {os : List Owner} {line : List Char} (hlines : ∀ line ∈ lines, '\n' ∉ line)
    (h : (n, line) ∈ codeLines 1 (Text.lines (sectionText owner indent (lines.zip os)).toList)) :
    ∃ original, lines[n - 1]? = some original ∧ os[n - 1]? = some owner ∧
      line = moved indent original := by
  have hrows : ∀ p ∈ lines.zip os, '\n' ∉ p.1 :=
    fun p hp => hlines p.1 (List.of_mem_zip hp).1
  rw [codeLines_sectionText owner indent _ hrows] at h
  rcases List.mem_map.mp h with ⟨⟨m, original⟩, hcode, heq⟩
  rcases Prod.mk.inj heq with ⟨rfl, rfl⟩
  rcases getElem?_of_mem_codeLines hcode with ⟨_, hget, hcode⟩
  rw [ownedLines, List.getElem?_map] at hget
  rcases Option.map_eq_some_iff.mp hget with ⟨⟨first, o⟩, hpair, hfirst⟩
  rcases List.getElem?_zip_eq_some.mp hpair with ⟨hline, howner⟩
  by_cases ho : o = owner
  · rw [if_pos ho] at hfirst
    exact ⟨original, hfirst ▸ hline, ho ▸ howner, rfl⟩
  · -- The lines of other sections are empty, and no code.
    rw [if_neg ho] at hfirst
    rw [← hfirst] at hcode
    exact absurd hcode (by decide)

/-- The code lines of a section are lines of the file. -/
theorem quotes_of_section {source name text : String} {parts : Table String} {n : Nat}
    {line : List Char} (hsections : sections source = .ok parts)
    (htext : parts.get? name = some text)
    (hcode : (n, line) ∈ codeLines 1 (Text.lines text.toList)) :
    Quotes source name n (((Text.SourceLines.ofString text).line? n).getD "") := by
  rcases exists_owners_of_sections hsections with ⟨os, hos⟩
  rcases entries_sections hos with ⟨parts', hparts, hentries⟩
  rw [hsections] at hparts
  rw [← Except.ok.inj hparts] at hentries
  have hlines : ∀ line ∈ Text.lines source.toList, '\n' ∉ line :=
    fun line => Text.not_mem_of_mem_lines _ line
  -- Whether it is the entry script or a subroutine, the text is that of the section of its name.
  have hsection : ∃ indent,
      text = sectionText (.named name) indent ((Text.lines source.toList).zip os) := by
    rcases (get?_eq_some_iff hentries name text).mp htext with ⟨hname, htext, _⟩ | ⟨hname, htext⟩
    · exact ⟨0, by rw [Owner.named, if_pos hname, htext]⟩
    · have hne := ((nodup_headerNames hos rfl).2 name hname).1
      exact ⟨_, by rw [Owner.named, if_neg hne, htext]; rfl⟩
  rcases hsection with ⟨indent, rfl⟩
  rcases getElem?_of_mem_codeLines hcode with ⟨hpositive, hget, _⟩
  rcases exists_of_mem_sectionText hlines hcode with ⟨original, horiginal, howner, rfl⟩
  rcases Nat.exists_eq_add_of_le' hpositive with ⟨k, rfl⟩
  simp only [Nat.add_sub_cancel] at hget horiginal howner
  refine ⟨?_, os, hos, howner⟩
  simp only [Text.SourceLines.line?, Text.SourceLines.ofString, hget, horiginal, Option.map_some,
    Option.getD_some, trim_moved]

end Script

open Script

/-! ## Loaded scripts -/

/-- All statements of a subroutine are lines of a file that belong to the section of a name, and the
    subroutine tells their texts. -/
def Subroutine.IsFrom (source name : String) (s : Subroutine) : Prop :=
  ∀ part ∈ Stmt.partsOfBlock s.body,
    Quotes source name part.span.line ((s.lines.line? part.span.line).getD "")

namespace Interpreter

-- What is compiled of named sources.
theorem compileAll_eq_ok {entries : List (String × String)}
    {subroutines : List (String × Subroutine)} (h : compileAll entries = .ok subroutines) :
    ∀ entry ∈ subroutines, ∃ text parsed, (entry.1, text) ∈ entries ∧
      Script.compile text = .ok parsed ∧ entry.2 = ⟨parsed.body, .ofString text⟩ := by
  induction entries generalizing subroutines with
  | nil =>
      rw [← Except.ok.inj h]
      exact fun entry hentry => absurd hentry List.not_mem_nil
  | cons first rest ih =>
      rcases first with ⟨name, text⟩
      unfold compileAll at h
      cases hcompile : Script.compile text with
      | error error => simp only [hcompile, reduceCtorEq] at h
      | ok parsed =>
          cases hrest : compileAll rest with
          | error error => simp only [hcompile, hrest, Except.map, reduceCtorEq] at h
          | ok others =>
              simp only [hcompile, hrest, Except.map, Except.ok.injEq] at h
              rw [← h]
              intro entry hentry
              rcases List.mem_cons.mp hentry with rfl | hothers
              · exact ⟨text, parsed, List.mem_cons_self, hcompile, rfl⟩
              · rcases ih hrest entry hothers with ⟨text', parsed', hmem, hfrom⟩
                exact ⟨text', parsed', List.mem_cons_of_mem _ hmem, hfrom⟩

/-- A file is loaded if all of its sections have tokens. -/
theorem load_eq_ok {source : String} {parts : Table String}
    {subroutines : List (String × Subroutine)} (hsections : Script.sections source = .ok parts)
    (hcompiled : compileAll parts.entries = .ok subroutines) (i : Interpreter) :
    i.load source = .ok { i with subroutines := .ofList subroutines } := by
  simp only [load, hsections, setSubroutines, hcompiled, Except.map]

-- A file without subroutines.
theorem load_main {source : String} {body : Block}
    (hsections : Script.sections source = .ok (.ofList [(mainName, source)]))
    (hcompile : Script.compile source = .ok ⟨body, []⟩) (i : Interpreter) :
    i.load source = .ok { i with
      subroutines := .ofList [(mainName, ⟨body, .ofString source⟩)] } := by
  have hcompiled : compileAll [(mainName, source)] =
      .ok [(mainName, ⟨body, .ofString source⟩)] := by
    simp only [compileAll, hcompile, Except.map]
  exact load_eq_ok hsections hcompiled i

/-- Every statement of a loaded script is a line of the file, of the section that it is in. -/
theorem load_isFrom {source : String} {i j : Interpreter} (h : i.load source = .ok j)
    {name : String} {s : Subroutine} (hs : j.subroutines.get? name = some s) :
    s.IsFrom source name := by
  unfold load at h
  cases hsections : Script.sections source with
  | error error => simp only [hsections, reduceCtorEq] at h
  | ok parts =>
      simp only [hsections, setSubroutines] at h
      cases hcompiled : compileAll parts.entries with
      | error error => simp only [hcompiled, Except.map, reduceCtorEq] at h
      | ok subroutines =>
          simp only [hcompiled, Except.map, Except.ok.injEq] at h
          rw [← h] at hs
          rcases Table.get?_insertAll_of_eq_some hs with hmem | hnone
          · rcases compileAll_eq_ok hcompiled _ hmem with ⟨text, parsed, htext, hparsed, rfl⟩
            have hget : parts.get? name = some text := Entries.get?_of_mem parts.nodup_keys htext
            intro part hpart
            rcases compile_stands hparsed part hpart with ⟨line, hcode⟩
            exact quotes_of_section hsections hget hcode
          · exact absurd hnone nofun

end Interpreter

end Farmhand
