import Farmhand.Proofs.Script.Comments
import Farmhand.Proofs.Script.Indented

/-!
# When Comments Are Skipped

Comments are meant to be skipped, and for the names of the subroutines, the owners of the lines and
the tokens they are. They are seen in two places all the same. A comment that belongs to the entry
script makes that script be there, even without a statement in it. And a comment counts when the
common indentation of a subroutine is taken, so one that stands to the left of all the code leaves
the code indented, and then nothing of the subroutine is understood.

Both are exact. Unless one of the two happens, the sections and their programs are the same with
and without the comments, to the last column. A comment that stands out is always noticed: the two
programs then differ in the number of their statements or in what is wrong with their lines, unless
both texts are refused at the same line.

## Main definitions

* `StandsOut`: A comment stands to the left of all code.
* `RefusedAlike`: Two texts are refused for the same reason.
* `CommentsSkipped`: A file means the same with and without its comments.

## Theorems

* `commonIndent_lt_iff`: When comments count for the common indentation.
* `compile_section_iff`: When a section is the same program without comments.
* `sections_withoutComments`: What is the same without comments, and when the rest is.
* `not_commentsSkipped`: Two files that do not mean the same without their comments.
-/

namespace Farmhand

namespace Script

/-- There is code, and a comment among the same lines stands to the left of all of it. -/
def StandsOut (lines : List (List Char)) : Prop :=
  (∃ line ∈ lines, isCode line = true) ∧
    ∃ comment ∈ lines, isComment comment = true ∧
      ∀ line ∈ lines, isCode line = true → indentLength comment < indentLength line

instance (lines : List (List Char)) : Decidable (StandsOut lines) :=
  inferInstanceAs (Decidable (_ ∧ _))

/-- Two texts are refused for the same reason. -/
def RefusedAlike (source source' : String) : Prop :=
  ∃ e, compile source = .error e ∧ compile source' = .error e

/-- Comments count for the common indentation when one of them stands out. -/
theorem commonIndent_lt_iff {lines : List (List Char)}
    (hcode : ∃ line ∈ lines, isCode line = true) :
    commonIndent lines < commonIndent (lines.filter isCode) ↔ StandsOut lines := by
  rcases hcode with ⟨line, hline, hcode⟩
  have hink : ∀ l, isCode l = true → Text.isAllBlank l = false :=
    fun l hl => (isAllBlank_eq_false_iff l).mpr (Or.inl hl)
  have hfilter : ∀ l ∈ lines, isCode l = true → l ∈ lines.filter isCode :=
    fun l hl hc => List.mem_filter.mpr ⟨hl, hc⟩
  rcases (commonIndent_spec hline (hink line hcode)).2 with ⟨least, hleast, hblank, hlength⟩
  rcases (commonIndent_spec (hfilter line hline hcode) (hink line hcode)).2 with
    ⟨least', hleast', _, hlength'⟩
  rcases List.mem_filter.mp hleast' with ⟨hin', hcode'⟩
  constructor
  · -- The least indentation is not that of code, so it is that of a comment.
    intro hlt
    have hnot : ¬ isCode least = true := by
      intro hc
      have := (commonIndent_spec (hfilter least hleast hc) hblank).1
      omega
    refine ⟨⟨line, hline, hcode⟩, least, hleast,
      ((isAllBlank_eq_false_iff least).mp hblank).resolve_left hnot, ?_⟩
    intro l hl hc
    have := (commonIndent_spec (hfilter l hl hc) (hink l hc)).1
    omega
  · rintro ⟨_, comment, hcomment, his, hleft⟩
    have hle := (commonIndent_spec hcomment
      ((isAllBlank_eq_false_iff comment).mpr (Or.inr his))).1
    have := hleft least' hin' hcode'
    omega

theorem commonIndent_le_filter {lines : List (List Char)}
    (hcode : ∃ line ∈ lines, isCode line = true) :
    commonIndent lines ≤ commonIndent (lines.filter isCode) := by
  rcases hcode with ⟨line, hline, hcode⟩
  rcases (commonIndent_spec (List.mem_filter.mpr ⟨hline, hcode⟩)
    ((isAllBlank_eq_false_iff line).mpr (Or.inl hcode))).2 with ⟨least, hleast, hblank, hlength⟩
  exact hlength ▸ (commonIndent_spec (List.mem_filter.mp hleast).1 hblank).1

/-! ## One section -/

section

variable {owned owned' : List (List Char × Owner)}

-- The code that a section owns is the code of its lines.
theorem map_snd_codeLines_ownedLines (owner : Owner) (owned : List (List Char × Owner)) :
    (codeLines 1 (ownedLines owner owned)).map Prod.snd = (ownLines owner owned).filter isCode := by
  rw [map_snd_codeLines]
  induction owned with
  | nil => rfl
  | cons p rest ih =>
      unfold ownedLines ownLines at ih ⊢
      by_cases ho : p.2 = owner
      · rw [List.map_cons, if_pos ho, List.filter_cons, ih, List.filter_cons_of_pos (by simp [ho]),
          List.map_cons, List.filter_cons]
      · rw [List.map_cons, if_neg ho, List.filter_cons_of_neg Bool.false_ne_true, ih,
          List.filter_cons_of_neg (by simp [ho])]

-- Comments change the common indentation to that of the code.
theorem commonIndent_stripped (h : Stripped owned owned') (owner : Owner) :
    commonIndent (ownLines owner owned') = commonIndent ((ownLines owner owned).filter isCode) := by
  have hcode : ((ownLines owner owned).filter isCode).filter (fun line => !Text.isAllBlank line)
      = (ownLines owner owned).filter isCode := by
    rw [List.filter_eq_self]
    intro line hline
    rw [(isAllBlank_eq_false_iff line).mpr (Or.inl (List.mem_filter.mp hline).2)]
    rfl
  unfold commonIndent
  rw [filter_stripped h, hcode]

-- The texts of a section with and without comments are the same program when they are moved by
-- the same amount, and when there is no code in them.
theorem compile_sectionText (h : Stripped owned owned') (hrows : ∀ p ∈ owned, '\n' ∉ p.1)
    (hrows' : ∀ p ∈ owned', '\n' ∉ p.1) (owner : Owner) {indent indent' : Nat}
    (hindent : (∃ line ∈ ownLines owner owned, isCode line = true) → indent = indent') :
    compile (sectionText owner indent owned) = compile (sectionText owner indent' owned') := by
  apply compile_eq_of_codeLines
  rw [codeLines_sectionText owner indent owned hrows,
    codeLines_sectionText owner indent' owned' hrows', codeLines_stripped h owner]
  by_cases hcode : ∃ line ∈ ownLines owner owned, isCode line = true
  · rw [hindent hcode]
  · have hnone : (codeLines 1 (ownedLines owner owned)).map Prod.snd = [] := by
      rw [map_snd_codeLines_ownedLines, List.filter_eq_nil_iff]
      exact fun line hline hc => hcode ⟨line, hline, hc⟩
    rw [List.map_eq_nil_iff.mp hnone]
    rfl

-- A comment that stands out leaves nothing of a section at the margin, where its code would be
-- without it. This is noticed, unless both texts are refused.
theorem refusedAlike_of_standsOut (h : Stripped owned owned') (hrows : ∀ p ∈ owned, '\n' ∉ p.1)
    (hrows' : ∀ p ∈ owned', '\n' ∉ p.1) (owner : Owner) (hout : StandsOut (ownLines owner owned))
    (haccount : account (sectionText owner (commonIndent (ownLines owner owned)) owned)
      = account (sectionText owner (commonIndent (ownLines owner owned')) owned')) :
    RefusedAlike (sectionText owner (commonIndent (ownLines owner owned)) owned)
      (sectionText owner (commonIndent (ownLines owner owned')) owned') := by
  have hlt := (commonIndent_lt_iff hout.1).mpr hout
  rw [← commonIndent_stripped h] at hlt
  have htext := codeLines_sectionText owner (commonIndent (ownLines owner owned)) owned hrows
  have htext' := codeLines_sectionText owner (commonIndent (ownLines owner owned')) owned' hrows'
  rw [codeLines_stripped h owner] at htext'
  have hsnd := map_snd_codeLines_ownedLines owner owned
  rcases hout.1 with ⟨line, hline, hcode⟩
  have hspec := commonIndent_spec (List.mem_filter.mpr ⟨hline, hcode⟩)
    ((isAllBlank_eq_false_iff line).mpr (Or.inl hcode))
  rcases hspec.2 with ⟨least, hleast, hblank, hlength⟩
  rw [← commonIndent_stripped h] at hlength
  -- With the comment, no code line is at the margin.
  have hinside : ∀ p ∈ codeLines 1 (Text.lines (sectionText owner
      (commonIndent (ownLines owner owned)) owned).toList), 0 < indentWidth 0 p.2 := by
    intro p hp
    rw [htext] at hp
    rcases List.mem_map.mp hp with ⟨q, hq, rfl⟩
    have hown : q.2 ∈ (ownLines owner owned).filter isCode :=
      hsnd ▸ List.mem_map.mpr ⟨q, hq, rfl⟩
    have hle := (commonIndent_spec hown ((isAllBlank_eq_false_iff q.2).mpr
      (Or.inl (List.mem_filter.mp hown).2))).1
    rw [← commonIndent_stripped h] at hle
    have hmoved := indentLength_moved (Nat.le_trans (Nat.le_of_lt hlt) hle)
    refine Nat.pos_of_ne_zero fun hzero => ?_
    rw [indentWidth_eq_zero_iff, hmoved] at hzero
    omega
  -- Without it, the code line with the least indentation is.
  have hmargin : ∃ p ∈ codeLines 1 (Text.lines (sectionText owner
      (commonIndent (ownLines owner owned')) owned').toList), indentWidth 0 p.2 = 0 := by
    rw [← hsnd] at hleast
    rcases List.mem_map.mp hleast with ⟨q, hq, hqleast⟩
    refine ⟨_, htext' ▸ List.mem_map.mpr ⟨q, hq, rfl⟩, ?_⟩
    rw [indentWidth_eq_zero_iff, hqleast, indentLength_moved (Nat.le_of_eq hlength.symm), hlength,
      Nat.sub_self]
  -- One text is then nothing but a complaint about its first line and the other is not.
  cases hfirst : codeLines 1 (ownedLines owner owned) with
  | nil =>
      rw [hfirst] at htext'
      rcases hmargin with ⟨p, hp, _⟩
      rw [htext'] at hp
      exact absurd hp List.not_mem_nil
  | cons q rest =>
      rcases q with ⟨number, first⟩
      rw [hfirst] at htext htext'
      rw [htext] at hinside
      rw [htext'] at hmargin
      cases hanswer : account (sectionText owner (commonIndent (ownLines owner owned)) owned) with
      | ok answer =>
          rw [account_of_indented htext hinside hanswer, haccount] at hanswer
          exact absurd hanswer (account_ne_of_margin htext' hmargin)
      | error e =>
          rw [hanswer] at haccount
          exact ⟨e, compile_of_account hanswer, compile_of_account haccount.symm⟩

-- A section is the same program without its comments, unless one of them stands out; then even
-- the number of statements or what is wrong with them differs, or both texts are refused.
theorem compile_section_iff (h : Stripped owned owned') (hrows : ∀ p ∈ owned, '\n' ∉ p.1)
    (hrows' : ∀ p ∈ owned', '\n' ∉ p.1) (owner : Owner) {text text' : String}
    (htext : text = sectionText owner (commonIndent (ownLines owner owned)) owned)
    (htext' : text' = sectionText owner (commonIndent (ownLines owner owned')) owned') :
    (account text = account text' → compile text = compile text') ∧
      (compile text = compile text' ↔
        ¬ StandsOut (ownLines owner owned) ∨ RefusedAlike text text') := by
  have hrefused : RefusedAlike text text' → compile text = compile text' := by
    rintro ⟨e, he, he'⟩
    rw [he, he']
  -- When a comment stands out, the account tells the texts apart; else they are moved alike.
  by_cases hout : StandsOut (ownLines owner owned)
  · have hnoticed : account text = account text' → RefusedAlike text text' := by
      rw [htext, htext']
      exact refusedAlike_of_standsOut h hrows hrows' owner hout
    refine ⟨fun haccount => hrefused (hnoticed haccount), ⟨fun hcompile => Or.inr ?_, ?_⟩⟩
    · apply hnoticed
      unfold account
      rw [hcompile]
    · rintro (hnot | halike)
      · exact absurd hout hnot
      · exact hrefused halike
  · have hsame : compile text = compile text' := by
      rw [htext, htext']
      refine compile_sectionText h hrows hrows' owner fun hcode => ?_
      rw [commonIndent_stripped h]
      have hle := commonIndent_le_filter hcode
      have hnot := mt (commonIndent_lt_iff hcode).mp hout
      omega
    exact ⟨fun _ => hsame, ⟨fun _ => Or.inl hout, fun _ => hsame⟩⟩

-- The entry script is there without comments when there is code in it.
theorem any_ink_stripped (h : Stripped owned owned') (owner : Owner) :
    ((ownLines owner owned').any fun line => !Text.isAllBlank line) = true ↔
      ∃ line ∈ ownLines owner owned, isCode line = true := by
  have hfilter := filter_stripped h owner
  rw [List.any_eq_true]
  constructor
  · rintro ⟨line, hline, hink⟩
    have hmem := hfilter ▸ List.mem_filter.mpr ⟨hline, hink⟩
    exact ⟨line, (List.mem_filter.mp hmem).1, (List.mem_filter.mp hmem).2⟩
  · rintro ⟨line, hline, hcode⟩
    have hmem := hfilter.symm ▸ List.mem_filter.mpr ⟨hline, hcode⟩
    exact ⟨line, (List.mem_filter.mp hmem).1, (List.mem_filter.mp hmem).2⟩

-- With them, it is also there when there is only a comment.
theorem any_ink_iff (owned : List (List Char × Owner)) (owner : Owner) :
    ((ownLines owner owned).any fun line => !Text.isAllBlank line) = true ↔
      ∃ line ∈ ownLines owner owned, isCode line = true ∨ isComment line = true := by
  rw [List.any_eq_true]
  simp only [Bool.not_eq_true', isAllBlank_eq_false_iff]

end

/-! ## The whole file -/

/-- A file means the same with and without its comments: its sections have the same names in the
    same order, and every one of them is the same program with the same faults. -/
def CommentsSkipped (source : String) : Prop :=
  ∀ parts, sections source = .ok parts →
    ∃ bare, sections (withoutComments source) = .ok bare ∧ bare.keys = parts.keys ∧
      ∀ name text text', parts.get? name = some text → bare.get? name = some text' →
        compile text = compile text'

/-- A lone comment is enough for an entry script, and a comment at the start of a line is enough to
    lose a subroutine. -/
theorem not_commentsSkipped :
    ¬ CommentsSkipped "# c\ndef a:\n    pass\n" ∧
      ¬ CommentsSkipped "def a:\n    x = 1\n# c\n    y = 2\n" := by
  constructor
  · intro h
    have hparts : ∃ parts, sections "# c\ndef a:\n    pass\n" = .ok parts ∧
        parts.keys = ["main", "a"] := ⟨_, rfl, by decide⟩
    have hbare : ∃ bare, sections (withoutComments "# c\ndef a:\n    pass\n") = .ok bare ∧
        bare.keys = ["a"] := ⟨_, rfl, by decide⟩
    rcases hparts with ⟨parts, hparts, hkeys⟩
    rcases hbare with ⟨bare, hbare, hkeys'⟩
    rcases h parts hparts with ⟨bare', hbare', hsame, _⟩
    rw [hbare, Except.ok.injEq] at hbare'
    rw [← hbare', hkeys, hkeys'] at hsame
    exact absurd hsame (by decide)
  · intro h
    have hparts : ∃ parts, sections "def a:\n    x = 1\n# c\n    y = 2\n" = .ok parts ∧
        parts.get? "a" = some "\n    x = 1\n# c\n    y = 2\n" := ⟨_, rfl, by decide⟩
    have hbare : ∃ bare,
        sections (withoutComments "def a:\n    x = 1\n# c\n    y = 2\n") = .ok bare ∧
          bare.get? "a" = some "\nx = 1\n\ny = 2\n" := ⟨_, rfl, by decide⟩
    -- Both texts are read, the one as a single complaint and the other as something else.
    have hread : ∃ answer, account "\nx = 1\n\ny = 2\n" = .ok answer :=
      ⟨_, account_eq_ok_iff.mpr ⟨_, rfl, rfl⟩⟩
    rcases hparts with ⟨parts, hparts, hget⟩
    rcases hbare with ⟨bare, hbare, hget'⟩
    rcases hread with ⟨answer, hread⟩
    rcases h parts hparts with ⟨bare', hbare', _, hcompile⟩
    rw [hbare, Except.ok.injEq] at hbare'
    have hsame : account "\n    x = 1\n# c\n    y = 2\n" = .ok answer := by
      rw [← hread, account, account, hcompile "a" _ _ hget (hbare' ▸ hget')]
    rw [account_of_indented rfl (by decide) hsame] at hread
    exact account_ne_of_margin rfl (by decide) hread

theorem newline_not_mem_owned (source : String) (os : List Owner) :
    ∀ p ∈ (Text.lines source.toList).zip os, '\n' ∉ p.1 :=
  fun p hp => Text.not_mem_of_mem_lines _ p.1 (List.of_mem_zip hp).1

/-- A file that is accepted is accepted without its comments, with the same subroutines in the same
    order. The entry script is there without them exactly when there is code in it, and so the names
    are the same unless there is only a comment in it. A section is the same program exactly when it
    is the entry script, or no comment stands out, or both of its texts are refused at the same
    line; and where it is not the same, the number of statements or the faults differ, too. -/
theorem sections_withoutComments (source : String) (parts : Table String)
    (h : sections source = .ok parts) :
    ∃ bare, sections (withoutComments source) = .ok bare ∧
      bare.keys.filter (· ≠ mainName) = parts.keys.filter (· ≠ mainName) ∧
      (mainName ∈ bare.keys ↔ ∃ line ∈ linesOf source .main, isCode line = true) ∧
      (bare.keys = parts.keys ↔
        ((∃ line ∈ linesOf source .main, isComment line = true) →
          ∃ line ∈ linesOf source .main, isCode line = true)) ∧
      ∀ name text', bare.get? name = some text' → ∃ text, parts.get? name = some text ∧
        (account text = account text' → compile text = compile text') ∧
        (compile text = compile text' ↔
          name = mainName ∨ ¬ StandsOut (linesOf source (.subroutine name)) ∨
            RefusedAlike text text') := by
  rcases exists_owners_of_sections h with ⟨os, hos⟩
  rcases exists_owners_withoutComments hos with ⟨os', hos', hnames, hstripped⟩
  rcases entries_sections hos with ⟨parts', hparts, hentries⟩
  rcases entries_sections hos' with ⟨bare, hbare, hentries'⟩
  rw [h, Except.ok.injEq] at hparts
  rw [← hparts] at hentries
  have hlines : ∀ owner, linesOf source owner
      = ownLines owner ((Text.lines source.toList).zip os) := by
    intro owner
    rw [linesOf, hos]
  -- Both files have the same headers, so their names differ in the entry script at most.
  have hkeys : parts.keys = _ := congrArg (List.map Prod.fst) hentries
  have hkeys' : bare.keys = _ := congrArg (List.map Prod.fst) hentries'
  rw [keys_sectionEntries] at hkeys hkeys'
  rw [hnames] at hkeys'
  have hmain : mainName ∉ headerNames os :=
    fun hmem => ((nodup_headerNames hos rfl).2 _ hmem).1 rfl
  have hink := any_ink_iff ((Text.lines source.toList).zip os) .main
  have hink' := any_ink_stripped hstripped .main
  refine ⟨bare, hbare, ?_, ?_, ?_, ?_⟩
  · rw [hkeys, hkeys', filter_sectionNames hmain, filter_sectionNames hmain]
  · rw [hkeys', mem_sectionNames_iff hmain, hink', hlines]
  · rw [hkeys, hkeys', sectionNames_inj, Bool.eq_iff_iff, hink, hink', hlines]
    constructor
    · rintro hsame ⟨line, hline, hcomment⟩
      exact hsame.mpr ⟨line, hline, Or.inr hcomment⟩
    · intro hcomment
      refine ⟨fun ⟨line, hline, hcode⟩ => ⟨line, hline, Or.inl hcode⟩, ?_⟩
      rintro ⟨line, hline, hcode | hcode⟩
      · exact ⟨line, hline, hcode⟩
      · exact hcomment ⟨line, hline, hcode⟩
  · intro name text' htext'
    have hrows := newline_not_mem_owned source os
    have hrows' := newline_not_mem_owned (withoutComments source) os'
    rcases (get?_eq_some_iff hentries' name text').mp htext' with
      ⟨hname, htext', hpresent⟩ | ⟨hname, htext'⟩
    · -- The entry script is not moved, so its comments do not count.
      have hcode := hink'.mp hpresent
      have hthere := hink.mpr (hcode.imp fun line hline => ⟨hline.1, Or.inl hline.2⟩)
      have hsame := compile_sectionText hstripped hrows hrows' .main fun _ => (rfl : 0 = 0)
      refine ⟨_, (get?_eq_some_iff hentries name _).mpr (Or.inl ⟨hname, rfl, hthere⟩), ?_⟩
      rw [htext']
      exact ⟨fun _ => hsame, fun _ => Or.inl hname, fun _ => hsame⟩
    · rw [hnames] at hname
      have hnotMain : name ≠ mainName := fun h => hmain (h ▸ hname)
      refine ⟨_, (get?_eq_some_iff hentries name _).mpr (Or.inr ⟨hname, rfl⟩), ?_⟩
      rw [or_iff_right hnotMain, hlines]
      exact compile_section_iff hstripped hrows hrows' _ rfl htext'

/-- With a comment at the start of a line, a subroutine of two statements is one bad line. -/
theorem sections_withoutComments_standing :
    ∃ parts bare text text',
      sections "def a:\n    x = 1\n# c\n    y = 2\n" = .ok parts ∧
        sections (withoutComments "def a:\n    x = 1\n# c\n    y = 2\n") = .ok bare ∧
        parts.get? "a" = some text ∧ bare.get? "a" = some text' ∧
        account text ≠ account text' := by
  have hbare : ∃ bare,
      sections (withoutComments "def a:\n    x = 1\n# c\n    y = 2\n") = .ok bare ∧
        bare.get? "a" = some "\nx = 1\n\ny = 2\n" := ⟨_, rfl, by decide⟩
  have hout : StandsOut (linesOf "def a:\n    x = 1\n# c\n    y = 2\n" (.subroutine "a")) := by
    decide
  have hread : ∃ answer, account "\nx = 1\n\ny = 2\n" = .ok answer :=
    ⟨_, account_eq_ok_iff.mpr ⟨_, rfl, rfl⟩⟩
  rcases hread with ⟨answer, hread⟩
  rcases hbare with ⟨bare, hbare, hget'⟩
  rcases sections_withoutComments "def a:\n    x = 1\n# c\n    y = 2\n" _ rfl with
    ⟨bare', hbare', _, _, _, hsections⟩
  rw [hbare, Except.ok.injEq] at hbare'
  rcases hsections "a" _ (hbare' ▸ hget') with ⟨text, hget, haccount, hsame⟩
  refine ⟨_, bare, text, _, rfl, hbare, hget, hget', fun h => ?_⟩
  rcases hsame.mp (haccount h) with hname | hstands | ⟨e, _, he⟩
  · exact absurd hname (by decide)
  · exact hstands hout
  · rw [account, he] at hread
    cases hread

end Script

end Farmhand
