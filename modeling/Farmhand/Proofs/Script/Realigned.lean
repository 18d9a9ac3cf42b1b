import Mathlib
import Farmhand.Proofs.Script.Aligned
import Farmhand.Proofs.Script.Skipping

/-!
# Layout of Sections

The body of a subroutine is moved to the left by its common indentation, which is a number of
characters. When the lines of the body have tokens where they stand, the text of the section has the
same tokens, without the opening and the closing around them, exactly if every line keeps its place
among the lines above. This is so when the indentation is written with one character throughout and
no comment stands to the left of the code. A body that is indented with a tab here and with four
blanks there loses its layout.

## Main definitions

* `kindsOf`: The kinds of the tokens of a text.
* `ownText`, `ownCode`: The lines of a subroutine where they stand in the file.
* `Unmixed`: Indentation is written with one character.
* `LayoutKept`: Moving the bodies of a file keeps their layout.

## Theorems

* `indented_of_owned`: The code of a subroutine is indented.
* `codeLines_subroutine`: The code lines of the text of a subroutine.
* `keepsLayout_of_unmixed`: Unmixed indentation keeps its layout.
* `sections_keepsLayout`: When the text of a section has the layout of its lines.
* `not_layoutKept`: A tab and four blanks.
-/

namespace Farmhand

namespace Script

/-- The kinds of the tokens of a text. -/
def kindsOf (text : String) : Except LexError (List Token.Kind) :=
  (tokenize text).map fun tokens => tokens.map Token.kind

/-- The lines of a subroutine where they stand in the file, with all other lines empty. -/
def ownText (source name : String) : String :=
  let lines := Text.lines source.toList
  match owners lines with
  | .error _ => ""
  | .ok os => sectionText (.subroutine name) 0 (lines.zip os)

/-- The code lines of a subroutine where they stand in the file. -/
def ownCode (source name : String) : List (Nat × List Char) :=
  codeLines 1 (Text.lines (ownText source name).toList)

theorem kindsOf_eq_ok_iff {text : String} {ks : List Token.Kind} :
    kindsOf text = .ok ks ↔ HasKinds [] 0 (codeLines 1 (Text.lines text.toList)) ks := by
  rw [kindsOf, tokenize_eq_codeTokens, HasKinds]
  constructor
  · exact ok_of_map_eq_ok
  · rintro ⟨tokens, htokens, hkinds⟩
    rw [htokens, ← hkinds]
    rfl

/-! ## The lines of a subroutine -/

-- A code line at the start of a line leaves the subroutine.
theorem isIndent_of_ownerStep {number : Nat} {current next : Owner} {seen seen' : List String}
    {line : List Char} {name : String}
    (h : ownerStep number current seen line = .ok (.subroutine name, next, seen'))
    (hcode : isCode line = true) : isIndent (line.headD ' ') = true := by
  by_cases hindent : isIndent (line.headD ' ') = true
  · exact hindent
  · rw [Bool.not_eq_true] at hindent
    rw [ownerStep, hcode, hindent, if_pos (by rfl)] at h
    split at h
    · cases h
    · split at h
      · cases h
      · split at h
        · cases h
        · cases h

-- A line of code in a subroutine is indented, for one at the margin ends the subroutine.
theorem indented_of_ownersFrom {number : Nat} {current : Owner} {seen : List String}
    {lines : List (List Char)} {os : List Owner} {name : String}
    (h : ownersFrom number current seen lines = .ok os) :
    ∀ p ∈ lines.zip os, p.2 = .subroutine name → isCode p.1 = true →
      isIndent (p.1.headD ' ') = true := by
  induction lines generalizing number current seen os with
  | nil => exact fun p hp => absurd hp List.not_mem_nil
  | cons line rest ih =>
      rcases ownersFrom_cons_eq_ok h with ⟨owner, next, seen', tail, hstep, htail, rfl⟩
      intro p hp howner hcode
      rcases List.mem_cons.mp hp with rfl | hp
      · change owner = .subroutine name at howner
        rw [howner] at hstep
        exact isIndent_of_ownerStep hstep hcode
      · exact ih htail p hp howner hcode

/-- The code of a subroutine is indented. -/
theorem indented_of_owned {source name : String} {os : List Owner}
    (h : owners (Text.lines source.toList) = .ok os) {line : List Char}
    (hline : line ∈ ownLines (.subroutine name) ((Text.lines source.toList).zip os))
    (hcode : isCode line = true) : 0 < indentLength line := by
  rcases List.mem_map.mp hline with ⟨p, hp, rfl⟩
  rcases List.mem_filter.mp hp with ⟨hmem, howner⟩
  have hindent := indented_of_ownersFrom h p hmem (of_decide_eq_true howner) hcode
  cases hchars : p.1 with
  | nil =>
      rw [hchars] at hcode
      cases hcode
  | cons c rest =>
      rw [hchars, List.headD_cons] at hindent
      rw [indentLength, List.takeWhile_cons_of_pos hindent]
      exact Nat.succ_pos _

theorem dropReturn_append_of_indent {front : List Char} (h : ∀ c ∈ front, isIndent c = true)
    (rest : List Char) : Text.dropReturn (front ++ rest) = front ++ Text.dropReturn rest := by
  induction front with
  | nil => rfl
  | cons c front ih =>
      rcases List.forall_mem_cons.mp h with ⟨hc, hfront⟩
      have hreturn : ¬ (c = '\r' ∧ front ++ rest = []) := by
        rintro ⟨rfl, _⟩
        exact absurd hc (by decide)
      rw [List.cons_append, Text.dropReturn, if_neg hreturn, ih hfront, List.cons_append]

theorem dropReturn_drop {n : Nat} {line : List Char} (h : n ≤ indentLength line) :
    Text.dropReturn (line.drop n) = (Text.dropReturn line).drop n := by
  have hlength : n ≤ line.length := Nat.le_trans h (List.takeWhile_prefix isIndent).length_le
  conv_rhs => rw [← List.take_append_drop n line]
  rw [dropReturn_append_of_indent (isIndent_of_mem_take h),
    List.drop_left' (List.length_take_of_le hlength)]

-- The text of a subroutine is moved as a whole.
theorem moved_eq_drop {n : Nat} {line : List Char} (h : n ≤ indentLength line) :
    moved n line = (moved 0 line).drop n := by
  rw [moved, moved, dedentLine, if_pos h, dedentLine, if_pos (Nat.zero_le _), List.drop_zero,
    dropReturn_drop h]

/-! ## The text of a subroutine -/

section

variable {source name text : String} {parts : Table String} {os : List Owner}
  {body : List Token.Kind}

theorem linesOf_eq (h : owners (Text.lines source.toList) = .ok os) (owner : Owner) :
    linesOf source owner = ownLines owner ((Text.lines source.toList).zip os) := by
  rw [linesOf, h]

theorem ownCode_eq (h : owners (Text.lines source.toList) = .ok os) (name : String) :
    ownCode source name =
      (codeLines 1 (ownedLines (.subroutine name) ((Text.lines source.toList).zip os))).map
        fun p => (p.1, moved 0 p.2) := by
  rw [ownCode, ownText, h]
  exact codeLines_sectionText _ 0 _ (newline_not_mem_owned source os)

theorem indentLength_moved_zero (line : List Char) :
    indentLength (moved 0 line) = indentLength line :=
  (indentLength_moved (Nat.zero_le _)).trans (Nat.sub_zero _)

/-- The code lines of the text of a subroutine are its lines, each moved to the left by the common
    indentation. They are code, they are indented where they stand, and so far at least. -/
theorem codeLines_subroutine (h : sections source = .ok parts) (hname : name ≠ mainName)
    (htext : parts.get? name = some text) :
    codeLines 1 (Text.lines text.toList) =
        (ownCode source name).map
          (moveLeft (commonIndent (linesOf source (.subroutine name)))) ∧
      ∀ p ∈ ownCode source name, isCode p.2 = true ∧ 0 < width p ∧
        commonIndent (linesOf source (.subroutine name)) ≤ indentLength p.2 := by
  rcases exists_owners_of_sections h with ⟨os, hos⟩
  rcases entries_sections hos with ⟨parts', hparts, hentries⟩
  rw [h, Except.ok.injEq] at hparts
  rw [← hparts] at hentries
  have hrows := newline_not_mem_owned source os
  rw [ownCode_eq hos, linesOf_eq hos]
  -- A code line of the section is one of its lines, and it is indented.
  have hcode : ∀ p ∈ codeLines 1 (ownedLines (.subroutine name)
      ((Text.lines source.toList).zip os)), isCode p.2 = true ∧ 0 < indentLength p.2 ∧
        commonIndent (ownLines (.subroutine name) ((Text.lines source.toList).zip os)) ≤
          indentLength p.2 := by
    intro p hp
    have hmem := List.mem_map_of_mem (f := Prod.snd) hp
    rw [map_snd_codeLines_ownedLines] at hmem
    rcases List.mem_filter.mp hmem with ⟨hline, his⟩
    exact ⟨his, indented_of_owned hos hline his,
      (commonIndent_spec hline ((isAllBlank_eq_false_iff p.2).mpr (Or.inl his))).1⟩
  rcases (get?_eq_some_iff hentries name text).mp htext with ⟨hmain, _⟩ | ⟨_, rfl⟩
  · exact absurd hmain hname
  · refine ⟨?_, ?_⟩
    · rw [subroutineText, codeLines_sectionText _ _ _ hrows, List.map_map]
      refine List.map_congr_left fun p hp => ?_
      rw [Function.comp, moveLeft, moved_eq_drop (hcode p hp).2.2]
    · intro p hp
      rcases List.mem_map.mp hp with ⟨q, hq, rfl⟩
      rcases hcode q hq with ⟨his, hpos, hle⟩
      refine ⟨(isCode_moved 0 q.2).trans his, Nat.pos_of_ne_zero fun hzero => ?_, ?_⟩
      · have hnone := (indentWidth_eq_zero_iff _).mp hzero
        rw [indentLength_moved_zero] at hnone
        exact Nat.ne_of_gt hpos hnone
      · rw [indentLength_moved_zero]
        exact hle

-- Unless a comment stands out, the common indentation is that of a code line.
theorem exists_least (h : sections source = .ok parts)
    (hout : ¬ StandsOut (linesOf source (.subroutine name))) {p : Nat × List Char}
    (hp : p ∈ ownCode source name) :
    ∃ least ∈ ownCode source name,
      indentLength least.2 = commonIndent (linesOf source (.subroutine name)) := by
  rcases exists_owners_of_sections h with ⟨os, hos⟩
  have hsnd := map_snd_codeLines_ownedLines (.subroutine name)
    ((Text.lines source.toList).zip os)
  rw [ownCode_eq hos] at hp ⊢
  rw [linesOf_eq hos] at hout ⊢
  rcases List.mem_map.mp hp with ⟨q, hq, _⟩
  have hline := hsnd ▸ List.mem_map_of_mem (f := Prod.snd) hq
  have hcode := (List.mem_filter.mp hline).2
  have hsome : ∃ line ∈ ownLines (.subroutine name) ((Text.lines source.toList).zip os),
      isCode line = true := ⟨q.2, (List.mem_filter.mp hline).1, hcode⟩
  have hsame := Nat.le_antisymm (commonIndent_le_filter hsome)
    (Nat.not_lt.mp (mt (commonIndent_lt_iff hsome).mp hout))
  rcases (commonIndent_spec hline ((isAllBlank_eq_false_iff q.2).mpr (Or.inl hcode))).2 with
    ⟨line, hleast, _, hlength⟩
  rcases List.mem_map.mp (hsnd.symm ▸ hleast) with ⟨r, hr, rfl⟩
  exact ⟨_, List.mem_map_of_mem hr, (indentLength_moved_zero r.2).trans (hlength.trans hsame.symm)⟩

end

/-! ## Unmixed indentation -/

/-- All indentation is written with one character. -/
def Unmixed (code : List (Nat × List Char)) : Prop :=
  ∃ c, ∀ p ∈ code, ∀ x ∈ p.2.takeWhile isIndent, x = c

/-- The columns that a character of indentation takes where no other is used. -/
def columnsOf (c : Char) : Nat :=
  if c = '\t' then tabWidth else 1

section

variable {c : Char} {line : List Char} {n : Nat}

/-- With one sort of blanks, the width is the number of characters times the columns of one. -/
theorem indentWidth_unmixed (h : ∀ x ∈ line.takeWhile isIndent, x = c) (k : Nat) :
    indentWidth (columnsOf c * k) line = columnsOf c * (k + indentLength line) := by
  induction line generalizing k with
  | nil => rfl
  | cons x rest ih =>
      unfold indentLength
      by_cases hx : isIndent x = true
      · rw [List.takeWhile_cons_of_pos hx] at h ⊢
        rcases List.forall_mem_cons.mp h with ⟨rfl, hrest⟩
        have hnext : indentWidth (columnsOf x * k) (x :: rest) =
            indentWidth (columnsOf x * (k + 1)) rest := by
          rw [isIndent, Bool.or_eq_true, beq_iff_eq, beq_iff_eq] at hx
          rcases hx with rfl | rfl
          · rw [indentWidth, Nat.mul_add]
            rfl
          · rw [indentWidth_tab]
            congr 1
            unfold columnsOf tabWidth
            rw [if_pos rfl]
            omega
        rw [hnext, ih hrest, List.length_cons, indentLength]
        congr 1
        omega
      · rw [List.takeWhile_cons_of_neg hx, List.length_nil, Nat.add_zero, indentWidth]
        · exact fun _ hspace => hx (by rw [(List.cons.inj hspace).1]; rfl)
        · exact fun _ htab => hx (by rw [(List.cons.inj htab).1]; rfl)

theorem width_unmixed {p : Nat × List Char} (h : ∀ x ∈ p.2.takeWhile isIndent, x = c) :
    width p = columnsOf c * indentLength p.2 := by
  have hwidth := indentWidth_unmixed h 0
  rw [Nat.mul_zero, Nat.zero_add] at hwidth
  exact hwidth

theorem takeWhile_drop_indent (h : n ≤ indentLength line) :
    line.takeWhile isIndent = line.take n ++ (line.drop n).takeWhile isIndent := by
  conv_lhs => rw [← List.take_append_drop n line]
  exact List.takeWhile_append_of_pos (isIndent_of_mem_take h)

-- Lines that are all moved by as many columns keep their places.
theorem keepsLayout_of_shifted {lines : List (Nat × Nat)} {d : Nat}
    (hfirst : ∀ q ∈ lines.head?, q.2 = 0) (hshift : ∀ q ∈ lines, q.1 = q.2 + d) :
    KeepsLayout lines := by
  refine ⟨hfirst, fun front q back hlines p hp => ?_⟩
  have hq : q.1 = q.2 + d := hshift q (by rw [hlines]; simp)
  have hmem := List.mem_of_find?_eq_some hp
  rw [List.append_nil, List.mem_reverse] at hmem
  have hp : p.1 = p.2 + d := hshift p (by rw [hlines]; exact List.mem_append_left _ hmem)
  exact ⟨by omega, by omega⟩

/-- Indentation that is written with one character keeps its layout, if the common indentation is
    that of the first line. -/
theorem keepsLayout_of_unmixed {code : List (Nat × List Char)} (h : Unmixed code)
    (hn : ∀ p ∈ code, n ≤ indentLength p.2) (hfirst : ∀ p ∈ code.head?, indentLength p.2 ≤ n) :
    KeepsLayout (widthsMoved n code) := by
  rcases h with ⟨c, hc⟩
  have hmoved : ∀ p ∈ code, width (moveLeft n p) = columnsOf c * (indentLength p.2 - n) := by
    intro p hp
    have hrest : ∀ x ∈ (p.2.drop n).takeWhile isIndent, x = c := by
      intro x hx
      refine hc p hp x ?_
      rw [takeWhile_drop_indent (hn p hp)]
      exact List.mem_append_right _ hx
    rw [width_unmixed (p := moveLeft n p) hrest, moveLeft, indentLength_drop n p.2 (hn p hp)]
  refine keepsLayout_of_shifted (d := columnsOf c * n) ?_ ?_
  · intro q hq
    rw [widthsMoved, List.head?_map] at hq
    rcases Option.map_eq_some_iff.mp hq with ⟨p, hp, rfl⟩
    rw [hmoved p (List.mem_of_mem_head? hp), Nat.sub_eq_zero_of_le (hfirst p hp), Nat.mul_zero]
  · intro q hq
    rcases List.mem_map.mp hq with ⟨p, hp, rfl⟩
    rw [hmoved p hp, width_unmixed (hc p hp), ← Nat.mul_add, Nat.sub_add_cancel (hn p hp)]

end

/-! ## The layout of a section -/

section

variable {source name text : String} {parts : Table String} {body : List Token.Kind}

-- The first line of an unmixed body has the common indentation, since it stands leftmost.
theorem keepsLayout_subroutine (h : sections source = .ok parts) (hname : name ≠ mainName)
    (htext : parts.get? name = some text)
    (hown : HasKinds [] 0 (ownCode source name)
      (.mark .indent :: (body ++ [.mark .dedent, .mark .endOfInput])))
    (hout : ¬ StandsOut (linesOf source (.subroutine name)))
    (hunmixed : Unmixed (ownCode source name)) :
    KeepsLayout (widthsMoved (commonIndent (linesOf source (.subroutine name)))
      (ownCode source name)) := by
  rcases codeLines_subroutine h hname htext with ⟨_, hcode⟩
  refine keepsLayout_of_unmixed hunmixed (fun p hp => (hcode p hp).2.2) ?_
  intro p hp
  rcases exists_least h hout (List.mem_of_mem_head? hp) with ⟨least, hleast, hlength⟩
  rcases hunmixed with ⟨c, hc⟩
  have hwidths : width p ≤ width least := by
    cases hlist : ownCode source name with
    | nil =>
        rw [hlist] at hp
        cases hp
    | cons q rest =>
        rw [hlist] at hp hown hcode hleast
        rw [← Option.some.inj hp]
        exact (hown.first_le fun r hr => (hcode r hr).2.1).1 least hleast
  rw [width_unmixed (hc p (List.mem_of_mem_head? hp)), width_unmixed (hc least hleast),
    hlength] at hwidths
  refine Nat.le_of_mul_le_mul_left hwidths ?_
  unfold columnsOf tabWidth
  split <;> decide

/-- If the lines of a subroutine have tokens where they stand, with one block around all of them,
    then its text has the same tokens without that block exactly if every line keeps its place: the
    first comes to stand at the margin, and every other stands to the nearest line above that it
    does not stand to the left of as before. So it is if no comment stands to the left of the code
    and the indentation of the code is written with one character. -/
theorem sections_keepsLayout (h : sections source = .ok parts) (hname : name ≠ mainName)
    (htext : parts.get? name = some text)
    (hown : kindsOf (ownText source name) =
      .ok (.mark .indent :: (body ++ [.mark .dedent, .mark .endOfInput]))) :
    (kindsOf text = .ok (body ++ [.mark .endOfInput]) ↔
      KeepsLayout (widthsMoved (commonIndent (linesOf source (.subroutine name)))
        (ownCode source name))) ∧
      (¬ StandsOut (linesOf source (.subroutine name)) → Unmixed (ownCode source name) →
        KeepsLayout (widthsMoved (commonIndent (linesOf source (.subroutine name)))
          (ownCode source name))) := by
  rcases codeLines_subroutine h hname htext with ⟨hmoved, hcode⟩
  rw [kindsOf_eq_ok_iff] at hown
  refine ⟨?_, keepsLayout_subroutine h hname htext hown⟩
  rw [kindsOf_eq_ok_iff, hmoved]
  exact hasKinds_keepsLayout hcode hown 0

/-- Under a tab, lines that go on with four blanks keep their layout. -/
theorem sections_keepsLayout_nested :
    ∃ parts text body, sections "def f:\n\tif a:\n\t    b()\n" = .ok parts ∧
      parts.get? "f" = some text ∧
      kindsOf (ownText "def f:\n\tif a:\n\t    b()\n" "f") =
        .ok (.mark .indent :: (body ++ [.mark .dedent, .mark .endOfInput])) ∧
      kindsOf text = .ok (body ++ [.mark .endOfInput]) := by
  have hparts : ∃ parts, sections "def f:\n\tif a:\n\t    b()\n" = .ok parts ∧
      parts.get? "f" = some "\nif a:\n    b()\n" := ⟨_, rfl, by decide⟩
  have hown : kindsOf (ownText "def f:\n\tif a:\n\t    b()\n" "f") =
      .ok (.mark .indent :: ([.mark (.keyword .ifWord), .name "a", .mark (.punctuation .colon),
        .mark .newline, .mark .indent, .name "b", .mark (.punctuation .leftParen),
        .mark (.punctuation .rightParen), .mark .newline, .mark .dedent] ++
          [.mark .dedent, .mark .endOfInput])) := by
    cbv
  have hkeeps : KeepsLayout [(4, 0), (8, 4)] := by
    refine keepsLayout_cons.mpr ⟨rfl, ledAsBefore_cons.mpr ⟨?_, ledAsBefore_nil _⟩⟩
    intro p hp
    cases hp
    exact ⟨by decide, by decide⟩
  rcases hparts with ⟨parts, hparts, htext⟩
  exact ⟨parts, _, _, hparts, htext, hown,
    (sections_keepsLayout hparts (by decide) htext hown).1.mpr hkeeps⟩

end

/-! ## Mixed indentation -/

/-- Moving the bodies of a file without comments keeps their layout. -/
def LayoutKept (source : String) : Prop :=
  (∀ line ∈ Text.lines source.toList, isComment line = false) →
    ∀ parts, sections source = .ok parts →
      ∀ name text body, name ≠ mainName → parts.get? name = some text →
        kindsOf (ownText source name) =
            .ok (.mark .indent :: (body ++ [.mark .dedent, .mark .endOfInput])) →
          kindsOf text = .ok (body ++ [.mark .endOfInput])

/-- Lines that stand at one width, the one behind a tab and the other behind four blanks, are torn
    apart. -/
theorem not_layoutKept : ¬ LayoutKept "def f:\n\tx = 1\n    y = 2\n" := by
  intro h
  have hparts : ∃ parts, sections "def f:\n\tx = 1\n    y = 2\n" = .ok parts ∧
      parts.get? "f" = some "\nx = 1\n   y = 2\n" := ⟨_, rfl, by decide⟩
  have hown : kindsOf (ownText "def f:\n\tx = 1\n    y = 2\n" "f") =
      .ok (.mark .indent :: ([.name "x", .mark (.punctuation .assign), .int 1, .mark .newline,
        .name "y", .mark (.punctuation .assign), .int 2, .mark .newline] ++
          [.mark .dedent, .mark .endOfInput])) := by
    cbv
  rcases hparts with ⟨parts, hparts, htext⟩
  have hmoved := h (by decide) parts hparts "f" _ _ (by decide) htext hown
  -- The line behind the blanks keeps three of them and opens a block.
  have hopens : kindsOf "\nx = 1\n   y = 2\n" =
      .ok [.name "x", .mark (.punctuation .assign), .int 1, .mark .newline, .mark .indent,
        .name "y", .mark (.punctuation .assign), .int 2, .mark .newline, .mark .dedent,
        .mark .endOfInput] := by
    cbv
  rw [hopens, Except.ok.injEq] at hmoved
  simp at hmoved

end Script

end Farmhand
