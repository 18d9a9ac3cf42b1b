import Farmhand.Proofs.Script.Lexemes
import Farmhand.Proofs.Script.Lowered
import Farmhand.Proofs.Script.Origins

/-!
# Assembled Files

A script file is put together from the lines of an entry script and, under a header for each, the
bodies of subroutines, all of them moved to the right by the same number of spaces. Splitting the
file takes that back: there is one section for each part, in the same order, and its text holds the
lines of the part as they were, on the lines where the part stands in the file, and nothing else.
So the program of a section is that of the part alone, further down.

Of the lines next to nothing is asked: a body may be indented in any way inside, as long as a line
of it stands at the margin, which makes the spaces put in front of it its common indentation.

## Main definitions

* `Part`: A part of a file, and the lines that it becomes.
* `Draft`: What a file is put together from.

## Theorems

* `ownerStep_header`: What a header line does.
* `owners_draft`: The owners of the lines of an assembled file.
* `sectionLines_part`: What is left of the file in one section.
* `sections_draft`: Splitting undoes assembling.
-/

namespace Farmhand

namespace Script

/-! ## Parts -/

/-- A part of a file: its name, the lines above its body, and the body with the number of spaces
    that are put in front of each line. -/
structure Part where
  name : String
  head : List (List Char)
  indent : Nat
  body : List (List Char)

namespace Part

/-- A line moved to the right. -/
def shifted (p : Part) (line : List Char) : List Char :=
  List.replicate p.indent ' ' ++ line

/-- The lines of a part in the file. -/
def lines (p : Part) : List (List Char) :=
  p.head ++ p.body.map p.shifted

/-- The section of a part. -/
def owner (p : Part) : Owner :=
  .named p.name

/-- The lines of a part with their owners. -/
def owned (p : Part) : List (List Char × Owner) :=
  p.head.map (fun line => (line, .header p.name)) ++
    p.body.map fun line => (p.shifted line, p.owner)

end Part

/-- The header line of a subroutine. -/
def headerLine (name : String) : List Char :=
  "def ".toList ++ (name.toList ++ [':'])

/-- What a script file is put together from: the lines of the entry script, the names and bodies
    of the subroutines, and the number of spaces that indent a body. -/
structure Draft where
  main : List (List Char)
  subroutines : List (String × List (List Char))
  indent : Nat
  indent_pos : 0 < indent
  main_ink : ∃ line ∈ main, Text.isAllBlank line = false
  main_plain : ∀ line ∈ main, "def ".toList.isPrefixOf line = false
  names_valid : ∀ s ∈ subroutines, Text.isName s.1.toList = true ∧ s.1 ≠ mainName
  names_nodup : (subroutines.map Prod.fst).Nodup
  body_margin : ∀ s ∈ subroutines,
    ∃ line ∈ s.2, Text.isAllBlank line = false ∧ isIndent (line.headD ' ') = false
  unbroken : ∀ line ∈ main ++ subroutines.flatMap Prod.snd, '\n' ∉ line ∧ '\r' ∉ line

namespace Draft

/-- The entry script as a part. It has no header and is not indented. -/
def mainPart (d : Draft) : Part :=
  ⟨mainName, [], 0, d.main⟩

/-- A subroutine as a part. -/
def subroutinePart (d : Draft) (s : String × List (List Char)) : Part :=
  ⟨s.1, [headerLine s.1], d.indent, s.2⟩

/-- The parts of a file in order. -/
def parts (d : Draft) : List Part :=
  d.mainPart :: d.subroutines.map d.subroutinePart

/-- The lines of the file. -/
def lines (d : Draft) : List (List Char) :=
  d.parts.flatMap Part.lines

/-- The lines of the file with their owners. -/
def owned (d : Draft) : List (List Char × Owner) :=
  d.parts.flatMap Part.owned

end Draft

/-! ## Header lines -/

-- There is nothing to trim in front of what is no blank.
theorem trimStart_cons {c : Char} (h : Text.isBlank c = false) (rest : List Char) :
    Text.trimStart (c :: rest) = c :: rest := by
  rw [Text.trimStart, List.dropWhile_cons_of_neg (by rw [h]; exact Bool.false_ne_true)]

-- There is nothing to trim behind it.
theorem trimEnd_concat {c : Char} (h : Text.isBlank c = false) (front : List Char) :
    Text.trimEnd (front ++ [c]) = front ++ [c] := by
  rw [Text.trimEnd, List.reverse_append, List.reverse_singleton, List.singleton_append,
    List.dropWhile_cons_of_neg (by rw [h]; exact Bool.false_ne_true), List.reverse_cons,
    List.reverse_reverse]

section

variable {name : List Char} (hname : Text.isName name = true)
include hname

-- A name is made of the characters of names.
theorem isNamePart_of_mem_name : ∀ c ∈ name, Text.isNamePart c = true := by
  cases name with
  | nil => exact nofun
  | cons c rest =>
      rw [Text.isName, Bool.and_eq_true, List.all_eq_true] at hname
      exact List.forall_mem_cons.mpr ⟨isNamePart_of_isNameStart hname.1, hname.2⟩

-- It has at least one.
theorem name_ne_nil : name ≠ [] := by
  rintro rfl
  cases hname

-- The last of them is no blank.
theorem trimEnd_name : Text.trimEnd name = name := by
  have hne := name_ne_nil hname
  have hlast := isNamePart_of_mem_name hname _ (List.getLast_mem hne)
  rw [← List.dropLast_concat_getLast hne]
  exact trimEnd_concat (isBlank_of_isNamePart hlast) name.dropLast

/-- The name of a header is read back. -/
theorem headerName?_of_isName : headerName? (name ++ [':']) = some (String.ofList name) := by
  have htrim : Text.trim (name ++ [':']) = name ++ [':'] := by
    rcases List.exists_cons_of_ne_nil (name_ne_nil hname) with ⟨c, rest, hcons⟩
    have hc := isBlank_of_isNamePart (isNamePart_of_mem_name hname c (hcons ▸ List.mem_cons_self))
    rw [Text.trim, hcons, List.cons_append, trimStart_cons hc, ← List.cons_append]
    exact trimEnd_concat (by decide) _
  have hcolon : dropEnd? [':'] (name ++ [':']) = some name := by
    rw [dropEnd?, if_pos (List.isSuffixOf_iff_suffix.mpr (List.suffix_append name [':']))]
    simp
  -- A name does not end in a parenthesis.
  have hparens : dropEnd? ['(', ')'] name = none := by
    rw [dropEnd?, if_neg]
    intro hsuffix
    rcases List.isSuffixOf_iff_suffix.mp hsuffix with ⟨front, hfront⟩
    have hpart := isNamePart_of_mem_name hname ')' (by rw [← hfront]; simp)
    exact absurd hpart (by decide)
  rw [headerName?, htrim, hcolon]
  dsimp only
  rw [trimEnd_name hname, hparens, Option.getD_none, trimEnd_name hname, if_pos hname]

end

/-- A header line opens the section of its name. -/
theorem ownerStep_header {name : String} (hname : Text.isName name.toList = true)
    (hmain : name ≠ mainName) {seen : List String} (hseen : name ∉ seen) (number : Nat)
    (current : Owner) :
    ownerStep number current seen (headerLine name) =
      .ok (.header name, .subroutine name, name :: seen) := by
  have hstart : (isCode (headerLine name) && !isIndent ((headerLine name).headD ' ')) = true := rfl
  have hdef : dropStart? "def ".toList (headerLine name) = some (name.toList ++ [':']) := by
    rw [dropStart?, headerLine, if_pos (List.isPrefixOf_iff_prefix.mpr (List.prefix_append _ _)),
      List.drop_left]
  have hfree : ¬ (decide (name = mainName) || seen.contains name) = true := by
    rw [Bool.or_eq_true, decide_eq_true_eq, List.contains_iff_mem]
    exact fun h => h.elim hmain hseen
  rw [ownerStep, if_pos hstart, hdef]
  dsimp only
  rw [headerName?_of_isName hname, String.ofList_toList]
  exact if_neg hfree

/-! ## Owners -/

-- Lines that change nothing belong to the section above them.
theorem ownersFrom_keep {current : Owner} {seen : List String} {lines : List (List Char)}
    (h : ∀ line ∈ lines, ∀ number,
      ownerStep number current seen line = .ok (current, current, seen))
    (number : Nat) (rest : List (List Char)) :
    ownersFrom number current seen (lines ++ rest) =
      (ownersFrom (number + lines.length) current seen rest).map
        (lines.map (fun _ => current) ++ ·) := by
  induction lines generalizing number with
  | nil =>
      rw [List.nil_append, List.length_nil, Nat.add_zero]
      cases ownersFrom number current seen rest <;> rfl
  | cons line more ih =>
      have hnumber : number + (line :: more).length = number + 1 + more.length := by
        rw [List.length_cons]
        omega
      rw [List.cons_append, ownersFrom_cons, h line List.mem_cons_self number]
      dsimp only
      rw [ih (fun l hl => h l (List.mem_cons_of_mem line hl)), hnumber]
      cases ownersFrom (number + 1 + more.length) current seen rest <;> rfl

-- A line of an entry script goes on with it, and an indented line goes on with any section.
theorem ownerStep_plain {line : List Char} (h : "def ".toList.isPrefixOf line = false)
    (number : Nat) (seen : List String) :
    ownerStep number .main seen line = .ok (.main, .main, seen) := by
  have hdef : dropStart? "def ".toList line = none := by
    rw [dropStart?, h, if_neg Bool.false_ne_true]
  rw [ownerStep, hdef, ite_self]

-- An indented line belongs to the section that it is in.
theorem ownerStep_indented {line : List Char} (h : isIndent (line.headD ' ') = true)
    (number : Nat) (current : Owner) (seen : List String) :
    ownerStep number current seen line = .ok (current, current, seen) := by
  rw [ownerStep, h, Bool.not_true, Bool.and_false, if_neg Bool.false_ne_true]

-- In front of a line that is moved to the right stands a blank.
theorem headD_replicate {n : Nat} (h : 0 < n) (line : List Char) :
    (List.replicate n ' ' ++ line).headD ' ' = ' ' := by
  rcases Nat.exists_eq_succ_of_ne_zero (Nat.ne_of_gt h) with ⟨m, rfl⟩
  rfl

namespace Part

-- Without their owners, the lines of a part are its lines.
theorem map_fst_owned (p : Part) : p.owned.map Prod.fst = p.lines := by
  rw [owned, lines, List.map_append, List.map_map, List.map_map]
  exact congrArg (· ++ _) (List.map_id _)

/-- Without the lines, there are the header and the section for each line below it. -/
theorem map_snd_owned (p : Part) :
    p.owned.map Prod.snd = p.head.map (fun _ => .header p.name) ++ p.body.map fun _ => p.owner := by
  rw [owned, List.map_append, List.map_map, List.map_map]
  rfl

-- A part that is not the entry script is a subroutine.
theorem owner_of_ne {p : Part} (h : p.name ≠ mainName) : p.owner = .subroutine p.name :=
  if_neg h

-- Parts are told apart by their names.
theorem owner_inj {p q : Part} (h : p.owner = q.owner) : p.name = q.name := by
  unfold owner Owner.named at h
  split at h
  · next hp =>
      split at h
      · next hq => exact hp.trans hq.symm
      · cases h
  · split at h
    · cases h
    · exact Owner.subroutine.inj h

-- Headers belong to no section.
theorem header_ne_owner (p : Part) (name : String) : Owner.header name ≠ p.owner := by
  unfold owner Owner.named
  split
  · exact nofun
  · exact nofun

-- The lines of one part belong to no other.
theorem ne_owner_of_mem_owned {p q : Part} (h : q.name ≠ p.name) :
    ∀ x ∈ q.owned, x.2 ≠ p.owner := by
  intro x hx
  rcases List.mem_append.mp hx with hx | hx
  · rcases List.mem_map.mp hx with ⟨line, _, rfl⟩
    exact p.header_ne_owner q.name
  · rcases List.mem_map.mp hx with ⟨line, _, rfl⟩
    exact fun hsame => h (owner_inj hsame)

end Part

namespace Draft

variable (d : Draft)

-- The lines of a file are those of its parts.
theorem map_fst_owned : d.owned.map Prod.fst = d.lines := by
  rw [owned, lines, List.map_flatMap]
  exact congrArg (List.flatMap · d.parts) (funext Part.map_fst_owned)

-- Its parts are the entry script and the subroutines.
theorem names_parts : d.parts.map Part.name = mainName :: d.subroutines.map Prod.fst := by
  rw [parts, List.map_cons, List.map_map]
  rfl

-- They have different names.
theorem nodup_names : (d.parts.map Part.name).Nodup := by
  rw [names_parts, List.nodup_cons]
  refine ⟨fun hmem => ?_, d.names_nodup⟩
  rcases List.mem_map.mp hmem with ⟨s, hs, hname⟩
  exact (d.names_valid s hs).2 hname

-- The subroutines are told apart by their headers, one after another.
theorem ownersFrom_subroutines (subs : List (String × List (List Char)))
    (hvalid : ∀ s ∈ subs, Text.isName s.1.toList = true ∧ s.1 ≠ mainName)
    (hnodup : (subs.map Prod.fst).Nodup) {seen : List String} (hseen : ∀ s ∈ subs, s.1 ∉ seen)
    (number : Nat) (current : Owner) :
    ownersFrom number current seen ((subs.map d.subroutinePart).flatMap Part.lines) =
      .ok (((subs.map d.subroutinePart).flatMap Part.owned).map Prod.snd) := by
  induction subs generalizing seen number current with
  | nil => rfl
  | cons s rest ih =>
      rcases hvalid s List.mem_cons_self with ⟨hname, hmain⟩
      rw [List.map_cons, List.nodup_cons] at hnodup
      have hrest : ∀ t ∈ rest, t.1 ∉ s.1 :: seen := by
        intro t ht hmem
        rcases List.mem_cons.mp hmem with hsame | hmem
        · exact hnodup.1 (hsame ▸ List.mem_map_of_mem ht)
        · exact hseen t (List.mem_cons_of_mem s ht) hmem
      have hbody : ∀ line ∈ s.2.map (d.subroutinePart s).shifted, ∀ number,
          ownerStep number (.subroutine s.1) (s.1 :: seen) line =
            .ok (.subroutine s.1, .subroutine s.1, s.1 :: seen) := by
        intro line hline number
        rcases List.mem_map.mp hline with ⟨inner, _, rfl⟩
        exact ownerStep_indented (congrArg isIndent (headD_replicate d.indent_pos inner)) number _ _
      have howner : (d.subroutinePart s).owner = .subroutine s.1 := Part.owner_of_ne hmain
      have hlines : ((s :: rest).map d.subroutinePart).flatMap Part.lines =
          headerLine s.1 :: (s.2.map (d.subroutinePart s).shifted ++
            (rest.map d.subroutinePart).flatMap Part.lines) := by
        rw [List.map_cons, List.flatMap_cons, Part.lines, List.append_assoc]
        rfl
      rw [hlines, ownersFrom_cons, ownerStep_header hname hmain (hseen s List.mem_cons_self)]
      dsimp only
      have hlater := ih (fun t ht => hvalid t (List.mem_cons_of_mem s ht)) hnodup.2 hrest
      rw [ownersFrom_keep hbody, hlater, List.map_map, List.map_cons, List.flatMap_cons,
        List.map_append, Part.map_snd_owned, howner]
      rfl

/-- The owners of the lines of an assembled file. -/
theorem owners_draft : owners d.lines = .ok (d.owned.map Prod.snd) := by
  have hmain : ∀ line ∈ d.main, ∀ number,
      ownerStep number .main [] line = .ok (.main, .main, []) :=
    fun line hline number => ownerStep_plain (d.main_plain line hline) number []
  have hlines : d.lines = d.main ++ (d.subroutines.map d.subroutinePart).flatMap Part.lines := by
    rw [lines, parts, List.flatMap_cons, Part.lines]
    exact congrArg (· ++ _) ((List.nil_append _).trans (List.map_id d.main))
  rw [owners, hlines, ownersFrom_keep hmain,
    d.ownersFrom_subroutines d.subroutines d.names_valid d.names_nodup fun _ _ => List.not_mem_nil,
    owned, parts, List.flatMap_cons, List.map_append, Part.map_snd_owned]
  rfl

end Draft

/-! ## Sections -/

section

variable {owner : Owner} {owned : List (List Char × Owner)}

-- What a section has of two stretches of a file it has of each.
theorem sectionLines_append (indent : Nat) (front back : List (List Char × Owner)) :
    sectionLines owner indent (front ++ back) =
      sectionLines owner indent front ++ sectionLines owner indent back :=
  List.map_append

-- An owner has its lines in the front and its lines in the back.
theorem ownLines_append (front back : List (List Char × Owner)) :
    ownLines owner (front ++ back) = ownLines owner front ++ ownLines owner back := by
  rw [ownLines, List.filter_append, List.map_append]
  rfl

-- Nothing is seen of the lines of others.
theorem sectionLines_foreign (indent : Nat) (h : ∀ x ∈ owned, x.2 ≠ owner) :
    sectionLines owner indent owned = List.replicate owned.length [] := by
  rw [← List.map_const', sectionLines]
  exact List.map_congr_left fun x hx => if_neg (h x hx)

-- Of a stretch that belongs to others it owns nothing.
theorem ownLines_foreign (h : ∀ x ∈ owned, x.2 ≠ owner) : ownLines owner owned = [] := by
  rw [ownLines, List.map_eq_nil_iff, List.filter_eq_nil_iff]
  exact fun x hx => by simpa using h x hx

end

-- A line without a carriage return loses none.
theorem dropReturn_of_not_mem {row : List Char} (h : '\r' ∉ row) : Text.dropReturn row = row := by
  rcases dropReturn_cases row with hsame | hlast
  · exact hsame
  · exact absurd (hlast ▸ List.mem_append_right _ (List.mem_singleton_self _)) h

/-- The number of lines that parts become. -/
def lineCount (parts : List Part) : Nat :=
  (parts.flatMap Part.lines).length

-- A file has as many lines as its parts together.
theorem length_owned (parts : List Part) :
    (parts.flatMap Part.owned).length = lineCount parts := by
  rw [lineCount, ← List.length_map Prod.fst, List.map_flatMap]
  exact congrArg (fun f => (List.flatMap f parts).length) (funext Part.map_fst_owned)

namespace Part

variable (p : Part)

-- A line that is moved to the right has so many more characters of indentation.
theorem indentLength_shifted (line : List Char) :
    indentLength (p.shifted line) = p.indent + indentLength line := by
  have hspaces : ∀ n, indentLength (List.replicate n ' ' ++ line) = n + indentLength line := by
    intro n
    induction n with
    | zero => rw [List.replicate_zero, List.nil_append, Nat.zero_add]
    | succ n ih =>
        have hlength : indentLength (' ' :: (List.replicate n ' ' ++ line)) =
          indentLength (List.replicate n ' ' ++ line) + 1 := rfl
        rw [List.replicate_succ, List.cons_append, hlength, ih]
        omega
  exact hspaces p.indent

-- It is blank if it was.
theorem isAllBlank_shifted (line : List Char) :
    Text.isAllBlank (p.shifted line) = Text.isAllBlank line := by
  have hspaces : (List.replicate p.indent ' ').all Text.isBlank = true := by
    rw [List.all_replicate]
    split
    · rfl
    · decide
  rw [shifted, Text.isAllBlank, List.all_append, hspaces, Bool.true_and]
  rfl

/-- Taking the common indentation away takes back what was put in front. -/
theorem dedentLine_shifted (line : List Char) : dedentLine p.indent (p.shifted line) = line := by
  rw [dedentLine, if_pos (by rw [indentLength_shifted]; exact Nat.le_add_right _ _), shifted,
    List.drop_left' List.length_replicate]

-- A section owns the body of its part.
theorem ownLines_owned : ownLines p.owner p.owned = p.body.map p.shifted := by
  have hhead : ownLines p.owner (p.head.map fun line => (line, .header p.name)) = [] := by
    refine ownLines_foreign fun x hx => ?_
    rcases List.mem_map.mp hx with ⟨line, _, rfl⟩
    exact p.header_ne_owner p.name
  have hbody : ∀ x ∈ p.body.map fun line => (p.shifted line, p.owner), decide (x.2 = p.owner) := by
    intro x hx
    rcases List.mem_map.mp hx with ⟨line, _, rfl⟩
    exact decide_eq_true rfl
  rw [owned, ownLines_append, hhead, List.nil_append, ownLines,
    List.filter_eq_self.mpr hbody, List.map_map]
  rfl

/-- Of its own part, a section has an empty line for the header, and the body as it was. -/
theorem sectionLines_owned :
    sectionLines p.owner p.indent p.owned = List.replicate p.head.length [] ++ p.body := by
  have hhead : sectionLines p.owner p.indent (p.head.map fun line => (line, .header p.name)) =
      List.replicate p.head.length [] := by
    rw [sectionLines_foreign, List.length_map]
    intro x hx
    rcases List.mem_map.mp hx with ⟨line, _, rfl⟩
    exact p.header_ne_owner p.name
  have hbody : sectionLines p.owner p.indent (p.body.map fun line => (p.shifted line, p.owner)) =
      p.body := by
    rw [sectionLines, List.map_map]
    refine (List.map_congr_left fun line _ => ?_).trans (List.map_id _)
    exact (if_pos rfl).trans (p.dedentLine_shifted line)
  rw [owned, sectionLines_append, hhead, hbody]

section

variable {p} {earlier later : List Part} (hnames : ((earlier ++ p :: later).map Part.name).Nodup)
include hnames

-- The parts around a part have other names, so none of their lines is seen in its section.
theorem foreign_of_nodup :
    (∀ x ∈ earlier.flatMap owned, x.2 ≠ p.owner) ∧ ∀ x ∈ later.flatMap owned, x.2 ≠ p.owner := by
  rw [List.map_append, List.map_cons, List.nodup_append, List.nodup_cons] at hnames
  rcases hnames with ⟨_, ⟨hlater, _⟩, hearlier⟩
  constructor
  · intro x hx
    rcases List.mem_flatMap.mp hx with ⟨q, hq, hx⟩
    exact ne_owner_of_mem_owned
      (hearlier q.name (List.mem_map_of_mem hq) p.name List.mem_cons_self) x hx
  · intro x hx
    rcases List.mem_flatMap.mp hx with ⟨q, hq, hx⟩
    exact ne_owner_of_mem_owned (fun hsame => hlater (hsame ▸ List.mem_map_of_mem hq)) x hx

-- What it owns of the whole file is what it owns of its part.
theorem ownLines_part :
    ownLines p.owner ((earlier ++ p :: later).flatMap owned) = p.body.map p.shifted := by
  rcases foreign_of_nodup hnames with ⟨hearlier, hlater⟩
  rw [List.flatMap_append, List.flatMap_cons, ownLines_append, ownLines_append,
    ownLines_foreign hearlier, ownLines_foreign hlater, ownLines_owned, List.nil_append,
    List.append_nil]

/-- In the section of a part its body is left, as it was, where it stands in the file. -/
theorem sectionLines_part :
    sectionLines p.owner p.indent ((earlier ++ p :: later).flatMap owned) =
      List.replicate (lineCount earlier + p.head.length) [] ++ p.body ++
        List.replicate (lineCount later) [] := by
  rcases foreign_of_nodup hnames with ⟨hearlier, hlater⟩
  rw [List.flatMap_append, List.flatMap_cons, sectionLines_append, sectionLines_append,
    sectionLines_foreign _ hearlier, sectionLines_foreign _ hlater, sectionLines_owned,
    length_owned, length_owned, List.replicate_add, List.append_assoc, List.append_assoc,
    List.append_assoc]

end

end Part

namespace Draft

variable (d : Draft)

/-- The headers of the file are those of the subroutines, in order. -/
theorem headerNames_draft : headerNames (d.owned.map Prod.snd) = d.subroutines.map Prod.fst := by
  have hbody : ∀ (owner : Owner) (body : List (List Char)), headerNames [owner] = [] →
      headerNames (body.map fun _ => owner) = [] := by
    intro owner body howner
    induction body with
    | nil => rfl
    | cons line rest ih => rw [List.map_cons, headerNames_cons, howner, ih, List.append_nil]
  have hsubs : ∀ subs : List (String × List (List Char)), (∀ s ∈ subs, s.1 ≠ mainName) →
      headerNames (((subs.map d.subroutinePart).flatMap Part.owned).map Prod.snd) =
        subs.map Prod.fst := by
    intro subs hsubs
    induction subs with
    | nil => rfl
    | cons s rest ih =>
        have howner : headerNames [(d.subroutinePart s).owner] = [] := by
          rw [Part.owner_of_ne (hsubs s List.mem_cons_self)]
          rfl
        have hnames : ∀ front back, headerNames (front ++ back) =
            headerNames front ++ headerNames back := fun _ _ => List.filterMap_append
        rw [List.map_cons, List.flatMap_cons, List.map_append, hnames, Part.map_snd_owned, hnames,
          hbody _ _ howner, ih fun t ht => hsubs t (List.mem_cons_of_mem s ht)]
        rfl
  have hmain : headerNames (d.mainPart.owned.map Prod.snd) = [] := by
    rw [Part.map_snd_owned]
    exact hbody .main d.main rfl
  rw [owned, parts, List.flatMap_cons, List.map_append]
  exact (List.filterMap_append ..).trans
    ((congrArg (· ++ _) hmain).trans (hsubs _ fun s hs => (d.names_valid s hs).2))

-- There is a line in the entry script that is not blank, so there is a section for it.
theorem isAllBlank_main :
    (ownLines .main d.owned).any (fun line => !Text.isAllBlank line) = true := by
  have hown : ownLines .main d.owned = d.main.map d.mainPart.shifted :=
    @Part.ownLines_part d.mainPart [] _ d.nodup_names
  rcases d.main_ink with ⟨line, hline, hink⟩
  rw [hown, List.any_eq_true]
  refine ⟨d.mainPart.shifted line, List.mem_map_of_mem hline, ?_⟩
  rw [Part.isAllBlank_shifted, hink]
  rfl

-- The line of a body at the margin makes the spaces in front of it the common indentation.
theorem commonIndent_part {s : String × List (List Char)} (hs : s ∈ d.subroutines) :
    commonIndent (s.2.map (d.subroutinePart s).shifted) = d.indent := by
  rcases d.body_margin s hs with ⟨line, hline, hink, hmargin⟩
  have hzero : indentLength line = 0 := by
    cases line with
    | nil => rfl
    | cons c rest =>
        rw [List.headD_cons] at hmargin
        rw [indentLength, List.takeWhile_cons_of_neg (by rw [hmargin]; exact Bool.false_ne_true)]
        rfl
  rcases commonIndent_spec (List.mem_map_of_mem hline)
    ((Part.isAllBlank_shifted (d.subroutinePart s) line).trans hink) with
    ⟨hle, least, hleast, _, hlength⟩
  rcases List.mem_map.mp hleast with ⟨inner, _, rfl⟩
  rw [Part.indentLength_shifted] at hle hlength
  refine Nat.le_antisymm ?_ ?_
  · rw [hzero] at hle
    exact hle
  · rw [← hlength]
    exact Nat.le_add_right _ _

/-- For each part there is a section with the text that the part has in the file. -/
theorem get?_part {table : Table String}
    (htable : table.entries = sectionEntries d.owned (d.owned.map Prod.snd)) {p : Part}
    (hp : p ∈ d.parts) :
    table.get? p.name = some (sectionText p.owner p.indent d.owned) := by
  rw [get?_eq_some_iff htable]
  rcases List.mem_cons.mp hp with rfl | hp
  · exact Or.inl ⟨rfl, rfl, d.isAllBlank_main⟩
  · rcases List.mem_map.mp hp with ⟨s, hs, rfl⟩
    have howner : (d.subroutinePart s).owner = .subroutine s.1 :=
      Part.owner_of_ne (d.names_valid s hs).2
    rcases List.append_of_mem (List.mem_cons_of_mem d.mainPart hp) with ⟨earlier, later, hsplit⟩
    change d.parts = earlier ++ d.subroutinePart s :: later at hsplit
    have hown := Part.ownLines_part (hsplit ▸ d.nodup_names)
    rw [← hsplit] at hown
    refine Or.inr ⟨?_, ?_⟩
    · rw [headerNames_draft]
      exact List.mem_map_of_mem hs
    · rw [howner] at hown ⊢
      rw [subroutineText]
      exact congrArg (fun n => sectionText (.subroutine s.1) n d.owned)
        ((congrArg commonIndent hown).trans (d.commonIndent_part hs)).symm

-- The lines of a body are lines.
theorem unbroken_part {p : Part} (hp : p ∈ d.parts) :
    ∀ line ∈ p.body, '\n' ∉ line ∧ '\r' ∉ line := by
  intro line hline
  refine d.unbroken line ?_
  rcases List.mem_cons.mp hp with rfl | hp
  · exact List.mem_append_left _ hline
  · rcases List.mem_map.mp hp with ⟨s, hs, rfl⟩
    exact List.mem_append_right _ (List.mem_flatMap.mpr ⟨s, hs, hline⟩)

/-- The text of a section, line by line. -/
theorem lines_sectionText {p : Part} {earlier later : List Part}
    (hparts : d.parts = earlier ++ p :: later) :
    Text.lines (sectionText p.owner p.indent d.owned).toList =
      List.replicate (lineCount earlier + p.head.length) [] ++ p.body ++
        List.replicate (lineCount later) [] := by
  have hrows : sectionLines p.owner p.indent d.owned =
      List.replicate (lineCount earlier + p.head.length) [] ++ p.body ++
        List.replicate (lineCount later) [] := by
    rw [owned, hparts]
    exact Part.sectionLines_part (hparts ▸ d.nodup_names)
  have hp : p ∈ d.parts := by
    rw [hparts]
    exact List.mem_append_right _ List.mem_cons_self
  have hunbroken : ∀ row ∈ sectionLines p.owner p.indent d.owned, '\n' ∉ row ∧ '\r' ∉ row := by
    intro row hrow
    rw [hrows, List.mem_append, List.mem_append] at hrow
    rcases hrow with (hrow | hrow) | hrow
    · rw [List.eq_of_mem_replicate hrow]
      exact ⟨List.not_mem_nil, List.not_mem_nil⟩
    · exact d.unbroken_part hp row hrow
    · rw [List.eq_of_mem_replicate hrow]
      exact ⟨List.not_mem_nil, List.not_mem_nil⟩
  rw [sectionText, String.toList_ofList,
    Text.lines_flatMap_newline _ fun row hrow => (hunbroken row hrow).1, ← hrows]
  exact (List.map_congr_left fun row hrow => dropReturn_of_not_mem (hunbroken row hrow).2).trans
    (List.map_id _)

end Draft

/-- Splitting undoes assembling: the sections of an assembled file are its parts in order, each
    text is as long as the file and holds the lines of its part where they stand, and it has the
    program of the part alone, further down. -/
theorem sections_draft (d : Draft) {source : String}
    (hsource : Text.lines source.toList = d.lines) :
    ∃ table, sections source = .ok table ∧
      table.keys = mainName :: d.subroutines.map Prod.fst ∧
      ∀ earlier p later, d.parts = earlier ++ p :: later →
        ∃ text, table.get? p.name = some text ∧
          (Text.lines text.toList).length = (Text.lines source.toList).length ∧
          Text.lines text.toList =
            List.replicate (lineCount earlier + p.head.length) [] ++ p.body ++
              List.replicate (lineCount later) [] ∧
          ∀ original, Text.lines original.toList = p.body →
            compile text = compiledDown (lineCount earlier + p.head.length) (compile original) := by
  have howners : owners (Text.lines source.toList) = .ok (d.owned.map Prod.snd) := by
    rw [hsource]
    exact d.owners_draft
  have howned : (Text.lines source.toList).zip (d.owned.map Prod.snd) = d.owned := by
    rw [hsource, ← d.map_fst_owned]
    exact (List.zip_of_prod rfl rfl).symm
  rcases entries_sections howners with ⟨table, hsections, hentries⟩
  rw [howned] at hentries
  refine ⟨table, hsections, ?_, ?_⟩
  · rw [Table.keys, hentries, keys_sectionEntries, d.isAllBlank_main, d.headerNames_draft]
    rfl
  · intro earlier p later hparts
    have hp : p ∈ d.parts := by
      rw [hparts]
      exact List.mem_append_right _ List.mem_cons_self
    have hlines := d.lines_sectionText hparts
    refine ⟨_, d.get?_part hentries hp, ?_, hlines, ?_⟩
    · have hcount : (Text.lines source.toList).length =
          lineCount earlier + (p.lines.length + lineCount later) := by
        rw [hsource, Draft.lines, hparts, List.flatMap_append, List.flatMap_cons,
          List.length_append, List.length_append]
        rfl
      rw [hlines, hcount, Part.lines]
      simp only [List.length_append, List.length_replicate, List.length_map]
      omega
    · intro original horiginal
      rw [← horiginal] at hlines
      exact compile_down hlines

/-- A file with one subroutine, whose body has a comment, an inner block and a blank line. -/
def sampleDraft : Draft where
  main := ["greet()".toList, "# done".toList]
  subroutines := [("greet", ["# über".toList, "if a:".toList, "\tb()".toList, []])]
  indent := 2
  indent_pos := by decide
  main_ink := ⟨"greet()".toList, by decide, by decide⟩
  main_plain := by decide
  names_valid := by decide
  names_nodup := by decide
  body_margin := by
    intro s hs
    rw [List.mem_singleton.mp hs]
    exact ⟨"if a:".toList, by decide, by decide, by decide⟩
  unbroken := by decide

/-- The body keeps its comment, its inner block and its blank line, and the lines stand where they
    stood. -/
theorem sections_draft_sample :
    ∃ table, sections "greet()\n# done\ndef greet:\n  # über\n  if a:\n  \tb()\n  \n" = .ok table ∧
      table.keys = ["main", "greet"] ∧
      ∃ text, table.get? "greet" = some text ∧
        Text.lines text.toList =
          [[], [], [], "# über".toList, "if a:".toList, "\tb()".toList, []] ∧
        compile text = compiledDown 3 (compile "# über\nif a:\n\tb()\n\n") := by
  have hsource : Text.lines
      "greet()\n# done\ndef greet:\n  # über\n  if a:\n  \tb()\n  \n".toList =
        sampleDraft.lines := by
    decide
  rcases sections_draft sampleDraft hsource with ⟨table, hsections, hkeys, hparts⟩
  rcases hparts [sampleDraft.mainPart]
    (sampleDraft.subroutinePart ("greet", ["# über".toList, "if a:".toList, "\tb()".toList, []])) []
    rfl with ⟨text, hget, _, hlines, hcompile⟩
  exact ⟨table, hsections, hkeys, text, hget, hlines, hcompile _ (by decide)⟩

end Script

end Farmhand
