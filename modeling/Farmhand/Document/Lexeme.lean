/-!
# Texts and Keys of a Document

The smallest parts of a TOML document: white space, comments, the ends of lines, quoted texts and
the keys of entries. Each reader takes what it reads off the front of the remaining characters and
hands back the rest; a lemma beside it says that the rest is not longer, or that it is shorter.

## Main definitions

* `newline?`, `endLine?`: The end of a line.
* `skipSpace`: White space, comments and line ends.
* `Quoting`: The four ways of writing a text.
* `text?`: A quoted text.
* `path?`: A key, whose parts are joined by dots.
-/

namespace Farmhand

namespace Document

/-- White space within a line. -/
def isGap (c : Char) : Bool :=
  c == ' ' || c == '\t'

/-- The characters of a comment, and those that a text holds as they are: all but the ASCII
    controls, of which only the tab is allowed. -/
def isPlain (c : Char) : Bool :=
  c == '\t' || (0x20 ≤ c.toNat && c.toNat != 0x7F)

/-- The rest without the white space in front. -/
def skipGap (cs : List Char) : List Char :=
  cs.dropWhile isGap

/-- The rest without the comment in front, if there is one. -/
def skipComment : List Char → List Char
  | '#' :: rest => rest.dropWhile isPlain
  | cs => cs

/-- What follows a line end: a line feed, or a carriage return and a line feed. -/
def newline? : List Char → Option (List Char)
  | '\n' :: rest => some rest
  | '\r' :: '\n' :: rest => some rest
  | _ => none

/-- What follows the rest of a line on which nothing more stands, a comment apart. -/
def endLine? (cs : List Char) : Option (List Char) :=
  match skipComment (skipGap cs) with
  | [] => some []
  | rest => newline? rest

theorem length_skipGap_le (cs : List Char) : (skipGap cs).length ≤ cs.length :=
  (List.dropWhile_suffix _).length_le

theorem length_skipComment_le (cs : List Char) : (skipComment cs).length ≤ cs.length := by
  unfold skipComment
  split
  · have := (List.dropWhile_suffix (l := ‹List Char›) isPlain).length_le
    simp only [List.length_cons]
    omega
  · exact Nat.le_refl _

theorem length_lt_of_newline? {cs rest : List Char} (h : newline? cs = some rest) :
    rest.length < cs.length := by
  unfold newline? at h
  split at h
  · cases h
    simp
  · cases h
    simp only [List.length_cons]
    omega
  · cases h

theorem length_le_of_endLine? {cs rest : List Char} (h : endLine? cs = some rest) :
    rest.length ≤ cs.length := by
  unfold endLine? at h
  have hle := Nat.le_trans (length_skipComment_le (skipGap cs)) (length_skipGap_le cs)
  split at h
  · cases h
    simp
  · exact Nat.le_of_lt (Nat.lt_of_lt_of_le (length_lt_of_newline? h) hle)

/-- The rest without white space and line ends in front. -/
def skipBlank (cs : List Char) : List Char :=
  match _h : newline? (skipGap cs) with
  | some rest => skipBlank rest
  | none => skipGap cs
termination_by cs.length
decreasing_by
  exact Nat.lt_of_lt_of_le (length_lt_of_newline? _h) (length_skipGap_le cs)

/-- The rest without white space, comments and line ends in front. A comment has to end with its
    line; one that does not is left standing. -/
def skipSpace (cs : List Char) : List Char :=
  match _h : newline? (skipComment (skipGap cs)) with
  | some rest => skipSpace rest
  | none => skipGap cs
termination_by cs.length
decreasing_by
  exact Nat.lt_of_lt_of_le (length_lt_of_newline? _h)
    (Nat.le_trans (length_skipComment_le _) (length_skipGap_le cs))

theorem length_skipBlank_le (cs : List Char) : (skipBlank cs).length ≤ cs.length := by
  fun_induction skipBlank cs with
  | case1 cs rest h ih =>
    have := length_lt_of_newline? h
    have := length_skipGap_le cs
    omega
  | case2 cs h => exact length_skipGap_le cs

theorem length_skipSpace_le (cs : List Char) : (skipSpace cs).length ≤ cs.length := by
  fun_induction skipSpace cs with
  | case1 cs rest h ih =>
    have := length_lt_of_newline? h
    have := length_skipComment_le (skipGap cs)
    have := length_skipGap_le cs
    omega
  | case2 cs h => exact length_skipGap_le cs

/-- A way of writing a text. -/
structure Quoting where
  /-- The character around the text: once, or three times around one with several lines. -/
  quote : Char
  /-- Whether a backslash begins an escape. -/
  escapes : Bool
  /-- Whether the text may have several lines. -/
  multiline : Bool
deriving DecidableEq

/-- The value of a hexadecimal digit. -/
def hexDigit? (c : Char) : Option Nat :=
  if c.isDigit then some (c.toNat - '0'.toNat)
  else if 'a' ≤ c && c ≤ 'f' then some (c.toNat - 'a'.toNat + 10)
  else if 'A' ≤ c && c ≤ 'F' then some (c.toNat - 'A'.toNat + 10)
  else none

/-- The character whose code point has exactly `count` hexadecimal digits at the front. -/
def codePoint? (count : Nat) (cs : List Char) : Option (Char × List Char) :=
  let digits := cs.take count
  if digits.length = count then
    (digits.mapM hexDigit?).bind fun values =>
      let n := values.foldl (fun n v => 16 * n + v) 0
      if n.isValidChar then some (Char.ofNat n, cs.drop count) else none
  else none

/-- The character that an escape stands for, its backslash being read. -/
def escape? : List Char → Option (Char × List Char)
  | [] => none
  | c :: rest =>
    match c with
    | 'b' => some ('\x08', rest)
    | 't' => some ('\t', rest)
    | 'n' => some ('\n', rest)
    | 'f' => some ('\x0c', rest)
    | 'r' => some ('\r', rest)
    | '"' => some ('"', rest)
    | '\\' => some ('\\', rest)
    | 'u' => codePoint? 4 rest
    | 'U' => codePoint? 8 rest
    | _ => none

-- The digits of a code point are dropped, whatever they name.
theorem length_le_of_codePoint? {count : Nat} {cs rest : List Char} {c : Char}
    (h : codePoint? count cs = some (c, rest)) : rest.length ≤ cs.length := by
  unfold codePoint? at h
  dsimp only at h
  split at h
  · rw [Option.bind_eq_some_iff] at h
    obtain ⟨values, -, h⟩ := h
    split at h
    · simp only [Option.some.injEq, Prod.mk.injEq] at h
      rw [← h.2, List.length_drop]
      omega
    · cases h
  · cases h

-- An escape takes at least the character that names it.
theorem length_lt_of_escape? {cs rest : List Char} {c : Char}
    (h : escape? cs = some (c, rest)) : rest.length < cs.length := by
  unfold escape? at h
  split at h
  · cases h
  · rw [List.length_cons, Nat.lt_succ_iff]
    split at h
    all_goals first
      | exact length_le_of_codePoint? h
      | (simp only [Option.some.injEq, Prod.mk.injEq] at h
         exact Nat.le_of_eq (congrArg List.length h.2.symm))
      | cases h

/-- What follows a line end, white space allowed, that a backslash takes out of a text together
    with all blank characters after it. -/
def joined? (q : Quoting) (cs : List Char) : Option (List Char) :=
  if q.multiline then (newline? (skipGap cs)).map skipBlank else none

theorem length_lt_of_joined? {q : Quoting} {cs rest : List Char}
    (h : joined? q cs = some rest) : rest.length < cs.length := by
  unfold joined? at h
  split at h
  · rw [Option.map_eq_some_iff] at h
    obtain ⟨after, hn, rfl⟩ := h
    have := length_lt_of_newline? hn
    have := length_skipGap_le cs
    have := length_skipBlank_le after
    omega
  · cases h

/-- The end of a text whose first closing quote is read: the quotes that still belong to it, and
    what follows. A text with several lines ends with three quotes, and up to two in front of
    those are its own. -/
def close? (q : Quoting) (cs : List Char) : Option (List Char × List Char) :=
  if q.multiline then
    let following := (cs.takeWhile (· == q.quote)).length
    if 2 ≤ following && following ≤ 4 then
      some (List.replicate (following - 2) q.quote, cs.drop following)
    else none
  else some ([], cs)

-- Closing quotes may take a further quote with them.
theorem length_le_of_close? {q : Quoting} {cs s rest : List Char}
    (h : close? q cs = some (s, rest)) : rest.length ≤ cs.length := by
  unfold close? at h
  dsimp only at h
  split at h
  · split at h
    · simp only [Option.some.injEq, Prod.mk.injEq] at h
      rw [← h.2, List.length_drop]
      omega
    · cases h
  · simp only [Option.some.injEq, Prod.mk.injEq] at h
    exact Nat.le_of_eq (congrArg List.length h.2.symm)

/-- Whether a quote in a text with several lines is one of at most two in a row, given what
    follows it. -/
def isLone (q : Quoting) (cs : List Char) : Bool :=
  q.multiline && (cs.takeWhile (· == q.quote)).length < 2

/-- A character in front of the rest of a text. -/
def withHead (c : Char) (text : Option (List Char × List Char)) :
    Option (List Char × List Char) :=
  text.map fun (s, rest) => (c :: s, rest)

theorem eq_some_of_withHead {c : Char} {text : Option (List Char × List Char)}
    {s rest : List Char} (h : withHead c text = some (s, rest)) :
    ∃ t, text = some (t, rest) := by
  simp only [withHead, Option.map_eq_some_iff, Prod.exists, Prod.mk.injEq] at h
  obtain ⟨t, r, ht, -, rfl⟩ := h
  exact ⟨t, ht⟩

/-- The characters of a text up to its closing quotes, and what follows those. -/
def body? (q : Quoting) : List Char → Option (List Char × List Char)
  | [] => none
  | c :: cs =>
    if c = q.quote then
      if isLone q cs then withHead c (body? q cs) else close? q cs
    else if q.escapes && c = '\\' then
      match _hj : joined? q cs with
      | some rest => body? q rest
      | none =>
        match _he : escape? cs with
        | some (e, rest) => withHead e (body? q rest)
        | none => none
    else if q.multiline && c = '\r' then
      match cs with
      | '\n' :: rest => withHead '\n' (body? q rest)
      | _ => none
    else if isPlain c || (q.multiline && c = '\n') then
      withHead c (body? q cs)
    else none
termination_by cs => cs.length
decreasing_by
  · simp
  · have := length_lt_of_joined? _hj
    simp only [List.length_cons]
    omega
  · have := length_lt_of_escape? _he
    simp only [List.length_cons]
    omega
  · simp only [List.length_cons]
    omega
  · simp

/-- The text between quotes is read one character, escape or closing at a time, and each of them
    leaves less. -/
theorem length_lt_of_body? {q : Quoting} {cs s rest : List Char}
    (h : body? q cs = some (s, rest)) : rest.length < cs.length := by
  fun_induction body? q cs generalizing s rest with
  | case1 => cases h
  | case2 cs _ ih =>
    obtain ⟨t, ht⟩ := eq_some_of_withHead h
    exact Nat.lt_succ_of_lt (ih ht)
  | case3 cs _ => exact Nat.lt_succ_of_le (length_le_of_close? h)
  | case4 c cs _ _ after hj ih =>
    exact Nat.lt_succ_of_lt (Nat.lt_trans (ih h) (length_lt_of_joined? hj))
  | case5 c cs _ _ _ e after he ih =>
    obtain ⟨t, ht⟩ := eq_some_of_withHead h
    exact Nat.lt_succ_of_lt (Nat.lt_trans (ih ht) (length_lt_of_escape? he))
  | case6 => cases h
  | case7 c _ _ _ cs ih =>
    obtain ⟨t, ht⟩ := eq_some_of_withHead h
    exact Nat.lt_succ_of_lt (Nat.lt_succ_of_lt (ih ht))
  | case8 => cases h
  | case9 c cs _ _ _ _ ih =>
    obtain ⟨t, ht⟩ := eq_some_of_withHead h
    exact Nat.lt_succ_of_lt (ih ht)
  | case10 => cases h

/-- The characters that are left with proof that some have been read. -/
abbrev Shorter (cs : List Char) : Type :=
  { rest : List Char // rest.length < cs.length }

namespace Shorter

/-- What is left of a rest is left of the whole. -/
def cons {c : Char} {cs : List Char} (rest : Shorter cs) : Shorter (c :: cs) :=
  ⟨rest.1, Nat.lt_succ_of_lt rest.2⟩

/-- What is left after two steps. -/
def andThen {cs : List Char} (first : Shorter cs) (second : Shorter first.1) : Shorter cs :=
  ⟨second.1, Nat.lt_trans second.2 first.2⟩

/-- What is left after a step from a rest that is not longer. -/
def ofLE {cs ds : List Char} (h : ds.length ≤ cs.length) (rest : Shorter ds) : Shorter cs :=
  ⟨rest.1, Nat.lt_of_lt_of_le rest.2 h⟩

/-- What is left after a step and something that leaves no more. -/
def thenLE {cs : List Char} (first : Shorter cs) {rest : List Char}
    (h : rest.length ≤ first.1.length) : Shorter cs :=
  ⟨rest, Nat.lt_of_le_of_lt h first.2⟩

theorem two_mul_lt {cs : List Char} (rest : Shorter cs) :
    2 * rest.1.length < 2 * cs.length + 1 := by
  have := rest.2
  omega

theorem two_mul_succ_lt {cs : List Char} (rest : Shorter cs) :
    2 * rest.1.length + 1 < 2 * cs.length + 1 := by
  have := rest.2
  omega

end Shorter

/-- A text in a given way of writing, its opening quotes being read. -/
def textIn? (q : Quoting) (cs : List Char) : Option (String × Shorter cs) :=
  match h : body? q cs with
  | some (s, rest) => some (String.ofList s, ⟨rest, length_lt_of_body? h⟩)
  | none => none

/-- A quoted text on one line. -/
def lineText? : (cs : List Char) → Option (String × Shorter cs)
  | '"' :: cs => (textIn? ⟨'"', true, false⟩ cs).map fun (s, rest) => (s, rest.cons)
  | '\'' :: cs => (textIn? ⟨'\'', false, false⟩ cs).map fun (s, rest) => (s, rest.cons)
  | _ => none

/-- The rest without a line end in front, if there is one. -/
def dropNewline (cs : List Char) : List Char :=
  (newline? cs).getD cs

theorem length_dropNewline_le (cs : List Char) : (dropNewline cs).length ≤ cs.length := by
  unfold dropNewline
  cases h : newline? cs with
  | none => exact Nat.le_refl _
  | some rest => exact Nat.le_of_lt (length_lt_of_newline? h)

/-- A quoted text, on one line or several. A line end just after three opening quotes does not
    belong to the text. -/
def text? : (cs : List Char) → Option (String × Shorter cs)
  | '"' :: '"' :: '"' :: cs =>
    (textIn? ⟨'"', true, true⟩ (dropNewline cs)).map fun (s, rest) =>
      (s, (rest.ofLE (length_dropNewline_le cs)).cons.cons.cons)
  | '\'' :: '\'' :: '\'' :: cs =>
    (textIn? ⟨'\'', false, true⟩ (dropNewline cs)).map fun (s, rest) =>
      (s, (rest.ofLE (length_dropNewline_le cs)).cons.cons.cons)
  | cs => lineText? cs

/-- The characters of a key that is not quoted. -/
def isKeyChar (c : Char) : Bool :=
  c.isAlphanum || c == '_' || c == '-'

/-- One part of a key. -/
def keyPart? (cs : List Char) : Option (String × Shorter cs) :=
  match cs with
  | [] => none
  | c :: cs =>
    if isKeyChar c then
      some (String.ofList (c :: cs.takeWhile isKeyChar),
        ⟨cs.dropWhile isKeyChar,
          Nat.lt_succ_of_le (List.dropWhile_suffix isKeyChar).length_le⟩)
    else lineText? (c :: cs)

/-- What follows a character that must be next. -/
def after? (c : Char) : (cs : List Char) → Option (Shorter cs)
  | [] => none
  | d :: cs => if d = c then some ⟨cs, Nat.lt_succ_self _⟩ else none

/-- The parts of a key, with white space around each of them. -/
def parts? (cs : List Char) : Option (List String × Shorter cs) :=
  match keyPart? (skipGap cs) with
  | none => none
  | some (part, after) =>
    let after := after.ofLE (length_skipGap_le cs)
    match after? '.' (skipGap after.1) with
    | some dot =>
      let dot := after.andThen (dot.ofLE (length_skipGap_le after.1))
      match parts? dot.1 with
      | some (parts, rest) => some (part :: parts, dot.andThen rest)
      | none => none
    | none => some ([part], after.thenLE (length_skipGap_le after.1))
termination_by cs.length
decreasing_by exact dot.2

/-- A key has fewer parts than this. -/
def maxParts : Nat := 80

/-- A key. -/
def path? (cs : List Char) : Option (List String × Shorter cs) :=
  match parts? cs with
  | some (parts, rest) => if parts.length < maxParts then some (parts, rest) else none
  | none => none

end Document

end Farmhand
