import Farmhand.Proofs.Text.Lines
import Farmhand.Script.Lexer

/-!
# Code Lines

What the tokens of a script depend on. Lines that carry no token are passed over one by one, so the
tokens are those of the numbered code lines, and two texts with the same numbered code lines have
the same tokens, whatever stands between those lines.

## Main definitions

* `codeLines`: The numbered lines that carry tokens.
* `codeTokens`: The tokens of numbered code lines.

## Theorems

* `isCode_congr`: Whether a line is code depends on its first character that is not blank.
* `codeLines_map`, `codeLines_map_congr`: Code lines of lines that are changed one by one.
* `tokenizeLines_eq_codeTokens`: Tokens are read off the code lines.
* `exists_of_mem_codeTokens`: A token stands on a code line, or closes the script.
-/

namespace Farmhand

namespace Script

/-- The numbered lines that carry tokens, the first line having a given number. -/
def codeLines (number : Nat) : List (List Char) → List (Nat × List Char)
  | [] => []
  | line :: rest =>
    if isCode line then (number, line) :: codeLines (number + 1) rest
    else codeLines (number + 1) rest

/-- The tokens of numbered code lines, with the blocks open before them and the last line above
    them. -/
def codeTokens (blocks : List Nat) (lastLine : Nat) :
    List (Nat × List Char) → Except LexError (List Token)
  | [] =>
    let stop := Span.inLine (lastLine + 1) 1 1
    .ok (blocks.map (fun _ => ⟨.mark .dedent, stop⟩) ++ [⟨.mark .endOfInput, stop⟩])
  | (number, line) :: rest =>
    let start := indentLength line
    match changeIndent (indentWidth 0 line) blocks with
    | none => .error (.inconsistentIndent number)
    | some (shapes, blocks) =>
      let before := shapes.map fun shape =>
        (⟨.mark (.layout shape), .inLine number 1 (start + 1)⟩ : Token)
      match codeTokens blocks number rest with
      | .error e => .error e
      | .ok after => .ok (before ++ lineTokens number (start + 1) (line.drop start) ++ after)

theorem head?_trimStart (line : List Char) :
    (Text.trimStart line).head? = line.find? fun c => !Text.isBlank c := by
  unfold Text.trimStart
  induction line with
  | nil => rfl
  | cons c rest ih =>
      by_cases h : Text.isBlank c = true
      · rw [List.dropWhile_cons_of_pos h, List.find?_cons, h, ih]
        rfl
      · rw [List.dropWhile_cons_of_neg h, List.find?_cons, Bool.eq_false_iff.mpr h]
        rfl

theorem isCode_eq_find? (line : List Char) :
    isCode line = ((line.find? fun c => !Text.isBlank c).any fun c => c != '#') := by
  rw [← head?_trimStart, isCode]
  cases Text.trimStart line with
  | nil => rfl
  | cons c rest => rfl

/-- Whether a line is code depends on its first character that is not blank. -/
theorem isCode_congr {line line' : List Char}
    (h : line.find? (fun c => !Text.isBlank c) = line'.find? (fun c => !Text.isBlank c)) :
    isCode line = isCode line' := by
  rw [isCode_eq_find?, isCode_eq_find?, h]

theorem isCode_dropReturn (line : List Char) : isCode (Text.dropReturn line) = isCode line :=
  isCode_congr (Text.find?_dropReturn _ (by decide) line)

-- Only the lines of code matter.
theorem codeLines_map_congr {α : Type} (f g : α → List Char) (number : Nat) (xs : List α)
    (h : ∀ x ∈ xs, isCode (f x) = isCode (g x) ∧ (isCode (f x) = true → f x = g x)) :
    codeLines number (xs.map f) = codeLines number (xs.map g) := by
  induction xs generalizing number with
  | nil => rfl
  | cons x rest ih =>
      have hrest := ih (number + 1) fun y hy => h y (List.mem_cons_of_mem x hy)
      rcases h x List.mem_cons_self with ⟨hcode, heq⟩
      simp only [List.map_cons, codeLines, ← hcode, hrest]
      by_cases hx : isCode (f x) = true
      · rw [heq hx]
      · rw [if_neg hx, if_neg hx]

/-- A change of lines that leaves code to be code changes the code lines in place. -/
theorem codeLines_map (f : List Char → List Char) (hf : ∀ line, isCode (f line) = isCode line)
    (number : Nat) (lines : List (List Char)) :
    codeLines number (lines.map f)
      = (codeLines number lines).map fun p => (p.1, f p.2) := by
  induction lines generalizing number with
  | nil => rfl
  | cons line rest ih =>
      simp only [List.map_cons, codeLines, hf, ih (number + 1)]
      split <;> rfl

theorem map_snd_codeLines (number : Nat) (lines : List (List Char)) :
    (codeLines number lines).map Prod.snd = lines.filter isCode := by
  induction lines generalizing number with
  | nil => rfl
  | cons line rest ih =>
      rw [codeLines, List.filter_cons]
      split
      · rw [List.map_cons, ih]
      · exact ih (number + 1)

-- Lines at the end that are no code add nothing.
theorem codeLines_append (number : Nat) (lines blanks : List (List Char))
    (h : ∀ line ∈ blanks, isCode line = false) :
    codeLines number (lines ++ blanks) = codeLines number lines := by
  induction lines generalizing number with
  | nil =>
      have hnone : (codeLines number blanks).map Prod.snd = [] := by
        rw [map_snd_codeLines, List.filter_eq_nil_iff]
        exact fun line hline => Bool.eq_false_iff.mp (h line hline)
      exact List.map_eq_nil_iff.mp hnone
  | cons line rest ih => simp only [List.cons_append, codeLines, ih]

-- A code line is a line of the text, and carries its number.
theorem getElem?_of_mem_codeLines {number n : Nat} {line : List Char} {lines : List (List Char)}
    (h : (n, line) ∈ codeLines number lines) :
    number ≤ n ∧ lines[n - number]? = some line ∧ isCode line = true := by
  induction lines generalizing number with
  | nil => exact absurd h List.not_mem_nil
  | cons first rest ih =>
      -- Further down the numbers are greater by one than the positions tell.
      have hlater : (n, line) ∈ codeLines (number + 1) rest →
          number ≤ n ∧ (first :: rest)[n - number]? = some line ∧ isCode line = true := by
        intro hrest
        rcases ih hrest with ⟨hle, hget, hcode⟩
        have hstep : n - number = (n - (number + 1)) + 1 := by omega
        exact ⟨by omega, by rw [hstep, List.getElem?_cons_succ, hget], hcode⟩
      unfold codeLines at h
      split at h
      · next hcode =>
          rcases List.mem_cons.mp h with h | h
          · simp only [Prod.mk.injEq] at h
            rw [h.1, h.2, Nat.sub_self, List.getElem?_cons_zero]
            exact ⟨Nat.le_refl number, rfl, hcode⟩
          · exact hlater h
      · exact hlater h

theorem pairwise_codeLines (number : Nat) (lines : List (List Char)) :
    (codeLines number lines).Pairwise fun p q => p.1 < q.1 := by
  induction lines generalizing number with
  | nil => exact List.Pairwise.nil
  | cons line rest ih =>
      rw [codeLines]
      split
      · refine List.Pairwise.cons ?_ (ih (number + 1))
        intro q hq
        exact (getElem?_of_mem_codeLines hq).1
      · exact ih (number + 1)

/-- Tokens are read off the code lines. -/
theorem tokenizeLines_eq_codeTokens (number : Nat) (blocks : List Nat) (lastLine : Nat)
    (lines : List (List Char)) :
    tokenizeLines number blocks lastLine lines
      = codeTokens blocks lastLine (codeLines number lines) := by
  induction lines generalizing number blocks lastLine with
  | nil => rfl
  | cons line rest ih =>
      by_cases h : isCode line = true
      · rw [tokenizeLines, if_pos h, codeLines, if_pos h, codeTokens]
        cases changeIndent (indentWidth 0 line) blocks with
        | none => rfl
        | some change =>
            rcases change with ⟨shapes, inner⟩
            cases hafter : codeTokens inner number (codeLines (number + 1) rest) with
            | error e => simp only [ih, hafter]
            | ok after => simp only [ih, hafter]
      · simp only [tokenizeLines, codeLines, if_neg h, ih]

theorem tokenize_eq_codeTokens (source : String) :
    tokenize source = codeTokens [] 0 (codeLines 1 (Text.lines source.toList)) :=
  tokenizeLines_eq_codeTokens 1 [] 0 _

/-- A token that neither opens nor closes anything. -/
def Token.IsPlain (t : Token) : Prop :=
  t.kind.isMark .indent = false ∧ t.kind.isMark .dedent = false ∧
    t.kind.isMark .endOfInput = false

theorem wordKind_isMark (word : String) (shape : Layout) :
    (wordKind word).isMark (.layout shape) = false := by
  unfold wordKind
  split
  · simp [Token.Kind.isMark]
  · split <;> rfl

theorem numberKind_isMark (digits : List Char) (point : Bool) (m : Mark) :
    (numberKind digits point).isMark m = false := by
  unfold numberKind
  split
  · split <;> rfl
  · split
    · split <;> rfl
    · rfl

theorem scanSign_isMark (c : Char) (rest : List Char) (shape : Layout) :
    (scanSign c rest).1.isMark (.layout shape) = false := by
  unfold scanSign withEqual
  split <;> (try split) <;> simp [Token.Kind.isMark]

-- No character starts a token of layout.
theorem scan_isMark (c : Char) (rest : List Char) (shape : Layout) :
    (scan c rest).1.isMark (.layout shape) = false := by
  unfold scan
  split
  · exact wordKind_isMark _ shape
  · split
    · exact numberKind_isMark _ _ _
    · split
      · dsimp only
        split <;> rfl
      · exact scanSign_isMark c rest shape

-- The tokens of a line stand on it, and none of them opens or closes anything.
theorem lineTokens_plain (line column : Nat) (cs : List Char) :
    ∀ t ∈ lineTokens line column cs, t.IsPlain ∧ t.span.line = line := by
  fun_induction lineTokens line column cs with
  | case1 column =>
      intro t ht
      rw [List.mem_singleton.mp ht]
      exact ⟨⟨rfl, rfl, rfl⟩, rfl⟩
  | case2 column c rest _ ih => exact ih
  | case3 column rest stop _ =>
      intro t ht
      rw [List.mem_singleton.mp ht]
      exact ⟨⟨rfl, rfl, rfl⟩, rfl⟩
  | case4 column c rest _ _ next stop ih =>
      intro t ht
      rcases List.mem_cons.mp ht with ht | ht
      · rw [ht]
        exact ⟨⟨scan_isMark c rest _, scan_isMark c rest _, scan_isMark c rest _⟩, rfl⟩
      · exact ih t ht

theorem lineTokens_ne_nil (line column : Nat) (cs : List Char) :
    lineTokens line column cs ≠ [] := by
  fun_induction lineTokens line column cs with
  | case1 => exact List.cons_ne_nil _ _
  | case2 column c rest _ ih => exact ih
  | case3 => exact List.cons_ne_nil _ _
  | case4 => exact List.cons_ne_nil _ _

-- What the tokens of code lines are when there are any: those in front of the first line, those
-- of the line, and those of the lines below.
theorem codeTokens_cons_eq_ok_iff {blocks : List Nat} {lastLine number : Nat} {line : List Char}
    {rest : List (Nat × List Char)} {tokens : List Token} :
    codeTokens blocks lastLine ((number, line) :: rest) = .ok tokens ↔
      ∃ shapes inner after, changeIndent (indentWidth 0 line) blocks = some (shapes, inner) ∧
        codeTokens inner number rest = .ok after ∧
        tokens = (shapes.map fun shape =>
            (⟨.mark (.layout shape), .inLine number 1 (indentLength line + 1)⟩ : Token)) ++
          lineTokens number (indentLength line + 1) (line.drop (indentLength line)) ++ after := by
  rw [codeTokens]
  cases hchange : changeIndent (indentWidth 0 line) blocks with
  | none => simp
  | some change =>
      rcases change with ⟨shapes, inner⟩
      cases hafter : codeTokens inner number rest with
      | error e => simp [hafter]
      | ok after =>
          simp only [hafter, Except.ok.injEq, Option.some.injEq, Prod.mk.injEq]
          constructor
          · exact fun h => ⟨shapes, inner, after, ⟨rfl, rfl⟩, hafter, h.symm⟩
          · rintro ⟨_, _, after', ⟨rfl, rfl⟩, hafter', h⟩
            rw [hafter, Except.ok.injEq] at hafter'
            rw [h, hafter']

/-- A token stands on a code line, or it closes blocks or the script. -/
theorem exists_of_mem_codeTokens {blocks : List Nat} {lastLine : Nat}
    {code : List (Nat × List Char)} {tokens : List Token}
    (h : codeTokens blocks lastLine code = .ok tokens) {t : Token} (ht : t ∈ tokens)
    (hdedent : t.kind.isMark .dedent = false) (hend : t.kind.isMark .endOfInput = false) :
    ∃ p ∈ code, t.span.line = p.1 := by
  induction code generalizing blocks lastLine tokens with
  | nil =>
      simp only [codeTokens, Except.ok.injEq] at h
      rw [← h, List.mem_append, List.mem_map, List.mem_singleton] at ht
      rcases ht with ⟨_, _, rfl⟩ | rfl
      · cases hdedent
      · cases hend
  | cons p rest ih =>
      rcases p with ⟨number, line⟩
      rcases codeTokens_cons_eq_ok_iff.mp h with ⟨shapes, inner, after, _, hafter, htokens⟩
      rw [htokens, List.mem_append, List.mem_append, List.mem_map] at ht
      rcases ht with (⟨_, _, rfl⟩ | ht) | ht
      · exact ⟨(number, line), List.mem_cons_self, rfl⟩
      · exact ⟨(number, line), List.mem_cons_self, (lineTokens_plain _ _ _ t ht).2⟩
      · rcases ih hafter ht with ⟨p, hp, hline⟩
        exact ⟨p, List.mem_cons_of_mem _ hp, hline⟩

end Script

end Farmhand
