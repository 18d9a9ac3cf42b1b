import Farmhand.Proofs.Script.Code
import Farmhand.Proofs.Script.Written
import Farmhand.Script.Expression

/-!
# The Tokens of Written Expressions

The kinds of the tokens that a written expression has, and the proof that it has them. The tokens
of a line depend on the text alone, so a line is read word by word: what follows a word, a number
or a text in quotes only has to begin with a character that does not go on with it.

## Main definitions

* `lexemes`: The kinds of the tokens of a line.
* `Boundary`: What does not go on with a word or a number.
* `Expr.kinds`: The kinds of the tokens of a written expression.

## Theorems

* `lexemes_word`, `lexemes_digits`, `lexemes_inQuotes`: Words, numbers and texts in quotes.
* `Expr.lexemes_written`: The tokens of a written expression.
-/

namespace Farmhand

namespace Script

/-! ## Characters -/

-- The blank characters are few, and one by one they are part of no name.
theorem isBlank_of_isNamePart {c : Char} (h : Text.isNamePart c = true) :
    Text.isBlank c = false := by
  have hall : ∀ range ∈ Text.blankRanges, ∀ k < range.2 + 1 - range.1,
      Text.isNamePart (Char.ofNat (range.1 + k)) = false := by
    decide +kernel
  rw [Bool.eq_false_iff]
  intro hblank
  rcases List.any_eq_true.mp hblank with ⟨range, hrange, hbounds⟩
  simp only [Bool.and_eq_true, decide_eq_true_eq] at hbounds
  have hnone := hall range hrange (c.toNat - range.1) (by omega)
  have hn : range.1 + (c.toNat - range.1) = c.toNat := by omega
  rw [hn, Char.ofNat_toNat, h] at hnone
  exact absurd hnone (by decide)

-- A name can go on with what it can start with.
theorem isNamePart_of_isNameStart {c : Char} (h : Text.isNameStart c = true) :
    Text.isNamePart c = true := by
  rw [Text.isNameStart, Bool.or_eq_true] at h
  rw [Text.isNamePart, Bool.or_eq_true, Bool.or_eq_true]
  rcases h with h | h
  · exact Or.inl (Or.inl h)
  · exact Or.inr h

theorem isBlank_of_isNameStart {c : Char} (h : Text.isNameStart c = true) :
    Text.isBlank c = false :=
  isBlank_of_isNamePart (isNamePart_of_isNameStart h)

-- Gaps are the blanks that can stand within a line.
theorem isGap_iff {c : Char} : isGap c = true ↔ c = ' ' ∨ c = '\t' ∨ c = '\r' := by
  rw [isGap, Bool.or_eq_true, Bool.or_eq_true, beq_iff_eq, beq_iff_eq, beq_iff_eq, or_assoc]

theorem isGap_of_isIndent {c : Char} (h : isIndent c = true) : isGap c = true := by
  rw [isGap, Bool.or_eq_true]
  exact Or.inl h

theorem isBlank_of_isGap {c : Char} (h : isGap c = true) : Text.isBlank c = true := by
  rcases isGap_iff.mp h with rfl | rfl | rfl
  · decide
  · decide
  · decide

-- The digits, one by one, are numerals and begin no name.
theorem isNamePart_of_isDigit {c : Char} (h : c.isDigit = true) :
    Text.isNamePart c = true ∧ Text.isNameStart c = false ∧ isGap c = false ∧ c ≠ '#' ∧
      Text.isBlank c = false := by
  have hall : ∀ k < 10, Text.isNamePart (Char.ofNat (48 + k)) = true ∧
      Text.isNameStart (Char.ofNat (48 + k)) = false ∧ isGap (Char.ofNat (48 + k)) = false ∧
      Char.ofNat (48 + k) ≠ '#' ∧ Text.isBlank (Char.ofNat (48 + k)) = false := by
    decide
  have hrange : 48 ≤ c.toNat ∧ c.toNat ≤ 57 := Char.isDigit_iff_toNat.mp h
  have hthis := hall (c.toNat - 48) (by omega)
  have hn : 48 + (c.toNat - 48) = c.toNat := by omega
  rw [hn, Char.ofNat_toNat] at hthis
  exact hthis

/-! ## The tokens of a line -/

/-- The kinds of the tokens of a line. -/
def lexemes (cs : List Char) : List Token.Kind :=
  (lineTokens 0 0 cs).map Token.kind

/-- Where a line stands does not matter for the kinds of its tokens. -/
theorem map_kind_lineTokens (line column : Nat) (cs : List Char) :
    (lineTokens line column cs).map Token.kind = lexemes cs := by
  have hany : ∀ column', (lineTokens line column cs).map Token.kind
      = (lineTokens 0 column' cs).map Token.kind := by
    fun_induction lineTokens line column cs with
    | case1 column =>
        intro column'
        rw [lineTokens]
        rfl
    | case2 column c rest hgap ih =>
        intro column'
        rw [lineTokens.eq_2, if_pos hgap]
        exact ih _
    | case3 column rest stop hgap =>
        intro column'
        rw [lineTokens.eq_2, if_neg hgap]
        rfl
    | case4 column c rest hgap hcomment next stop ih =>
        intro column'
        rw [lineTokens.eq_2, if_neg hgap, if_neg hcomment, List.map_cons, ih]
        rfl
  exact hany 0

theorem lexemes_nil : lexemes [] = [.mark .newline] := by
  rw [lexemes, lineTokens]
  rfl

-- Gaps are passed over.
theorem lexemes_gap {c : Char} (h : isGap c = true) (rest : List Char) :
    lexemes (c :: rest) = lexemes rest := by
  rw [lexemes, lineTokens, if_pos h]
  exact map_kind_lineTokens 0 1 rest

theorem lexemes_space (rest : List Char) : lexemes (' ' :: rest) = lexemes rest :=
  lexemes_gap (by decide) rest

/-- A character that is neither a gap nor the start of a comment starts a token. -/
theorem lexemes_cons {c : Char} (hgap : isGap c = false) (hcomment : c ≠ '#') (rest : List Char) :
    lexemes (c :: rest) = (scan c rest).1 :: lexemes (scan c rest).2 := by
  rw [lexemes, lineTokens, if_neg (by rw [hgap]; exact Bool.false_ne_true), if_neg hcomment,
    List.map_cons]
  exact congrArg _ (map_kind_lineTokens _ _ _)

/-- A text that does not go on with a word or a number. -/
def Boundary (rest : List Char) : Prop :=
  ∀ c ∈ rest.head?, Text.isNamePart c = false ∧ c ≠ '.'

-- A word ends at the end of a text, and at everything that is neither a part of a word nor a point.
theorem boundary_nil : Boundary [] :=
  nofun

theorem boundary_cons {c : Char} (h : Text.isNamePart c = false) (hpoint : c ≠ '.')
    (rest : List Char) : Boundary (c :: rest) := by
  intro d hd
  rw [List.head?_cons, Option.mem_some] at hd
  exact hd ▸ ⟨h, hpoint⟩

-- What a whole word leaves over.
theorem takeWhile_dropWhile_boundary {word rest : List Char}
    (hword : word.all Text.isNamePart = true) (hrest : Boundary rest) :
    (word ++ rest).takeWhile Text.isNamePart = word ∧
      (word ++ rest).dropWhile Text.isNamePart = rest := by
  have hall : ∀ c ∈ word, Text.isNamePart c = true := List.all_eq_true.mp hword
  rw [List.takeWhile_append_of_pos hall, List.dropWhile_append_of_pos hall]
  cases rest with
  | nil => exact ⟨List.append_nil word, rfl⟩
  | cons c more =>
      have hc := (hrest c rfl).1
      rw [List.takeWhile_cons, List.dropWhile_cons, hc]
      exact ⟨List.append_nil word, rfl⟩

/-- A word is one token, up to a boundary. -/
theorem lexemes_word {word : List Char} (hword : Text.isName word = true) {rest : List Char}
    (hrest : Boundary rest) :
    lexemes (word ++ rest) = wordKind (String.ofList word) :: lexemes rest := by
  cases word with
  | nil => exact absurd hword (by decide)
  | cons c more =>
      rw [Text.isName, Bool.and_eq_true] at hword
      have hgap : isGap c = false := by
        rw [Bool.eq_false_iff]
        intro h
        have hblank := isBlank_of_isNameStart hword.1
        rw [isBlank_of_isGap h] at hblank
        cases hblank
      have hcomment : c ≠ '#' := by
        rintro rfl
        exact absurd hword.1 (by decide)
      rcases takeWhile_dropWhile_boundary hword.2 hrest with ⟨htake, hdrop⟩
      rw [List.cons_append, lexemes_cons hgap hcomment, scan, if_pos hword.1, htake, hdrop]

/-- A name is one token. -/
theorem wordKind_of_isName {name : String} (h : IsName name) : wordKind name = .name name := by
  have hnone := h.2
  simp only [reservedWords, List.mem_cons, List.not_mem_nil, or_false, not_or] at hnone
  unfold wordKind Keyword.ofWord?
  split
  · next hkeyword =>
      split at hkeyword <;> simp_all
  · split <;> simp_all

-- A name is a word that no keyword takes.
theorem lexemes_name {name : String} (h : IsName name) {rest : List Char}
    (hrest : Boundary rest) : lexemes (name.toList ++ rest) = .name name :: lexemes rest := by
  rw [lexemes_word h.1 hrest, String.ofList_toList, wordKind_of_isName h]

-- What a number leaves over: no point or underscore is among its digits.
theorem scanDigits_append {digits rest : List Char}
    (hdigits : ∀ c ∈ digits, c.isDigit = true) (hrest : Boundary rest) :
    scanDigits false (digits ++ rest) = (digits, false, rest) := by
  induction digits with
  | nil =>
      cases rest with
      | nil => rfl
      | cons c more =>
          rcases hrest c rfl with ⟨hpart, hpoint⟩
          have hdigit : ¬c.isDigit = true := by
            intro h
            rw [(isNamePart_of_isDigit h).1] at hpart
            exact absurd hpart (by decide)
          have hunderscore : c ≠ '_' := by
            rintro rfl
            exact absurd hpart (by decide)
          rw [List.nil_append, scanDigits, if_neg hdigit, if_neg hunderscore]
          simp only [hpoint, decide_false, Bool.false_and, Bool.false_eq_true, if_false]
  | cons c more ih =>
      rw [List.cons_append, scanDigits, if_pos (hdigits c List.mem_cons_self),
        ih fun d hd => hdigits d (List.mem_cons_of_mem c hd)]

-- Decimal digits name the number they were made of.
theorem natural?_toDigits (n : Nat) : Decimal.natural? (Nat.toDigits 10 n) = some n := by
  have hall : (Nat.toDigits 10 n).all Char.isDigit = true :=
    List.all_eq_true.mpr fun c hc => Nat.isDigit_of_mem_toDigits (by decide) (by decide) hc
  have hne : (Nat.toDigits 10 n).isEmpty = false := by
    rw [List.isEmpty_eq_false_iff]
    exact Nat.toDigits_ne_nil
  rw [Decimal.natural?, hall, hne]
  exact congrArg some (Nat.ofDigitChars_toDigits (by decide) (by decide))

/-- The digits of a number are one token, up to a boundary. -/
theorem lexemes_digits {n : Nat} (hn : (n : Int) ≤ Integer.max64) {rest : List Char}
    (hrest : Boundary rest) :
    lexemes (Nat.toDigits 10 n ++ rest) = .int n :: lexemes rest := by
  have hdigits : ∀ c ∈ Nat.toDigits 10 n, c.isDigit = true :=
    fun c hc => Nat.isDigit_of_mem_toDigits (by decide) (by decide) hc
  have hkind : numberKind (Nat.toDigits 10 n) false = .int n := by
    simp only [numberKind, natural?_toDigits, hn, Bool.false_eq_true, if_false, if_true]
  cases htext : Nat.toDigits 10 n with
  | nil => exact absurd htext Nat.toDigits_ne_nil
  | cons c more =>
      rw [htext] at hdigits hkind
      have hc := hdigits c List.mem_cons_self
      rcases isNamePart_of_isDigit hc with ⟨_, hstart, hgap, hcomment, _⟩
      rw [List.cons_append, lexemes_cons hgap hcomment, scan,
        if_neg (by rw [hstart]; exact Bool.false_ne_true), if_pos hc,
        scanDigits_append (fun d hd => hdigits d (List.mem_cons_of_mem c hd)) hrest]
      simp only [hkind]

-- What a text in quotes leaves over: its closing quote is the first that is not escaped.
theorem scanText_escaped (text rest : List Char) :
    scanText '"' (text.flatMap escaped ++ '"' :: rest) = (text, true, rest) := by
  induction text with
  | nil =>
      rw [List.flatMap_nil, List.nil_append, scanText.eq_def]
      rfl
  | cons c more ih =>
      rw [List.flatMap_cons, List.append_assoc, escaped]
      split
      · next hc =>
          subst hc
          simp only [List.cons_append, List.nil_append, scanText, ih]
          rfl
      · next hbackslash =>
          split
          · next hc =>
              subst hc
              simp only [List.cons_append, List.nil_append, scanText, ih]
              rfl
          · next hquote =>
              split
              · next hc =>
                  subst hc
                  simp only [List.cons_append, List.nil_append, scanText, ih]
                  rfl
              · simp only [List.cons_append, List.nil_append]
                rw [scanText.eq_def]
                simp only [if_neg hquote, if_neg hbackslash, ih]

/-- A text in quotes is one token. -/
theorem lexemes_inQuotes (text rest : List Char) :
    lexemes (inQuotes text ++ rest) = .str (String.ofList text) :: lexemes rest := by
  have hscan : scan '"' (text.flatMap escaped ++ '"' :: rest) =
      (.str (String.ofList text), rest) := by
    rw [scan, if_neg (by decide), if_neg (by decide), if_pos (by decide), scanText_escaped]
    rfl
  rw [inQuotes, List.cons_append, List.append_assoc, List.singleton_append,
    lexemes_cons (by decide) (by decide), hscan]

/-! ## The tokens of an expression -/

/-- The token of a literal. Floats are not written, so theirs does not matter. -/
def Literal.kind : Literal → Token.Kind
  | .int n => .int n
  | .float x => .float x
  | .str text => .str text
  | .bool b => .bool b
  | .none => .none

/-- The token of an operator between two operands. -/
def BinaryOp.kind : BinaryOp → Token.Kind
  | add => .mark (.punctuation .plus)
  | sub => .mark (.punctuation .minus)
  | mul => .mark (.punctuation .star)
  | div => .mark (.punctuation .slash)
  | floorDiv => .mark (.punctuation .slashSlash)
  | mod => .mark (.punctuation .percent)
  | eq => .mark (.punctuation .equal)
  | ne => .mark (.punctuation .notEqual)
  | lt => .mark (.punctuation .less)
  | le => .mark (.punctuation .lessEqual)
  | gt => .mark (.punctuation .greater)
  | ge => .mark (.punctuation .greaterEqual)
  | and => .mark (.keyword .andWord)
  | or => .mark (.keyword .orWord)

/-- The token of an assignment sign. -/
def AssignOp.kind : AssignOp → Token.Kind
  | set => .mark (.punctuation .assign)
  | add => .mark (.punctuation .plusAssign)
  | sub => .mark (.punctuation .minusAssign)

/-- Tokens in parentheses, unless they are those of an atom. -/
def enclosedKinds (atom : Bool) (kinds : List Token.Kind) : List Token.Kind :=
  if atom then kinds else .mark leftParen :: (kinds ++ [.mark rightParen])

mutual

/-- The kinds of the tokens of a written expression. -/
def Expr.kinds : Expr → List Token.Kind
  | .lit value _ => [value.kind]
  | .var name _ => [.name name]
  | .list items _ => .mark leftBracket :: (Expr.kindsOfItems items ++ [.mark rightBracket])
  | .index container position _ =>
    enclosedKinds container.isAtom container.kinds ++
      .mark leftBracket :: (position.kinds ++ [.mark rightBracket])
  | .unary .neg operand _ =>
    .mark (.punctuation .minus) :: enclosedKinds operand.isAtom operand.kinds
  | .unary .not operand _ =>
    .mark (.keyword .notWord) :: enclosedKinds operand.isAtom operand.kinds
  | .binary op left right _ =>
    enclosedKinds left.isAtom left.kinds ++ op.kind :: enclosedKinds right.isAtom right.kinds
  | .call name args _ =>
    .name name :: .mark leftParen :: (Expr.kindsOfItems args ++ [.mark rightParen])

/-- The kinds of the tokens of items. -/
def Expr.kindsOfItems : List Expr → List Token.Kind
  | [] => []
  | e :: rest => e.kinds ++ Expr.kindsOfMore rest

/-- The kinds of the tokens of further items. -/
def Expr.kindsOfMore : List Expr → List Token.Kind
  | [] => []
  | e :: rest => .mark comma :: (e.kinds ++ Expr.kindsOfMore rest)

end

/-- A character that starts a sign: nothing else starts with it. -/
def startsSign (c : Char) : Bool :=
  !Text.isNameStart c && !c.isDigit && c != '"' && c != '\'' && !isGap c && c != '#'

-- One character decides that a sign starts. How long the sign is, `scanSign` finds out.
theorem lexemes_sign (c : Char) (h : startsSign c = true) (rest : List Char) :
    lexemes (c :: rest) = (scanSign c rest).1 :: lexemes (scanSign c rest).2 := by
  simp only [startsSign, Bool.and_eq_true, Bool.not_eq_true', bne_iff_ne, ne_eq] at h
  rcases h with ⟨⟨⟨⟨⟨hstart, hdigit⟩, hquote⟩, hquote'⟩, hgap⟩, hcomment⟩
  rw [lexemes_cons hgap hcomment, scan]
  simp only [hstart, hdigit, hquote, hquote', Bool.false_eq_true, decide_false, Bool.or_self,
    if_false]

/-- An operator between blanks is one token. -/
theorem lexemes_operator (op : BinaryOp) (rest : List Char) :
    lexemes (' ' :: (op.sign.toList ++ ' ' :: rest)) = op.kind :: lexemes rest := by
  have hboundary : Boundary (' ' :: rest) := boundary_cons (by decide) (by decide) rest
  have hword : ∀ word : String, Text.isName word.toList = true →
      lexemes (word.toList ++ ' ' :: rest) = wordKind word :: lexemes (' ' :: rest) :=
    fun word h => by rw [lexemes_word h hboundary, String.ofList_toList]
  rw [lexemes_space, ← lexemes_space rest]
  cases op with
  | and => exact hword "and" (by decide)
  | or => exact hword "or" (by decide)
  | _ => exact lexemes_sign _ (by decide) _

/-- An assignment sign between blanks is one token. -/
theorem lexemes_assignment (op : AssignOp) (rest : List Char) :
    lexemes (' ' :: (op.sign.toList ++ ' ' :: rest)) = op.kind :: lexemes rest := by
  rw [lexemes_space, ← lexemes_space rest]
  cases op with
  | _ => exact lexemes_sign _ (by decide) _

-- Brackets are signs of one character, whatever follows them.
theorem lexemes_leftParen (rest : List Char) :
    lexemes ('(' :: rest) = .mark leftParen :: lexemes rest :=
  lexemes_sign '(' (by decide) rest

theorem lexemes_rightParen (rest : List Char) :
    lexemes (')' :: rest) = .mark rightParen :: lexemes rest :=
  lexemes_sign ')' (by decide) rest

theorem lexemes_leftBracket (rest : List Char) :
    lexemes ('[' :: rest) = .mark leftBracket :: lexemes rest :=
  lexemes_sign '[' (by decide) rest

theorem lexemes_rightBracket (rest : List Char) :
    lexemes (']' :: rest) = .mark rightBracket :: lexemes rest :=
  lexemes_sign ']' (by decide) rest

-- A comma is written with a space behind it.
theorem lexemes_comma (rest : List Char) :
    lexemes (',' :: ' ' :: rest) = .mark comma :: lexemes rest :=
  (lexemes_sign ',' (by decide) (' ' :: rest)).trans
    (congrArg (Token.Kind.mark comma :: ·) (lexemes_space rest))

/-- The minus sign in front of an operand: no equals sign follows, so it is a token of its own. -/
theorem lexemes_minus {rest : List Char} (h : rest.head? ≠ some '=') :
    lexemes ('-' :: rest) = .mark (.punctuation .minus) :: lexemes rest := by
  have hsign : scanSign '-' rest = (.mark (.punctuation .minus), rest) := by
    simp only [scanSign, withEqual]
    split
    · exact absurd rfl h
    · rfl
  rw [lexemes_sign '-' (by decide), hsign]

/-- A literal is one token, up to a boundary. -/
theorem Literal.lexemes_written {value : Literal} (h : value.Writable) {rest : List Char}
    (hrest : Boundary rest) : lexemes (value.written ++ rest) = value.kind :: lexemes rest := by
  cases value with
  | int n =>
      have hn : (n.toNat : Int) = n := Int.toNat_of_nonneg h.1
      rw [Literal.written, lexemes_digits (hn.symm ▸ h.2) hrest, hn]
      rfl
  | float x => exact h.elim
  | str text => rw [Literal.written, lexemes_inQuotes, String.ofList_toList, Literal.kind]
  | bool b =>
      cases b with
      | true => exact lexemes_word (by decide) hrest
      | false => exact lexemes_word (by decide) hrest
  | none => exact lexemes_word (by decide) hrest

-- What stands in front of a text in parentheses or without them.
theorem lexemes_enclosed {text : List Char} {kinds : List Token.Kind}
    (h : ∀ rest, Boundary rest → lexemes (text ++ rest) = kinds ++ lexemes rest) (atom : Bool)
    {rest : List Char} (hrest : Boundary rest) :
    lexemes (enclosed atom text ++ rest) = enclosedKinds atom kinds ++ lexemes rest := by
  cases atom with
  | true => exact h rest hrest
  | false =>
      have hclose : Boundary (')' :: rest) := boundary_cons (by decide) (by decide) rest
      simp only [enclosed, enclosedKinds, Bool.false_eq_true, if_false, List.cons_append,
        List.append_assoc, List.nil_append]
      rw [lexemes_leftParen, h _ hclose, lexemes_rightParen]

/-- A text that can stand at the start of a line or after a sign: it begins with something that is
    no blank, no comment and no equals sign. -/
def Leads (text : List Char) : Prop :=
  ∃ c more, text = c :: more ∧ Text.isBlank c = false ∧ c ≠ '#' ∧ c ≠ '='

-- Only the first character matters.
theorem Leads.append {text : List Char} (h : Leads text) (rest : List Char) :
    Leads (text ++ rest) := by
  rcases h with ⟨c, more, rfl, hc⟩
  exact ⟨c, more ++ rest, rfl, hc⟩

-- A name starts with a letter or an underscore, and so with none of those.
theorem leads_of_isName {word : List Char} (h : Text.isName word = true) : Leads word := by
  cases word with
  | nil => exact absurd h (by decide)
  | cons c more =>
      rw [Text.isName, Bool.and_eq_true] at h
      refine ⟨c, more, rfl, isBlank_of_isNameStart h.1, ?_, ?_⟩
      · rintro rfl
        exact absurd h.1 (by decide)
      · rintro rfl
        exact absurd h.1 (by decide)

-- A parenthesis is no blank, no comment and no equals sign.
theorem leads_enclosed (atom : Bool) {text : List Char} (h : Leads text) :
    Leads (enclosed atom text) := by
  cases atom with
  | true => exact h
  | false => exact ⟨'(', text ++ [')'], rfl, by decide, by decide, by decide⟩

/-- Numbers start with a digit, texts with a quote, and the other literals with a letter. -/
theorem Literal.leads_written {value : Literal} (h : value.Writable) : Leads value.written := by
  cases value with
  | int n =>
      cases htext : Nat.toDigits 10 n.toNat with
      | nil => exact absurd htext Nat.toDigits_ne_nil
      | cons c more =>
          have hdigit : c.isDigit = true := Nat.isDigit_of_mem_toDigits (by decide) (by decide)
            (htext ▸ List.mem_cons_self)
          rcases isNamePart_of_isDigit hdigit with ⟨_, _, _, hcomment, hblank⟩
          refine ⟨c, more, htext, hblank, hcomment, ?_⟩
          rintro rfl
          exact absurd hdigit (by decide)
  | float x => exact h.elim
  | str text => exact ⟨'"', _, rfl, by decide, by decide, by decide⟩
  | bool b =>
      cases b with
      | true => exact leads_of_isName (by decide)
      | false => exact leads_of_isName (by decide)
  | none => exact leads_of_isName (by decide)

/-- Every written expression starts with something that is read by itself. So it can follow a sign
    that another character could make longer. -/
theorem Expr.leads_written (e : Expr) (h : e.Writable) : Leads e.written := by
  cases e with
  | lit value _ => exact Literal.leads_written h
  | var name _ => exact leads_of_isName h.1
  | list items _ => exact ⟨'[', _, rfl, by decide, by decide, by decide⟩
  | index container position _ =>
      exact (leads_enclosed _ (Expr.leads_written container h.1)).append _
  | unary op operand _ =>
      cases op with
      | neg => exact ⟨'-', _, rfl, by decide, by decide, by decide⟩
      | not =>
          have hnot : Text.isName "not".toList = true := by decide
          exact (leads_of_isName hnot).append _
  | binary op left right _ => exact (leads_enclosed _ (Expr.leads_written left h.1)).append _
  | call name args _ => exact (leads_of_isName h.1.1).append _

-- Behind an item stands a comma or what follows all of them, and neither goes on with a word.
theorem Expr.boundary_writtenMore (es : List Expr) {rest : List Char} (hrest : Boundary rest) :
    Boundary (Expr.writtenMore es ++ rest) := by
  cases es with
  | nil => exact hrest
  | cons e more => exact boundary_cons (by decide) (by decide) _

mutual

/-- The tokens of a written expression, up to a boundary. -/
theorem Expr.lexemes_written (e : Expr) (h : e.Writable) (rest : List Char)
    (hrest : Boundary rest) : lexemes (e.written ++ rest) = e.kinds ++ lexemes rest := by
  cases e with
  | lit value _ => exact Literal.lexemes_written h hrest
  | var name _ => exact lexemes_name h hrest
  | list items _ =>
      have hclose : Boundary (']' :: rest) := boundary_cons (by decide) (by decide) rest
      simp only [Expr.written, Expr.kinds, List.cons_append, List.append_assoc, List.nil_append]
      rw [lexemes_leftBracket, Expr.lexemes_writtenItems items h _ hclose, lexemes_rightBracket]
  | index container position _ =>
      have hopen : ∀ more, Boundary ('[' :: more) := boundary_cons (by decide) (by decide)
      have hclose : Boundary (']' :: rest) := boundary_cons (by decide) (by decide) rest
      simp only [Expr.written, Expr.kinds, List.cons_append, List.append_assoc, List.nil_append]
      rw [lexemes_enclosed (Expr.lexemes_written container h.1) _ (hopen _), lexemes_leftBracket,
        Expr.lexemes_written position h.2 _ hclose, lexemes_rightBracket]
  | unary op operand _ =>
      have hoperand := lexemes_enclosed (Expr.lexemes_written operand h) operand.isAtom hrest
      cases op with
      | neg =>
          -- Nothing that an operand begins with makes a longer sign of the minus sign.
          rcases leads_enclosed operand.isAtom (Expr.leads_written operand h) with
            ⟨c, more, htext, _, _, hequal⟩
          rw [Expr.written, Expr.kinds, List.cons_append, lexemes_minus, hoperand]
          · rfl
          · rw [htext, List.cons_append, List.head?_cons, Ne, Option.some.injEq]
            exact hequal
      | not =>
          have hnot : Text.isName "not".toList = true := by decide
          have hblank : ∀ more, Boundary (' ' :: more) := boundary_cons (by decide) (by decide)
          have hword := lexemes_word hnot
            (hblank (enclosed operand.isAtom operand.written ++ rest))
          rw [Expr.written, Expr.kinds, List.append_assoc, List.cons_append, hword, lexemes_space,
            hoperand]
          rfl
  | binary op left right _ =>
      have hblank : ∀ more, Boundary (' ' :: more) := boundary_cons (by decide) (by decide)
      simp only [Expr.written, Expr.kinds, List.cons_append, List.append_assoc]
      rw [lexemes_enclosed (Expr.lexemes_written left h.1) _ (hblank _), lexemes_operator,
        lexemes_enclosed (Expr.lexemes_written right h.2) _ hrest]
  | call name args _ =>
      have hopen : ∀ more, Boundary ('(' :: more) := boundary_cons (by decide) (by decide)
      have hclose : Boundary (')' :: rest) := boundary_cons (by decide) (by decide) rest
      simp only [Expr.written, Expr.kinds, List.cons_append, List.append_assoc, List.nil_append]
      rw [lexemes_name h.1 (hopen _), lexemes_leftParen,
        Expr.lexemes_writtenItems args h.2 _ hclose, lexemes_rightParen]

-- The items of a list or of a call, along with the expression itself.
theorem Expr.lexemes_writtenItems (es : List Expr) (h : Expr.WritableAll es) (rest : List Char)
    (hrest : Boundary rest) :
    lexemes (Expr.writtenItems es ++ rest) = Expr.kindsOfItems es ++ lexemes rest := by
  cases es with
  | nil => rfl
  | cons e more =>
      rw [Expr.writtenItems, Expr.kindsOfItems, List.append_assoc, List.append_assoc,
        Expr.lexemes_written e h.1 _ (Expr.boundary_writtenMore more hrest),
        Expr.lexemes_writtenMore more h.2 rest hrest]

theorem Expr.lexemes_writtenMore (es : List Expr) (h : Expr.WritableAll es) (rest : List Char)
    (hrest : Boundary rest) :
    lexemes (Expr.writtenMore es ++ rest) = Expr.kindsOfMore es ++ lexemes rest := by
  cases es with
  | nil => rfl
  | cons e more =>
      simp only [Expr.writtenMore, Expr.kindsOfMore, List.cons_append, List.append_assoc]
      rw [lexemes_comma, Expr.lexemes_written e h.1 _ (Expr.boundary_writtenMore more hrest),
        Expr.lexemes_writtenMore more h.2 rest hrest]

end

end Script

end Farmhand
