import Mathlib
import Farmhand.Proofs.Script.Ruled

/-!
# Tokens Tile Their Line

The tokens of a code line stand side by side on it, and what lies between them is white space. A
character that no token takes is a blank, a tab or a carriage return, or belongs to a comment behind
the last token. So no character of the line is lost.

A line is cut from its left end. Each cut takes a gap, a whole token or the comment away, and what
is left is cut again from the column behind it. So the tiles are described from any column on, and
there is one lemma for each kind of cut: what holds of the rest of a line holds of the line with one
more piece in front. The indentation of a line is a gap like any other, which is why columns can be
counted from the beginning of the line.

## Main definitions

* `Keyword.word`, `Token.Kind.spellings?`: How the tokens that are words are spelled.
* `Token.Covers`, `Token.textFrom`: The columns of a token, and its text.
* `Accounted`: A character that is not lost.
* `Tiled`: Tokens side by side on a line, with nothing lost between them.
* `ordinaryOn`, `endsOn`: The tokens on a line that are no layout, and its ends.

## Theorems

* `spelled_scan`: Words are spelled as they stand.
* `Tiled.nil`, `Tiled.comment`, `Tiled.gap`, `Tiled.token`: The pieces of a line.
* `exists_tiled`: The tokens of a line tile it.
* `filter_codeTokens`: The tokens of one line among those of all.
* `ordinaryOn_codeTokens`, `endsOn_codeTokens`: Which these are.
* `tokenize_tiled`: The tokens of a script tile its code lines.
-/

namespace Farmhand

namespace Script

variable {n column : Nat} {text cs rest : List Char} {words tokens : List Token} {c : Char}
  {j : Nat}

/-! ## Definitions -/

/-- A keyword as scripts write it. -/
def Keyword.word : Keyword → String
  | .ifWord => "if"
  | .elifWord => "elif"
  | .elseWord => "else"
  | .whileWord => "while"
  | .forWord => "for"
  | .inWord => "in"
  | .returnWord => "return"
  | .breakWord => "break"
  | .continueWord => "continue"
  | .passWord => "pass"
  | .andWord => "and"
  | .orWord => "or"
  | .notWord => "not"

/-- How a token is spelled that is a name, a keyword or a literal by a word. -/
def Token.Kind.spellings? : Token.Kind → Option (List String)
  | .name text => some [text]
  | .mark (.keyword k) => some [k.word]
  | .bool true => some ["True", "true"]
  | .bool false => some ["False", "false"]
  | .none => some ["None", "none", "null"]
  | _ => Option.none

/-- Whether a kind stands for the shape of the text. -/
def Token.Kind.isLayout : Token.Kind → Bool
  | .mark (.layout _) => true
  | _ => false

namespace Token

/-- The span of a token covers a column. -/
def Covers (t : Token) (column : Nat) : Prop :=
  t.span.start.column ≤ column ∧ column < t.span.stop.column

/-- What the span of a token covers in a text that starts at a column. -/
def textFrom (t : Token) (column : Nat) (cs : List Char) : List Char :=
  (cs.drop (t.span.start.column - column)).take (t.span.stop.column - t.span.start.column)

end Token

/-- A character at a place in a text that starts at a column is not lost: a token covers it, or it
    is a gap, or it belongs to a comment that begins behind all tokens. -/
def Accounted (column : Nat) (cs : List Char) (words : List Token) (j : Nat) (c : Char) : Prop :=
  (∃ t ∈ words, t.Covers (column + j)) ∨ c = ' ' ∨ c = '\t' ∨ c = '\r' ∨
    ∃ m ≤ j, cs[m]? = some '#' ∧ ∀ t ∈ words, t.span.stop.column ≤ column + m

/-- Tokens side by side on a text that starts at a column of a line. None is empty, each starts
    behind the one in front of it, all lie within the text, and no character is lost. Words are
    spelled as they stand. -/
structure Tiled (n column : Nat) (cs : List Char) (words : List Token) : Prop where
  onLine : ∀ t ∈ words, t.span.start.line = n ∧ t.span.stop.line = n
  nonempty : ∀ t ∈ words, t.span.start.column < t.span.stop.column
  ordered : words.Pairwise fun t u => t.span.stop.column ≤ u.span.start.column
  within : ∀ t ∈ words, column ≤ t.span.start.column ∧ t.span.stop.column ≤ column + cs.length
  accounted : ∀ j c, cs[j]? = some c → Accounted column cs words j c
  spelled : ∀ t ∈ words, ∀ spellings, t.kind.spellings? = some spellings →
    String.ofList (t.textFrom column cs) ∈ spellings

/-- The tokens on a line that are no layout. -/
def ordinaryOn (n : Nat) (tokens : List Token) : List Token :=
  tokens.filter fun t => t.span.line == n && !t.kind.isLayout

/-- The ends of a line. -/
def endsOn (n : Nat) (tokens : List Token) : List Token :=
  tokens.filter fun t => t.span.line == n && t.kind.isMark .newline

/-! ## Words -/

theorem word_of_ofWord? {word : String} {k : Keyword} (h : Keyword.ofWord? word = some k) :
    word = k.word := by
  unfold Keyword.ofWord? at h
  split at h <;> cases h <;> rfl

/-- A whole word has a spelling of its kind. -/
theorem mem_spellings_wordKind {word : String} {spellings : List String}
    (h : (wordKind word).spellings? = some spellings) : word ∈ spellings := by
  unfold wordKind at h
  split at h
  · next k hk =>
      cases h
      exact List.mem_singleton.mpr (word_of_ofWord? hk)
  · split at h <;> cases h <;> simp

theorem spellings?_numberKind (digits : List Char) (point : Bool) :
    (numberKind digits point).spellings? = none := by
  unfold numberKind
  split
  · split <;> rfl
  · split
    · split <;> rfl
    · rfl

theorem spellings?_scanSign (c : Char) (rest : List Char) :
    (scanSign c rest).1.spellings? = none := by
  unfold scanSign withEqual
  split <;> (try split) <;> rfl

/-- A token that is a word is spelled as it stands. -/
theorem spelled_scan {front : List Char} (hfront : front ++ (scan c rest).2 = rest)
    {spellings : List String} (h : (scan c rest).1.spellings? = some spellings) :
    String.ofList (c :: front) ∈ spellings := by
  unfold scan at h hfront
  split at h
  · next hstart =>
      rw [if_pos hstart] at hfront
      have hword : front = rest.takeWhile Text.isNamePart :=
        List.append_cancel_right (hfront.trans List.takeWhile_append_dropWhile.symm)
      rw [hword]
      exact mem_spellings_wordKind h
  · split at h
    · rw [spellings?_numberKind] at h
      cases h
    · split at h
      · dsimp only at h
        split at h <;> cases h
      · rw [spellings?_scanSign] at h
        cases h

/-! ## The pieces of a line -/

theorem Tiled.nil : Tiled n column [] [] :=
  ⟨List.forall_mem_nil _, List.forall_mem_nil _, .nil, List.forall_mem_nil _, nofun,
    List.forall_mem_nil _⟩

theorem Tiled.comment : Tiled n column ('#' :: rest) [] :=
  ⟨List.forall_mem_nil _, List.forall_mem_nil _, .nil, List.forall_mem_nil _,
    fun j _ _ => .inr (.inr (.inr (.inr ⟨0, j.zero_le, rfl, List.forall_mem_nil _⟩))),
    List.forall_mem_nil _⟩

theorem Token.textFrom_append {t : Token} (h : column + text.length ≤ t.span.start.column) :
    t.textFrom column (text ++ rest) = t.textFrom (column + text.length) rest := by
  have hstart : t.span.start.column - column =
      text.length + (t.span.start.column - (column + text.length)) := by omega
  rw [textFrom, hstart, List.drop_append, List.drop_eq_nil_of_le (by omega), List.nil_append,
    Nat.add_sub_cancel_left, textFrom]

-- What is not lost stays so behind a piece with tokens of its own.
theorem Accounted.append {front : List Token}
    (hfront : ∀ t ∈ front, t.span.stop.column ≤ column + text.length)
    (h : Accounted (column + text.length) rest words j c) :
    Accounted column (text ++ rest) (front ++ words) (text.length + j) c := by
  rcases h with ⟨t, ht, hcovers⟩ | hspace | htab | hreturn | ⟨m, hm, hcomment, hbehind⟩
  · refine .inl ⟨t, List.mem_append_right front ht, ?_⟩
    rw [← Nat.add_assoc]
    exact hcovers
  · exact .inr (.inl hspace)
  · exact .inr (.inr (.inl htab))
  · exact .inr (.inr (.inr (.inl hreturn)))
  · refine .inr (.inr (.inr (.inr ⟨text.length + m, by omega, ?_, fun t ht => ?_⟩)))
    · rw [List.getElem?_append_right (Nat.le_add_right _ _), Nat.add_sub_cancel_left, hcomment]
    · rcases List.mem_append.mp ht with ht | ht
      · have hstop := hfront t ht
        omega
      · have hstop := hbehind t ht
        omega

/-- A gap in front of a text that is tiled. -/
theorem Tiled.gap (hc : isGap c = true) (h : Tiled n (column + 1) rest words) :
    Tiled n column (c :: rest) words := by
  refine ⟨h.onLine, h.nonempty, h.ordered, fun t ht => ?_, fun j d hd => ?_, fun t ht => ?_⟩
  · have hwithin := h.within t ht
    rw [List.length_cons]
    omega
  · cases j with
    | zero =>
        cases hd
        rcases isGap_iff.mp hc with hspace | htab | hreturn
        · exact .inr (.inl hspace)
        · exact .inr (.inr (.inl htab))
        · exact .inr (.inr (.inr (.inl hreturn)))
    | succ j =>
        have hbehind : Accounted column ([c] ++ rest) ([] ++ words) ([c].length + j) d :=
          Accounted.append (List.forall_mem_nil _) (h.accounted j d hd)
        rw [Nat.add_comm j 1]
        exact hbehind
  · have hstart : column + [c].length ≤ t.span.start.column := (h.within t ht).1
    intro spellings hspellings
    rw [← List.singleton_append, Token.textFrom_append hstart]
    exact h.spelled t ht spellings hspellings

/-- A token in front of a text that is tiled. -/
theorem Tiled.token {kind : Token.Kind} (hne : text ≠ [])
    (hspelled : ∀ spellings, kind.spellings? = some spellings → String.ofList text ∈ spellings)
    (h : Tiled n (column + text.length) rest words) :
    Tiled n column (text ++ rest)
      (⟨kind, .inLine n column (column + text.length)⟩ :: words) := by
  have hlength := List.length_pos_of_ne_nil hne
  refine ⟨?_, ?_, ?_, ?_, fun j d hd => ?_, ?_⟩
  · exact List.forall_mem_cons.mpr ⟨⟨rfl, rfl⟩, h.onLine⟩
  · exact List.forall_mem_cons.mpr ⟨Nat.lt_add_of_pos_right hlength, h.nonempty⟩
  · exact List.pairwise_cons.mpr ⟨fun u hu => (h.within u hu).1, h.ordered⟩
  · rw [List.length_append]
    refine List.forall_mem_cons.mpr ⟨⟨Nat.le_refl column, by dsimp only [Span.inLine]; omega⟩, ?_⟩
    intro t ht
    have hwithin := h.within t ht
    omega
  · by_cases hj : j < text.length
    · exact .inl ⟨_, List.mem_cons_self, Nat.le_add_right column j, Nat.add_lt_add_left hj column⟩
    · obtain ⟨i, rfl⟩ : ∃ i, j = text.length + i := ⟨j - text.length, by omega⟩
      rw [List.getElem?_append_right (Nat.le_add_right _ _), Nat.add_sub_cancel_left] at hd
      rw [← List.singleton_append]
      refine Accounted.append ?_ (h.accounted i d hd)
      exact List.forall_mem_singleton.mpr (Nat.le_refl _)
  · refine List.forall_mem_cons.mpr ⟨fun spellings hspellings => ?_, fun t ht spellings h' => ?_⟩
    · have htext : Token.textFrom ⟨kind, .inLine n column (column + text.length)⟩ column
          (text ++ rest) = text := by
        rw [Token.textFrom, Span.inLine, Nat.sub_self, List.drop_zero, Nat.add_sub_cancel_left,
          List.take_left]
      rw [htext]
      exact hspelled spellings hspellings
    · rw [Token.textFrom_append (h.within t ht).1]
      exact h.spelled t ht spellings h'

/-! ## One line -/

theorem isLayout_scan (c : Char) (rest : List Char) : (scan c rest).1.isLayout = false := by
  have hmark := scan_isMark c rest
  cases hkind : (scan c rest).1 with
  | mark m =>
      cases m with
      | layout shape =>
          have hsame := hmark shape
          rw [hkind, Token.Kind.isMark, decide_eq_false_iff_not] at hsame
          exact absurd rfl hsame
      | _ => rfl
  | _ => rfl

/-- The tokens of a line tile it, and the line ends where its last character does. -/
theorem exists_tiled (n column : Nat) (cs : List Char) : ∃ words,
    lineTokens n column cs =
        words ++ [⟨.mark .newline, .inLine n (column + cs.length) (column + cs.length)⟩] ∧
      Tiled n column cs words ∧ ∀ t ∈ words, t.kind.isLayout = false := by
  fun_induction lineTokens n column cs with
  | case1 column => exact ⟨[], rfl, .nil, List.forall_mem_nil _⟩
  | case2 column c rest hgap ih =>
      rcases ih with ⟨words, htokens, htiled, hplain⟩
      refine ⟨words, ?_, htiled.gap hgap, hplain⟩
      rw [htokens, List.length_cons, Nat.add_assoc, Nat.add_comm 1]
  | case3 column rest stop _ =>
      refine ⟨[], ?_, .comment, List.forall_mem_nil _⟩
      rw [List.length_cons, ← Nat.add_assoc, Nat.add_right_comm]
      rfl
  | case4 column c rest _ _ next stop ih =>
      rcases ih with ⟨words, htokens, htiled, hplain⟩
      rcases scan_suffix c rest with ⟨front, hfront⟩
      have hstop : stop = column + (c :: front).length := by
        have hlength := congrArg List.length hfront
        rw [List.length_append] at hlength
        change column + 1 + (rest.length - (scan c rest).2.length) = _
        rw [List.length_cons]
        omega
      have hline : c :: rest = (c :: front) ++ next.2 := by
        rw [List.cons_append, hfront]
      rw [hstop] at htiled htokens
      refine ⟨⟨next.1, .inLine n column stop⟩ :: words, ?_, ?_, ?_⟩
      · rw [hstop, htokens, hline, List.length_append, ← Nat.add_assoc, List.cons_append]
      · rw [hline, hstop]
        exact htiled.token (List.cons_ne_nil c front) fun spellings => spelled_scan hfront
      · exact List.forall_mem_cons.mpr ⟨isLayout_scan c rest, hplain⟩

-- Indentation is a gap, so columns can be counted from the beginning of the line.
theorem lineTokens_drop_indent (n column : Nat) (line : List Char) :
    lineTokens n (column + indentLength line) (line.drop (indentLength line)) =
      lineTokens n column line := by
  unfold indentLength
  induction line generalizing column with
  | nil => rfl
  | cons c rest ih =>
      by_cases hc : isIndent c = true
      · rw [List.takeWhile_cons_of_pos hc, List.length_cons, List.drop_succ_cons,
          Nat.add_comm _ 1, ← Nat.add_assoc, ih, lineTokens, if_pos (isGap_of_isIndent hc)]
      · rw [List.takeWhile_cons_of_neg hc]
        rfl

/-! ## All lines -/

/-- What there is among the tokens of all code lines that stands on one of them and neither opens
    nor closes anything is among the tokens of that line. -/
theorem filter_codeTokens {blocks : List Nat} {lastLine : Nat} {code : List (Nat × List Char)}
    (h : codeTokens blocks lastLine code = .ok tokens) (hcode : code.Pairwise fun p q => p.1 < q.1)
    {p : Nat × List Char} (hp : p ∈ code) {f : Token → Bool}
    (hf : ∀ t, f t = true → t.IsPlain ∧ t.span.line = p.1) :
    tokens.filter f = (lineTokens p.1 1 p.2).filter f := by
  induction code generalizing blocks lastLine tokens with
  | nil => cases hp
  | cons q rest ih =>
      rcases q with ⟨m, line⟩
      rcases codeTokens_cons_eq_ok_iff.mp h with ⟨shapes, inner, after, hchange, hafter, rfl⟩
      rcases List.pairwise_cons.mp hcode with ⟨hbelow, hrest⟩
      have hbefore : (shapes.map fun shape => (⟨.mark (.layout shape),
          .inLine m 1 (indentLength line + 1)⟩ : Token)).filter f = [] := by
        rw [List.filter_eq_nil_iff]
        intro t ht hft
        rcases List.mem_map.mp ht with ⟨shape, hshape, rfl⟩
        rcases (hf _ hft).1 with ⟨hindent, hdedent, hend⟩
        have hnewline := ne_newline_of_changeIndent hchange shape hshape
        cases shape with
        | newline => exact hnewline rfl
        | indent => cases hindent
        | dedent => cases hdedent
        | endOfInput => cases hend
      rw [List.filter_append, List.filter_append, hbefore, List.nil_append,
        Nat.add_comm (indentLength line) 1, lineTokens_drop_indent]
      rcases List.mem_cons.mp hp with rfl | hp
      · -- What stands on this line stands on none below it.
        have hnone : after.filter f = [] := by
          rw [List.filter_eq_nil_iff]
          intro t ht hft
          rcases hf t hft with ⟨⟨_, hdedent, hend⟩, hline⟩
          rcases exists_of_mem_codeTokens hafter ht hdedent hend with ⟨q, hq, hqline⟩
          have hlt := hbelow q hq
          omega
        rw [hnone, List.append_nil]
      · have hnone : (lineTokens m 1 line).filter f = [] := by
          rw [List.filter_eq_nil_iff]
          intro t ht hft
          have hline := (lineTokens_plain m 1 line t ht).2
          have hlt := hbelow p hp
          have hother := (hf t hft).2
          omega
        rw [hnone, List.nil_append]
        exact ih hafter hrest hp

-- A line of code is found under its number.
theorem mem_codeLines {number i : Nat} {line : List Char} {lines : List (List Char)}
    (hline : lines[i]? = some line) (hcode : isCode line = true) :
    (number + i, line) ∈ codeLines number lines := by
  induction lines generalizing number i with
  | nil => cases hline
  | cons first rest ih =>
      cases i with
      | zero =>
          cases hline
          rw [codeLines, if_pos hcode]
          exact List.mem_cons_self
      | succ i =>
          have hmem : (number + 1 + i, line) ∈ codeLines (number + 1) rest := ih hline
          rw [Nat.add_assoc, Nat.add_comm 1 i] at hmem
          rw [codeLines]
          split
          · exact List.mem_cons_of_mem _ hmem
          · exact hmem

theorem isMark_of_isLayout {kind : Token.Kind} (h : kind.isLayout = false) (shape : Layout) :
    kind.isMark (.layout shape) = false := by
  rw [Bool.eq_false_iff]
  intro hmark
  rw [isMark_eq_true_iff.mp hmark] at h
  cases h

theorem isPlain_of_isLayout {t : Token} (h : t.kind.isLayout = false) : t.IsPlain :=
  ⟨isMark_of_isLayout h .indent, isMark_of_isLayout h .dedent, isMark_of_isLayout h .endOfInput⟩

section

variable {blocks : List Nat} {lastLine : Nat} {code : List (Nat × List Char)}
  {p : Nat × List Char} {stop : Token} (h : codeTokens blocks lastLine code = .ok tokens)
  (hcode : code.Pairwise fun p q => p.1 < q.1) (hp : p ∈ code)
  (htokens : lineTokens p.1 1 p.2 = words ++ [stop])
  (hplain : ∀ t ∈ words, t.kind.isLayout = false)
include h hcode hp htokens hplain

/-- On a line of code the ordinary tokens are its words. -/
theorem ordinaryOn_codeTokens (hstop : stop.kind.isLayout = true) :
    ordinaryOn p.1 tokens = words := by
  have hline := lineTokens_plain p.1 1 p.2
  rw [htokens] at hline
  have hkept : ∀ t ∈ words, (t.span.line == p.1 && !t.kind.isLayout) = true := by
    intro t ht
    rw [hplain t ht, (hline t (List.mem_append_left _ ht)).2, BEq.rfl]
    rfl
  have hlast : ∀ t ∈ [stop], ¬ (t.span.line == p.1 && !t.kind.isLayout) = true := by
    rw [List.forall_mem_singleton, hstop, Bool.not_true, Bool.and_false]
    exact Bool.false_ne_true
  rw [ordinaryOn, filter_codeTokens h hcode hp, htokens, List.filter_append,
    List.filter_eq_self.mpr hkept, List.filter_eq_nil_iff.mpr hlast, List.append_nil]
  intro t ht
  rw [Bool.and_eq_true, beq_iff_eq, Bool.not_eq_true'] at ht
  exact ⟨isPlain_of_isLayout ht.2, ht.1⟩

/-- What ends a line of code is one token. -/
theorem endsOn_codeTokens (hstop : stop.kind.isMark .newline = true) :
    endsOn p.1 tokens = [stop] := by
  have hmem : stop ∈ lineTokens p.1 1 p.2 := by
    rw [htokens]
    exact List.mem_append_right words List.mem_cons_self
  have hnone : ∀ t ∈ words, ¬ (t.span.line == p.1 && t.kind.isMark .newline) = true := by
    intro t ht
    rw [isMark_of_isLayout (hplain t ht), Bool.and_false]
    exact Bool.false_ne_true
  have hlast : ∀ t ∈ [stop], (t.span.line == p.1 && t.kind.isMark .newline) = true := by
    rw [List.forall_mem_singleton, hstop, (lineTokens_plain p.1 1 p.2 stop hmem).2, BEq.rfl]
    rfl
  rw [endsOn, filter_codeTokens h hcode hp, htokens, List.filter_append,
    List.filter_eq_nil_iff.mpr hnone, List.nil_append, List.filter_eq_self.mpr hlast]
  intro t ht
  rw [Bool.and_eq_true, beq_iff_eq] at ht
  refine ⟨?_, ht.1⟩
  rw [Token.IsPlain, isMark_eq_true_iff.mp ht.2]
  exact ⟨rfl, rfl, rfl⟩

end

/-- The tokens of a script tile its code lines: on each there is at least one that is no layout,
    these stand side by side, and nothing is lost between them; and the line ends once, behind its
    last character. -/
theorem tokenize_tiled {source : String} (h : tokenize source = .ok tokens) {i : Nat}
    {line : List Char} (hline : (Text.lines source.toList)[i]? = some line)
    (hcode : isCode line = true) :
    ordinaryOn (i + 1) tokens ≠ [] ∧ Tiled (i + 1) 1 line (ordinaryOn (i + 1) tokens) ∧
      endsOn (i + 1) tokens =
        [⟨.mark .newline, .inLine (i + 1) (1 + line.length) (1 + line.length)⟩] := by
  rw [tokenize_eq_codeTokens] at h
  have hmem : (1 + i, line) ∈ codeLines 1 (Text.lines source.toList) := mem_codeLines hline hcode
  rw [Nat.add_comm 1 i] at hmem
  rcases exists_tiled (i + 1) 1 line with ⟨words, htokens, htiled, hplain⟩
  have hordered := pairwise_codeLines 1 (Text.lines source.toList)
  rw [ordinaryOn_codeTokens h hordered hmem htokens hplain rfl]
  refine ⟨?_, htiled, endsOn_codeTokens h hordered hmem htokens hplain rfl⟩
  -- The first token of a code line is not its end.
  rintro rfl
  rw [isCode_eq_find?] at hcode
  rcases lineTokens_of_code (i + 1) 1 line hcode with ⟨t, more, hfirst, hnewline⟩
  rw [htokens] at hfirst
  rw [← (List.cons.inj hfirst).1] at hnewline
  cases hnewline

/-- A tab in front of the first token, a string with a sign of comments in it, and a comment right
    behind the last token. -/
theorem tokenize_tiled_comment :
    ∃ tokens, tokenize "if a:\n\tx = 'ü#' + 1_0# y\n" = .ok tokens ∧
      (Text.lines "if a:\n\tx = 'ü#' + 1_0# y\n".toList)[1]? =
        some "\tx = 'ü#' + 1_0# y".toList ∧
      isCode "\tx = 'ü#' + 1_0# y".toList = true ∧
      (ordinaryOn 2 tokens).map (fun t => (t.span.start.column, t.span.stop.column)) =
        [(2, 3), (4, 5), (6, 10), (11, 12), (13, 16)] ∧
      ordinaryOn 2 tokens ≠ [] ∧
      Tiled 2 1 "\tx = 'ü#' + 1_0# y".toList (ordinaryOn 2 tokens) ∧
      endsOn 2 tokens = [⟨.mark .newline, .inLine 2 19 19⟩] := by
  have hread : (tokenize "if a:\n\tx = 'ü#' + 1_0# y\n").map (fun tokens =>
      (ordinaryOn 2 tokens).map fun t => (t.span.start.column, t.span.stop.column)) =
      .ok [(2, 3), (4, 5), (6, 10), (11, 12), (13, 16)] := by
    cbv
  have hline : (Text.lines "if a:\n\tx = 'ü#' + 1_0# y\n".toList)[1]? =
      some "\tx = 'ü#' + 1_0# y".toList := by
    cbv
  have hcode : isCode "\tx = 'ü#' + 1_0# y".toList = true := by
    cbv
  have hlength : "\tx = 'ü#' + 1_0# y".toList.length = 18 := by
    cbv
  rcases ok_of_map_eq_ok hread with ⟨tokens, htokens, hcolumns⟩
  have htiled := tokenize_tiled htokens hline hcode
  rw [hlength] at htiled
  exact ⟨tokens, htokens, hline, hcode, hcolumns, htiled⟩

end Script

end Farmhand
