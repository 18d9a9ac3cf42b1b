import Farmhand.Proofs.Script.Standing
import Mathlib.Data.List.Chain

/-!
# Tokens Line by Line

The end of a line is the only token after which another line begins. So tokens with no end of a
line between them stand on one line, and whatever comes after the end of a line stands further down.
A token that is a name stands where the source has that name: it begins at the column of the token,
and it ends where no letter, digit or underscore follows.

## Main definitions

* `Ruled`: Only the end of a line leads to another line.
* `HasWord`: A source has a word at a place.

## Theorems

* `tokenize_ruled`: The tokens of a source are ruled.
* `Ruled.line_eq`, `Ruled.line_lt`: Tokens on one line, and tokens behind the end of one.
* `hasWord_of_mem_tokenize`: Names stand in the source.
-/

namespace Farmhand

namespace Script

/-! ## Lines -/

/-- One token comes right before another: on the same line, or on a line above if it ends its
    line. -/
def Token.Precedes (t u : Token) : Prop :=
  if t.kind.isMark .newline then t.span.line < u.span.line else t.span.line = u.span.line

/-- Only the end of a line leads to another line. -/
def Ruled (tokens : List Token) : Prop :=
  tokens.IsChain Token.Precedes

theorem Ruled.cons {t : Token} {tokens : List Token} (h : Ruled tokens)
    (ht : ∀ u ∈ tokens.head?, t.Precedes u) : Ruled (t :: tokens) :=
  List.IsChain.cons h ht

theorem Token.Precedes.same {t u : Token} (h : t.kind.isMark .newline = false)
    (hline : t.span.line = u.span.line) : t.Precedes u := by
  rw [Token.Precedes, if_neg (Bool.eq_false_iff.mp h)]
  exact hline

-- Tokens of one line, none of which ends it.
theorem ruled_of_line {n : Nat} {tokens : List Token}
    (h : ∀ t ∈ tokens, t.kind.isMark .newline = false ∧ t.span.line = n) : Ruled tokens := by
  induction tokens with
  | nil => exact List.IsChain.nil
  | cons t rest ih =>
      rcases List.forall_mem_cons.mp h with ⟨ht, hrest⟩
      refine (ih hrest).cons fun u hu => Token.Precedes.same ht.1 ?_
      rw [ht.2, (hrest u (List.mem_of_mem_head? hu)).2]

-- The tokens of a line and its end in front of tokens further down.
theorem Ruled.line {n : Nat} {front after : List Token} {stop : Token} (h : Ruled after)
    (hfront : ∀ t ∈ front, t.kind.isMark .newline = false ∧ t.span.line = n)
    (hstop : stop.kind.isMark .newline = true) (hn : stop.span.line = n)
    (hafter : ∀ t ∈ after, n < t.span.line) : Ruled (front ++ stop :: after) := by
  induction front with
  | nil =>
      refine h.cons fun u hu => ?_
      rw [Token.Precedes, if_pos hstop, hn]
      exact hafter u (List.mem_of_mem_head? hu)
  | cons t rest ih =>
      rcases List.forall_mem_cons.mp hfront with ⟨ht, hrest⟩
      refine (ih hrest).cons fun u hu => Token.Precedes.same ht.1 ?_
      cases rest with
      | nil =>
          rw [List.nil_append, List.head?_cons, Option.mem_some_iff] at hu
          rw [ht.2, ← hu, hn]
      | cons v more =>
          rw [List.cons_append, List.head?_cons, Option.mem_some_iff] at hu
          rw [ht.2, ← hu, (hrest v List.mem_cons_self).2]

-- No line ends in front of another.
theorem ne_newline_of_changeIndent {width : Nat} {blocks inner : List Nat} {shapes : List Layout}
    (h : changeIndent width blocks = some (shapes, inner)) :
    ∀ shape ∈ shapes, shape ≠ .newline := by
  intro shape hshape
  unfold changeIndent at h
  by_cases hopen : blocks.headD 0 < width
  · simp only [if_pos hopen, Option.some.injEq, Prod.mk.injEq] at h
    rw [← h.1, List.mem_singleton] at hshape
    rw [hshape]
    exact nofun
  · by_cases hleft : (closeBlocks width blocks).2.headD 0 = width
    · simp only [if_neg hopen, if_pos hleft, Option.some.injEq, Prod.mk.injEq] at h
      rw [← h.1] at hshape
      rw [List.eq_of_mem_replicate hshape]
      exact nofun
    · simp only [if_neg hopen, if_neg hleft, reduceCtorEq] at h

/-- The tokens of code lines are ruled, and they stand below the line above. -/
theorem codeTokens_ruled {blocks : List Nat} {lastLine : Nat} {code : List (Nat × List Char)}
    {tokens : List Token} (h : codeTokens blocks lastLine code = .ok tokens)
    (hcode : code.Pairwise fun p q => p.1 < q.1) (hlast : ∀ p ∈ code, lastLine < p.1) :
    Ruled tokens ∧ ∀ t ∈ tokens, lastLine < t.span.line := by
  induction code generalizing blocks lastLine tokens with
  | nil =>
      simp only [codeTokens, Except.ok.injEq] at h
      have hline : ∀ t ∈ tokens,
          t.kind.isMark .newline = false ∧ t.span.line = lastLine + 1 := by
        intro t ht
        rw [← h, List.mem_append, List.mem_map, List.mem_singleton] at ht
        rcases ht with ⟨_, _, rfl⟩ | rfl
        · exact ⟨rfl, rfl⟩
        · exact ⟨rfl, rfl⟩
      exact ⟨ruled_of_line hline, fun t ht => (hline t ht).2 ▸ Nat.lt_succ_self lastLine⟩
  | cons p rest ih =>
      rcases p with ⟨n, line⟩
      rcases codeTokens_cons_eq_ok_iff.mp h with ⟨shapes, inner, after, hchange, hafter, rfl⟩
      rcases List.pairwise_cons.mp hcode with ⟨hn, hrest⟩
      rcases ih hafter hrest hn with ⟨hruled, hbelow⟩
      have hplain := lineTokens_plain n (indentLength line + 1) (line.drop (indentLength line))
      rcases exists_lineTokens n (indentLength line + 1) (line.drop (indentLength line)) with
        ⟨front, stop, htokens, hfront, hstop⟩
      rw [htokens] at hplain ⊢
      have hlt : lastLine < n := hlast (n, line) List.mem_cons_self
      -- The layout of a line carries its number, as the tokens of the line do.
      have hlines : ∀ t ∈ (shapes.map fun shape =>
          (⟨.mark (.layout shape), .inLine n 1 (indentLength line + 1)⟩ : Token)) ++ front,
          t.kind.isMark .newline = false ∧ t.span.line = n := by
        intro t ht
        rcases List.mem_append.mp ht with ht | ht
        · rcases List.mem_map.mp ht with ⟨shape, hshape, rfl⟩
          refine ⟨?_, rfl⟩
          rw [Token.Kind.isMark, decide_eq_false_iff_not, Mark.layout.injEq]
          exact ne_newline_of_changeIndent hchange shape hshape
        · exact ⟨hfront t ht, (hplain t (List.mem_append_left _ ht)).2⟩
      have hstopLine : stop.span.line = n :=
        (hplain stop (List.mem_append_right _ (List.mem_singleton_self stop))).2
      rw [List.append_assoc, List.append_assoc, ← List.append_assoc, List.singleton_append]
      refine ⟨hruled.line hlines hstop hstopLine hbelow, ?_⟩
      intro t ht
      rcases List.mem_append.mp ht with ht | ht
      · rw [(hlines t ht).2]
        exact hlt
      · rcases List.mem_cons.mp ht with rfl | ht
        · rw [hstopLine]
          exact hlt
        · exact Nat.lt_trans hlt (hbelow t ht)

/-- The tokens of a source are ruled, and each stands on a line. -/
theorem tokenize_ruled {source : String} {tokens : List Token} (h : tokenize source = .ok tokens) :
    Ruled tokens ∧ ∀ t ∈ tokens, 0 < t.span.line := by
  rw [tokenize_eq_codeTokens] at h
  refine codeTokens_ruled h (pairwise_codeLines 1 _) ?_
  rintro ⟨n, line⟩ hp
  exact (getElem?_of_mem_codeLines hp).1

theorem Ruled.suffix {tokens rest : List Token} (h : Ruled tokens) (hrest : rest <:+ tokens) :
    Ruled rest :=
  List.IsChain.suffix h hrest

/-- Tokens with no end of a line between them stand on one line. -/
theorem Ruled.line_eq {t u : Token} {front after : List Token}
    (h : Ruled (t :: (front ++ u :: after))) (ht : t.kind.isMark .newline = false)
    (hfront : ∀ v ∈ front, v.kind.isMark .newline = false) : u.span.line = t.span.line := by
  induction front generalizing t with
  | nil =>
      have hprecedes : t.Precedes u := (List.isChain_cons_cons.mp h).1
      rw [Token.Precedes, if_neg (Bool.eq_false_iff.mp ht)] at hprecedes
      exact hprecedes.symm
  | cons v rest ih =>
      rcases List.isChain_cons_cons.mp h with ⟨hprecedes, hrest⟩
      rcases List.forall_mem_cons.mp hfront with ⟨hv, hmore⟩
      rw [Token.Precedes, if_neg (Bool.eq_false_iff.mp ht)] at hprecedes
      rw [ih hrest hv hmore, hprecedes]

-- No token stands above one in front of it.
theorem Ruled.line_le {t u : Token} {rest : List Token} (h : Ruled (t :: rest)) (hu : u ∈ rest) :
    t.span.line ≤ u.span.line := by
  induction rest generalizing t with
  | nil => exact absurd hu List.not_mem_nil
  | cons v more ih =>
      rcases List.isChain_cons_cons.mp h with ⟨hprecedes, hrest⟩
      have hle : t.span.line ≤ v.span.line := by
        unfold Token.Precedes at hprecedes
        split at hprecedes
        · exact Nat.le_of_lt hprecedes
        · exact Nat.le_of_eq hprecedes
      rcases List.mem_cons.mp hu with rfl | hu
      · exact hle
      · exact Nat.le_trans hle (ih hrest hu)

/-- What comes after the end of a line stands further down. -/
theorem Ruled.line_lt {t u : Token} {rest : List Token} (h : Ruled (t :: rest))
    (ht : t.kind.isMark .newline = true) (hu : u ∈ rest) : t.span.line < u.span.line := by
  cases rest with
  | nil => exact absurd hu List.not_mem_nil
  | cons v more =>
      rcases List.isChain_cons_cons.mp h with ⟨hprecedes, hrest⟩
      rw [Token.Precedes, if_pos ht] at hprecedes
      rcases List.mem_cons.mp hu with rfl | hu
      · exact hprecedes
      · exact Nat.lt_of_lt_of_le hprecedes (Ruled.line_le hrest hu)

/-! ## Names -/

/-- A source has a word at a place: the letters, digits and underscores from there on spell it. -/
def HasWord (source word : String) (place : Place) : Prop :=
  0 < place.line ∧ 0 < place.column ∧
    ∃ line, (Text.lines source.toList)[place.line - 1]? = some line ∧
      (line.drop (place.column - 1)).takeWhile Text.isNamePart = word.toList

-- What is scanned is taken from the front.
theorem scanText_suffix (quote : Char) (cs : List Char) :
    (scanText quote cs).2.2 <:+ cs := by
  fun_induction scanText quote cs with
  | case1 => exact List.suffix_refl []
  | case2 rest => exact List.suffix_cons _ rest
  | case3 hquote => exact List.nil_suffix
  | case4 e rest content closed after hscan hquote ih =>
      rw [hscan] at ih
      exact ih.trans ((List.suffix_cons e rest).trans (List.suffix_cons _ _))
  | case5 c rest hquote hescape content closed after hscan ih =>
      rw [hscan] at ih
      exact ih.trans (List.suffix_cons c rest)

theorem scanDigits_suffix (point : Bool) (cs : List Char) :
    (scanDigits point cs).2.2 <:+ cs := by
  fun_induction scanDigits point cs with
  | case1 point => exact List.suffix_refl []
  | case2 point c rest hdigit digits found after hscan ih =>
      rw [hscan] at ih
      exact ih.trans (List.suffix_cons c rest)
  | case3 point rest hdigit ih => exact ih.trans (List.suffix_cons _ rest)
  | case4 point c rest hdigit hunderscore hpoint digits found after hscan ih =>
      rw [hscan] at ih
      exact ih.trans (List.suffix_cons c rest)
  | case5 point c rest => exact List.suffix_refl _

theorem withEqual_suffix (short long : Token.Kind) (cs : List Char) :
    (withEqual short long cs).2 <:+ cs := by
  unfold withEqual
  split
  · exact List.suffix_cons _ _
  · exact List.suffix_refl cs

theorem scanSign_suffix (c : Char) (rest : List Char) : (scanSign c rest).2 <:+ rest := by
  unfold scanSign
  split <;> first | exact withEqual_suffix .. | skip
  all_goals try exact List.suffix_refl rest
  split
  · exact List.suffix_cons _ _
  · exact List.suffix_refl rest

/-- What follows a token is an end of what followed its first character. -/
theorem scan_suffix (c : Char) (rest : List Char) : (scan c rest).2 <:+ rest := by
  unfold scan
  split
  · exact List.dropWhile_suffix _
  split
  · exact scanDigits_suffix false rest
  split
  · have h := scanText_suffix c rest
    dsimp only
    split
    · exact h
    · exact h
  · exact scanSign_suffix c rest

theorem numberKind_ne_name (digits : List Char) (point : Bool) (name : String) :
    numberKind digits point ≠ .name name := by
  unfold numberKind
  split
  · split <;> simp
  · split
    · split <;> simp
    · simp

theorem scanSign_ne_name (c : Char) (rest : List Char) (name : String) :
    (scanSign c rest).1 ≠ .name name := by
  unfold scanSign withEqual
  split <;> (try split) <;> simp

theorem wordKind_eq_name {word name : String} (h : wordKind word = .name name) : word = name := by
  unfold wordKind at h
  split at h
  · cases h
  · split at h <;> first | exact Token.Kind.name.inj h | cases h

/-- A name is scanned off the letters, digits and underscores that spell it. -/
theorem takeWhile_of_scan {c : Char} {rest : List Char} {name : String}
    (h : (scan c rest).1 = .name name) :
    (c :: rest).takeWhile Text.isNamePart = name.toList := by
  unfold scan at h
  split at h
  · next hstart =>
      rw [← wordKind_eq_name h, String.toList_ofList,
        List.takeWhile_cons_of_pos (isNamePart_of_isNameStart hstart)]
  · split at h
    · exact absurd h (numberKind_ne_name _ _ name)
    · split at h
      · dsimp only at h
        split at h <;> cases h
      · exact absurd h (scanSign_ne_name c rest name)

/-- A name among the tokens of a line stands on the line at the column of its token. -/
theorem takeWhile_of_mem_lineTokens {line column : Nat} {cs : List Char} {t : Token}
    {name : String} (ht : t ∈ lineTokens line column cs) (hname : t.kind = .name name) :
    ∃ k, t.span.start = ⟨line, column + k⟩ ∧
      (cs.drop k).takeWhile Text.isNamePart = name.toList := by
  fun_induction lineTokens line column cs with
  | case1 column =>
      rw [List.mem_singleton.mp ht] at hname
      cases hname
  | case2 column c rest _ ih =>
      rcases ih ht with ⟨k, hstart, hword⟩
      exact ⟨k + 1, by rw [hstart, Nat.add_assoc, Nat.add_comm 1], hword⟩
  | case3 column rest stop _ =>
      rw [List.mem_singleton.mp ht] at hname
      cases hname
  | case4 column c rest _ _ next stop ih =>
      rcases List.mem_cons.mp ht with rfl | ht
      · exact ⟨0, rfl, takeWhile_of_scan hname⟩
      · rcases ih ht with ⟨k, hstart, hword⟩
        refine ⟨rest.length - next.2.length + 1 + k, ?_, ?_⟩
        · rw [hstart]
          congr 1
          omega
        · rw [← List.drop_drop, List.drop_succ_cons,
            ← List.suffix_iff_eq_drop.mp (scan_suffix c rest)]
          exact hword

-- Names stand on code lines.
theorem takeWhile_of_mem_codeTokens {blocks : List Nat} {lastLine : Nat}
    {code : List (Nat × List Char)} {tokens : List Token}
    (h : codeTokens blocks lastLine code = .ok tokens) {t : Token} (ht : t ∈ tokens)
    {name : String} (hname : t.kind = .name name) :
    ∃ p ∈ code, ∃ k, t.span.start = ⟨p.1, k + 1⟩ ∧
      (p.2.drop k).takeWhile Text.isNamePart = name.toList := by
  induction code generalizing blocks lastLine tokens with
  | nil =>
      simp only [codeTokens, Except.ok.injEq] at h
      rw [← h, List.mem_append, List.mem_map, List.mem_singleton] at ht
      rcases ht with ⟨_, _, rfl⟩ | rfl
      · cases hname
      · cases hname
  | cons p rest ih =>
      rcases p with ⟨n, line⟩
      rcases codeTokens_cons_eq_ok_iff.mp h with ⟨shapes, inner, after, _, hafter, rfl⟩
      rw [List.mem_append, List.mem_append, List.mem_map] at ht
      rcases ht with (⟨_, _, rfl⟩ | ht) | ht
      · cases hname
      · rcases takeWhile_of_mem_lineTokens ht hname with ⟨k, hstart, hword⟩
        refine ⟨(n, line), List.mem_cons_self, indentLength line + k, ?_, ?_⟩
        · rw [hstart]
          congr 1
          omega
        · rw [← List.drop_drop]
          exact hword
      · rcases ih hafter ht with ⟨p, hp, hk⟩
        exact ⟨p, List.mem_cons_of_mem _ hp, hk⟩

/-- A token that is a name stands where the source has that name. -/
theorem hasWord_of_mem_tokenize {source : String} {tokens : List Token}
    (h : tokenize source = .ok tokens) {t : Token} (ht : t ∈ tokens) {name : String}
    (hname : t.kind = .name name) : HasWord source name t.span.start := by
  rw [tokenize_eq_codeTokens] at h
  rcases takeWhile_of_mem_codeTokens h ht hname with ⟨⟨n, line⟩, hp, k, hstart, hword⟩
  rcases getElem?_of_mem_codeLines hp with ⟨hn, hline, _⟩
  rw [hstart]
  exact ⟨hn, Nat.succ_pos k, line, hline, hword⟩

end Script

end Farmhand
