import Mathlib
import Farmhand.Proofs.Script.Grammar
import Farmhand.Proofs.Script.Nesting

/-!
# Going Forward

From every position but the end and a closing a statement is read, and reading it goes forward,
whatever the tokens are. The reader goes by numbers and gives up wherever it is, so this is shown by
holding it against the parser, of which it is known, along the recursion of the parser.

A conditional is given up from deep inside: when one of its further headers cannot be read, the
blocks in front of that header have been read already. Reading goes on behind the line on which it
was given up, and where that is does not depend on how much of the line had been read. So giving up
is described by the place behind the line.

In front of the lines of a text there are as many more closings left than openings as blocks are
open. A statement that starts with a line ends in front of a line, with the same blocks open, and so
what it takes is balanced. At the top level no block is open, and no closing stands there.

## Main definitions

* `Reader.Comes`: A part of the reader comes to an answer, or gives up on a line.
* `Reader.Reaches`: It does so, and what it comes to is among what is allowed.
* `Reader.AtLineStart`: The start of a line.
* `Reader.Balanced`: Openings and closings that match.
* `Reader.Visits`: Where the loop over a whole script looks.

## Theorems

* `Reader.attempt_agrees`, `Reader.statement_agrees`, `Reader.block_agrees`,
  `Reader.branches_agrees`, `Reader.statements_agrees`: Statements.
* `Reader.parse_eq`: Whole programs.
* `Reader.exists_stands`: The tokens of whole lines stand at the start of a line.
* `Reader.count_of_stands`: The openings and closings that are left.
* `Reader.statement_advances`: Progress and balance.
-/

namespace Farmhand

namespace Script

open Cursor
open Text (SourceLines)

variable {blocks : List Nat} {code : List (Nat × List Char)} {t : Token} {c d : Cursor}

namespace Reader

variable {α β : Type} {n : Nat} {r r' r₁ : Reader} {x : Pass α} {f : α → Pass β} {value : α}
  {answer : β} {noted more : List Fault} {fault : Fault}

/-! ## Statements -/

/-- A part of the reader comes to an answer at a place, or gives up on a line behind which the place
    is. -/
def Comes (r : Reader) (x : Pass (Option α)) (noted : List Fault) (place : Cursor) :
    Option α → Prop
  | some a => ∃ r', Passes 0 r x (some a) noted 0 r' ∧ r'.cursor = place
  | none => ∃ r', Passes 0 r x none noted 0 r' ∧ r'.cursor.resume = place

-- What always comes to an answer may stand in front.
theorem Passes.comes {f : α → Pass (Option β)} {place : Cursor} {answer : Option β}
    (h : Passes 0 r x value noted 0 r₁) (h' : Comes r₁ (f value) more place answer) :
    Comes r (x >>= f) (noted ++ more) place answer := by
  cases answer with
  | none =>
      rcases h' with ⟨r', hpasses, hr'⟩
      exact ⟨r', h.bind hpasses, hr'⟩
  | some a =>
      rcases h' with ⟨r', hpasses, hr'⟩
      exact ⟨r', h.bind hpasses, hr'⟩

-- An answer may be turned into another, and giving up stays giving up.
theorem Comes.map {x : Pass (Option α)} {f : Option α → Pass (Option β)} {place : Cursor}
    {answer : Option α} (h : Comes r x noted place answer) (g : α → β)
    (hf : ∀ answer, f answer = pure (answer.map g)) :
    Comes r (x >>= f) noted place (answer.map g) := by
  have hbind : ∀ {r'}, Passes 0 r x answer noted 0 r' →
      Passes 0 r (x >>= f) (answer.map g) noted 0 r' := fun hpasses =>
    hpasses.thenNothing (by rw [hf]; exact passes_pure 0 _ _)
  cases answer with
  | none =>
      rcases h with ⟨r', hpasses, hr'⟩
      exact ⟨r', hbind hpasses, hr'⟩
  | some a =>
      rcases h with ⟨r', hpasses, hr'⟩
      exact ⟨r', hbind hpasses, hr'⟩

-- A header that is refused is given up with its line.
theorem Refuses.givesUp {x : Trial α} {f : Option α → Pass (Option β)} {next : r.cursor.Shorter}
    (h : Refuses r.next x fault r') (htake : r.cursor.take? = some (t, next)) (ht : IsWord t)
    (hf : f none = pure none) : Comes r.next (x.run >>= f) [fault] (recover t next).1 none := by
  have hover := over_next (faces_of_take? rfl htake).1 ht
  rw [recover_eq_resume htake ht.isPlain.2.1]
  refine ⟨r', (h.passes 0).thenNothing ?_, resume_of_over (hover.trans h.way)⟩
  rw [hf]
  exact passes_pure 0 r' none

/-- A part of the reader comes to an answer, or gives up, and what is noted on the way, the place
    and the answer are among those allowed. -/
def Reaches (r : Reader) (x : Pass (Option α)) (Q : List Fault → Cursor → Option α → Prop) : Prop :=
  ∃ noted place answer, Comes r x noted place answer ∧ Q noted place answer

section

variable {γ : Type} {Q : List Fault → Cursor → Option β → Prop}

-- The faults noted in front are part of what is allowed.
theorem Passes.reaches {f : α → Pass (Option β)} (h : Passes 0 r x value noted 0 r₁)
    (h' : Reaches r₁ (f value) fun more => Q (noted ++ more)) : Reaches r (x >>= f) Q := by
  rcases h' with ⟨more, place, answer, hcomes, hallowed⟩
  exact ⟨noted ++ more, place, answer, h.comes hcomes, hallowed⟩

theorem Passes.reachesSome {f : α → Pass (Option β)} (h : Passes 0 r x value noted 0 r₁)
    (hf : f value = pure (some answer)) (hallowed : Q noted r₁.cursor (some answer)) :
    Reaches r (x >>= f) Q :=
  ⟨noted, r₁.cursor, some answer, ⟨r₁, h.thenNothing (hf ▸ passes_pure 0 r₁ _), rfl⟩, hallowed⟩

-- An answer at once has nothing noted.
theorem reaches_some (hallowed : Q [] r.cursor (some answer)) : Reaches r (pure (some answer)) Q :=
  ⟨[], r.cursor, some answer, ⟨r, passes_pure 0 r _, rfl⟩, hallowed⟩

-- Turning an answer into another one.
theorem Reaches.map {x : Pass (Option α)} {f : Option α → Pass (Option β)}
    {S : List Fault → Cursor → Option α → Prop} (h : Reaches r x S) (g : α → β)
    (hf : ∀ answer, f answer = pure (answer.map g))
    (hallowed : ∀ noted place answer, S noted place answer → Q noted place (answer.map g)) :
    Reaches r (x >>= f) Q := by
  rcases h with ⟨noted, place, answer, hcomes, hanswer⟩
  exact ⟨noted, place, answer.map g, hcomes.map g hf, hallowed _ _ _ hanswer⟩

/-- Behind its first word a statement has a header. It is given up with the line of the header, or
    it goes on behind it. -/
theorem Agrees.reaches {x : Trial α} {f : Option α → Pass (Option β)} {valueOf : γ → α}
    {place : γ → Cursor} {header : Except Fault γ} {next : r.cursor.Shorter}
    (h : Agrees Token.IsPlain r.next x valueOf place header)
    (htake : r.cursor.take? = some (t, next)) (ht : IsWord t) (hf : f none = pure none)
    (hrefused : ∀ fault, header = .error fault → Q [fault] (recover t next).1 none)
    (hread : ∀ a r₁, header = .ok a → r₁.cursor = place a →
      Reaches r₁ (f (some (valueOf a))) Q) : Reaches r.next (x.run >>= f) Q := by
  cases header with
  | error fault =>
      rcases h with ⟨r', h'⟩
      exact ⟨[fault], _, none, h'.givesUp htake ht hf, hrefused fault rfl⟩
  | ok a =>
      rcases h with ⟨r₁, h', hr₁⟩
      exact (h'.passes 0).reaches (hread a r₁ rfl hr₁)

end

/-- What the reader has to come to when it tries a statement. Where it gives up, the parser keeps
    the text. -/
def IsAttempt (skipped : Stmt) (found : Stmt × List Fault × c.Shorter) (noted : List Fault)
    (place : Cursor) (answer : Option Stmt) : Prop :=
  found.1 = answer.getD skipped ∧ found.2.1 = noted ∧ found.2.2.1 = place

/-- What the reader has to come to when it reads the further branches of a conditional. -/
def AreBranches : Except (List Fault × c.AtMost)
      (List (Expr × Block) × Option Block × List Fault × c.AtMost) →
    List Fault → Cursor → Option (List (Expr × Block) × Option Block) → Prop
  | .ok (others, otherwise, more, d), noted, place, answer =>
    answer = some (others, otherwise) ∧ more = noted ∧ d.1 = place
  | .error (more, d), noted, place, answer => answer = none ∧ more = noted ∧ d.1 = place

/-- A statement is what an attempt comes to, or else the text that is passed over from the line on
    which it gave up. -/
theorem statement_of_attempt {source : SourceLines} {found : Stmt × List Fault × c.Shorter}
    (hn : r.cursor.size < n) (h : r.Faces t) (hindent : t.kind.isMark .indent = false)
    (hattempt : Reaches r (attempt n source)
      (IsAttempt (.skipped ((source.line? t.span.line).getD "") t.span) found)) :
    ∃ r', Passes 0 r (statement (n + 1) source) found.1 found.2.1 0 r' ∧
      r'.cursor = found.2.2.1 := by
  rcases hattempt with ⟨noted, place, answer, hcomes, hs, hnoted, hplace⟩
  rw [statement, hs, hnoted, hplace]
  cases answer with
  | some a =>
      rcases hcomes with ⟨r', hpasses, hr'⟩
      refine ⟨r', (passes_get 0 r).bind ?_, hr'⟩
      rw [h.isAt, hindent, if_neg Bool.false_ne_true, h.span]
      exact hpasses.thenNothing (passes_pure 0 r' a)
  | none =>
      rcases hcomes with ⟨r₁, hpasses, hr₁⟩
      have hle := hpasses.way.size_le
      rcases synchronize_passes r₁ (n := n) (by omega) with ⟨r', hskip, hr'⟩
      refine ⟨r', (passes_get 0 r).bind ?_, hr'.trans hr₁⟩
      rw [h.isAt, hindent, if_neg Bool.false_ne_true, h.span]
      exact hpasses.thenNothing (hskip.bind (passes_pure 0 r' _))

-- Along the recursion of the parser: each part of the reader is called where the parser calls its
-- own, and there the parser has fewer tokens left. Five rounds for each token are enough: three for
-- an expression, and the others to come to the line on which it is.
mutual

theorem attempt_agrees (source : SourceLines) (c : Cursor) (t : Token) (next : c.Shorter)
    {n : Nat} {r : Reader} (hn : 5 * c.size < n) (hr : r.cursor = c)
    (htake : c.take? = some (t, next))
    (hindent : t.kind.isMark .indent = false) (hdedent : t.kind.isMark .dedent = false) :
    Reaches r (attempt n source)
      (IsAttempt (.skipped ((source.line? t.span.line).getD "") t.span)
        (Script.statement source c t next)) := by
  rcases faces_of_take? hr htake with ⟨hfaces, hr₁⟩
  rcases exists_round hn with ⟨n, rfl, hn⟩
  have hless := next.2
  subst hr
  have hstep := passes_bump_open hfaces hdedent 0
  rw [Script.statement, attempt]
  split
  · next hkind =>
      rw [hkind] at hindent
      cases hindent
  · next hkind =>
      refine (passes_get 0 r).reaches ?_
      simp only [hfaces.current, hkind]
      refine hstep.reaches ((header_agrees (n := n) (by omega) hr₁).reaches htake
        (isWord_of_kind hkind rfl) rfl (fun _ h => by simp only [h]; exact ⟨rfl, rfl, rfl⟩) ?_)
      rintro ⟨condition, c₁⟩ r₂ h hr₂
      simp only [h]
      have hle := (Script.block source c₁.1).2.2.2
      rcases block_agrees source c₁.1 (n := n) (by omega) hr₂ with ⟨r₃, hblock, hr₃⟩
      have hbranches := branches_agrees source (Script.block source c₁.1).2.2.1 (n := n)
        (by omega) hr₃
      -- Given up at a further header, or not: what was noted in the block in front of it stays.
      refine hblock.reaches (hbranches.map
        (fun found => Stmt.cond ((condition, _) :: found.1) found.2 t.span)
        (fun answer => by cases answer <;> rfl) fun noted place answer h' => ?_)
      split
      · next more c₃ hmore =>
          rw [hmore] at h'
          rcases h' with ⟨rfl, rfl, rfl⟩
          exact ⟨rfl, rfl, rfl⟩
      · next others otherwise more c₃ hmore =>
          rw [hmore] at h'
          rcases h' with ⟨rfl, rfl, rfl⟩
          exact ⟨rfl, rfl, rfl⟩
  · next hkind =>
      refine (passes_get 0 r).reaches ?_
      simp only [hfaces.current, hkind]
      refine hstep.reaches ((header_agrees (n := n) (by omega) hr₁).reaches htake
        (isWord_of_kind hkind rfl) rfl (fun _ h => by simp only [h]; exact ⟨rfl, rfl, rfl⟩) ?_)
      rintro ⟨condition, c₁⟩ r₂ h hr₂
      simp only [h]
      rcases block_agrees source c₁.1 (n := n) (by omega) hr₂ with ⟨r₃, hblock, hr₃⟩
      exact hblock.reachesSome rfl ⟨rfl, rfl, hr₃.symm⟩
  · next hkind =>
      refine (passes_get 0 r).reaches ?_
      simp only [hfaces.current, hkind]
      refine hstep.reaches ((forHeader_agrees (n := n) (by omega) hr₁).reaches htake
        (isWord_of_kind hkind rfl) rfl (fun _ h => by simp only [h]; exact ⟨rfl, rfl, rfl⟩) ?_)
      rintro ⟨name, items, c₁⟩ r₂ h hr₂
      simp only [h]
      rcases block_agrees source c₁.1 (n := n) (by omega) hr₂ with ⟨r₃, hblock, hr₃⟩
      exact hblock.reachesSome rfl ⟨rfl, rfl, hr₃.symm⟩
  · have hline := lineStatement_agrees (n := n) (by omega) rfl htake
    refine (passes_get 0 r).reaches ?_
    simp only [hfaces.current]
    split
    · next fault hfault =>
        rw [hfault] at hline
        rcases hline with ⟨r', hrefused⟩
        refine ⟨[fault], _, none, ⟨r', hrefused.passes 0, rfl⟩, rfl, rfl, ?_⟩
        rw [recover_eq_resume htake hdedent, resume_of_over hrefused.way]
    · next s c₁ hfound =>
        rw [hfound] at hline
        rcases hline with ⟨r', hyields, hr'⟩
        exact ⟨[], _, some s, ⟨r', hyields.passes 0, rfl⟩, rfl, rfl, hr'.symm⟩
termination_by (c.size, 0)

/-- A block that opens without a header is passed over with a fault. Every other statement is an
    attempt. -/
theorem statement_agrees (source : SourceLines) (c : Cursor) (t : Token) (next : c.Shorter)
    {n : Nat} {r : Reader} (hn : 5 * c.size + 1 < n) (hr : r.cursor = c)
    (htake : c.take? = some (t, next)) (hdedent : t.kind.isMark .dedent = false) :
    ∃ r', Passes 0 r (statement n source) (Script.statement source c t next).1
        (Script.statement source c t next).2.1 0 r' ∧
      r'.cursor = (Script.statement source c t next).2.2.1 := by
  rcases exists_round hn with ⟨n, rfl, hrounds⟩
  rcases faces_of_take? hr htake with ⟨hfaces, hr₁⟩
  have hsize : r.cursor.size < n := by rw [hr]; omega
  by_cases hindent : t.kind.isMark .indent = true
  · have hkind := isMark_eq_true_iff.mp hindent
    have hopened : (r.noting .unexpectedIndent).Faces t := ⟨hfaces.current, hfaces.more⟩
    rcases skipOpened_passes hopened hkind hsize with ⟨r', hpasses, hr'⟩
    rw [Script.statement, statement]
    simp only [hkind]
    refine ⟨r', (passes_get 0 r).bind ?_, ?_⟩
    · rw [hfaces.isAt, hindent, if_pos rfl, ← hfaces.span]
      exact (passes_note 0 r .unexpectedIndent).bind (hpasses.bind (passes_pure 0 r' _))
    · have hnext : (r.noting .unexpectedIndent).next.cursor = next.1 := hr₁
      rw [hr', hnext]
      rfl
  · rw [Bool.not_eq_true] at hindent
    exact statement_of_attempt hsize hfaces hindent
      (attempt_agrees source c t next hrounds hr htake hindent hdedent)
termination_by (c.size, 1)

theorem block_agrees (source : SourceLines) (c : Cursor) {n : Nat} {r : Reader}
    (hn : 5 * c.size + 3 < n) (hr : r.cursor = c) :
    ∃ r', Passes 0 r (block n source) (Script.block source c).1 (Script.block source c).2.1 0 r' ∧
      r'.cursor = (Script.block source c).2.2.1 := by
  rcases exists_round hn with ⟨n, rfl, hn⟩
  rw [Script.block, block]
  split
  · next hskip =>
      have hclosed := passes_noSkip (isAt_of_skip? hr (by decide) hskip) 0
      refine ⟨r.noting .expectedBlock, ?_, hr⟩
      rw [← hr, line_cursor]
      exact hclosed.bind ((passes_note 0 r .expectedBlock).bind (passes_pure 0 _ []))
  · next c₁ hskip =>
      rcases skip?_eq_some hskip with ⟨t, htake, hindent⟩
      rcases faces_of_take? hr htake with ⟨hfaces, hr₁⟩
      have hopen := passes_skip hfaces hindent (nested_indent hindent 0)
      have hless := c₁.2
      rcases statements_agrees source c₁.1 (n := n) (by omega) hr₁ with ⟨r₂, hbody, hr₂⟩
      have hinside := hbody.widen 1
      dsimp only
      split
      · next hskip' =>
          -- The tokens end inside the block, so it stays open.
          have hend := passes_noSkip (isAt_of_skip? hr₂ (by decide) hskip') 1
          refine ⟨r₂, hopen.bind ?_, hr₂⟩
          rw [if_pos rfl]
          exact hinside.thenNothing ((hend.weaken (Nat.zero_le 1)).bind (passes_pure 0 r₂ _))
      · next c₃ hskip' =>
          rcases skip?_eq_some hskip' with ⟨t', htake', hdedent⟩
          rcases faces_of_take? hr₂ htake' with ⟨hfaces', hr₃⟩
          have hclose := passes_skip hfaces' hdedent (nested_dedent hdedent 0)
          refine ⟨r₂.next, hopen.bind ?_, hr₃⟩
          rw [if_pos rfl]
          exact hinside.thenNothing (hclose.bind (passes_pure 0 _ _))
termination_by (c.size, 3)

/-- The further branches. A header that cannot be read gives all of them up, behind its line; so the
    answer holds nothing of the branches that were read before. -/
theorem branches_agrees (source : SourceLines) (c : Cursor) {n : Nat} {r : Reader}
    (hn : 5 * c.size < n) (hr : r.cursor = c) :
    Reaches r (branches n source) (AreBranches (Script.branches source c)) := by
  rcases exists_round hn with ⟨n, rfl, hn⟩
  subst hr
  rw [Script.branches, branches]
  split
  · next htake =>
      have hskip : ∀ m, r.cursor.skip? m = none := fun m => by rw [skip?, htake]
      refine (passes_noSkip (isAt_of_skip? rfl (by decide) (hskip _)) 0).reaches ?_
      refine (passes_noSkip (isAt_of_skip? rfl (by decide) (hskip _)) 0).reaches ?_
      exact reaches_some ⟨rfl, rfl, rfl⟩
  · next t next htake =>
      rcases faces_of_take? rfl htake with ⟨hfaces, hr₁⟩
      have hless := next.2
      split
      · next hkind =>
          -- An `elif`. What is read behind its block may have to be given up, and then so is all of
          -- this.
          refine (passes_skipWord hfaces hkind rfl).reaches ?_
          refine (header_agrees (n := n) (by omega) hr₁).reaches htake (isWord_of_kind hkind rfl)
            rfl (fun _ h => by simp only [h]; exact ⟨rfl, rfl, rfl⟩) ?_
          rintro ⟨condition, c₁⟩ r₂ h hr₂
          simp only [h]
          have hle := (Script.block source c₁.1).2.2.2
          rcases block_agrees source c₁.1 (n := n) (by omega) hr₂ with ⟨r₃, hblock, hr₃⟩
          have hbranches := branches_agrees source (Script.block source c₁.1).2.2.1 (n := n)
            (by omega) hr₃
          refine hblock.reaches (hbranches.map
            (fun found => ((condition, _) :: found.1, found.2))
            (fun answer => by cases answer <;> rfl) fun noted place answer h' => ?_)
          split
          · next more c₃ hmore =>
              rw [hmore] at h'
              rcases h' with ⟨rfl, rfl, rfl⟩
              exact ⟨rfl, rfl, rfl⟩
          · next others otherwise more c₃ hmore =>
              rw [hmore] at h'
              rcases h' with ⟨rfl, rfl, rfl⟩
              exact ⟨rfl, rfl, rfl⟩
      · next hkind =>
          -- An `else`.
          have helif : r.isAt (.keyword .elifWord) = false := by
            rw [hfaces.isAt, hkind]
            rfl
          refine (passes_noSkip helif 0).reaches ?_
          refine (passes_skipWord hfaces hkind rfl).reaches ?_
          refine (headerEnd_agrees hr₁).reaches htake (isWord_of_kind hkind rfl) rfl
            (fun _ h => by simp only [h]; exact ⟨rfl, rfl, rfl⟩) ?_
          rintro c₁ r₂ h hr₂
          simp only [h]
          rcases block_agrees source c₁.1 (n := n) (by omega) hr₂ with ⟨r₃, hblock, hr₃⟩
          exact hblock.reachesSome rfl ⟨rfl, rfl, hr₃.symm⟩
      · next helif helse =>
          -- No further branch: neither word is next.
          have hnone : ∀ m, t.kind ≠ .mark m → r.isAt m = false := fun m hm => by
            rw [hfaces.isAt, Bool.eq_false_iff]
            exact fun hat => hm (isMark_eq_true_iff.mp hat)
          refine (passes_noSkip (hnone _ helif) 0).reaches ?_
          refine (passes_noSkip (hnone _ helse) 0).reaches ?_
          exact reaches_some ⟨rfl, rfl, rfl⟩
termination_by (c.size, 0)

/-- The statements of a block, up to its closing or to the end. -/
theorem statements_agrees (source : SourceLines) (c : Cursor) {n : Nat} {r : Reader}
    (hn : 5 * c.size + 2 < n) (hr : r.cursor = c) :
    ∃ r', Passes 0 r (statements n source) (Script.statements source c).1
        (Script.statements source c).2.1 0 r' ∧
      r'.cursor = (Script.statements source c).2.2.1 := by
  rcases exists_round hn with ⟨n, rfl, hn⟩
  rw [Script.statements, statements]
  split
  · next htake =>
      refine ⟨r, (passes_get 0 r).bind ?_, hr⟩
      rw [atEnd_of_take? hr htake, Bool.true_or, if_pos rfl]
      exact passes_pure 0 r []
  · next t next htake =>
      rcases faces_of_take? hr htake with ⟨hfaces, hr₁⟩
      split
      · next hdedent =>
          refine ⟨r, (passes_get 0 r).bind ?_, hr⟩
          rw [hfaces.isAt, hdedent, Bool.or_true, if_pos rfl]
          exact passes_pure 0 r []
      · next hdedent =>
          rw [Bool.not_eq_true] at hdedent
          have hless := (Script.statement source c t next).2.2.2
          rcases statement_agrees source c t next (n := n) (by omega) hr htake hdedent with
            ⟨r₁, hfirst, hr₁⟩
          rcases statements_agrees source (Script.statement source c t next).2.2.1 (n := n)
            (by omega) hr₁ with
            ⟨r', hrest, hr'⟩
          refine ⟨r', (passes_get 0 r).bind ?_, hr'⟩
          rw [hfaces.atEnd, hfaces.isAt, hdedent, Bool.or_false, if_neg Bool.false_ne_true]
          exact hfirst.bind (hrest.thenNothing (passes_pure 0 r' _))
termination_by (c.size, 2)

end

/-! ## Whole programs -/

/-- At the top level a closing is passed over, and so the loop ends at the end of the tokens only.
    -/
theorem topLevel_agrees (source : SourceLines) (c : Cursor) {n : Nat} {r : Reader}
    (hn : 5 * c.size + 2 < n) (hr : r.cursor = c) :
    ∃ r', (topLevel n source).run r = some ((Script.topLevel source c).1, r') ∧
      r'.faults = r.faults ++ (Script.topLevel source c).2 := by
  rcases exists_round hn with ⟨n, rfl, hn⟩
  rw [Script.topLevel, topLevel]
  split
  · next htake => exact ⟨r, by simp [atEnd_of_take? hr htake], by simp⟩
  · next t next htake =>
      rcases faces_of_take? hr htake with ⟨hfaces, hr₁⟩
      split
      · next hdedent =>
          have hless := next.2
          rcases topLevel_agrees source next.1 (n := n) (by omega) hr₁ with ⟨r', hrun, hfaults⟩
          have hbump := run_bump hfaces
          exact ⟨r', by simp [hfaces.atEnd, hfaces.isAt, hdedent, hbump, hrun], hfaults⟩
      · next hdedent =>
          rw [Bool.not_eq_true] at hdedent
          have hless := (Script.statement source c t next).2.2.2
          rcases statement_agrees source c t next (n := n) (by omega) hr htake hdedent with
            ⟨r₁, hfirst, hr₁⟩
          rcases topLevel_agrees source _ (n := n) (by omega) hr₁ with ⟨r', hrun, hfaults⟩
          have hstatement := hfirst.run
          refine ⟨r', by simp [hfaces.atEnd, hfaces.isAt, hdedent, hstatement, hrun], ?_⟩
          rw [hfaults, hfirst.faults, List.append_assoc]
termination_by c.size

/-- Reading a script step by step ends, with the program that the parser reads. -/
theorem parse_eq {tokens : List Token} (hn : 5 * tokens.length + 2 < n) (source : String) :
    parse n tokens source = some (Script.parse tokens source) := by
  rcases topLevel_agrees (.ofString source) (.start tokens) hn (r := start tokens) rfl with
    ⟨r', hrun, hfaults⟩
  rw [parse, hrun, Option.map_some]
  dsimp only
  rw [hfaults]
  rfl

/-! ## The start of a line -/

/-- A position at the start of a line: nothing is in front of it, or layout. -/
def AtLineStart (r : Reader) : Prop :=
  ∀ i t, r.pos = i + 1 → r.tokens[i]? = some t → t.kind.isLayout = true

-- The tokens of a line are no layout, apart from its end.
theorem isLayout_eq_false (h : t.IsPlain) (hnewline : t.kind.isMark .newline = false) :
    t.kind.isLayout = false := by
  rw [Bool.eq_false_iff]
  intro hlayout
  unfold Token.Kind.isLayout at hlayout
  split at hlayout
  · next shape hk =>
      rw [Token.IsPlain, hk] at h
      rw [hk] at hnewline
      cases shape
      · cases hnewline
      · cases h.1
      · cases h.2.1
      · cases h.2.2
  · cases hlayout

/-- A position that lies in front of lines, or on a line behind one of its tokens, or past the end
    of the tokens. -/
def IsPlaced (r : Reader) : Prop :=
  (∃ blocks code, Stands blocks code r.cursor ∧ Numbered code) ∨
    (∃ p blocks code, OnLine p blocks code r.cursor ∧ Numbered code ∧ ¬ r.AtLineStart) ∨
    r.cursor.rest = []

-- A line is read token by token. Behind its end stand the lines below.
theorem isPlaced_next_of_onLine {p : Nat × List Char} (h : OnLine p blocks code r.cursor)
    (hnumbered : Numbered code) : r.next.IsPlaced := by
  rcases h with ⟨front, stop, after, hrest, hfront, hstop, hplain, hafter⟩
  cases front with
  | nil =>
      rw [List.nil_append] at hrest
      have hcurrent : r.current? = some stop := by rw [current?_eq_head?, hrest, List.head?_cons]
      refine Or.inl ⟨blocks, code, ⟨p.1, ?_⟩, hnumbered⟩
      rw [cursor_next hcurrent, hrest, List.tail_cons, hafter]
  | cons t front =>
      rw [List.cons_append] at hrest
      have hcurrent : r.current? = some t := by rw [current?_eq_head?, hrest, List.head?_cons]
      refine Or.inr (Or.inl ⟨p, blocks, code, ⟨front, stop, after, ?_, ?_, hstop, ?_, hafter⟩,
        hnumbered, fun hstart => ?_⟩)
      · rw [cursor_next hcurrent, hrest, List.tail_cons]
      · exact fun u hu => hfront u (List.mem_cons_of_mem t hu)
      · exact fun u hu => hplain u (List.mem_cons_of_mem t hu)
      · have hword := isLayout_eq_false (hplain t List.mem_cons_self).1
          (hfront t List.mem_cons_self)
        rw [hstart r.pos t rfl hcurrent] at hword
        cases hword

theorem IsPlaced.next (h : r.IsPlaced) : r.next.IsPlaced := by
  rcases h with ⟨blocks, code, hstands, hnumbered⟩ | ⟨p, blocks, code, honLine, hnumbered, _⟩ |
    hrest
  · cases htake : r.cursor.take? with
    | none =>
        -- Only the end of the tokens is left.
        rcases hstands.of_none htake with ⟨rfl, rfl⟩
        rcases hstands with ⟨last, htokens⟩
        rw [codeTokens, Except.ok.injEq] at htokens
        have hcurrent : r.current? = some ⟨.mark .endOfInput, .inLine (last + 1) 1 1⟩ := by
          rw [current?_eq_head?, ← htokens]
          rfl
        refine Or.inr (Or.inr ?_)
        rw [cursor_next hcurrent, ← htokens]
        rfl
    | some taken =>
        rcases taken with ⟨t, next⟩
        have hnext := (faces_of_take? rfl htake).2
        cases hstands.next hnumbered htake with
        | closing _ _ _ hbehind => exact Or.inl ⟨_, code, hnext ▸ hbehind, hnumbered⟩
        | opening _ _ _ _ hbehind => exact Or.inl ⟨_, code, hnext ▸ hbehind, hnumbered⟩
        | line hcode _ _ _ _ _ honLine =>
            exact isPlaced_next_of_onLine honLine fun q hq =>
              hnumbered q (hcode ▸ List.mem_cons_of_mem _ hq)
  · exact isPlaced_next_of_onLine honLine hnumbered
  · refine Or.inr (Or.inr ?_)
    rw [cursor, List.drop_eq_nil_iff] at hrest ⊢
    exact hrest.trans (Nat.le_succ r.pos)

-- At every number of a tokenized text the position is one of these.
theorem isPlaced_of_tokenize {tokens : List Token} {text : String} (h : tokenize text = .ok tokens)
    (pos : Nat) (faults : List Fault) : IsPlaced ⟨tokens, pos, faults⟩ := by
  induction pos with
  | zero =>
      rw [tokenize_eq_codeTokens] at h
      exact Or.inl ⟨[], _, ⟨0, h⟩, numbered_codeLines _⟩
  | succ pos ih => exact ih.next

/-- At the start of a line stand the tokens of whole lines. -/
theorem exists_stands {text : String} (h : tokenize text = .ok r.tokens) (hstart : r.AtLineStart)
    (hend : r.atEnd = false) : ∃ blocks code, Stands blocks code r.cursor ∧ Numbered code := by
  rcases isPlaced_of_tokenize h r.pos r.faults with hstands | ⟨_, _, _, _, _, hnot⟩ | hrest
  · exact hstands
  · exact absurd hstart hnot
  · rw [atEnd, current?_eq_head?] at hend
    change r.cursor.rest = [] at hrest
    rw [hrest] at hend
    cases hend

/-! ## Openings and closings -/

-- The tokens of lines open and close nothing.
theorem count_of_plain {a : List Token} (h : ∀ t ∈ a, t.IsPlain) :
    indents a = 0 ∧ dedents a = 0 := by
  refine ⟨List.countP_eq_zero.mpr fun t ht => ?_, List.countP_eq_zero.mpr fun t ht => ?_⟩
  · rw [(h t ht).1]
    exact Bool.false_ne_true
  · rw [(h t ht).2.1]
    exact Bool.false_ne_true

/-- Behind a position in front of lines the blocks that are open there are closed, and all others
    that are opened. -/
theorem count_of_stands (c : Cursor) {blocks : List Nat} {code : List (Nat × List Char)}
    (h : Stands blocks code c) (hnumbered : Numbered code) :
    blocks.length + indents c.rest = dedents c.rest := by
  cases htake : c.take? with
  | none =>
      rcases h.of_none htake with ⟨rfl, rfl⟩
      rcases h with ⟨last, htokens⟩
      rw [codeTokens, Except.ok.injEq] at htokens
      rw [← htokens]
      rfl
  | some taken =>
      rcases taken with ⟨t, next⟩
      have hless := next.2
      have hrest := (take?_eq_some htake).1
      rw [← List.singleton_append] at hrest
      cases h.next hnumbered htake with
      | closing hblocks hkind _ hbehind =>
          have hcount := count_of_stands next.1 hbehind hnumbered
          have hone : indents [t] = 0 ∧ dedents [t] = 1 := by
            rw [indents, dedents, List.countP_singleton, List.countP_singleton, hkind]
            exact ⟨rfl, rfl⟩
          rw [hrest, indents_append, dedents_append, hblocks, List.length_cons]
          omega
      | opening _ hkind _ _ hbehind =>
          have hcount := count_of_stands next.1 hbehind hnumbered
          have hone : indents [t] = 1 ∧ dedents [t] = 0 := by
            rw [indents, dedents, List.countP_singleton, List.countP_singleton, hkind]
            exact ⟨rfl, rfl⟩
          rw [List.length_cons] at hcount
          rw [hrest, indents_append, dedents_append]
          omega
      | @line first below hcode _ _ _ _ _ honLine =>
          rcases honLine with ⟨front, stop, after, hline, _, _, hplain, hafter⟩
          have hless : (Cursor.mk c.last after).size < c.size := by
            rw [Cursor.size, Cursor.size, hline, List.length_append, List.length_cons]
            exact Nat.lt_add_left front.length (Nat.lt_succ_self after.length)
          have hcount := count_of_stands ⟨c.last, after⟩ ⟨first.1, hafter⟩
            fun q hq => hnumbered q (hcode ▸ List.mem_cons_of_mem first hq)
          have hzero := count_of_plain fun t ht => (hplain t ht).1
          rw [← List.singleton_append, ← List.append_assoc] at hline
          rw [hline, indents_append, dedents_append]
          dsimp only at hcount
          omega
termination_by c.size

/-- Openings and closings that match as brackets do. -/
structure Balanced (tokens : List Token) : Prop where
  opened : ∀ front, front <+: tokens → dedents front ≤ indents front
  closed : indents tokens = dedents tokens

-- What was read and what is left are all that was there.
theorem Nests.rest {k k' : Nat} (h : Nests k r k' r') :
    r.cursor.rest = r.between r' ++ r'.cursor.rest := by
  have hpos : r.pos + (r'.pos - r.pos) = r'.pos := Nat.add_sub_cancel' h.le
  rw [between, cursor, cursor, h.tokens, ← hpos, ← List.drop_drop, hpos, List.take_append_drop]

-- With the same blocks open in front and behind, what is opened in between is closed there.
theorem Nests.balanced (h : Nests 0 r 0 r') {after : List (Nat × List Char)}
    (hstands : Stands blocks code r.cursor) (hnumbered : Numbered code)
    (hstands' : Stands blocks after r'.cursor) (hnumbered' : Numbered after) :
    Balanced (r.between r') := by
  have hcount := count_of_stands r.cursor hstands hnumbered
  have hcount' := count_of_stands r'.cursor hstands' hnumbered'
  rw [h.rest, indents_append, dedents_append] at hcount
  refine ⟨fun front hfront => ?_, by omega⟩
  have hopened := h.nested.opened front hfront
  rwa [Nat.zero_add] at hopened

/-! ## Progress -/

-- What the reader faces can be taken.
theorem Faces.exists_take? (h : r.Faces t) : ∃ next, r.cursor.take? = some (t, next) := by
  rcases Script.exists_take? h.rest h.more with ⟨next, htake, _⟩
  exact ⟨next, htake⟩

-- The statements of a block end at its closing or at the end of the tokens.
theorem atEnd_statements (source : SourceLines) (c : Cursor) :
    AtEnd (Script.statements source c).2.2.1 := by
  rw [Script.statements]
  split
  · next htake => exact Or.inl htake
  · next t next htake =>
      split
      · next hdedent =>
          refine Or.inr ?_
          change c.isAt .dedent = true
          rw [Cursor.isAt, (take?_eq_some htake).1]
          exact hdedent
      · next hdedent =>
          have hless := (Script.statement source c t next).2.2.2
          exact atEnd_statements source (Script.statement source c t next).2.2.1
termination_by c.size

/-- A statement is read from any position that is neither at the end nor at a closing. Reading it
    goes forward, and in front of lines it ends in front of lines, with the same blocks open. -/
theorem statement_settles (source : SourceLines) (hn : 5 * r.cursor.size + 1 < n)
    (hend : r.atEnd = false) (hdedent : r.isAt .dedent = false) :
    ∃ t next r', r.cursor.take? = some (t, next) ∧
      Passes 0 r (statement n source) (Script.statement source r.cursor t next).1
        (Script.statement source r.cursor t next).2.1 0 r' ∧
      r'.cursor = (Script.statement source r.cursor t next).2.2.1 ∧ r.pos < r'.pos ∧
      ∀ blocks code, Stands blocks code r.cursor → Numbered code →
        ∃ after, Stands blocks after r'.cursor ∧ Numbered after := by
  rcases r.atEnd_or_faces with hnone | ⟨t, hfaces⟩
  · rw [hend] at hnone
    cases hnone
  · rcases hfaces.exists_take? with ⟨next, htake⟩
    rw [hfaces.isAt] at hdedent
    rcases statement_agrees source r.cursor t next hn rfl htake hdedent with ⟨r', hpasses, hr'⟩
    have hless := (Script.statement source r.cursor t next).2.2.2
    rw [← hr'] at hless
    refine ⟨t, next, r', htake, hpasses, hr',
      pos_lt_of_size_lt hpasses.way.tokens hless, fun blocks code hstands hnumbered => ?_⟩
    rcases statement_forms source r.cursor t next hstands hnumbered htake hdedent with
      ⟨seg, after, hsplit, hafter, _⟩
    exact ⟨after, hr' ▸ hafter, hnumbered.of_append hsplit⟩

/-- The positions at which the loop over the statements of a whole script looks, with the rounds
    that are left there. -/
inductive Visits (n : Nat) (tokens : List Token) (source : SourceLines) : Nat → Reader → Prop
  | start : Visits n tokens source n (start tokens)
  | closing {k : Nat} {r : Reader} (h : Visits n tokens source (k + 1) r)
      (hdedent : r.isAt .dedent = true) : Visits n tokens source k r.next
  | statement {k : Nat} {r r' : Reader} {s : Stmt} (h : Visits n tokens source (k + 1) r)
      (hend : r.atEnd = false) (hdedent : r.isAt .dedent = false)
      (hrun : (statement k source).run r = some (s, r')) : Visits n tokens source k r'

-- No block is open there, so none can be closed.
theorem isAt_of_stands (h : Stands [] code r.cursor) (hnumbered : Numbered code) :
    r.isAt .dedent = false := by
  rw [Bool.eq_false_iff]
  intro hdedent
  rw [← isAt_cursor] at hdedent
  rcases skip?_of_isAt hdedent nofun with ⟨next, hskip⟩
  rcases skip?_eq_some hskip with ⟨t, htake, hkind⟩
  cases h.next hnumbered htake with
  | closing hblocks => cases hblocks
  | opening _ hopen =>
      rw [hkind] at hopen
      cases hopen
  | line _ _ hplain =>
      rw [Token.IsPlain, hkind] at hplain
      cases hplain.2.1

-- A round is used up with each statement, and the rounds are still enough for what is left.
theorem Visits.stands {tokens : List Token} {text : String} {source : SourceLines} {k : Nat}
    (htokens : tokenize text = .ok tokens) (hn : 5 * tokens.length + 2 < n)
    (h : Visits n tokens source k r) :
    5 * r.cursor.size + 2 < k ∧ ∃ code, Stands [] code r.cursor ∧ Numbered code := by
  induction h with
  | start =>
      rw [tokenize_eq_codeTokens] at htokens
      exact ⟨hn, _, ⟨0, htokens⟩, numbered_codeLines _⟩
  | closing _ hdedent ih =>
      rcases ih with ⟨_, code, hstands, hnumbered⟩
      rw [isAt_of_stands hstands hnumbered] at hdedent
      cases hdedent
  | @statement k _ _ _ _ hend hdedent hrun ih =>
      rcases ih with ⟨hrounds, code, hstands, hnumbered⟩
      rcases statement_settles source (n := k) (by omega) hend hdedent with
        ⟨t, next, r', _, hpasses, hr', _, hbehind⟩
      have hless := (Script.statement source _ t next).2.2.2
      rw [← hr'] at hless
      rw [hpasses.run, Option.some.injEq, Prod.mk.injEq] at hrun
      rw [← hrun.2]
      exact ⟨by omega, hbehind [] code hstands hnumbered⟩

/-- Reading goes forward, and blocks are read as they were opened. Of any token list, a statement is
    read from every position that is neither at the end nor at a closing, within five rounds for
    each token; it takes one token or more and closes only blocks that it has opened. So the
    statements of a block and a whole script are read to an end, and the program is the one that the
    parser reads. Of the tokens of a text, a statement that starts with a line closes all blocks
    that it opens, and the loop over the whole script never stands at a closing. -/
theorem statement_advances (tokens : List Token) (n : Nat) (hn : 5 * tokens.length + 3 ≤ n) :
    (∀ source pos faults, atEnd ⟨tokens, pos, faults⟩ = false →
      isAt ⟨tokens, pos, faults⟩ .dedent = false →
      ∃ t next r, (cursor ⟨tokens, pos, faults⟩).take? = some (t, next) ∧
        (statement n source).run ⟨tokens, pos, faults⟩ =
          some ((Script.statement source (cursor ⟨tokens, pos, faults⟩) t next).1, r) ∧
        r.cursor = (Script.statement source (cursor ⟨tokens, pos, faults⟩) t next).2.2.1 ∧
        pos < r.pos ∧
        ∀ front, front <+: between ⟨tokens, pos, faults⟩ r → dedents front ≤ indents front) ∧
    (∀ source pos faults, ∃ body r,
      (statements n source).run ⟨tokens, pos, faults⟩ = some (body, r) ∧
        (r.atEnd = true ∨ r.isAt .dedent = true)) ∧
    (∀ source, parse n tokens source = some (Script.parse tokens source)) ∧
    ∀ text, tokenize text = .ok tokens →
      (∀ source pos faults, AtLineStart ⟨tokens, pos, faults⟩ →
        atEnd ⟨tokens, pos, faults⟩ = false → isAt ⟨tokens, pos, faults⟩ .dedent = false →
        ∃ s r, (statement n source).run ⟨tokens, pos, faults⟩ = some (s, r) ∧
          Balanced (between ⟨tokens, pos, faults⟩ r)) ∧
      ∀ source k r, Visits n tokens source k r → r.isAt .dedent = false := by
  -- No recursion takes more than five rounds for a token.
  have hsize : ∀ pos faults, 5 * (cursor ⟨tokens, pos, faults⟩).size + 2 < n := by
    intro pos faults
    have hle := size_cursor_le ⟨tokens, pos, faults⟩
    dsimp only at hle
    omega
  refine ⟨fun source pos faults hend hdedent => ?_, fun source pos faults => ?_, parse_eq hn,
    fun text htokens => ⟨fun source pos faults hstart hend hdedent => ?_, fun source k r h => ?_⟩⟩
  · rcases statement_settles source (Nat.lt_of_succ_lt (hsize pos faults)) hend hdedent with
      ⟨t, next, r, htake, hpasses, hr, hless, _⟩
    refine ⟨t, next, r, htake, hpasses.run, hr, hless, fun front hfront => ?_⟩
    have hopened := hpasses.way.nested.opened front hfront
    rwa [Nat.zero_add] at hopened
  · rcases statements_agrees source (cursor ⟨tokens, pos, faults⟩) (hsize pos faults) rfl with
      ⟨r, hpasses, hr⟩
    refine ⟨_, r, hpasses.run, ?_⟩
    rcases atEnd_statements source (cursor ⟨tokens, pos, faults⟩) with hnone | hdedent
    · exact Or.inl (atEnd_of_take? hr hnone)
    · exact Or.inr (by rw [← isAt_cursor, hr, hdedent])
  -- The position in front of a line is where openings and closings are balanced.
  · rcases exists_stands htokens hstart hend with ⟨blocks, code, hstands, hnumbered⟩
    rcases statement_settles source (Nat.lt_of_succ_lt (hsize pos faults)) hend hdedent with
      ⟨t, next, r, _, hpasses, _, _, hbehind⟩
    rcases hbehind blocks code hstands hnumbered with ⟨after, hafter, hnumbered'⟩
    exact ⟨_, r, hpasses.run, hpasses.way.balanced hstands hnumbered hafter hnumbered'⟩
  · rcases h.stands htokens hn with ⟨_, code, hstands, hnumbered⟩
    exact isAt_of_stands hstands hnumbered

/-- A conditional behind another line, with its block. -/
theorem statement_advances_conditional : ∃ tokens s r,
    tokenize "a\nif b:\n    c\nd\n" = .ok tokens ∧ 5 * tokens.length + 3 ≤ 68 ∧
      (statement 68 (.ofString "")).run ⟨tokens, 2, []⟩ = some (s, r) ∧
      Balanced (between ⟨tokens, 2, []⟩ r) := by
  have hread : (tokenize "a\nif b:\n    c\nd\n").map (List.map Token.kind) =
      .ok [.name "a", .mark .newline, .mark (.keyword .ifWord), .name "b", .mark colon,
        .mark .newline, .mark .indent, .name "c", .mark .newline, .mark .dedent, .name "d",
        .mark .newline, .mark .endOfInput] := by
    cbv
  rcases ok_of_map_eq_ok hread with ⟨tokens, htokens, hkinds⟩
  have hkind : ∀ i, tokens[i]?.map Token.kind = (tokens.map Token.kind)[i]? := fun _ =>
    List.getElem?_map.symm
  have hif : tokens[2]?.map Token.kind = some (.mark (.keyword .ifWord)) := by
    rw [hkind, hkinds]
    rfl
  rcases Option.map_eq_some_iff.mp hif with ⟨t, ht, hif⟩
  have hfaces : Faces ⟨tokens, 2, []⟩ t := ⟨ht, by rw [hif]; rfl⟩
  have hstart : AtLineStart ⟨tokens, 2, []⟩ := by
    intro i u hi hu
    cases hi
    have hlast := hkind 1
    rw [hu, hkinds] at hlast
    rw [Option.some.inj hlast]
    rfl
  have hn : 5 * tokens.length + 3 ≤ 68 := by
    rw [← List.length_map (f := Token.kind), hkinds]
    decide
  rcases (statement_advances tokens 68 hn).2.2.2 _ htokens with ⟨hbalanced, _⟩
  rcases hbalanced (.ofString "") 2 [] hstart hfaces.atEnd (by rw [hfaces.isAt, hif]; rfl) with
    ⟨s, r, hrun, hsegment⟩
  exact ⟨tokens, s, r, htokens, hn, hrun, hsegment⟩

end Reader

end Script

end Farmhand
