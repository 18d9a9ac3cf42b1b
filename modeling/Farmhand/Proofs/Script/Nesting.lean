import Mathlib
import Farmhand.Proofs.Script.Layers
import Farmhand.Proofs.Script.Diagnosed

/-!
# Blocks on the Way

What lies between two positions may open blocks and close them. Reading never closes a block that it
has not opened, whatever the tokens are: no line reaches over a closing, what is skipped of a line
ends at one, and a block that is skipped is followed to its own. Blocks may stay open, since a line
that is skipped may have openings on it, and since the tokens may end too early.

So a part of the reader is described with the number of blocks that may be closed when it starts and
when it ends. An opening adds one to it and a closing takes one away, and parts one after the other
fit where the numbers do.

## Main definitions

* `Nested`: Tokens that close no block that is not open.
* `Reader.between`: What is read over between two positions.
* `Reader.Nests`, `Reader.Passes`: A way on which no other block is closed, and a part of the reader
  that goes it.
* `Cursor.resume`: Where reading goes on behind a line that cannot be read.

## Theorems

* `Nested.append`: Tokens one after the other.
* `Reader.header_agrees`, `Reader.forHeader_agrees`, `Reader.lineStatement_agrees`: Lines.
* `Reader.skipLine_passes`, `Reader.skipBlock_passes`, `Reader.synchronize_passes`: What is passed
  over.
* `Reader.resume_of_over`: A line that is given up further on ends where it would have ended.
-/

namespace Farmhand

namespace Script

open Cursor
open Text (SourceLines)

/-- Where reading goes on behind a line that cannot be read: behind the line, and behind the block
    under it. -/
def Cursor.resume (c : Cursor) : Cursor :=
  c.skipLine.1.skipNested.1

variable {j k k' k₁ : Nat} {a b : List Token} {t : Token}

/-! ## Nesting -/

/-- Tokens that close no block that is not open, with `k` blocks open at first and at least `k'` in
    the end. -/
structure Nested (k : Nat) (tokens : List Token) (k' : Nat) : Prop where
  opened : ∀ front, front <+: tokens → dedents front ≤ k + indents front
  left : k' + dedents tokens ≤ k + indents tokens

/-- Tokens one after the other: the blocks open behind the first are those in front of the second.
    -/
theorem Nested.append (ha : Nested k a k₁) (hb : Nested k₁ b k') : Nested k (a ++ b) k' := by
  have hleft := ha.left
  refine ⟨fun front hfront => ?_, ?_⟩
  · rcases hfront with ⟨tail, htail⟩
    rcases List.append_eq_append_iff.mp htail with ⟨more, hmore, _⟩ | ⟨more, rfl, hmore⟩
    · exact ha.opened front ⟨more, hmore.symm⟩
    · have hopened := hb.opened more ⟨tail, hmore.symm⟩
      rw [indents_append, dedents_append]
      omega
  · have hleft' := hb.left
    rw [indents_append, dedents_append]
    omega

-- What keeps to its own blocks leaves those around them alone.
theorem Nested.widen (h : Nested k a k') (j : Nat) : Nested (k + j) a (k' + j) := by
  refine ⟨fun front hfront => ?_, ?_⟩
  · have hopened := h.opened front hfront
    omega
  · have hleft := h.left
    omega

-- Less may be claimed of the blocks that are still open in the end.
theorem Nested.weaken (h : Nested k a k') (hle : j ≤ k') : Nested k a j := by
  refine ⟨h.opened, ?_⟩
  have hleft := h.left
  omega

/-- Without a closing nothing is closed. -/
theorem nested_of_open (h : ∀ t ∈ a, t.kind.isMark .dedent = false) (k : Nat) : Nested k a k := by
  have hnone : ∀ front, front <+: a → dedents front = 0 := fun front hfront =>
    List.countP_eq_zero.mpr fun t ht => by rw [h t (hfront.subset ht)]; exact Bool.false_ne_true
  refine ⟨fun front hfront => ?_, ?_⟩
  · rw [hnone front hfront]
    exact Nat.zero_le _
  · rw [hnone a (List.prefix_refl a)]
    exact Nat.le_add_right k _

-- One more block is open behind an opening.
theorem nested_indent (h : t.kind = .mark .indent) (k : Nat) : Nested k [t] (k + 1) := by
  have hdedent : t.kind.isMark .dedent = false := by rw [h]; rfl
  have hindents : indents [t] = 1 := by rw [indents, List.countP_singleton, h]; rfl
  have hopen := nested_of_open (List.forall_mem_singleton.mpr hdedent) k
  refine ⟨hopen.opened, ?_⟩
  have hdedents : dedents [t] = 0 := by rw [dedents, List.countP_singleton, hdedent]; rfl
  omega

-- A closing needs a block that is open, and takes it away.
theorem nested_dedent (h : t.kind = .mark .dedent) (k : Nat) : Nested (k + 1) [t] k := by
  have hdedents : dedents [t] = 1 := by rw [dedents, List.countP_singleton, h]; rfl
  refine ⟨fun front hfront => ?_, by omega⟩
  have hle : dedents front ≤ dedents [t] := hfront.sublist.countP_le
  omega

namespace Reader

variable {α β : Type} {r r' r₁ : Reader} {c d : Cursor} {m : Mark} {x : Pass α} {f : α → Pass β}
  {value : α} {answer : β} {noted more : List Fault} {fault : Fault} {P : Token → Prop} {n : Nat}

/-- What is read over between two positions. -/
def between (r r' : Reader) : List Token :=
  (r.tokens.drop r.pos).take (r'.pos - r.pos)

-- What is read over on a way is what is read over on its two parts.
theorem between_trans (htokens : r₁.tokens = r.tokens) (h : r.pos ≤ r₁.pos)
    (h' : r₁.pos ≤ r'.pos) : r.between r' = r.between r₁ ++ r₁.between r' := by
  have hsum : r'.pos - r.pos = (r₁.pos - r.pos) + (r'.pos - r₁.pos) := by omega
  rw [between, between, between, hsum, List.take_add, List.drop_drop, Nat.add_sub_cancel' h,
    htokens]

-- One step reads over the token in front of it.
theorem between_next (h : r.current? = some t) : r.between r.next = [t] := by
  have hone : r.next.pos - r.pos = 1 := Nat.add_sub_cancel_left r.pos 1
  rw [between, hone, List.take_one, List.head?_drop]
  rw [current?] at h
  rw [h]
  rfl

-- What is known of the tokens that a part of the reader takes is known of all on its way.
theorem Over.mem_between (h : r.Over P r') (ht : t ∈ r.between r') : P t := by
  rcases List.mem_iff_getElem?.mp ht with ⟨i, hi⟩
  rw [between, List.getElem?_take, List.getElem?_drop] at hi
  split at hi
  · next hlt =>
      rcases h.all (r.pos + i) (Nat.le_add_right r.pos i) (by omega) with ⟨u, hu, hP⟩
      rw [hu, Option.some.injEq] at hi
      exact hi ▸ hP
  · cases hi

/-- A position that is not behind, with no block closed on the way that is not open. -/
structure Nests (k : Nat) (r : Reader) (k' : Nat) (r' : Reader) : Prop where
  tokens : r'.tokens = r.tokens
  le : r.pos ≤ r'.pos
  nested : Nested k (r.between r') k'

/-- Two ways one after the other are one. -/
theorem Nests.trans (h : Nests k r k₁ r₁) (h' : Nests k₁ r₁ k' r') : Nests k r k' r' := by
  refine ⟨h'.tokens.trans h.tokens, h.le.trans h'.le, ?_⟩
  rw [between_trans h.tokens h.le h'.le]
  exact h.nested.append h'.nested

-- On a way there is never more to read than before.
theorem Nests.size_le (h : Nests k r k' r') : r'.cursor.size ≤ r.cursor.size := by
  rw [Cursor.size, Cursor.size, cursor, cursor, List.length_drop, List.length_drop, h.tokens]
  exact Nat.sub_le_sub_left h.le _

-- Blocks further out may be open as well, and stay open.
theorem Nests.widen (h : Nests k r k' r') (j : Nat) : Nests (k + j) r (k' + j) r' :=
  ⟨h.tokens, h.le, h.nested.widen j⟩

-- Fewer of the blocks need to be known to be open in the end.
theorem Nests.weaken (h : Nests k r k' r') (hle : j ≤ k') : Nests k r j r' :=
  ⟨h.tokens, h.le, h.nested.weaken hle⟩

/-- A way without closings closes nothing, whatever is open. -/
theorem Over.nests (h : r.Over P r') (hP : ∀ t, P t → t.kind.isMark .dedent = false) (k : Nat) :
    Nests k r k r' :=
  ⟨h.tokens, h.le, nested_of_open (fun t ht => hP t (h.mem_between ht)) k⟩

-- One step over a token.
theorem nests_next (h : r.Faces t) (ht : Nested k [t] k') : Nests k r k' r.next := by
  refine ⟨rfl, Nat.le_succ r.pos, ?_⟩
  rw [between_next h.current]
  exact ht

/-! ## Passing -/

/-- A part of the reader comes to an answer, having noted some faults, with blocks open at first and
    in the end. -/
structure Passes (k : Nat) (r : Reader) (x : Pass α) (value : α) (noted : List Fault) (k' : Nat)
    (r' : Reader) : Prop where
  run : x.run r = some (value, r')
  way : Nests k r k' r'
  faults : r'.faults = r.faults ++ noted

-- No way at all.
theorem nests_self (k : Nat) (r : Reader) : Nests k r k r :=
  (Over.refl (fun _ => False) r).nests nofun k

-- An answer that is there already is one without a way.
theorem passes_pure (k : Nat) (r : Reader) (value : α) : Passes k r (pure value) value [] k r :=
  ⟨rfl, nests_self k r, (List.append_nil _).symm⟩

-- A look at the position moves nothing.
theorem passes_get (k : Nat) (r : Reader) : Passes k r get r [] k r :=
  ⟨rfl, nests_self k r, (List.append_nil _).symm⟩

-- A fault is noted where the reader is, and the reader stays there.
theorem passes_note (k : Nat) (r : Reader) (error : ParseError) :
    Passes k r (note error) () [⟨r.span.line, error⟩] k (r.noting error) :=
  ⟨rfl, ⟨rfl, le_rfl, (nests_self k r).nested⟩, rfl⟩

-- One token is taken, and nests as it does by itself.
theorem passes_bump (h : r.Faces t) (ht : Nested k [t] k') : Passes k r bump () [] k' r.next :=
  ⟨run_bump h, nests_next h ht, (List.append_nil _).symm⟩

-- A token that is no closing is taken with any blocks open.
theorem passes_bump_open (h : r.Faces t) (hopen : t.kind.isMark .dedent = false) (k : Nat) :
    Passes k r bump () [] k r.next :=
  passes_bump h (nested_of_open (List.forall_mem_singleton.mpr hopen) k)

/-- Parts one after the other: their ways are joined, and what they note is. -/
theorem Passes.bind (h : Passes k r x value noted k₁ r₁)
    (h' : Passes k₁ r₁ (f value) answer more k' r') :
    Passes k r (x >>= f) answer (noted ++ more) k' r' where
  run := by
    have hx := h.run
    have hf := h'.run
    simp [hx, hf]
  way := h.way.trans h'.way
  faults := by rw [h'.faults, h.faults, List.append_assoc]

-- What follows notes nothing more.
theorem Passes.thenNothing (h : Passes k r x value noted k₁ r₁)
    (h' : Passes k₁ r₁ (f value) answer [] k' r') : Passes k r (x >>= f) answer noted k' r' := by
  have hbind := h.bind h'
  rw [List.append_nil] at hbind
  exact hbind

-- Fewer of the blocks need to be known to be open in the end.
theorem Passes.weaken (h : Passes k r x value noted k' r') (hle : j ≤ k') :
    Passes k r x value noted j r' :=
  ⟨h.run, h.way.weaken hle, h.faults⟩

-- Blocks further out may be open as well.
theorem Passes.widen (h : Passes k r x value noted k' r') (j : Nat) :
    Passes (k + j) r x value noted (k' + j) r' :=
  ⟨h.run, h.way.widen j, h.faults⟩

/-- A part that can fail and does not has its answer, and has noted nothing. -/
theorem Yields.passes {x : Trial α} (h : Yields Token.IsPlain r x value r') (k : Nat) :
    Passes k r x.run (some value) [] k r' :=
  ⟨h.run, h.way.nests (fun _ ht => ht.2.1) k, by rw [h.faults, List.append_nil]⟩

-- A word of a line is no layout.
theorem IsWord.isPlain (h : IsWord t) : t.IsPlain :=
  isPlain_of_isLayout h

/-- A part that fails has noted why and has no answer. -/
theorem Refuses.passes {x : Trial α} (h : Refuses r x fault r') (k : Nat) :
    Passes k r x.run none [fault] k r' :=
  ⟨h.run, h.way.nests (fun _ ht => ht.isPlain.2.1) k, h.faults⟩

-- A mark that is there is taken.
theorem passes_skip (h : r.Faces t) (hm : t.kind = .mark m) (ht : Nested k [t] k') :
    Passes k r (skip m) true [] k' r.next :=
  ⟨run_skip h hm, nests_next h ht, (List.append_nil _).symm⟩

-- A mark of a line is taken without any block.
theorem passes_skipWord (h : r.Faces t) (hm : t.kind = .mark m)
    (hword : (Token.Kind.mark m).isLayout = false) : Passes 0 r (skip m) true [] 0 r.next := by
  have hplain := IsWord.isPlain (isWord_of_kind hm hword)
  exact passes_skip h hm (nested_of_open (List.forall_mem_singleton.mpr hplain.2.1) 0)

-- A mark that is not there is not, and nothing happens.
theorem passes_noSkip (h : r.isAt m = false) (k : Nat) : Passes k r (skip m) false [] k r :=
  ⟨run_noSkip h, nests_self k r, (List.append_nil _).symm⟩

/-! ## Lines -/

-- The end of a line is no word, but it opens and closes nothing either.
theorem expectNewline_agrees (hr : r.cursor = c) :
    Agrees Token.IsPlain r (expect .newline) (fun _ => ()) (·.1) (c.expect .newline) :=
  expect_agrees hr nofun fun t ht => by rw [Token.IsPlain, ht]; exact ⟨rfl, rfl, rfl⟩

/-- Behind the last token of a line only the answer is made. -/
theorem Agrees.ends {γ δ : Type} {value : α → β} {place : α → Cursor} {res : Except Fault α}
    {value' : γ → δ} {place' : γ → Cursor} {res' : Except Fault γ} {x : Trial β} {f : β → Trial δ}
    (h : Agrees P r x value place res) (herror : ∀ fault, res = .error fault → res' = .error fault)
    (hok : ∀ a r₁, res = .ok a → r₁.cursor = place a →
      ∃ a', res' = .ok a' ∧ place a = place' a' ∧ Yields P r₁ (f (value a)) (value' a') r₁) :
    Agrees P r (x >>= f) value' place' res' := by
  cases res with
  | error fault =>
      rcases h with ⟨r', h'⟩
      rw [herror fault rfl]
      exact ⟨r', h'.bind f⟩
  | ok a =>
      rcases h with ⟨r₁, h', hr₁⟩
      rcases hok a r₁ rfl hr₁ with ⟨a', rfl, hplace, hlast⟩
      exact ⟨r₁, h'.bind hlast, hr₁.trans hplace⟩

/-- The end of a header: a colon, and the line ends behind it. -/
theorem headerEnd_agrees (hr : r.cursor = c) :
    Agrees Token.IsPlain r headerEnd (fun _ => ()) (·.1) (Script.headerEnd c) := by
  rw [Script.headerEnd, headerEnd]
  refine (expectWord_agrees colon hr rfl).andThen (fun _ => IsWord.isPlain)
    (fun _ h => by simp only [h]) ?_
  rintro c₁ r₁ h hr₁
  simp only [h]
  have hnewline := expectNewline_agrees hr₁
  cases h' : c₁.1.expect .newline <;> rw [h'] at hnewline <;> exact hnewline

/-- A header with a condition: the condition, and the end of the header. -/
theorem header_agrees (hn : 3 * c.size + 1 < n) (hr : r.cursor = c) :
    Agrees Token.IsPlain r (header n) (·.1) (·.2.1) (Script.header c) := by
  rw [Script.header, header]
  refine (expression_agrees 0 c hn hr).andThen (fun _ => IsWord.isPlain)
    (fun _ h => by simp only [h]) ?_
  rintro ⟨e, c₁⟩ r₁ h hr₁
  simp only [h]
  refine (headerEnd_agrees hr₁).ends (fun _ h => by simp only [h]) ?_
  rintro c₂ r₂ h' hr₂
  simp only [h']
  exact ⟨_, rfl, rfl, yields_pure _ r₂ e⟩

/-- An expression with nothing behind it on the line. -/
theorem lineExpression_agrees (hn : 3 * c.size + 1 < n) (hr : r.cursor = c) :
    Agrees Token.IsPlain r (lineExpression n) (·.1) (·.2.1) (Script.lineExpression c) := by
  rw [Script.lineExpression, lineExpression]
  refine (expression_agrees 0 c hn hr).andThen (fun _ => IsWord.isPlain)
    (fun _ h => by simp only [h]) ?_
  rintro ⟨e, c₁⟩ r₁ h hr₁
  simp only [h]
  refine (expectNewline_agrees hr₁).ends (fun _ h => by simp only [h]) ?_
  rintro c₂ r₂ h' hr₂
  simp only [h']
  exact ⟨_, rfl, rfl, yields_pure _ r₂ e⟩

/-- The header of a `for` loop. What is missing in it is told by the first of its parts that is not
    there. -/
theorem forHeader_agrees (hn : 3 * c.size + 1 < n) (hr : r.cursor = c) :
    Agrees Token.IsPlain r (forHeader n) (fun found => (found.1, found.2.1)) (·.2.2.1)
      (Script.forHeader c) := by
  rw [Script.forHeader, forHeader]
  refine (yields_get IsWord r).andThen (fun _ => IsWord.isPlain) ?_
  cases htake : c.take? with
  | none =>
      have hkind := kind_of_atEnd (atEnd_of_take? hr htake)
      rw [hkind]
      exact agrees_unexpected hr hkind
  | some taken =>
      rcases taken with ⟨t, c₁⟩
      rcases faces_of_take? hr htake with ⟨hfaces, hr₁⟩
      rw [hfaces.kind]
      dsimp only
      cases hk : t.kind with
      | name name =>
          dsimp only
          refine (yields_bump hfaces (isWord_of_kind hk rfl)).andThen (fun _ => IsWord.isPlain) ?_
          refine (expectWord_agrees (.keyword .inWord) hr₁ rfl).andThen (fun _ => IsWord.isPlain)
            (fun _ h => by simp only [h]) ?_
          rintro c₂ r₂ h hr₂
          have hless : c₂.1.size < c.size := (c₁.andThen c₂.atMost).2
          simp only [h]
          refine (header_agrees (by omega) hr₂).ends (fun _ h => by simp only [h]) ?_
          rintro ⟨e, c₃⟩ r₃ h' hr₃
          simp only [h']
          exact ⟨_, rfl, rfl, yields_pure _ r₃ _⟩
      | _ => exact agrees_unexpected hr (hfaces.kind.trans hk)

/-! ### Statements of one line -/

variable {next : c.Shorter}

-- The sign by which a name is assigned to is the token behind it.
theorem assignment?_eq (h : r.next.cursor = d) : r.assignment? = AssignOp.ofKind? d.kind := by
  rw [assignment?, ← h, kind_cursor, kind, current?, next]
  cases r.tokens[r.pos + 1]? <;> rfl

-- A statement of one word: the line has to end behind it.
theorem wordLine_agrees (s : Stmt) (hfaces : r.Faces t) (hword : IsWord t)
    (hr : r.next.cursor = next.1) :
    Agrees Token.IsPlain r (wordLine s) (·.1) (·.2.1)
      ((next.1.expect .newline).map fun c₁ => (s, next.andThen c₁.atMost)) := by
  refine (yields_bump hfaces hword).andThen (fun _ => IsWord.isPlain) ?_
  refine (expectNewline_agrees hr).ends (fun _ h => by rw [h]; rfl) ?_
  rintro c₁ r₁ h hr₁
  rw [h]
  exact ⟨_, rfl, rfl, yields_pure _ r₁ s⟩

-- The place of a statement ends with what was read last.
theorem yields_placed (hr : r.cursor = c) (s : Span → Stmt) (first : Span) :
    Yields P r (get >>= fun r => pure (s (first.through r.prevSpan)))
      (s (first.through c.last)) r := by
  rw [← hr]
  exact (yields_get P r).bind (yields_pure P r _)

/-- A `return`: if the line does not end behind the word, a value stands there. -/
theorem returnLine_agrees (hn : 3 * c.size + 1 < n) (hfaces : r.Faces t) (hword : IsWord t)
    (hr : r.next.cursor = next.1) :
    Agrees Token.IsPlain r (returnLine n t.span) (·.1) (·.2.1)
      (match next.1.skip? .newline with
        | some c₁ => .ok (.returnWith none (t.span.through c₁.1.last), next.andThen c₁.atMost)
        | none =>
          match Script.lineExpression next.1 with
          | .error fault => .error fault
          | .ok (e, c₁) =>
            .ok (.returnWith (some e) (t.span.through c₁.1.last), next.andThen c₁.atMost) :
        Except Fault (Stmt × c.Shorter)) := by
  refine (yields_bump hfaces hword).andThen (fun _ => IsWord.isPlain) ?_
  cases hskip : next.1.skip? .newline with
  | some c₁ =>
      rcases yields_skip (P := Token.IsPlain) hr hskip
        (fun t ht => by rw [Token.IsPlain, ht]; exact ⟨rfl, rfl, rfl⟩) with ⟨hend, hr₁⟩
      exact ⟨_, hend.bind (yields_placed hr₁ (.returnWith none) t.span), hr₁⟩
  | none =>
      have hless := next.2
      refine (yields_noSkip hr (by decide) hskip).andThen (fun _ => IsWord.isPlain) ?_
      refine (lineExpression_agrees (by omega) hr).ends (fun _ h => by simp only [h]) ?_
      rintro ⟨e, c₁⟩ r₁ h hr₁
      simp only [h]
      exact ⟨_, rfl, rfl, yields_placed hr₁ (.returnWith (some e)) t.span⟩

-- An expression as a statement.
theorem expressionLine_agrees (hn : 3 * c.size + 1 < n) (hr : r.cursor = c) (first : Span) :
    Agrees Token.IsPlain r (expressionLine n first) (·.1) (·.2.1)
      (match Script.lineExpression c with
        | .error fault => .error fault
        | .ok (e, c₁) => .ok (.expr e (first.through c₁.1.last), c₁) :
        Except Fault (Stmt × c.Shorter)) := by
  refine (lineExpression_agrees hn hr).ends (fun _ h => by simp only [h]) ?_
  rintro ⟨e, c₁⟩ r₁ h hr₁
  simp only [h]
  exact ⟨_, rfl, rfl, yields_placed hr₁ (.expr e) first⟩

/-- An assignment: its name and its sign are known, and the value is left. -/
theorem assignLine_agrees {u : Token} {c₁ : next.1.Shorter} (hn : 3 * c.size + 1 < n)
    (hfaces : r.Faces t) (hword : IsWord t) (hfaces' : r.next.Faces u) (hword' : IsWord u)
    (hr : r.next.next.cursor = c₁.1) (name : String) (op : AssignOp) :
    Agrees Token.IsPlain r (assignLine n t.span name op) (·.1) (·.2.1)
      (match Script.lineExpression c₁.1 with
        | .error fault => .error fault
        | .ok (e, c₂) =>
          .ok (.assign name op e (t.span.through c₂.1.last),
            next.andThen (c₁.andThen c₂.atMost).atMost) :
        Except Fault (Stmt × c.Shorter)) := by
  refine (yields_bump hfaces hword).andThen (fun _ => IsWord.isPlain) ?_
  refine (yields_bump hfaces' hword').andThen (fun _ => IsWord.isPlain) ?_
  have hless : c₁.1.size < c.size := (next.andThen c₁.atMost).2
  refine (lineExpression_agrees (by omega) hr).ends (fun _ h => by simp only [h]) ?_
  rintro ⟨e, c₂⟩ r₂ h hr₂
  simp only [h]
  exact ⟨_, rfl, rfl, yields_placed hr₂ (.assign name op e) t.span⟩

-- The signs of assignments are words of a line.
theorem isWord_of_assignment {op : AssignOp} (h : AssignOp.ofKind? t.kind = some op) :
    IsWord t := by
  unfold AssignOp.ofKind? at h
  split at h
  · next hk => exact isWord_of_kind hk rfl
  · next hk => exact isWord_of_kind hk rfl
  · next hk => exact isWord_of_kind hk rfl
  · cases h

/-- A statement of one line is read as the grammar has it. The first token tells which it is, and
    for an assignment the second does. -/
theorem lineStatement_agrees (hn : 3 * c.size + 1 < n) (hr : r.cursor = c)
    (htake : c.take? = some (t, next)) :
    Agrees Token.IsPlain r (lineStatement n) (·.1) (·.2.1) (Script.lineStatement c t next) := by
  rcases faces_of_take? hr htake with ⟨hfaces, hr₁⟩
  rw [Script.lineStatement, lineStatement]
  refine (yields_get IsWord r).andThen (fun _ => IsWord.isPlain) ?_
  have hexpression := expressionLine_agrees hn hr t.span
  rw [hfaces.kind, hfaces.span]
  cases hk : t.kind with
  | name name =>
      dsimp only
      rw [assignment?_eq hr₁]
      cases hop : AssignOp.ofKind? next.1.kind with
      | none => exact hexpression
      | some op =>
          dsimp only
          cases htake' : next.1.take? with
          | none =>
              have hkind := kind_of_atEnd (atEnd_of_take? hr₁ htake')
              rw [← hr₁, kind_cursor, hkind] at hop
              cases hop
          | some taken =>
              rcases taken with ⟨u, c₁⟩
              rcases faces_of_take? hr₁ htake' with ⟨hfaces', hr₂⟩
              rw [← hr₁, kind_cursor, hfaces'.kind] at hop
              exact assignLine_agrees hn hfaces (isWord_of_kind hk rfl) hfaces'
                (isWord_of_assignment hop) hr₂ name op
  | mark m =>
      cases m with
      | keyword k =>
          cases k with
          | returnWord => exact returnLine_agrees hn hfaces (isWord_of_kind hk rfl) hr₁
          | breakWord => exact wordLine_agrees _ hfaces (isWord_of_kind hk rfl) hr₁
          | continueWord => exact wordLine_agrees _ hfaces (isWord_of_kind hk rfl) hr₁
          | passWord => exact wordLine_agrees _ hfaces (isWord_of_kind hk rfl) hr₁
          | _ => exact hexpression
      | _ => exact hexpression
  | _ => exact hexpression

/-! ## What is passed over -/

-- At the end there is nothing, or only the mark of the end.
theorem rest_of_atEnd (h : r.atEnd = true) :
    r.cursor.rest = [] ∨ ∃ t more, r.cursor.rest = t :: more ∧ t.kind = .mark .endOfInput := by
  rw [atEnd, current?_eq_head?] at h
  cases hrest : r.cursor.rest with
  | nil => exact Or.inl rfl
  | cons t more =>
      rw [hrest] at h
      exact Or.inr ⟨t, more, rfl, isMark_eq_true_iff.mp h⟩

-- Where nothing is left, nothing is skipped.
theorem skipLine_of_atEnd (h : r.atEnd = true) : r.cursor.skipLine.1 = r.cursor := by
  change skipLineFrom r.cursor.last r.cursor.rest = r.cursor
  rcases rest_of_atEnd h with hrest | ⟨t, more, hrest, hend⟩
  · rw [hrest, skipLineFrom, ← hrest]
  · rw [hrest, skipLineFrom, hend, ← hrest]
    rfl

-- At the end no block can be skipped.
theorem skipBlockFrom_of_atEnd (h : r.atEnd = true) (depth : Nat) :
    skipBlockFrom depth r.cursor.last r.cursor.rest = r.cursor := by
  rcases rest_of_atEnd h with hrest | ⟨t, more, hrest, hend⟩
  · rw [hrest, skipBlockFrom, ← hrest]
  · rw [hrest, skipBlockFrom.eq_def]
    dsimp only
    rw [hend, ← hrest]
    rfl

-- One token of a line that is skipped: the line ends behind its newline, or in front of a closing.
theorem skipLine_of_faces (h : r.Faces t) :
    r.cursor.skipLine.1 =
      if t.kind.isMark .newline then r.next.cursor
      else if t.kind.isMark .dedent then r.cursor
      else r.next.cursor.skipLine.1 := by
  have hnext : r.next.cursor = ⟨t.span, r.next.cursor.rest⟩ := by
    rw [cursor_next h.current]
  change skipLineFrom r.cursor.last r.cursor.rest = _
  rw [h.rest, skipLineFrom, h.more, Bool.or_false, ← h.rest, ← hnext]
  change _ = ite _ _ (ite _ _ (skipLineFrom r.next.cursor.last r.next.cursor.rest))
  rw [hnext]

-- Behind a token there is less to read.
theorem Faces.size_next_lt (h : r.Faces t) : r.next.cursor.size < r.cursor.size := by
  rw [Cursor.size, Cursor.size, h.rest, List.length_cons]
  exact Nat.lt_succ_self _

/-- A line that is skipped closes no block. By induction on the tokens that are left. -/
theorem skipLine_passes {n : Nat} (r : Reader) (hn : r.cursor.size < n) :
    ∃ r', Passes 0 r (skipLine n) () [] 0 r' ∧ r'.cursor = r.cursor.skipLine.1 := by
  rcases exists_round hn with ⟨n, rfl, hn⟩
  rw [skipLine]
  rcases r.atEnd_or_faces with hend | ⟨t, hfaces⟩
  · refine ⟨r, (passes_get 0 r).bind ?_, (skipLine_of_atEnd hend).symm⟩
    rw [hend, Bool.true_or, if_pos rfl]
    exact passes_pure 0 r ()
  · have hless := hfaces.size_next_lt
    rw [skipLine_of_faces hfaces]
    by_cases hdedent : t.kind.isMark .dedent = true
    · have hnewline : t.kind.isMark .newline = false := by
        rw [isMark_eq_true_iff.mp hdedent]
        rfl
      refine ⟨r, (passes_get 0 r).bind ?_, by simp [hnewline, hdedent]⟩
      rw [hfaces.isAt, hdedent, Bool.or_true, if_pos rfl]
      exact passes_pure 0 r ()
    · rw [Bool.not_eq_true] at hdedent
      have hstep := passes_bump_open hfaces hdedent 0
      by_cases hnewline : t.kind.isMark .newline = true
      · refine ⟨r.next, (passes_get 0 r).bind ?_, by simp [hnewline]⟩
        simpa [hfaces.atEnd, hfaces.isAt, hdedent, hnewline] using hstep
      · rcases skipLine_passes r.next (n := n) (by omega) with ⟨r', hpasses, hr'⟩
        refine ⟨r', (passes_get 0 r).bind ?_, by simp [hnewline, hdedent, hr']⟩
        simpa [hfaces.atEnd, hfaces.isAt, hdedent, hnewline] using hstep.bind hpasses
termination_by r.cursor.size

-- One token of a block that is skipped: openings and closings are counted, and all else is passed
-- over.
theorem skipBlockFrom_of_faces (h : r.Faces t) (depth : Nat) :
    skipBlockFrom depth r.cursor.last r.cursor.rest =
      if t.kind.isMark .indent then
        skipBlockFrom (depth + 1) r.next.cursor.last r.next.cursor.rest
      else if t.kind.isMark .dedent then
        match depth with
        | 0 => r.next.cursor
        | depth + 1 => skipBlockFrom depth r.next.cursor.last r.next.cursor.rest
      else skipBlockFrom depth r.next.cursor.last r.next.cursor.rest := by
  have hnext : r.next.cursor = ⟨t.span, r.next.cursor.rest⟩ := by
    rw [cursor_next h.current]
  have hlast : r.next.cursor.last = t.span := by rw [hnext]
  cases depth with
  | zero => rw [h.rest, skipBlockFrom, h.more, if_neg Bool.false_ne_true, hlast, ← hnext]
  | succ depth => rw [h.rest, skipBlockFrom, h.more, if_neg Bool.false_ne_true, hlast]

/-- A block that is skipped is followed to its own closing. By induction on the tokens that are
    left, with the blocks that were opened inside it. -/
theorem skipBlock_passes {n : Nat} (depth : Nat) (r : Reader) (hn : r.cursor.size < n) :
    ∃ r', Passes (depth + 1) r (skipBlock n (depth + 1)) () [] 0 r' ∧
      r'.cursor = skipBlockFrom depth r.cursor.last r.cursor.rest := by
  rcases exists_round hn with ⟨n, rfl, hn⟩
  rw [skipBlock]
  rcases r.atEnd_or_faces with hend | ⟨t, hfaces⟩
  · refine ⟨r, (passes_get _ r).bind ?_, (skipBlockFrom_of_atEnd hend depth).symm⟩
    rw [hend, if_pos rfl]
    exact (passes_pure _ r ()).weaken (Nat.zero_le _)
  · have hless := hfaces.size_next_lt
    rw [skipBlockFrom_of_faces hfaces]
    by_cases hindent : t.kind.isMark .indent = true
    · have hstep := passes_bump hfaces (nested_indent (isMark_eq_true_iff.mp hindent) (depth + 1))
      rcases skipBlock_passes (depth + 1) r.next (n := n) (by omega) with ⟨r', hpasses, hr'⟩
      refine ⟨r', (passes_get _ r).bind ?_, by rw [hr', if_pos hindent]⟩
      simpa [hfaces.atEnd, hfaces.isAt, hindent] using hstep.bind hpasses
    · by_cases hdedent : t.kind.isMark .dedent = true
      · have hstep := passes_bump hfaces (nested_dedent (isMark_eq_true_iff.mp hdedent) depth)
        cases depth with
        | zero =>
            refine ⟨r.next, (passes_get _ r).bind ?_, by simp [hindent, hdedent]⟩
            simpa [hfaces.atEnd, hfaces.isAt, hindent, hdedent] using hstep
        | succ depth =>
            rcases skipBlock_passes depth r.next (n := n) (by omega) with ⟨r', hpasses, hr'⟩
            refine ⟨r', (passes_get _ r).bind ?_, by simp [hindent, hdedent, hr']⟩
            simpa [hfaces.atEnd, hfaces.isAt, hindent, hdedent] using hstep.bind hpasses
      · have hstep := passes_bump_open hfaces (Bool.eq_false_iff.mpr hdedent) (depth + 1)
        rcases skipBlock_passes depth r.next (n := n) (by omega) with ⟨r', hpasses, hr'⟩
        refine ⟨r', (passes_get _ r).bind ?_, by simp [hindent, hdedent, hr']⟩
        simpa [hfaces.atEnd, hfaces.isAt, hindent, hdedent] using hstep.bind hpasses
termination_by r.cursor.size

-- A block that begins here is skipped from its opening on.
theorem skipOpened_passes (h : r.Faces t) (hindent : t.kind = .mark .indent)
    (hn : r.cursor.size < n) :
    ∃ r', Passes 0 r (skipBlock n 0) () [] 0 r' ∧ r'.cursor = r.next.cursor.skipBlock.1 := by
  rcases exists_round hn with ⟨n, rfl, hn⟩
  have hless := h.size_next_lt
  have hstep := passes_bump h (nested_indent hindent 0)
  have hat : r.isAt .indent = true := by rw [h.isAt, isMark_eq_true_iff, hindent]
  rcases skipBlock_passes 0 r.next (n := n) (by omega) with ⟨r', hpasses, hr'⟩
  refine ⟨r', ?_, hr'⟩
  rw [skipBlock]
  refine (passes_get 0 r).bind ?_
  simpa [h.atEnd, hat] using hstep.bind hpasses

/-- A line that cannot be read is passed over, with the block under it if there is one. -/
theorem synchronize_passes (r : Reader) (hn : r.cursor.size < n) :
    ∃ r', Passes 0 r (synchronize n) () [] 0 r' ∧ r'.cursor = r.cursor.resume := by
  rcases skipLine_passes r hn with ⟨r₁, hline, hr₁⟩
  have hle : r₁.cursor.size ≤ r.cursor.size := hr₁ ▸ r.cursor.skipLine.2
  rw [synchronize, Cursor.resume, ← hr₁, skipNested]
  split
  · next next hskip =>
      rcases skip?_eq_some hskip with ⟨t, htake, hindent⟩
      rcases faces_of_take? rfl htake with ⟨hfaces, hnext⟩
      rcases skipOpened_passes hfaces hindent (n := n) (by omega) with ⟨r', hblock, hr'⟩
      refine ⟨r', hline.bind ((passes_get 0 r₁).bind ?_), by rw [hr', hnext]; rfl⟩
      rw [if_pos (by rw [hfaces.isAt, isMark_eq_true_iff, hindent])]
      exact hblock
  · next hskip =>
      refine ⟨r₁, hline.bind ((passes_get 0 r₁).bind ?_), rfl⟩
      rw [if_neg (by rw [isAt_of_skip? rfl (by decide) hskip]; exact Bool.false_ne_true)]
      exact passes_pure 0 r₁ ()

-- A line that is given up further on ends where it would have ended.
theorem resume_of_over (h : r.Over IsWord r') : r'.cursor.resume = r.cursor.resume := by
  suffices hline : r'.cursor.skipLine.1 = r.cursor.skipLine.1 by
    rw [Cursor.resume, Cursor.resume, hline]
  induction hn : r'.pos - r.pos generalizing r with
  | zero =>
      have hpos : r'.pos = r.pos := by have hle := h.le; omega
      have hsame : r'.cursor = r.cursor := by
        rw [cursor, cursor, prevSpan, prevSpan, h.tokens, hpos]
      rw [hsame]
  | succ n ih =>
      rcases h.all r.pos le_rfl (by omega) with ⟨t, hcurrent, hword⟩
      have hplain := IsWord.isPlain hword
      have hfaces : r.Faces t := ⟨hcurrent, hplain.2.2⟩
      have hover : r.next.Over IsWord r' := by
        refine ⟨h.tokens, ?_, fun i hle hlt => h.all i ?_ hlt⟩
        · change r.pos + 1 ≤ r'.pos
          omega
        · exact (Nat.le_succ r.pos).trans hle
      rw [skipLine_of_faces hfaces, ih hover (by change r'.pos - (r.pos + 1) = n; omega),
        hplain.2.1, isMark_of_isLayout hword .newline]
      rfl

-- Where a line is given up at its first token, reading goes on behind all of it.
theorem recover_eq_resume {next : r.cursor.Shorter} (htake : r.cursor.take? = some (t, next))
    (hdedent : t.kind.isMark .dedent = false) : (recover t next).1 = r.cursor.resume := by
  rcases faces_of_take? rfl htake with ⟨hfaces, hnext⟩
  rw [recover, Cursor.resume, skipLine_of_faces hfaces, hdedent, hnext]
  cases t.kind.isMark .newline <;> rfl

end Reader

end Script

end Farmhand
