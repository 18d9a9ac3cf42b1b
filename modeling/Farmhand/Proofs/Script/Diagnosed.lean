import Mathlib
import Farmhand.Proofs.Script.Stepwise

/-!
# One Diagnosis

Reading an expression either comes to an expression, further on and with nothing noted, or gives up
with one fault noted. The fault is about the token at which reading stopped: the token has no place
there, or another one has to be there.

A part of the reader is held against the part of the parser that it does step by step. Where the
parser answers, the reader answers the same at the same place; where the parser refuses, the reader
gives up with that fault. It is shown along the recursion of the parser, of which it is known that
it ends, so the reader ends as well.

## Main definitions

* `Reader.IsAbout`: A fault about the next token.
* `Reader.Yields`, `Reader.Refuses`: What a part of the reader comes to.
* `Reader.Agrees`: A part of the reader does what a part of the parser does.

## Theorems

* `Reader.Agrees.bind`: Parts of the reader one after the other.
* `Reader.expression_agrees`, `Reader.operand_agrees`, `Reader.operators_agrees`,
  `Reader.items_agrees`: Expressions.
* `expression_diagnosed`: An expression, or one fault.
-/

namespace Farmhand

namespace Script

namespace Reader

variable {α β γ δ : Type} {r r' r₁ : Reader} {c : Cursor} {t : Token} {m : Mark} {a : α} {b : β}
  {P Q : Token → Prop} {fault : Fault}

/-! ## Runs -/

/-- A token that is no layout. -/
def IsWord (t : Token) : Prop :=
  t.kind.isLayout = false

/-- A fault about the next token: it has no place there, or another one has to be there. -/
def IsAbout (r : Reader) (fault : Fault) : Prop :=
  fault.line = r.span.line ∧
    (fault.error = .unexpectedToken r.kind ∨ ∃ m, fault.error = .expectedToken m r.kind)

/-- A part of the reader answers, having noted nothing and read over tokens of a certain sort. -/
structure Yields (P : Token → Prop) (r : Reader) (x : Trial α) (a : α) (r' : Reader) : Prop where
  run : x.run.run r = some (some a, r')
  way : r.Over P r'
  faults : r'.faults = r.faults

/-- A part of the reader gives up within the line, having noted one fault, about the token at which
    it is then. -/
structure Refuses (r : Reader) (x : Trial α) (fault : Fault) (r' : Reader) : Prop where
  run : x.run.run r = some (none, r')
  way : r.Over IsWord r'
  faults : r'.faults = r.faults ++ [fault]
  about : r'.IsAbout fault

-- A token whose kind is no layout is a word, whatever its text.
theorem isWord_of_kind {k : Token.Kind} (hk : t.kind = k) (h : k.isLayout = false) : IsWord t := by
  rw [IsWord, hk]
  exact h

-- Every operator stands within a line.
theorem isWord_of_operator {op : BinaryOp} (h : BinaryOp.ofKind? t.kind = some op) : IsWord t := by
  rw [IsWord, Bool.eq_false_iff]
  intro hlayout
  unfold Token.Kind.isLayout at hlayout
  split at hlayout
  · next hk =>
      rw [hk] at h
      cases h
  · cases hlayout

theorem yields_pure (P : Token → Prop) (r : Reader) (a : α) : Yields P r (pure a) a r :=
  ⟨rfl, .refl P r, rfl⟩

theorem yields_get (P : Token → Prop) (r : Reader) : Yields P r get r r :=
  ⟨rfl, .refl P r, rfl⟩

-- The two diagnoses that an expression can get are both about the next token.
theorem refuses_refuse {error : ParseError}
    (h : error = .unexpectedToken r.kind ∨ ∃ m, error = .expectedToken m r.kind) :
    Refuses r (refuse error : Trial α) ⟨r.span.line, error⟩ (r.noting error) where
  run := rfl
  way := ⟨rfl, le_rfl, fun _ hle hlt => absurd hlt (Nat.not_lt.mpr hle)⟩
  faults := rfl
  about := ⟨rfl, h⟩

section

variable {x : Trial α} {f : α → Trial β}

theorem Yields.mono (h : Yields P r x a r') (hPQ : ∀ t, P t → Q t) : Yields Q r x a r' :=
  ⟨h.run, h.way.mono hPQ, h.faults⟩

-- Answers follow one another, and so do the tokens read over.
theorem Yields.bind (h : Yields P r x a r₁) (h' : Yields P r₁ (f a) b r') :
    Yields P r (x >>= f) b r' where
  run := by
    have hx := h.run
    have hf := h'.run
    simp [Option.elimM, hx, hf]
  way := h.way.trans h'.way
  faults := h'.faults.trans h.faults

-- The first refusal decides, and what was read before it lies within the line.
theorem Yields.refuses (h : Yields IsWord r x a r₁) (h' : Refuses r₁ (f a) fault r') :
    Refuses r (x >>= f) fault r' where
  run := by
    have hx := h.run
    have hf := h'.run
    simp [Option.elimM, hx, hf]
  way := h.way.trans h'.way
  faults := by rw [h'.faults, h.faults]
  about := h'.about

-- Nothing is read after a refusal.
theorem Refuses.bind (h : Refuses r x fault r') (f : α → Trial β) :
    Refuses r (x >>= f) fault r' where
  run := by
    have hx := h.run
    simp [Option.elimM, hx]
  way := h.way
  faults := h.faults
  about := h.about

end

/-! ## Single steps -/

-- What always answers does not give up.
theorem run_liftM {y : Pass α} (h : y.run r = some (a, r')) :
    (liftM y : Trial α).run.run r = some (some a, r') := by
  simp [h]

theorem run_bump (h : r.Faces t) : bump.run r = some ((), r.next) := by
  change some ((), if r.atEnd then r else r.next) = _
  rw [h.atEnd]
  rfl

-- A mark that is there is taken.
theorem run_skip (h : r.Faces t) (hm : t.kind = .mark m) :
    (skip m).run r = some (true, r.next) := by
  have hat : r.isAt m = true := by rw [h.isAt, hm, isMark_eq_true_iff]
  simp [skip, hat, run_bump h]

-- A mark that is not there leaves the reader as it is.
theorem run_noSkip (h : r.isAt m = false) : (skip m).run r = some (false, r) := by
  simp [skip, h]

-- The parser does not find the mark, so the reader does not either: both look at the same token.
-- The end of the input is left out because the parser never has it as a token.
theorem isAt_of_skip? (hr : r.cursor = c) (hm : m ≠ .endOfInput) (h : c.skip? m = none) :
    r.isAt m = false := by
  rw [Cursor.skip?] at h
  cases htake : c.take? with
  | none =>
      have hend := atEnd_of_take? hr htake
      rw [atEnd] at hend
      rw [isAt]
      cases hcurrent : r.current? with
      | none => rfl
      | some t =>
          rw [hcurrent] at hend
          dsimp only at hend ⊢
          rw [isMark_eq_true_iff.mp hend, Token.Kind.isMark, decide_eq_false_iff_not]
          exact hm.symm
  | some taken =>
      rcases taken with ⟨t, d⟩
      rw [htake] at h
      rw [(faces_of_take? hr htake).1.isAt, Bool.eq_false_iff]
      intro hmark
      simp [hmark] at h

theorem yields_bump (h : r.Faces t) (ht : P t) : Yields P r (liftM bump) () r.next :=
  ⟨run_liftM (run_bump h), over_next h ht, rfl⟩

-- The three ways to take a token, as answers of a part of the reader.
theorem yields_skip {d : c.Shorter} (hr : r.cursor = c) (h : c.skip? m = some d)
    (hP : ∀ t, t.kind = .mark m → P t) :
    Yields P r (liftM (skip m)) true r.next ∧ r.next.cursor = d.1 := by
  rcases Cursor.skip?_eq_some h with ⟨t, htake, hkind⟩
  rcases faces_of_take? hr htake with ⟨hfaces, hnext⟩
  exact ⟨⟨run_liftM (run_skip hfaces hkind), over_next hfaces (hP t hkind), rfl⟩, hnext⟩

theorem yields_noSkip (hr : r.cursor = c) (hm : m ≠ .endOfInput) (h : c.skip? m = none) :
    Yields P r (liftM (skip m)) false r :=
  ⟨run_liftM (run_noSkip (isAt_of_skip? hr hm h)), .refl P r, rfl⟩

/-! ## Agreement -/

/-- A part of the reader does what a part of the parser does: it comes to the answer at the place,
    or it gives up, having noted the fault. -/
def Agrees (P : Token → Prop) (r : Reader) (x : Trial β) (value : α → β) (place : α → Cursor) :
    Except Fault α → Prop
  | .ok a => ∃ r', Yields P r x (value a) r' ∧ r'.cursor = place a
  | .error fault => ∃ r', Refuses r x fault r'

theorem agrees_pure {value : α → β} {place : α → Cursor} (hvalue : b = value a)
    (hr : r.cursor = place a) : Agrees P r (pure b) value place (.ok a) :=
  ⟨r, hvalue ▸ yields_pure P r b, hr⟩

-- Both give the token that has no place there as the reason.
theorem agrees_unexpected {value : α → β} {place : α → Cursor} {k : Token.Kind}
    (hr : r.cursor = c) (hk : r.kind = k) :
    Agrees P r (refuse (.unexpectedToken k)) value place (.error c.unexpected) := by
  rw [← hr, ← hk, Cursor.unexpected, line_cursor, kind_cursor]
  exact ⟨_, refuses_refuse (Or.inl rfl)⟩

section

variable {value : α → β} {place : α → Cursor} {res : Except Fault α} {value' : γ → δ}
  {place' : γ → Cursor} {res' : Except Fault γ} {x : Trial β} {f : β → Trial δ}

-- Behind an answer the reading goes on.
theorem Yields.andThen (h : Yields IsWord r x b r₁) (hQ : ∀ t, IsWord t → Q t)
    (h' : Agrees Q r₁ (f b) value' place' res') : Agrees Q r (x >>= f) value' place' res' := by
  cases res' with
  | error fault =>
      rcases h' with ⟨r', h'⟩
      exact ⟨r', h.refuses h'⟩
  | ok a =>
      rcases h' with ⟨r', h', hr'⟩
      exact ⟨r', (h.mono hQ).bind h', hr'⟩

/-- Parts of the reader one after the other: the first fault ends the reading, and behind an answer
    it goes on. -/
theorem Agrees.andThen (h : Agrees IsWord r x value place res) (hQ : ∀ t, IsWord t → Q t)
    (herror : ∀ fault, res = .error fault → res' = .error fault)
    (hok : ∀ a r₁, res = .ok a → r₁.cursor = place a →
      Agrees Q r₁ (f (value a)) value' place' res') :
    Agrees Q r (x >>= f) value' place' res' := by
  cases res with
  | error fault =>
      rcases h with ⟨r', h'⟩
      rw [herror fault rfl]
      exact ⟨r', h'.bind f⟩
  | ok a =>
      rcases h with ⟨r₁, h', hr₁⟩
      exact h'.andThen hQ (hok a r₁ rfl hr₁)

-- A step that always answers comes before the part in question.
theorem Yields.agrees (h : Yields IsWord r x b r₁)
    (h' : Agrees IsWord r₁ (f b) value' place' res') :
    Agrees IsWord r (x >>= f) value' place' res' :=
  h.andThen (fun _ => id) h'

/-- Parts of the reader one after the other: an error of the first is the error of both, and behind
    an answer of the first the second goes on at the place that the parser gives. -/
theorem Agrees.bind (h : Agrees IsWord r x value place res)
    (herror : ∀ fault, res = .error fault → res' = .error fault)
    (hok : ∀ a r₁, res = .ok a → r₁.cursor = place a →
      Agrees IsWord r₁ (f (value a)) value' place' res') :
    Agrees IsWord r (x >>= f) value' place' res' :=
  h.andThen (fun _ => id) herror hok

end

-- The reader and the parser expect a mark in the same way, whatever sort of token it is.
theorem expect_agrees (hr : r.cursor = c) (hm : m ≠ .endOfInput)
    (hP : ∀ t, t.kind = .mark m → P t) :
    Agrees P r (expect m) (fun _ => ()) (·.1) (c.expect m) := by
  unfold Cursor.expect expect
  split
  · next d hskip =>
      rcases yields_skip hr hskip hP with ⟨hyields, hnext⟩
      exact ⟨_, hyields.bind (yields_pure P _ ()), hnext⟩
  · next hskip =>
      have hyields := yields_noSkip (P := IsWord) hr hm hskip
      rw [← hr, line_cursor, kind_cursor]
      exact ⟨_, hyields.refuses ((yields_get _ r).refuses (refuses_refuse (Or.inr ⟨m, rfl⟩)))⟩

/-! ## Expressions -/

-- Within a line the mark is no layout.
theorem expectWord_agrees (m : Mark) (hr : r.cursor = c)
    (hm : (Token.Kind.mark m).isLayout = false) :
    Agrees IsWord r (expect m) (fun _ => ()) (·.1) (c.expect m) := by
  refine expect_agrees hr ?_ fun t ht => isWord_of_kind ht hm
  rintro rfl
  cases hm

/-- The opening of a call, a list, a group or an index has a closing, and what is inside is read up
    to it. -/
theorem Agrees.closed {value : α → β} {place : α → Cursor} {res : Except Fault α} {value' : γ → δ}
    {place' : γ → Cursor} {res' : Except Fault γ} {x : Trial β} {f : β → Trial δ}
    (h : Agrees IsWord r x value place res) (hm : (Token.Kind.mark m).isLayout = false)
    (hinside : ∀ fault, res = .error fault → res' = .error fault)
    (hclosing : ∀ a fault, res = .ok a → (place a).expect m = .error fault → res' = .error fault)
    (hbehind : ∀ a d r₁, res = .ok a → (place a).expect m = .ok d → r₁.cursor = d.1 →
      Agrees IsWord r₁ (f (value a)) value' place' res') :
    Agrees IsWord r (x >>= fun b => expect m >>= fun _ => f b) value' place' res' :=
  h.bind hinside fun a _ ha hr₁ => (expectWord_agrees m hr₁ hm).bind
    (fun fault => hclosing a fault ha) fun d r₂ => hbehind a d r₂ ha

-- Fuel that is more than something is some fuel and one round.
theorem exists_round {k n : Nat} (h : k < n) : ∃ m, n = m + 1 ∧ k ≤ m :=
  ⟨n - 1, by omega, by omega⟩

-- Three rounds for each token are enough: an expression begins with an operand, and an item of a
-- list with an expression, and then a token is taken.
mutual

-- An operand, and then the operators behind it. Each round of the reader costs one of the fuel, and
-- between two tokens there are at most three rounds: thence the bound.
theorem expression_agrees (floor : Nat) (c : Cursor) {n : Nat} (hn : 3 * c.size + 1 < n)
    {r : Reader} (hr : r.cursor = c) :
    Agrees IsWord r (expression n floor) (·.1) (·.2.1) (Script.expression floor c) := by
  rcases exists_round hn with ⟨n, rfl, hn⟩
  rw [Script.expression, expression]
  refine (operand_agrees c (by omega) hr).bind (fun _ h => by simp only [h]) ?_
  rintro ⟨left, c₁⟩ r₁ h hr₁
  have hless := c₁.2
  simp only [h]
  have hrest := operators_agrees floor left c₁.1 (n := n) (by omega) hr₁
  cases h' : Script.operators floor left c₁.1 <;> rw [h'] at hrest <;> exact hrest
termination_by (c.size, 1)

theorem operand_agrees (c : Cursor) {n : Nat} (hn : 3 * c.size < n) {r : Reader}
    (hr : r.cursor = c) :
    Agrees IsWord r (operand n) (·.1) (·.2.1) (Script.operand c) := by
  rcases exists_round hn with ⟨n, rfl, hn⟩
  rw [Script.operand, operand]
  refine (yields_get _ r).agrees ?_
  cases htake : c.take? with
  | none =>
      have hkind := kind_of_atEnd (atEnd_of_take? hr htake)
      rw [hkind]
      exact agrees_unexpected hr hkind
  | some taken =>
      rcases taken with ⟨t, c₁⟩
      rcases faces_of_take? hr htake with ⟨hfaces, hr₁⟩
      have hless := c₁.2
      have hspan := hfaces.span
      -- Each of the tokens that an operand begins with is stepped over.
      have hstep : ∀ {k}, t.kind = k → k.isLayout = false →
          Yields IsWord r (liftM bump) () r.next :=
        fun hk hword => yields_bump hfaces (isWord_of_kind hk hword)
      have hrefused : ∀ {k}, t.kind = k → Agrees IsWord r (refuse (.unexpectedToken k) : Trial Expr)
          (·.1) (·.2.1) (.error c.unexpected : Except Fault (Expr × c.Shorter)) :=
        fun hk => agrees_unexpected hr (hfaces.kind.trans hk)
      rw [hfaces.kind]
      dsimp only
      cases hk : t.kind with
      | int n => exact (hstep hk rfl).agrees (agrees_pure (by rw [hspan]) hr₁)
      | float x => exact (hstep hk rfl).agrees (agrees_pure (by rw [hspan]) hr₁)
      | str text => exact (hstep hk rfl).agrees (agrees_pure (by rw [hspan]) hr₁)
      | bool b => exact (hstep hk rfl).agrees (agrees_pure (by rw [hspan]) hr₁)
      | none => exact (hstep hk rfl).agrees (agrees_pure (by rw [hspan]) hr₁)
      | name name =>
          dsimp only
          refine (hstep hk rfl).agrees ?_
          cases hskip : c₁.1.skip? leftParen with
          | none =>
              refine (yields_noSkip hr₁ (by decide) hskip).agrees ?_
              exact agrees_pure (by rw [hspan]) hr₁
          | some c₂ =>
              rcases yields_skip hr₁ hskip (fun t ht => isWord_of_kind ht rfl) with ⟨hopen, hr₂⟩
              refine hopen.agrees ?_
              rw [if_pos rfl]
              have hless' := c₂.2
              refine (items_agrees rightParen c₂.1 (by omega) hr₂).closed rfl
                (fun _ h => by simp only [h]) (fun _ _ h h' => by simp only [h, h']) ?_
              rintro ⟨args, c₃⟩ c₄ r₄ h h' hr₄
              simp only [h, h']
              refine (yields_get _ r₄).agrees (agrees_pure ?_ hr₄)
              rw [hspan, ← hr₄]
              rfl
      | mark m =>
          cases m with
          | layout shape => exact hrefused hk
          | keyword k =>
              cases k with
              | notWord =>
                  dsimp only
                  refine (hstep hk rfl).agrees ?_
                  refine (expression_agrees notPower c₁.1 (by omega) hr₁).bind
                    (fun _ h => by simp only [h]) ?_
                  rintro ⟨e, c₂⟩ r₂ h hr₂
                  simp only [h]
                  exact agrees_pure (by rw [hspan]) hr₂
              | _ => exact hrefused hk
          | punctuation sign =>
              cases sign with
              | minus =>
                  dsimp only
                  refine (hstep hk rfl).agrees ?_
                  refine (expression_agrees unaryPower c₁.1 (by omega) hr₁).bind
                    (fun _ h => by simp only [h]) ?_
                  rintro ⟨e, c₂⟩ r₂ h hr₂
                  simp only [h]
                  exact agrees_pure (by rw [hspan]) hr₂
              | plus =>
                  dsimp only
                  refine (hstep hk rfl).agrees ?_
                  have hinner := expression_agrees unaryPower c₁.1 (n := n) (by omega) hr₁
                  cases h : Script.expression unaryPower c₁.1 <;> rw [h] at hinner <;> exact hinner
              | leftParen =>
                  dsimp only
                  refine (hstep hk rfl).agrees ?_
                  refine (expression_agrees 0 c₁.1 (by omega) hr₁).closed rfl
                    (fun _ h => by simp only [h]) (fun _ _ h h' => by simp only [h, h']) ?_
                  rintro ⟨e, c₂⟩ c₃ r₃ h h' hr₃
                  simp only [h, h']
                  exact agrees_pure rfl hr₃
              | leftBracket =>
                  dsimp only
                  refine (hstep hk rfl).agrees ?_
                  refine (items_agrees rightBracket c₁.1 (by omega) hr₁).closed rfl
                    (fun _ h => by simp only [h]) (fun _ _ h h' => by simp only [h, h']) ?_
                  rintro ⟨es, c₂⟩ c₃ r₃ h h' hr₃
                  simp only [h, h']
                  refine (yields_get _ r₃).agrees (agrees_pure ?_ hr₃)
                  rw [hspan, ← hr₃]
                  rfl
              | _ => exact hrefused hk
      | unknown c => exact hrefused hk
termination_by (c.size, 0)

-- Each operator that binds tightly enough takes a token and goes on. So the induction is on what is
-- left of the text, and the operand on the right is read at a later place.
theorem operators_agrees (floor : Nat) (left : Expr) (c : Cursor) {n : Nat} (hn : 3 * c.size < n)
    {r : Reader} (hr : r.cursor = c) :
    Agrees IsWord r (operators n floor left) (·.1) (·.2.1) (Script.operators floor left c) := by
  rcases exists_round hn with ⟨n, rfl, hn⟩
  rw [Script.operators, operators]
  refine (yields_get _ r).agrees ?_
  cases htake : c.take? with
  | none =>
      rw [if_pos (atEnd_of_take? hr htake)]
      exact agrees_pure rfl hr
  | some taken =>
      rcases taken with ⟨t, c₁⟩
      rcases faces_of_take? hr htake with ⟨hfaces, hr₁⟩
      have hless := c₁.2
      rw [hfaces.atEnd, if_neg Bool.false_ne_true, hfaces.kind, hfaces.isAt]
      dsimp only
      cases hop : BinaryOp.ofKind? t.kind with
      | some op =>
          dsimp only
          split
          · exact agrees_pure rfl hr
          -- The operator binds tightly enough: an operand, and then the operators behind it.
          · refine (yields_bump hfaces (isWord_of_operator hop)).agrees ?_
            refine (expression_agrees op.power c₁.1 (by omega) hr₁).bind
              (fun _ h => by simp only [h]) ?_
            rintro ⟨right, c₂⟩ r₂ h hr₂
            have hless' := c₂.2
            simp only [h]
            have hrest := operators_agrees floor
              (.binary op left right (left.span.through right.span)) c₂.1 (n := n) (by omega) hr₂
            cases h' : Script.operators floor
              (.binary op left right (left.span.through right.span)) c₂.1 <;>
              rw [h'] at hrest <;> exact hrest
      | none =>
          dsimp only
          split
          -- An index, with an expression up to the closing bracket.
          · next hbracket =>
              rw [Bool.and_eq_true] at hbracket
              have hk := isMark_eq_true_iff.mp hbracket.1
              refine (yields_bump hfaces (isWord_of_kind hk rfl)).agrees ?_
              refine (expression_agrees 0 c₁.1 (by omega) hr₁).closed rfl
                (fun _ h => by simp only [h]) (fun _ _ h h' => by simp only [h, h']) ?_
              rintro ⟨position, c₂⟩ c₃ r₃ h h' hr₃
              simp only [h, h']
              refine (yields_get _ r₃).agrees ?_
              have hless' : c₃.1.size < c.size := (c₁.andThen (c₂.andThen c₃.atMost).atMost).2
              have hlast : r₃.prevSpan = c₃.1.last := congrArg Cursor.last hr₃
              rw [hlast]
              have hrest := operators_agrees floor
                (.index left position (left.span.through c₃.1.last)) c₃.1 (n := n) (by omega) hr₃
              cases h'' : Script.operators floor
                (.index left position (left.span.through c₃.1.last)) c₃.1 <;>
                rw [h''] at hrest <;> exact hrest
          · exact agrees_pure rfl hr
termination_by (c.size, 0)

-- An item takes at least one token, so the items behind a comma begin later.
theorem items_agrees (closing : Mark) (c : Cursor) {n : Nat} (hn : 3 * c.size + 2 < n)
    {r : Reader} (hr : r.cursor = c) :
    Agrees IsWord r (items n closing) (·.1) (·.2.1) (Script.items closing c) := by
  rcases exists_round hn with ⟨n, rfl, hn⟩
  rw [Script.items, items]
  refine (yields_get _ r).agrees ?_
  rw [← isAt_cursor, hr]
  split
  · exact agrees_pure rfl hr
  · refine (expression_agrees 0 c (by omega) hr).bind (fun _ h => by simp only [h]) ?_
    rintro ⟨e, c₁⟩ r₁ h hr₁
    have hless := c₁.2
    simp only [h]
    cases hskip : c₁.1.skip? comma with
    | none =>
        refine (yields_noSkip hr₁ (by decide) hskip).agrees ?_
        exact agrees_pure rfl hr₁
    | some c₂ =>
        rcases yields_skip hr₁ hskip (fun t ht => isWord_of_kind ht rfl) with ⟨hcomma, hr₂⟩
        refine hcomma.agrees ?_
        rw [if_pos rfl]
        have hless' := c₂.2
        refine (items_agrees closing c₂.1 (by omega) hr₂).bind (fun _ h => by simp only [h]) ?_
        rintro ⟨es, c₃⟩ r₃ h' hr₃
        simp only [h']
        exact agrees_pure rfl hr₃
termination_by (c.size, 2)

end

/-! ## One diagnosis -/

theorem size_cursor_le (r : Reader) : r.cursor.size ≤ r.tokens.length := by
  rw [Cursor.size, cursor, List.length_drop]
  exact Nat.sub_le _ _

/-- Reading an expression ends, with the expression that the parser reads or with one fault. -/
theorem expression_settles (floor : Nat) (r : Reader) {n : Nat} (hn : 3 * r.tokens.length + 1 < n) :
    ∃ answer r', (expression n floor).run.run r = some (answer, r') ∧
      answer = ((Script.expression floor r.cursor).map Prod.fst).toOption ∧
      ((∃ e, answer = some e ∧ r'.faults = r.faults ∧ r.pos < r'.pos) ∨
        answer = none ∧ ∃ fault, r'.faults = r.faults ++ [fault] ∧ r'.IsAbout fault) := by
  have hsize := r.size_cursor_le
  have h := expression_agrees floor r.cursor (n := n) (by omega) rfl
  cases hread : Script.expression floor r.cursor with
  | error fault =>
      rw [hread] at h
      rcases h with ⟨r', h'⟩
      exact ⟨none, r', h'.run, rfl, Or.inr ⟨rfl, fault, h'.faults, h'.about⟩⟩
  | ok found =>
      rw [hread] at h
      rcases h with ⟨r', h', hr'⟩
      have hless : r'.cursor.size < r.cursor.size := by
        rw [hr']
        exact found.2.2
      exact ⟨some found.1, r', h'.run, rfl,
        Or.inl ⟨found.1, rfl, h'.faults, pos_lt_of_size_lt h'.way.tokens hless⟩⟩

/-- The expression at the start of a token list is the one that the parser reads. -/
theorem parseExpression_eq {n : Nat} {tokens : List Token} (hn : 3 * tokens.length + 1 < n) :
    parseExpression n tokens =
      some ((Script.parseExpression tokens).mapError fun fault => .noted fault.error) := by
  have h := expression_agrees 0 (.start tokens) hn (r := start tokens) rfl
  rw [parseExpression, Script.parseExpression]
  cases hread : Script.expression 0 (.start tokens) with
  | error fault =>
      rw [hread] at h
      rcases h with ⟨r', h'⟩
      rw [h'.run, Option.map_some]
      dsimp only
      rw [h'.faults]
      rfl
  | ok found =>
      rw [hread] at h
      rcases h with ⟨r', h', _⟩
      rw [h'.run, Option.map_some]
      dsimp only
      rw [h'.faults]
      rfl

-- An expression alone is accepted only without a fault.
theorem verdict_eq_ok_iff {answer : Option Expr} {faults : List Fault} {e : Expr} :
    verdict answer faults = .ok e ↔ answer = some e ∧ faults = [] := by
  cases answer <;> cases faults <;> simp [verdict]

/-- Reading an expression from any position ends, within three rounds for each token. It comes to
    the expression that the parser reads, further on and with nothing noted, or gives up with one
    fault noted, about the token at which it is then. So the expression at the start of a token list
    is there exactly if nothing was noted, and without one it is said why. -/
theorem expression_diagnosed (tokens : List Token) (n : Nat) (hn : 3 * tokens.length + 2 ≤ n) :
    (∀ pos floor faults, ∃ answer r,
      (expression n floor).run.run ⟨tokens, pos, faults⟩ = some (answer, r) ∧
      answer = ((Script.expression floor (cursor ⟨tokens, pos, faults⟩)).map Prod.fst).toOption ∧
      ((∃ e, answer = some e ∧ r.faults = faults ∧ pos < r.pos) ∨
        answer = none ∧ ∃ fault, r.faults = faults ++ [fault] ∧ r.IsAbout fault)) ∧
    parseExpression n tokens =
      some ((Script.parseExpression tokens).mapError fun fault => .noted fault.error) ∧
    parseExpression n tokens ≠ some (.error .invalid) ∧
    ∀ e, parseExpression n tokens = some (.ok e) ↔
      ∃ r, (expression n 0).run.run (start tokens) = some (some e, r) ∧ r.faults = [] := by
  refine ⟨fun pos floor faults => expression_settles floor ⟨tokens, pos, faults⟩ hn,
    parseExpression_eq hn, ?_, fun e => ?_⟩
  · rw [parseExpression_eq hn]
    cases Script.parseExpression tokens <;> simp [Except.mapError]
  · rw [parseExpression]
    cases (expression n 0).run.run (start tokens) <;> simp [verdict_eq_ok_iff, Prod.ext_iff]

/-- A call without its closing is given up at the end of the tokens, with one fault. -/
theorem expression_diagnosed_unclosed : ∃ tokens r fault,
    tokens.map Token.kind = [.name "f", .mark leftParen, .int 1, .mark .endOfInput] ∧
      3 * tokens.length + 2 ≤ 14 ∧ (expression 14 0).run.run (start tokens) = some (none, r) ∧
      r.faults = [fault] ∧ r.IsAbout fault := by
  have hread : ∃ tokens r, tokens.map Token.kind =
        [.name "f", .mark leftParen, .int 1, .mark .endOfInput] ∧
      tokens.length = 4 ∧ (expression 14 0).run.run (start tokens) = some (none, r) :=
    ⟨[⟨.name "f", .nowhere⟩, ⟨.mark leftParen, .nowhere⟩, ⟨.int 1, .nowhere⟩,
      ⟨.mark .endOfInput, .nowhere⟩], _, rfl, rfl, rfl⟩
  rcases hread with ⟨tokens, r, hkinds, hlength, hrun⟩
  have hn : 3 * tokens.length + 2 ≤ 14 := by omega
  rcases (expression_diagnosed tokens 14 hn).1 0 0 [] with ⟨answer, r', hrun', _, hanswer⟩
  have hsame := hrun.symm.trans hrun'
  rw [Option.some.injEq, Prod.mk.injEq] at hsame
  rcases hsame with ⟨rfl, rfl⟩
  rcases hanswer with ⟨e, he, _⟩ | ⟨_, fault, hfaults, habout⟩
  · cases he
  · exact ⟨tokens, r, fault, hkinds, hn, hrun, hfaults, habout⟩

end Reader

end Script

end Farmhand
