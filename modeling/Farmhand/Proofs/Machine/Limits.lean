import Farmhand.Proofs.Machine.Strokes

/-!
# The Limits Are Exact

Two limits keep a run from going on forever, on the calls under way and on the turns of a `while`
loop. This module says when they are reached, at the boundary itself. A subroutine is refused where
as many calls are under way as there may be, and else it is entered. A loop is refused where its
condition comes out true once more than its body may run, and else the body is entered.

A loop is known by what is pending around it. Conditions and bodies call subroutines, which have
loops of their own or run the same loop again, and each of these has its own turns; but whatever
they do, they do it on top of the test or of the turn that is pending, and come back to it once.
So the execution of a loop is followed from its statement until something comes back to what is
pending around it. The turns that the machine counts are then those that are counted from outside,
by how often the condition came out true and how often the body was entered.

## Main definitions

* `Machine.Loop`: An execution of a `while` statement.
* `Machine.Loop.Affirms`, `Machine.Loop.Enters`, `Machine.Loop.Returns`: Its condition has come out
  true, its body is entered, and it is over.
* `Machine.Loop.Runs`: How often the first two have happened, up to some state.
* `Machine.Loop.Stage`: Where a loop is, by how often they have happened.
* `Machine.Loop.Exact`: What is true of a loop in any state.
* `Machine.CallsExact`: What is true of the calls under way in any state.

## Theorems

* `Machine.Loop.Stage.next`: A step leads to the next stage.
* `Machine.Loop.Runs.stage`: A loop is at some stage until it is over.
* `Machine.Loop.Runs.exact`: The limit of turns is exact.
* `Machine.callsExact`: So is the limit of calls.
-/

namespace Farmhand

open Script

namespace Machine

/-! ## Loops from outside -/

/-- An execution of a `while` statement: its condition, its body and what is pending around it. -/
structure Loop where
  condition : Expr
  body : Block
  around : Stack .flow

namespace Loop

variable (l : Loop)

/-- What is pending while the condition is evaluated, after some turns. -/
def test (turns : Nat) : Stack .value :=
  .pend (.whileTest l.condition l.body turns) l.around

/-- What is pending while the body runs, after some turns. -/
def turn (turns : Nat) : Stack .flow :=
  .pend (.whileBody l.condition l.body turns) l.around

/-- The condition has come out true. -/
def Affirms (m : Machine) : Prop :=
  ∃ turns v i, Value.truthy v = true ∧ m = ofResult (l.test turns) i (.ok v)

/-- The body is entered. -/
def Enters (m : Machine) : Prop :=
  ∃ turns i, m = ⟨_, .block l.body, l.turn turns, i⟩

/-- The loop is over: there is a result for what is pending around it. -/
def Returns (m : Machine) : Prop :=
  ∃ r i, m = ofResult l.around i r

/-- The states of a loop from its beginning on, whatever happens to the engine between its steps,
    with how often the condition has come out true and how often the body was entered. -/
inductive Runs (start : Machine) : Nat → Nat → Machine → Prop
  | begins : Runs start 0 0 start
  | goes {truths entries : Nat} {m m' : Machine} (h : Runs start truths entries m)
      (hon : ¬ l.Returns m) (hnext : Follows m' m) (htruth : ¬ l.Affirms m')
      (hentry : ¬ l.Enters m') : Runs start truths entries m'
  | affirms {truths entries : Nat} {m m' : Machine} (h : Runs start truths entries m)
      (hon : ¬ l.Returns m) (hnext : Follows m' m) (htruth : l.Affirms m') :
      Runs start (truths + 1) entries m'
  | enters {truths entries : Nat} {m m' : Machine} (h : Runs start truths entries m)
      (hon : ¬ l.Returns m) (hnext : Follows m' m) (hentry : l.Enters m') :
      Runs start truths (entries + 1) m'

/-! ## Stages -/

/-- Where a loop with a limit is, by how often its condition has come out true and how often its
    body was entered. -/
inductive Stage (limit : Nat) : Nat → Nat → Machine → Prop
  | before {span : Span} {i : Interpreter} :
      Stage limit 0 0 ⟨_, .execute (.whileLoop l.condition l.body span), l.around, i⟩
  | head {turns : Nat} {i : Interpreter} (hle : turns ≤ limit) :
      Stage limit turns turns ⟨_, .whileLoop l.condition l.body turns, l.around, i⟩
  | test {turns : Nat} {m : Machine} (hle : turns ≤ limit) (hbelow : (l.test turns).Below m.stack)
      (hno : ¬ l.Affirms m) : Stage limit turns turns m
  | affirmed {turns : Nat} {v : Value} {i : Interpreter} (hle : turns ≤ limit)
      (hv : v.truthy = true) :
      Stage limit (turns + 1) turns (ofResult (l.test turns) i (.ok v))
  | block {turns : Nat} {rest : Block} {i : Interpreter} (hlt : turns < limit)
      (hrest : rest.length ≤ l.body.length) :
      Stage limit (turns + 1) (turns + 1) ⟨_, .block rest, l.turn turns, i⟩
  | inside {turns : Nat} {rest : Block} {m : Machine} (hlt : turns < limit)
      (hrest : rest.length < l.body.length)
      (hbelow : (Stack.pend (.sequence rest) (l.turn turns)).Below m.stack) :
      Stage limit (turns + 1) (turns + 1) m
  | turned {turns : Nat} {r : Except Failure Flow} {i : Interpreter} (hlt : turns < limit) :
      Stage limit (turns + 1) (turns + 1) (ofResult (k := .flow) (l.turn turns) i r)
  | finished {truths entries : Nat} {r : Except Failure Flow} {i : Interpreter}
      (hentries : entries ≤ limit) (htruths : truths ≤ limit + 1) :
      Stage limit truths entries (ofResult (k := .flow) l.around i r)

/-- What is true of a loop with a limit in any state, by how often its condition has come out true
    and how often its body was entered. -/
structure Exact (limit truths entries : Nat) (m : Machine) : Prop where
  entries_le : entries ≤ limit
  truths_le : truths ≤ limit + 1
  /-- Up to the limit, the body is entered when the condition has come out true. -/
  enters : l.Affirms m → truths ≤ limit → ∀ m', Follows m' m → l.Enters m'
  /-- When it has come out true once more, the loop fails. -/
  refuses : l.Affirms m → truths = limit + 1 → ∀ m', Follows m' m →
    m' = ofResult l.around m.interpreter (.error (.loopLimit limit))
  /-- It fails by the limit in no other way, unless a failure is passed on. -/
  raises : ¬ l.Returns m → ∀ m' n, Follows m' m → l.Returns m' → m.Raises (.loopLimit n) m' →
    l.Affirms m ∧ truths = limit + 1
  /-- It does not fail when its condition does not come out true, or its body ends it. -/
  ends : ∀ turns i m', Follows m' m →
    (∀ v, v.truthy = false → m = ofResult (l.test turns) i (.ok v) →
      m' = ofResult l.around i (.ok .normal)) ∧
    (m = ofResult (k := .flow) (l.turn turns) i (.ok .broken) →
      m' = ofResult l.around i (.ok .normal)) ∧
    ∀ v, m = ofResult (k := .flow) (l.turn turns) i (.ok (.returned v)) →
      m' = ofResult l.around i (.ok (.returned v))

variable {l} {m m' : Machine} {limit truths entries turns : Nat} {i : Interpreter}

-- A state is one of these at most, since a condition has a value and a loop has a flow.
theorem not_affirms {c : Control .flow} {stack : Stack .flow} : ¬ l.Affirms ⟨_, c, stack, i⟩ := by
  rintro ⟨_, _, _, _, h⟩
  cases h

theorem not_enters_ofResult {k : Kind} {stack : Stack k} {r : Except Failure k.Result} :
    ¬ l.Enters (ofResult stack i r) := by
  rintro ⟨_, _, h⟩
  cases h

theorem Returns.quiet (h : l.Returns m) : ¬ l.Affirms m ∧ ¬ l.Enters m := by
  rcases h with ⟨r, i, rfl⟩
  exact ⟨not_affirms, not_enters_ofResult⟩

theorem Affirms.not_enters (h : l.Affirms m) : ¬ l.Enters m := by
  rcases h with ⟨turns, v, i, _, rfl⟩
  exact not_enters_ofResult

-- What has more pending than a test or a turn of a loop is none of these.
theorem quiet_of_below {k : Kind} {base : Stack k}
    (hheight : l.around.height + 1 < base.height) (hbelow : base.Below m.stack) :
    ¬ l.Affirms m ∧ ¬ l.Enters m ∧ ¬ l.Returns m := by
  have hnone : ∀ {k : Kind} {stack : Stack k}, stack.height ≤ l.around.height + 1 →
      ¬ base.Below stack :=
    fun hle => Stack.not_below (Nat.lt_of_le_of_lt hle hheight)
  refine ⟨?_, ?_, ?_⟩
  · rintro ⟨turns, v, i, _, rfl⟩
    exact hnone (Nat.le_refl _) hbelow
  · rintro ⟨turns, i, rfl⟩
    exact hnone (Nat.le_refl _) hbelow
  · rintro ⟨r, i, rfl⟩
    exact hnone (Nat.le_succ _) hbelow

theorem height_inside (rest : Block) :
    l.around.height + 1 < (Stack.pend (.sequence rest) (l.turn turns)).height :=
  Nat.lt_succ_self _

-- Over a pending test there is no other test of the loop.
theorem Affirms.of_below (h : l.Affirms m) (hbelow : (l.test turns).Below m.stack) :
    ∃ v i, Value.truthy v = true ∧ m = ofResult (l.test turns) i (.ok v) := by
  rcases h with ⟨turns', v, i, hv, rfl⟩
  unfold test at hbelow
  cases hbelow with
  | same => exact ⟨v, i, hv, rfl⟩
  | pend _ hbelow => exact absurd hbelow (Stack.not_below (Nat.lt_succ_self _))

-- While the condition of a loop is evaluated, its body is not entered.
theorem not_enters_of_below (hbelow : (l.test turns).Below m.stack) : ¬ l.Enters m := by
  rintro ⟨turns', i, rfl⟩
  unfold turn at hbelow
  cases hbelow with
  | pend _ hbelow => exact absurd hbelow (Stack.not_below (Nat.lt_succ_self _))

/-! ## From stage to stage -/

/-- A stage with what has happened on the way to it. -/
def Advances (l : Loop) (limit truths entries : Nat) (m : Machine) : Prop :=
  (¬ l.Affirms m ∧ ¬ l.Enters m ∧ l.Stage limit truths entries m) ∨
    (l.Affirms m ∧ l.Stage limit (truths + 1) entries m) ∨
    (l.Enters m ∧ l.Stage limit truths (entries + 1) m)

theorem advances_over {r : Except Failure Flow} (hentries : entries ≤ limit)
    (htruths : truths ≤ limit + 1) :
    l.Advances limit truths entries (ofResult (k := .flow) l.around i r) := by
  have hquiet := Returns.quiet (l := l) ⟨r, i, rfl⟩
  exact .inl ⟨hquiet.1, hquiet.2, .finished hentries htruths⟩

theorem advances_turned {r : Except Failure Flow} (hlt : turns < limit) :
    l.Advances limit (turns + 1) (turns + 1) (ofResult (k := .flow) (l.turn turns) i r) :=
  .inl ⟨not_affirms, not_enters_ofResult, .turned hlt⟩

theorem advances_head (hle : turns ≤ limit) :
    l.Advances limit turns turns ⟨_, .whileLoop l.condition l.body turns, l.around, i⟩ := by
  refine .inl ⟨not_affirms, ?_, .head hle⟩
  rintro ⟨_, _, h⟩
  cases h

-- The statement, and the beginning of a turn: the run may have been stopped.
theorem advances_before {span : Span}
    (hnext : Follows m' ⟨_, .execute (.whileLoop l.condition l.body span), l.around, i⟩) :
    l.Advances limit 0 0 m' := by
  rcases hnext with ⟨e, hm⟩
  simp only [next] at hm
  split at hm
  · rw [← Option.some.inj hm]
    exact advances_head (Nat.zero_le limit)
  · rw [← Option.some.inj hm]
    exact advances_over (Nat.zero_le _) (Nat.zero_le _)

-- At its head a loop that may go on looks at its condition.
theorem advances_of_head (hle : turns ≤ limit)
    (hnext : Follows m' ⟨_, .whileLoop l.condition l.body turns, l.around, i⟩) :
    l.Advances limit turns turns m' := by
  rcases hnext with ⟨e, hm⟩
  simp only [next] at hm
  split at hm
  · rw [← Option.some.inj hm]
    have hno : ¬ l.Affirms ⟨_, .evaluate l.condition, l.test turns, i⟩ := by
      rintro ⟨_, _, _, _, h⟩
      cases h
    exact .inl ⟨hno, not_enters_of_below .same, .test hle .same hno⟩
  · rw [← Option.some.inj hm]
    exact advances_over hle (Nat.le_succ_of_le hle)

-- While the condition is evaluated.
theorem advances_test (hle : turns ≤ limit) (hbelow : (l.test turns).Below m.stack)
    (hno : ¬ l.Affirms m) (hnext : Follows m' m) : l.Advances limit turns turns m' := by
  rcases hnext.stroke with ⟨_, hstroke⟩
  rcases hstroke.below hbelow with hstill | ⟨r, i, rfl⟩
  · have hentry := not_enters_of_below hstill
    by_cases htruth : l.Affirms m'
    · rcases htruth.of_below hstill with ⟨v, j, hv, rfl⟩
      exact .inr (.inl ⟨htruth, .affirmed hle hv⟩)
    · exact .inl ⟨htruth, hentry, .test hle hstill htruth⟩
  · rcases hnext with ⟨e, hm⟩
    cases r with
    | error f =>
        rw [← Option.some.inj hm]
        exact advances_over hle (Nat.le_succ_of_le hle)
    | ok v =>
        have hfalse : ¬ Value.truthy v = true := fun hv => hno ⟨turns, v, i, hv, rfl⟩
        rw [← Option.some.inj hm]
        simp only [Pending.resume]
        rw [if_neg hfalse]
        exact advances_over hle (Nat.le_succ_of_le hle)

-- When the condition has come out true.
theorem next_affirmed {v : Value} (hv : v.truthy = true)
    (hnext : Follows m' (ofResult (l.test turns) i (.ok v))) :
    m' = if i.settings.maxLoopIterations ≤ turns then
        ofResult l.around i (.error (.loopLimit i.settings.maxLoopIterations))
      else ⟨_, .block l.body, l.turn turns, i⟩ := by
  rcases hnext with ⟨e, hm⟩
  rw [← Option.some.inj hm]
  exact if_pos hv

theorem advances_affirmed {v : Value} (hlimit : i.settings.maxLoopIterations = limit)
    (hle : turns ≤ limit) (hv : v.truthy = true)
    (hnext : Follows m' (ofResult (l.test turns) i (.ok v))) :
    l.Advances limit (turns + 1) turns m' := by
  rw [next_affirmed hv hnext, hlimit]
  split
  · exact advances_over hle (Nat.succ_le_succ hle)
  · next hlt =>
    exact .inr (.inr ⟨⟨turns, i, rfl⟩, .block (Nat.lt_of_not_le hlt) (Nat.le_refl _)⟩)

-- In the body.
theorem advances_block {rest : Block} (hlt : turns < limit) (hrest : rest.length ≤ l.body.length)
    (hnext : Follows m' ⟨_, .block rest, l.turn turns, i⟩) :
    l.Advances limit (turns + 1) (turns + 1) m' := by
  rcases hnext with ⟨e, hm⟩
  rw [← Option.some.inj hm]
  cases rest with
  | nil => exact advances_turned hlt
  | cons s rest =>
      have hquiet := quiet_of_below (m := ⟨_, .execute s, .pend (.sequence rest) (l.turn turns), i⟩)
        (height_inside (l := l) rest) .same
      exact .inl ⟨hquiet.1, hquiet.2.1, .inside hlt hrest .same⟩

theorem advances_inside {rest : Block} (hlt : turns < limit) (hrest : rest.length < l.body.length)
    (hbelow : (Stack.pend (.sequence rest) (l.turn turns)).Below m.stack)
    (hnext : Follows m' m) : l.Advances limit (turns + 1) (turns + 1) m' := by
  rcases hnext.stroke with ⟨_, hstroke⟩
  rcases hstroke.below hbelow with hstill | ⟨r, i, rfl⟩
  · have hquiet := quiet_of_below (height_inside rest) hstill
    exact .inl ⟨hquiet.1, hquiet.2.1, .inside hlt hrest hstill⟩
  · rcases hnext with ⟨e, hm⟩
    cases r with
    | error f =>
        rw [← Option.some.inj hm]
        exact advances_turned hlt
    | ok flow =>
        rw [← Option.some.inj hm]
        cases flow with
        | normal =>
            -- What is left of the body is shorter, so this is no new turn.
            have hentry : ¬ l.Enters ⟨_, .block rest, l.turn turns, i⟩ := by
              rintro ⟨turns', i', h⟩
              injection h with _ hcontrol
              rw [Control.block.inj hcontrol] at hrest
              exact Nat.lt_irrefl _ hrest
            exact .inl ⟨not_affirms, hentry, .block hlt (Nat.le_of_lt hrest)⟩
        | broken => exact advances_turned hlt
        | continued => exact advances_turned hlt
        | returned v => exact advances_turned hlt

/-- Behind its body a loop is one turn further, whether the body came to its end or went on early.
    -/
theorem advances_of_turned {r : Except Failure Flow} (hlt : turns < limit)
    (hnext : Follows m' (ofResult (k := .flow) (l.turn turns) i r)) :
    l.Advances limit (turns + 1) (turns + 1) m' := by
  have hover : ∀ r : Except Failure Flow,
      l.Advances limit (turns + 1) (turns + 1) (ofResult (k := .flow) l.around i r) :=
    fun r => advances_over hlt (Nat.le_succ_of_le hlt)
  rcases hnext with ⟨e, hm⟩
  cases r with
  | error f =>
      rw [← Option.some.inj hm]
      exact hover _
  | ok flow =>
      rw [← Option.some.inj hm]
      cases flow with
      | normal => exact advances_head hlt
      | continued => exact advances_head hlt
      | broken => exact hover _
      | returned v => exact hover _

/-- A step of a loop leads to the next stage, and to a test that came out true or into the body as
    that stage says. -/
theorem Stage.next (h : l.Stage limit truths entries m) (hon : ¬ l.Returns m)
    (hlimit : m.interpreter.settings.maxLoopIterations = limit) (hnext : Follows m' m) :
    l.Advances limit truths entries m' := by
  cases h with
  | before => exact advances_before hnext
  | head hle => exact advances_of_head hle hnext
  | test hle hbelow hno => exact advances_test hle hbelow hno hnext
  | affirmed hle hv => exact advances_affirmed hlimit hle hv hnext
  | block hlt hrest => exact advances_block hlt hrest hnext
  | inside hlt hrest hbelow => exact advances_inside hlt hrest hbelow hnext
  | turned hlt => exact advances_of_turned hlt hnext
  | finished => exact absurd ⟨_, _, rfl⟩ hon

/-- A loop is at some stage until it is over. -/
theorem Runs.stage {span : Span} (h : l.Runs
      ⟨_, .execute (.whileLoop l.condition l.body span), l.around, i⟩ truths entries m) :
    m.interpreter.settings = i.settings ∧
      l.Stage i.settings.maxLoopIterations truths entries m := by
  have hadvances : ∀ {truths entries m m'}, m.interpreter.settings = i.settings ∧
      l.Stage i.settings.maxLoopIterations truths entries m → ¬ l.Returns m → Follows m' m →
        m'.interpreter.settings = i.settings ∧
          l.Advances i.settings.maxLoopIterations truths entries m' :=
    fun hm hon hnext => ⟨hnext.stroke.choose_spec.settings.trans hm.1,
      hm.2.next hon (congrArg Settings.maxLoopIterations hm.1) hnext⟩
  induction h with
  | begins => exact ⟨rfl, .before⟩
  | goes _ hon hnext htruth hentry ih =>
      rcases hadvances ih hon hnext with ⟨hsettings, ⟨_, _, hm⟩ | ⟨hno, _⟩ | ⟨hno, _⟩⟩
      · exact ⟨hsettings, hm⟩
      · exact absurd hno htruth
      · exact absurd hno hentry
  | affirms _ hon hnext htruth ih =>
      rcases hadvances ih hon hnext with ⟨hsettings, ⟨hno, _⟩ | ⟨_, hm⟩ | ⟨hno, _⟩⟩
      · exact absurd htruth hno
      · exact ⟨hsettings, hm⟩
      · exact absurd hno htruth.not_enters
  | enters _ hon hnext hentry ih =>
      rcases hadvances ih hon hnext with ⟨hsettings, ⟨_, hno, _⟩ | ⟨hno, _⟩ | ⟨_, hm⟩⟩
      · exact absurd hentry hno
      · exact absurd hentry hno.not_enters
      · exact ⟨hsettings, hm⟩

/-! ## The limit of turns -/

-- The condition comes out true once for every turn before, and once more.
theorem Stage.of_test {v : Value} {condition : Expr} {body : Block}
    (h : l.Stage limit truths entries
      (ofResult (.pend (.whileTest condition body turns) l.around) i (.ok v)))
    (hv : v.truthy = true) :
    condition = l.condition ∧ body = l.body ∧ truths = turns + 1 ∧ entries = turns ∧
      turns ≤ limit := by
  generalize hm : ofResult (.pend (.whileTest condition body turns) l.around) i (.ok v) = m at h
  cases h with
  | test hle hbelow hno =>
      rw [← hm] at hbelow hno
      unfold Loop.test at hbelow
      cases hbelow with
      | same => exact absurd ⟨_, v, i, hv, rfl⟩ hno
      | pend _ hbelow => exact absurd hbelow (Stack.not_below (Nat.lt_succ_self _))
  | affirmed hle _ =>
      unfold Loop.test at hm
      injection hm with _ _ hstack
      injection hstack with _ _ hpending
      injection hpending with hcondition hbody hturns
      exact ⟨hcondition, hbody, congrArg (· + 1) hturns.symm, hturns.symm, hturns ▸ hle⟩
  | inside hlt hrest hbelow =>
      rw [← hm] at hbelow
      exact absurd hbelow (Stack.not_below (height_inside _))
  | _ => cases hm

theorem Stage.bounded (h : l.Stage limit truths entries m) :
    entries ≤ limit ∧ truths ≤ limit + 1 := by
  cases h with
  | before => exact ⟨Nat.zero_le _, Nat.zero_le _⟩
  | head hle => exact ⟨hle, Nat.le_succ_of_le hle⟩
  | test hle => exact ⟨hle, Nat.le_succ_of_le hle⟩
  | affirmed hle => exact ⟨hle, Nat.succ_le_succ hle⟩
  | block hlt => exact ⟨hlt, Nat.le_succ_of_le hlt⟩
  | inside hlt => exact ⟨hlt, Nat.le_succ_of_le hlt⟩
  | turned hlt => exact ⟨hlt, Nat.le_succ_of_le hlt⟩
  | finished hentries htruths => exact ⟨hentries, htruths⟩

/-- The counts at a stage are exact: the limit is compared with the turns, and the turns are the
    times that the body was entered. -/
theorem Stage.exact (h : l.Stage limit truths entries m)
    (hlimit : m.interpreter.settings.maxLoopIterations = limit) :
    l.Exact limit truths entries m where
  entries_le := h.bounded.1
  truths_le := h.bounded.2
  enters := by
    rintro ⟨turns, v, i, hv, rfl⟩ htruths m' hnext
    rcases h.of_test hv with ⟨_, _, heq, _, _⟩
    rw [next_affirmed hv hnext, if_neg (by rw [hlimit]; omega)]
    exact ⟨turns, i, rfl⟩
  refuses := by
    rintro ⟨turns, v, i, hv, rfl⟩ htruths m' hnext
    rcases h.of_test hv with ⟨_, _, heq, _, _⟩
    rw [next_affirmed hv hnext, if_pos (by rw [hlimit]; omega), hlimit]
  raises := by
    rintro hon m' n hnext ⟨r, j, hm'⟩ hraises
    rcases hnext.stroke with ⟨_, hstroke⟩
    rcases hstroke.raises hraises trivial with ⟨_, _, _, _, _, _, _, hno⟩ |
      ⟨condition, body, turns, v, stack, i, rfl, hover, hv, hle, _⟩ | ⟨_, _, hno⟩
    · cases hno
    · rw [hm'] at hover
      injection hover with _ _ hstack
      rw [← hstack] at h ⊢
      rcases h.of_test hv with ⟨rfl, rfl, heq, _, hturns⟩
      have hlast : limit ≤ turns := hlimit ▸ hle
      exact ⟨⟨turns, v, i, hv, rfl⟩, by omega⟩
    · cases hno
  ends := by
    rintro turns i m' ⟨e, hm⟩
    refine ⟨?_, ?_, ?_⟩
    · rintro v hv rfl
      rw [← Option.some.inj hm]
      exact if_neg (Bool.eq_false_iff.mp hv)
    · rintro rfl
      exact (Option.some.inj hm).symm
    · rintro v rfl
      exact (Option.some.inj hm).symm

/-- The limit of turns is exact for every execution of a loop, in every state of it. -/
theorem Runs.exact {span : Span} (h : l.Runs
      ⟨_, .execute (.whileLoop l.condition l.body span), l.around, i⟩ truths entries m) :
    l.Exact i.settings.maxLoopIterations truths entries m :=
  h.stage.2.exact (congrArg Settings.maxLoopIterations h.stage.1)

/-- Whatever comes of a loop is a state of it, or the loop is over. -/
theorem Runs.follows {start : Machine} (h : l.Runs start truths entries m) (hon : ¬ l.Returns m)
    (hnext : Follows m' m) : ∃ truths entries, l.Runs start truths entries m' := by
  by_cases htruth : l.Affirms m'
  · exact ⟨_, _, h.affirms hon hnext htruth⟩
  · by_cases hentry : l.Enters m'
    · exact ⟨_, _, h.enters hon hnext hentry⟩
    · exact ⟨_, _, h.goes hon hnext htruth hentry⟩

end Loop

/-! ## The limit of calls -/

/-- What is true of a machine with a limit of calls in any state. -/
structure CallsExact (limit : Nat) (m : Machine) : Prop where
  calls_le : m.interpreter.frames.length ≤ limit
  /-- A subroutine is refused where as many calls are under way as there may be, and nothing is done
      for it. Else its body begins, in a call of its own. -/
  subroutine : ∀ name s args stack i e, m = ⟨_, .subroutine name s args, stack, i⟩ → m.next e =
    if i.frames.length = limit then .on (ofResult stack i (.error (.callDepth limit))) e
    else .on ⟨_, .block s.body, .body name stack,
      { i with frames := ⟨name, s.lines, Step.initialLocals name args⟩ :: i.frames }⟩ e
  /-- No other step fails by the limit, unless a failure is passed on. -/
  raises : ∀ m' n, Follows m' m → m.Raises (.callDepth n) m' →
    (∃ name s args stack i, m = ⟨_, .subroutine name s args, stack, i⟩) ∧
      m.interpreter.frames.length = limit ∧ n = limit

/-- The limit of calls is exact in every state in which the calls under way do not exceed it. -/
theorem callsExact {m : Machine} {limit : Nat}
    (hlimit : m.interpreter.settings.maxCallDepth = limit)
    (hle : m.interpreter.frames.length ≤ limit) : m.CallsExact limit where
  calls_le := hle
  subroutine := by
    rintro name s args stack i e rfl
    subst hlimit
    simp only [next, ofSubroutine]
    split
    · next hfull => rw [if_pos (Nat.le_antisymm hle hfull)]
    · next hroom => rw [if_neg fun heq => hroom (Nat.le_of_eq heq.symm)]
  raises := by
    intro m' n hnext hraises
    rcases hnext.stroke with ⟨_, hstroke⟩
    rcases hstroke.raises hraises trivial with ⟨name, s, args, stack, i, rfl, hfull, hdepth⟩ |
      ⟨_, _, _, _, _, _, _, _, _, _, hno⟩ | ⟨_, _, hno⟩
    · subst hlimit
      exact ⟨⟨name, s, args, stack, i, rfl⟩, Nat.le_antisymm hle hfull,
        Failure.callDepth.inj hdepth⟩
    · cases hno
    · cases hno

end Machine

end Farmhand
