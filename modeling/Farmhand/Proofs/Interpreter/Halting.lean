import Farmhand.Proofs.Interpreter.Composition

/-!
# Steps that Come to an End

What becomes of a step whose interpreter is stopped while it waits. It goes on from there when its
wait is over, and comes to an end at once if nothing behind the wait does anything in a stopped
interpreter. A walk fails, since no motion under way reaches its target; a wait or a pause is simply
over.

One step after another comes to an end if the first fails after a stop, or if the second does
nothing in a stopped interpreter. So a look at whether the interpreter may go on shelters everything
behind it.

## Main definitions

* `Process.Halts`: A process that does no more than come to an end when it was stopped.
* `Step.Halts`: The same of a step.
* `Step.Still`: A step that does nothing in a stopped interpreter.
* `Step.Instant`, `Step.Idle`: A step that never waits, and one that also leaves the engine alone.

## Theorems

* `Step.Halts.bind`, `Step.Still.bind`: One step after another.
* `Step.still_guarded`: A look at whether the interpreter may go on ends everything behind it.
* `Step.halts_visit`: A walk that was stopped fails.
-/

namespace Farmhand

open Script

namespace Interpreter

/-- A later state of the same interpreter, with the same subroutines. -/
structure Akin (i j : Interpreter) : Prop where
  handle : j.handle = i.handle
  subroutines : j.subroutines = i.subroutines

theorem Akin.trans {i j k : Interpreter} (h : i.Akin j) (h' : j.Akin k) : i.Akin k :=
  ⟨h'.handle.trans h.handle, h'.subroutines.trans h.subroutines⟩

theorem Kin.akin {i j : Interpreter} (h : i.Kin j) : i.Akin j :=
  ⟨h.handle, h.subroutines⟩

end Interpreter

/-! ## Processes that come to an end -/

/-- Wherever a process waits, it goes on in an interpreter that was stopped meanwhile by coming to
    an end at once, with a result of some kind, and leaves the engine as it is. Results are wanted
    ones, and the interpreter stays the same. -/
def Process.Halts {α : Type} (base : Interpreter) (ends : Except Failure α → Prop) (Q : α → Prop) :
    Process (Except Failure α × Interpreter) → Prop
  | done r _ => base.Akin r.2 ∧ ∀ a, r.1 = .ok a → Q a
  | wait _ e resume =>
    (∀ e', e'.isRunning base.handle = false → e.motionEpoch < e'.motionEpoch →
      ∃ r, resume e' = done r e' ∧ ends r.1) ∧
    ∀ e', Halts base ends Q (resume e')

namespace Step

variable {α β : Type} {base : Interpreter}

/-- The same of a step, in every state of an interpreter. -/
def Halts (base : Interpreter) (ends : Except Failure α → Prop) (Q : α → Prop) (s : Step α) :
    Prop :=
  ∀ i e, base.Akin i → (s i e).Halts base ends Q

/-- In an interpreter that was stopped, a step does nothing and comes to an end. -/
def Still (base : Interpreter) (ends : Except Failure α → Prop) (s : Step α) : Prop :=
  ∀ i e, base.Akin i → e.isRunning base.handle = false →
    ∃ r, s i e = .done r e ∧ base.Akin r.2 ∧ ends r.1

/-- A step that never waits. -/
def Instant (base : Interpreter) (Q : α → Prop) (s : Step α) : Prop :=
  ∀ i e, base.Akin i → ∃ r e', s i e = .done r e' ∧ base.Akin r.2 ∧ ∀ a, r.1 = .ok a → Q a

/-- A step that leaves the engine as it is and does not wait, whether the interpreter was stopped or
    not. -/
def Idle (base : Interpreter) (s : Step α) : Prop :=
  ∀ i e, base.Akin i → ∃ r, s i e = .done r e ∧ base.Akin r.2

-- A step that does not wait has no wait to be stopped in.
theorem Instant.halts {Q : α → Prop} {s : Step α} (h : s.Instant base Q)
    (ends : Except Failure α → Prop) : s.Halts base ends Q := by
  intro i e hi
  rcases h i e hi with ⟨r, e', hs, hr⟩
  rw [hs]
  exact hr

-- It may come to an end in more ways.
theorem Halts.mono {ends ends' : Except Failure α → Prop} {Q : α → Prop} {s : Step α}
    (hs : s.Halts base ends Q) (hends : ∀ r, ends r → ends' r) : s.Halts base ends' Q := by
  intro i e hi
  have hp := hs i e hi
  generalize s i e = p at hp ⊢
  induction p with
  | done r e₁ => exact hp
  | wait time e₁ resume ih =>
      refine ⟨fun e' hstopped hlater => ?_, fun e' => ih e' (hp.2 e')⟩
      rcases hp.1 e' hstopped hlater with ⟨r, hresume, hr⟩
      exact ⟨r, hresume, hends _ hr⟩

/-- One step after another comes to an end if the second does nothing wherever the first may
    succeed after a stop. -/
theorem Halts.bind {ends : Except Failure α → Prop} {ends' : Except Failure β → Prop}
    {Q : α → Prop} {Q' : β → Prop} {s : Step α} {next : α → Step β} (hs : s.Halts base ends Q)
    (hnext : ∀ a, Q a → (next a).Halts base ends' Q')
    (hstill : ∀ a, Q a → ends (.ok a) → (next a).Still base ends')
    (hfails : ∀ f, ends (.error f) → ends' (.error f)) :
    (Step.bind s next).Halts base ends' Q' := by
  intro i e hi
  unfold Step.bind
  rw [Process.andThen_eq_bind]
  have hp := hs i e hi
  generalize s i e = p at hp
  induction p with
  | done r e₁ =>
      rcases r with ⟨f | a, j⟩
      · exact ⟨hp.1, fun a ha => absurd ha (by simp)⟩
      · exact hnext a (hp.2 a rfl) j e₁ hp.1
  | wait time e₁ resume ih =>
      refine ⟨fun e' hstopped hlater => ?_, fun e' => ih e' (hp.2 e')⟩
      rcases hp.1 e' hstopped hlater with ⟨r, hresume, hends⟩
      have hr := hp.2 e'
      rw [hresume] at hr
      show ∃ r : Except Failure β × Interpreter, (resume e').bind _ = .done r e' ∧ ends' r.1
      rw [hresume]
      rcases r with ⟨f | a, j⟩
      · exact ⟨_, rfl, hfails f hends⟩
      · rcases hstill a (hr.2 a rfl) hends j e' hr.1 hstopped with ⟨r', hdone, _, hends'⟩
        exact ⟨r', hdone, hends'⟩

-- Nothing is done by a step that does nothing, and then by another one.
theorem Still.bind {ends : Except Failure β → Prop} {s : Step α} {next : α → Step β}
    (hs : s.Still base fun _ => True) (hnext : ∀ a, (next a).Still base ends)
    (hfails : ∀ f, ends (.error f)) : (Step.bind s next).Still base ends := by
  intro i e hi hstopped
  rcases hs i e hi hstopped with ⟨⟨r, j⟩, hdone, hj, _⟩
  unfold Step.bind
  rw [Process.andThen_eq_bind, hdone]
  cases r with
  | error f => exact ⟨_, rfl, hj, hfails f⟩
  | ok a => exact hnext a j e hj hstopped

/-! ## Steps that do not wait -/

section

variable {Q : α → Prop}

-- An idle step is both: it does not wait, and does nothing in a stopped interpreter.
theorem Idle.instant {s : Step α} (h : s.Idle base) : s.Instant base fun _ => True := by
  intro i e hi
  rcases h i e hi with ⟨r, hdone, hr⟩
  exact ⟨r, e, hdone, hr, fun _ _ => trivial⟩

theorem Idle.still {s : Step α} (h : s.Idle base) : s.Still base fun _ => True := by
  intro i e hi _
  rcases h i e hi with ⟨r, hdone, hr⟩
  exact ⟨r, hdone, hr, trivial⟩

-- Idle steps follow one another.
theorem Idle.bind {s : Step α} {next : α → Step β} (hs : s.Idle base)
    (hnext : ∀ a, (next a).Idle base) : (Step.bind s next).Idle base := by
  intro i e hi
  rcases hs i e hi with ⟨⟨r, j⟩, hdone, hj⟩
  unfold Step.bind
  rw [Process.andThen_eq_bind, hdone]
  cases r with
  | error f => exact ⟨_, rfl, hj⟩
  | ok a => exact hnext a j e hj

-- A step of the interpreter by itself does not look at the engine.
theorem idle_quiet (f : Interpreter → Except Failure α × Interpreter)
    (hkin : ∀ i : Interpreter, i.Kin (f i).2) : Idle base fun i e => .done (f i) e :=
  fun i _ hi => ⟨f i, rfl, hi.trans (hkin i).akin⟩

/-- Steps that leave the engine alone are put together from such steps. -/
theorem simple_idle : Simple fun _ s => Step.Idle base s where
  quiet f hassigned _ := idle_quiet f fun i => (hassigned i).kin
  bind := Idle.bind

theorem idle_pure (a : α) : (Step.pure a).Idle base :=
  simple_idle.pure a

theorem idle_fail (f : Failure) : (Step.fail f : Step α).Idle base :=
  idle_quiet (fun i => (.error f, i)) fun i => i.kin_self

theorem idle_resync : resync.Idle base := by
  intro i e hi
  unfold resync
  split
  · exact ⟨_, rfl, hi.trans ⟨rfl, rfl⟩⟩
  · exact ⟨_, rfl, hi⟩

theorem idle_checkIdle : checkIdle.Idle base := by
  intro i e hi
  unfold checkIdle
  split
  · exact ⟨_, rfl, hi⟩
  · exact ⟨_, rfl, hi⟩

theorem idle_checkRunning : checkRunning.Idle base :=
  fun _ _ hi => ⟨_, rfl, hi⟩

-- The other steps that do not wait may write to the log and to the actor.
theorem instant_pure {a : α} (ha : Q a) : (Step.pure a).Instant base Q :=
  fun _ e hi => ⟨_, e, rfl, hi, fun b hb => by rw [← Except.ok.inj hb]; exact ha⟩

theorem instant_fail (f : Failure) : (Step.fail f : Step α).Instant base Q :=
  fun _ e hi => ⟨_, e, rfl, hi, fun b hb => absurd hb (by simp)⟩

theorem instant_announce (s : Stmt) : (announce s).Instant base fun _ => True :=
  fun i _ hi => ⟨(.ok (), i), _, rfl, hi, fun _ _ => trivial⟩

theorem instant_announceCall (name : String) (args : List Value) (source : CallSource) :
    (announceCall name args source).Instant base fun _ => True :=
  fun i _ hi => ⟨(.ok (), i), _, rfl, hi, fun _ _ => trivial⟩

-- A charge writes to the world, but at once.
theorem instant_charge (s : Success) : (charge s).Instant base fun _ => True := by
  have hdebit : ∀ amount, (debit amount).Instant base fun _ => True := by
    intro amount i e hi
    unfold debit
    split
    · exact ⟨_, e, rfl, hi, fun _ _ => trivial⟩
    · refine ⟨_, _, rfl, ?_, fun _ _ => trivial⟩
      simp only
      split
      · exact hi.trans ⟨rfl, rfl⟩
      · exact hi
  unfold charge
  split
  · split
    · exact hdebit _
    · exact instant_pure trivial
  · exact instant_pure trivial

/-- A look at whether the interpreter may go on ends everything behind it. -/
theorem still_guarded {ends : Except Failure α → Prop} (hfails : ∀ f, ends (.error f))
    (next : Unit → Step α) : (Step.bind checkRunning next).Still base ends := by
  intro i e hi hstopped
  refine ⟨(.error .stopped, i), ?_, hi, hfails _⟩
  simp only [Step.bind, checkRunning, Process.andThen, hi.handle, hstopped]
  rfl

end

/-! ## Walks -/

-- A pause is simply over, stopped or not.
theorem halts_sleep (nanoseconds : Interpreter → Nat) {ends : Except Failure Unit → Prop}
    (hends : ends (.ok ())) :
    Halts base ends (fun _ => True) fun i => ofProcess (Process.sleep (nanoseconds i)) i := by
  intro i e hi
  unfold ofProcess Process.sleep
  simp only
  split
  · exact ⟨hi, fun _ _ => trivial⟩
  · exact ⟨fun e' _ _ => ⟨_, rfl, hends⟩, fun e' => ⟨hi, fun _ _ => trivial⟩⟩

/-- A motion that was stopped does not arrive. -/
theorem halts_motion (target : Position) :
    (motion target).Halts base (fun r => r = .ok false) fun _ => True := by
  intro i e hi
  have hends : ∀ epoch e', ∃ b e'', Process.arrival i.actor.id target epoch e' =
      .done (.ok b) e'' := by
    intro epoch e'
    rcases Process.arrival_cases i.actor.id target epoch e' with ⟨w, heq, _⟩ | ⟨heq, _⟩
    · exact ⟨true, _, heq⟩
    · exact ⟨false, _, heq⟩
  rw [motion_eq]
  rcases Process.move_begins i.actor.id target e with ⟨r, _, heq⟩ | ⟨a, time, _, _, _, heq⟩
  · rw [heq]
    exact ⟨hi, fun _ _ => trivial⟩
  · rw [heq]
    unfold Process.sleep
    -- Whatever the motion finds at its end, that is its end.
    split
    · rcases hends e.motionEpoch { e with moveRequests := e.moveRequests + 1 } with ⟨b, e', hend⟩
      simp only [Process.bind, hend]
      exact ⟨hi, fun _ _ => trivial⟩
    · refine ⟨fun e' _ hlater => ⟨(.ok false, i), ?_, rfl⟩, fun e' => ?_⟩
      · have hne : ¬ e'.motionEpoch = e.motionEpoch := Nat.ne_of_gt hlater
        simp only [Process.bind, Process.arrival, hne, if_false]
        rfl
      · rcases hends e.motionEpoch e' with ⟨b, e'', hend⟩
        simp only [Process.bind, hend]
        exact ⟨hi, fun _ _ => trivial⟩

-- A walk that was interrupted fails without a further wait.
theorem halts_interruptedAt (target : Position) {Q : Unit → Prop} :
    (interruptedAt target).Instant base Q ∧
      (interruptedAt target).Still base fun r => ∃ f, r = .error f := by
  have hfails : ∀ i e, base.Akin i →
      ∃ f j, interruptedAt target i e = .done (.error f, j) e ∧ base.Akin j := by
    intro i e hi
    refine ⟨_, _, rfl, ?_⟩
    split
    · exact hi.trans ⟨rfl, rfl⟩
    · exact hi
  refine ⟨fun i e hi => ?_, fun i e hi _ => ?_⟩
  · rcases hfails i e hi with ⟨f, j, hdone, hj⟩
    exact ⟨_, e, hdone, hj, fun _ ha => absurd ha (by simp)⟩
  · rcases hfails i e hi with ⟨f, j, hdone, hj⟩
    exact ⟨_, hdone, hj, f, rfl⟩

/-- A walk that was stopped fails. -/
theorem halts_visit (path : List Position) :
    (visit path).Halts base (fun r => ∃ f, r = .error f) fun _ => True := by
  induction path with
  | nil => exact (instant_pure trivial).halts _
  | cons target rest ih =>
      rw [visit_cons]
      refine (idle_checkRunning.instant.halts fun r => ∃ f, r = .error f).bind (fun _ _ => ?_)
        (fun _ _ hok => absurd hok (by simp)) fun _ hf => hf
      refine (halts_motion target).bind (fun arrived _ => ?_) (fun arrived _ hfalse => ?_)
        fun f hf => absurd hf (by simp)
      · split
        · exact ih
        · exact (halts_interruptedAt target).1.halts _
      · rw [Except.ok.inj hfalse]
        exact (halts_interruptedAt (Q := fun _ => True) target).2

end Step

end Farmhand
