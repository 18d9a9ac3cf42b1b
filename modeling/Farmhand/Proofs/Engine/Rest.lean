import Farmhand.Proofs.Engine.Sound

/-!
# From Rest to Rest

Every move of a scheduler starts and ends at rest: a start, a cancellation, and an advance of the
clock with all the timers that run out on the way. So the invariant holds in every state of every
run, also in the midst of an advance, between two timers.

## Theorems

* `AtRest.start`, `AtRest.cancelAll`, `AtRest.advance`: What each move keeps.
* `AtRest.fireDue`: Any number of timers may run out.
* `AtRest.moves`: What each move keeps, every run keeps.
* `atRest_new`: An engine that has done nothing is at rest.
* `settled_history`: Every end that came was in an advance of the clock.
-/

namespace Farmhand

namespace Engine

open History

variable {e : Engine} {past : List Mark}

/-! ## Single moves -/

/-- A start keeps the engine at rest, accepted or not. -/
theorem AtRest.start (h : AtRest e past) (timed : Bool) (key : TaskKey) (label : String)
    (duration : Nat) (description : String) (owner : Option String) (atEnd : List Action) :
    AtRest (e.start timed key label duration description owner atEnd).1
      (e.startMarks timed key label duration description owner atEnd ++ past) := by
  unfold startMarks
  rw [start_eq]
  by_cases hfree : (e.isFree key && timed) = true
  · rw [if_pos hfree]
    exact h.started (Bool.and_eq_true_iff.mp hfree).1 rfl
  · rw [if_neg hfree]
    exact h

/-- A cancellation keeps the engine at rest. -/
theorem AtRest.cancelAll (h : AtRest e past) : AtRest e.cancelAll (.cancelled :: past) := by
  rw [cancelAll_eq]
  -- No task is live any more and no slot is left; the timers stay.
  exact {
    lawful := h.lawful
    nodup := List.nodup_nil
    live_of_slot := fun key s hs => absurd hs (by simp [slot?])
    slot_of_live := fun key s hs => absurd hs List.not_mem_nil
    timed := fun key s hs => absurd hs List.not_mem_nil
    known := by
      intro t ht
      rcases h.known t ht with ⟨task, atEnd, hbegan, hdue⟩
      exact ⟨task, atEnd, List.mem_cons_of_mem _ hbegan, hdue⟩
    fresh := h.fresh
    began_le := by
      intro n key task atEnd hmem
      rcases List.mem_cons.mp hmem with heq' | hpast
      · simp only [reduceCtorEq] at heq'
      · exact h.began_le n key task atEnd hpast
    ended_le := by
      intro n time actions hmem
      rcases List.mem_cons.mp hmem with heq' | hpast
      · simp only [reduceCtorEq] at heq'
      · exact h.ended_le n time actions hpast
    due_ge := h.due_ge
    quiet := fun key s hs => absurd hs (by simp [slot?]) }

/-! ## Advances -/

-- The marks of one round stand behind those of the rounds that follow: the latest come first.
theorem dueMarks_succ (time count : Nat) (e : Engine) :
    dueMarks time (count + 1) e =
      match earliest? e.timers with
      | none => []
      | some t =>
        if t.due ≤ time then
          dueMarks time count ((e.atDue t).fire t) ++ (e.atDue t).fireMarks t
        else [] := by
  unfold dueMarks
  simp only [expiries]
  cases earliest? e.timers with
  | none => rfl
  | some t =>
      simp only
      split
      · simp only [List.reverse_cons, List.flatMap_append, List.flatMap_singleton]
      · rfl

/-- Timers that run out, at most some number of them, lead from rest to rest. -/
theorem AtRest.fireDue (time count : Nat) (h : AtRest e past) :
    AtRest (Engine.fireDue time count e) (dueMarks time count e ++ past) := by
  -- By induction on the number of firings, each of which is one step of the invariant.
  induction count generalizing e past with
  | zero => exact h
  | succ count ih =>
      rw [fireDue_succ, dueMarks_succ]
      cases ht : earliest? e.timers with
      | none => exact h
      | some t =>
          by_cases hdue : t.due ≤ time
          · simp only [hdue, if_true, List.append_assoc]
            exact ih (h.fire ht)
          · simp only [hdue, if_false]
            exact h

/-- An advance of the clock leads from rest to rest, and no task is left behind that was due. -/
theorem AtRest.advance (h : AtRest e past) {time : Nat} (hle : e.now ≤ time) :
    AtRest (e.advanceTo time) (.reached time :: dueMarks time e.pending e ++ past) := by
  have hfired := h.fireDue time e.pending
  have hnow := now_fireDue_le e.pending e hle
  have hquiet := @fireDue_quiet time e.pending e (Nat.le_refl _)
  unfold advanceTo
  generalize Engine.fireDue time e.pending e = e' at hfired hnow hquiet
  simp only [Nat.max_eq_right hnow, List.cons_append]
  refine ⟨⟨⟨?_, hfired.lawful⟩, hfired.nodup, hfired.live_of_slot, hfired.slot_of_live,
    hfired.timed, ?_, hfired.fresh, ?_, ?_, ?_⟩, hfired.quiet⟩
  · -- A live task has its timer, and no timer is due.
    rintro ⟨key, s⟩ hs
    exact hquiet _ (hfired.timed key s hs)
  · intro t ht
    rcases hfired.known t ht with ⟨task, atEnd, hbegan, hdue⟩
    exact ⟨task, atEnd, List.mem_cons_of_mem _ hbegan, hdue⟩
  · intro n key task atEnd hmem
    rcases List.mem_cons.mp hmem with heq | hpast
    · simp only [reduceCtorEq] at heq
    · exact Nat.le_trans (hfired.began_le n key task atEnd hpast) hnow
  · intro n t actions hmem
    rcases List.mem_cons.mp hmem with heq | hpast
    · simp only [reduceCtorEq] at heq
    · exact Nat.le_trans (hfired.ended_le n t actions hpast) hnow
  · intro t ht
    exact Nat.le_of_lt (hquiet t ht)

/-! ## Runs -/

theorem AtRest.move (h : AtRest e past) (m : Move) : AtRest (e.move m) (e.moveMarks m ++ past) := by
  cases m with
  | start timed key label duration description owner atEnd =>
      exact h.start timed key label duration description owner atEnd
  | advance milliseconds => exact h.advance (Nat.le_add_right _ _)
  | cancel => exact h.cancelAll

/-- What each move keeps, every run keeps. -/
theorem AtRest.moves (h : AtRest e past) (ms : List Move) :
    AtRest (e.moves ms) (e.history ms ++ past) := by
  induction ms generalizing e past with
  | nil => exact h
  | cons m rest ih =>
      simp only [Engine.moves, history, List.append_assoc]
      exact ih (h.move m)

/-- An engine that has done nothing is at rest. -/
theorem atRest_new (w : World) (stepTime : Nat) : AtRest (Engine.new w stepTime) [] where
  lawful := trivial
  nodup := List.nodup_nil
  live_of_slot := fun key s hs => absurd hs (by simp [slot?, Engine.new])
  slot_of_live := fun key s hs => absurd hs List.not_mem_nil
  timed := fun key s hs => absurd hs List.not_mem_nil
  known := fun t ht => absurd ht List.not_mem_nil
  fresh := fun n hn => absurd hn List.not_mem_nil
  began_le := fun n key task atEnd hmem => absurd hmem List.not_mem_nil
  ended_le := fun n time actions hmem => absurd hmem List.not_mem_nil
  due_ge := fun t ht => absurd ht List.not_mem_nil
  quiet := fun key s hs => absurd hs (by simp [slot?, Engine.new])

/-! ## Ends come in advances -/

-- The ends that come in a move come in an advance, which goes on to their time or further.
theorem settled_moveMarks (e : Engine) (m : Move) : Settled (e.moveMarks m) := by
  intro newer number time actions older heq
  have hmem : Mark.ended number time actions ∈ e.moveMarks m := by
    rw [heq]
    exact List.mem_append_right _ List.mem_cons_self
  cases m with
  | start timed key label duration description owner atEnd =>
      simp only [moveMarks, startMarks] at hmem
      split at hmem <;> simp at hmem
  | cancel =>
      simp [moveMarks] at hmem
  | advance milliseconds =>
      cases newer with
      | nil =>
          simp [moveMarks] at heq
      | cons m newer =>
          simp only [moveMarks, List.cons_append, List.cons.injEq] at heq
          have hdue : ∀ m' ∈ newer ++ .ended number time actions :: older,
              (∃ n key task atEnd, m' = .began n key task atEnd) ∨
                ∃ n t acts, m' = .ended n t acts ∧ t ≤ e.now + milliseconds := by
            rw [← heq.2]
            exact fun m' hm' => mem_dueMarks (Nat.le_add_right _ _) hm'
          refine ⟨[], e.now + milliseconds, newer, by rw [heq.1, List.nil_append], ?_, ?_⟩
          · rcases hdue _ (List.mem_append_right _ List.mem_cons_self) with
              ⟨_, _, _, _, h⟩ | ⟨_, _, _, h, hle⟩
            · simp only [reduceCtorEq] at h
            · simp only [Mark.ended.injEq] at h
              rw [h.2.1]
              exact hle
          · intro hc
            rcases hdue _ (List.mem_append_left _ hc) with ⟨_, _, _, _, h⟩ | ⟨_, _, _, h, -⟩
            · simp only [reduceCtorEq] at h
            · simp only [reduceCtorEq] at h

/-- Every end that came was in an advance of the clock. -/
theorem settled_history (e : Engine) (ms : List Move) : Settled (e.history ms) := by
  induction ms generalizing e with
  | nil =>
      intro newer number time actions older heq
      simp [history] at heq
  | cons m rest ih => exact Settled.append (ih (e.move m)) (settled_moveMarks e m)

end Engine

end Farmhand
