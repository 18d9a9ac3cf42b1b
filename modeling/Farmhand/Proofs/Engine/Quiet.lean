import Farmhand.Proofs.Engine.Slots

/-!
# An Advance Leaves Nothing Due

The clock is advanced with a count of timers that may run out on the way, and tasks that start on
the way bring new timers with them, so the count has to be large enough. It is: `pending` counts
the timers that are there and every start that is still written down in the slots. A start turns
one of the latter into one of the former, and a timer that runs out is gone for good, so each
firing lowers the count.

## Main definitions

* `Engine.promised`: The starts that are written down in the slots.
* `Engine.Quiet`: No timer is due by now.

## Theorems

* `pending_started_le`: A start uses up itself.
* `pending_performAll_le`: Actions start no more tasks than are written down in them.
* `pending_fire_le`: A timer that runs out lowers the count.
* `fireDue_quiet`: With a count that is large enough, no timer is left that was due.
* `advanceTo_quiet`: After an advance of the clock no timer is due.
-/

namespace Farmhand

namespace Engine

/-- The starts that are written down in some slots. -/
def promised (slots : List (TaskKey × Slot)) : Nat :=
  tally (fun _ s => Action.startsOf s.atEnd) slots

/-- No timer is due by now. -/
def Quiet (e : Engine) : Prop :=
  ∀ t ∈ e.timers, e.now < t.due

-- What is pending are the timers and the tasks that those under way will still start.
theorem pending_eq (e : Engine) : e.pending = e.timers.length + promised e.slots := by
  have hfold : ∀ (slots : List (TaskKey × Slot)) (n : Nat),
      slots.foldl (fun n (x : TaskKey × Slot) => n + Action.startsOf x.2.atEnd) n =
        n + promised slots := by
    intro slots
    induction slots with
    | nil => intro n; rfl
    | cons x rest ih =>
        intro n
        rcases x with ⟨key, s⟩
        simp only [List.foldl_cons, ih, promised, tally_cons]
        omega
  exact hfold e.slots e.timers.length

/-- A start adds its own timer and what is written down in its slot. -/
theorem pending_started_le (e : Engine) (key : TaskKey) (task : Task) (atEnd : List Action) :
    (e.started key task atEnd).pending ≤ e.pending + (1 + Action.startsOf atEnd) := by
  have hle := tally_putSlot_le (fun _ s => Action.startsOf s.atEnd) e key
    ⟨task, e.nextGeneration, false, atEnd⟩
  rw [← started_slots] at hle
  change promised _ ≤ promised _ + Action.startsOf atEnd at hle
  rw [pending_eq, pending_eq, started_timers, List.length_append, List.length_singleton]
  omega

theorem pending_setStatus (e : Engine) (tile status : String) (quantity : Option Int) :
    (e.setStatus tile status quantity).pending = e.pending := by
  rw [setStatus_eq]
  rfl

mutual

/-- A start makes a timer of a task that was promised, so no action adds to what is pending. -/
theorem pending_perform_le (e : Engine) (action : Action) :
    (e.perform action).pending ≤ e.pending + action.starts :=
  match action with
  | .note text => Nat.le_refl _
  | .setStatus tile status quantity => Nat.le_of_eq (pending_setStatus e tile status quantity)
  | .start key label duration description owner atEnd accepted refused => by
    by_cases hfree : e.isFree key = true
    · have hstart := pending_started_le e key ⟨label, description, owner, e.now, duration⟩ atEnd
      have hrest := pending_performAll_le
        (e.started key ⟨label, description, owner, e.now, duration⟩ atEnd) accepted
      simp only [perform, start_eq, hfree, Bool.and_true, if_true, Action.starts]
      omega
    · have hrest := pending_performAll_le e refused
      simp only [perform, start_eq, hfree, Bool.and_true, Bool.false_eq_true, if_false,
        Action.starts]
      omega

/-- Actions start no more tasks than are written down in them. -/
theorem pending_performAll_le (e : Engine) (actions : List Action) :
    (e.performAll actions).pending ≤ e.pending + Action.startsOf actions :=
  match actions with
  | [] => Nat.le_refl _
  | action :: rest => by
    have haction := pending_perform_le e action
    have hrest := pending_performAll_le (e.perform action) rest
    simp only [performAll, Action.startsOf]
    omega

end

theorem pending_finish_le (e : Engine) (key : TaskKey) (generation : Nat) :
    (e.finish key generation).pending ≤ e.pending := by
  unfold finish
  split
  · split
    · have hle : promised (e.dropSlot key).slots ≤ promised e.slots :=
        tally_filter_le _ e.slots key
      rw [showTask_eq, pending_eq, pending_eq]
      exact Nat.add_le_add_left hle _
    · exact Nat.le_refl _
  · exact Nat.le_refl _

/-- A timer that runs out lowers the count. -/
theorem pending_fire_le {e : Engine} {t : Timer} (ht : t ∈ e.timers) :
    ((e.atDue t).fire t).pending + 1 ≤ e.pending := by
  have hpos : 0 < e.timers.length := List.length_pos_of_mem ht
  have herase : (e.atDue t).pending + 1 = e.pending := by
    rw [pending_eq, pending_eq]
    simp only [atDue, List.length_erase_of_mem ht]
    omega
  suffices hfire : ((e.atDue t).fire t).pending ≤ (e.atDue t).pending by omega
  generalize e.atDue t = e'
  rw [fire_eq]
  split
  · next s hs =>
    rcases (ending?_eq_some_iff e' t s).mp hs with ⟨hslot, -, -⟩
    have hfinish := pending_finish_le ((e'.closing t s).performAll s.atEnd) t.key t.generation
    have hperform := pending_performAll_le (e'.closing t s) s.atEnd
    -- What the end of the task does was written down in its slot.
    have hclosing : (e'.closing t s).pending + Action.startsOf s.atEnd ≤ e'.pending := by
      have hle := tally_putSlot_of_slot? (fun _ s => Action.startsOf s.atEnd) hslot
        { s with completing := true, atEnd := [] }
      rw [pending_eq, pending_eq, promised, promised]
      change _ + _ ≤ _ + Action.startsOf [] at hle
      simp only [Action.startsOf, Nat.add_zero] at hle
      have htimers : (e'.closing t s).timers = e'.timers := rfl
      rw [htimers, closing]
      omega
    omega
  · exact Nat.le_refl _

/-- With a count that is large enough, no timer is left that was due. -/
theorem fireDue_quiet {time count : Nat} {e : Engine} (h : e.pending ≤ count) :
    ∀ t ∈ (fireDue time count e).timers, time < t.due := by
  induction count generalizing e with
  | zero =>
      intro t ht
      rw [pending_eq] at h
      have hlen := List.length_pos_of_mem (show t ∈ e.timers from ht)
      omega
  | succ count ih =>
      intro u hu
      rw [fireDue_succ] at hu
      cases ht : earliest? e.timers with
      | none =>
          rw [ht] at hu
          simp only [(earliest?_eq_none_iff e.timers).mp ht, List.not_mem_nil] at hu
      | some t =>
          simp only [ht] at hu
          -- Each firing uses up one of the count, even if its actions start further tasks.
          have hlt := pending_fire_le (earliest?_mem ht)
          by_cases hdue : t.due ≤ time
          · simp only [hdue, if_true] at hu
            exact ih (by omega) u hu
          · simp only [hdue, if_false] at hu
            have hle := earliest?_le ht u hu
            omega

/-- After an advance of the clock no timer is due. -/
theorem advanceTo_quiet {e : Engine} {time : Nat} (h : (fireDue time e.pending e).now ≤ time) :
    (e.advanceTo time).Quiet := by
  intro t ht
  have hlt := fireDue_quiet (Nat.le_refl e.pending) t ht
  simp only [advanceTo]
  omega

end Engine

end Farmhand
