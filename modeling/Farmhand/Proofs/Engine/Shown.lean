import Farmhand.Proofs.Engine.Moves

/-!
# The World Shows the Slots

Whatever the engine does to a slot it also does to the world, so the world shows on each of its
actors and tiles the task of the slot, or none. This needs nothing of the history: a start writes
both, the end of a task clears both, or neither when a new task has taken the slot, and what lies
between the two writes of an end changes tasks by starts only.

## Main definitions

* `Engine.Shown`: The world shows the slots.

## Theorems

* `Shown.started`, `Shown.performAll`, `Shown.fire`: What the parts of a task's life keep.
* `Shown.fireDue`: Any number of timers may run out.
* `Shown.moves`: What each move keeps, every run keeps.
-/

namespace Farmhand

namespace Engine

/-- The world shows on each of its actors and tiles the task that has the slot, or none. -/
def Shown (e : Engine) : Prop :=
  ∀ key, e.world.holds key = true → e.world.shownTask key = e.task? key

variable {e : Engine}

theorem Shown.started (h : Shown e) (key : TaskKey) (task : Task) (atEnd : List Action) :
    Shown (e.started key task atEnd) := by
  intro k hk
  rw [started_world, World.holds_withTask] at hk
  rw [started_world, task?]
  by_cases hkey : k = key
  · rw [hkey, World.shownTask_withTask_self _ _ _ (hkey ▸ hk), slot?_started_self]
    rfl
  · rw [World.shownTask_withTask_other _ _ _ _ hkey, slot?_started_other _ _ _ _ _ hkey]
    exact h k hk

theorem Shown.performAll (h : Shown e) (actions : List Action) : Shown (e.performAll actions) := by
  have hstable : Stable fun e _ => Shown e := by
    refine ⟨fun _ _ _ h => h, ?_, fun _ _ key task atEnd h _ _ => h.started key task atEnd⟩
    intro e past tile status quantity h k hk
    rw [setStatus_eq] at hk ⊢
    rw [World.holds_withState] at hk
    rw [World.shownTask_withState]
    exact h k hk
  exact hstable.performAll e [] h actions

/-- The end of a task clears what the world shows, and then its slot. -/
theorem Shown.finish (h : Shown e) (key : TaskKey) (number : Nat) :
    Shown (e.finish key number) := by
  unfold Engine.finish
  split
  · split
    · intro k hk
      rw [showTask_eq, World.holds_withTask] at hk
      rw [showTask_eq, task?]
      by_cases hkey : k = key
      · rw [hkey, World.shownTask_withTask_self _ _ _ (hkey ▸ hk)]
        exact (congrArg (Option.map Slot.task) (slot?_dropSlot_self e key)).symm
      · rw [World.shownTask_withTask_other _ _ _ _ hkey]
        exact (h k hk).trans
          (congrArg (Option.map Slot.task) (slot?_dropSlot_other e key k hkey)).symm
    · exact h
  · exact h

theorem Shown.fire (h : Shown e) (t : Timer) : Shown (e.fire t) := by
  rw [fire_eq]
  cases hs : e.ending? t with
  | none => exact h
  | some s =>
      have hslot := ((ending?_eq_some_iff e t s).mp hs).1
      have hclosing : Shown (e.closing t s) := by
        intro k hk
        refine (h k hk).trans ?_
        -- The slot of a task that is ending still has its task.
        by_cases hkey : k = t.key
        · rw [task?, task?, hkey, closing, slot?_putSlot_self, hslot]
          rfl
        · rw [task?, task?, closing, slot?_putSlot_other _ _ _ _ hkey]
      exact (hclosing.performAll s.atEnd).finish t.key t.generation

/-- Any number of timers may run out. -/
theorem Shown.fireDue (h : Shown e) (time count : Nat) :
    Shown (Engine.fireDue time count e) :=
  fireDue_induction (fun e t he _ => Shown.fire (e := e.atDue t) he t) time count e h

theorem Shown.cancelAll (h : Shown e) : Shown e.cancelAll := by
  intro key hkey
  rw [cancelAll_eq, World.holds_withoutTasks] at hkey
  rw [cancelAll_eq, World.shownTask_withoutTasks _ _ hkey]
  -- Without a slot there was no task to be shown, and nothing is written.
  by_cases hmem : key ∈ e.slots.map Prod.fst
  · rw [if_pos hmem]
    rfl
  · rw [if_neg hmem]
    refine (h key hkey).trans ?_
    have hnone : e.slot? key = none := by
      refine Option.eq_none_iff_forall_ne_some.mpr fun s hs => ?_
      exact hmem (List.mem_map.mpr ⟨_, mem_of_slot? hs, rfl⟩)
    rw [task?, hnone]
    rfl

theorem Shown.move (h : Shown e) (m : Move) : Shown (e.move m) := by
  cases m with
  | start timed key label duration description owner atEnd =>
      rw [Engine.move, start_eq]
      split
      · exact h.started _ _ _
      · exact h
  | advance milliseconds => exact h.fireDue _ _
  | cancel => exact h.cancelAll

/-- What each move keeps, every run keeps. -/
theorem Shown.moves (h : Shown e) (ms : List Move) : Shown (e.moves ms) := by
  induction ms generalizing e with
  | nil => exact h
  | cons m rest ih => exact ih (h.move m)

end Engine

end Farmhand
