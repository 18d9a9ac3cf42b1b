import Farmhand.Proofs.Engine.Rest
import Farmhand.Proofs.Engine.Shown

/-!
# Slots, World and Time

What holds in every state of every run of the scheduler: tasks are started on any keys, the clock
is advanced and everything is cancelled in any order, and the ends of tasks start further tasks.
The slots and the world never disagree, and a slot is there for just the time of its task. The
actions at the end of a task are done once, at the time of the end, or not at all, and a timer
whose task is gone does nothing.

## Theorems

* `task?_eq_some_iff`: When nothing is overdue, the slots are those of the tasks in their time.
* `slots_agree_with_world`: The slots and the world never disagree.
* `fire_of_gone`: A timer whose task is gone does nothing.
* `end_comes_once_or_never`: The end of a task comes once, at its time, or never.
-/

namespace Farmhand

namespace Engine

open History

variable {e : Engine} {past : List Mark}

/-! ## Agreement -/

/-- When nothing is overdue, the slots are those of the tasks that began, are not due yet and were
    not cancelled. -/
theorem AtRest.task?_eq_some_iff (h : AtRest e past) (hquiet : e.Quiet) (key : TaskKey)
    (task : Task) :
    e.task? key = some task ↔
      ∃ later number atEnd earlier,
        past = later ++ .began number key task atEnd :: earlier ∧ .cancelled ∉ later ∧
          task.start ≤ e.now ∧ e.now < task.due := by
  constructor
  · intro htask
    rcases Option.map_eq_some_iff.mp htask with ⟨s, hslot, hs⟩
    have hlive := h.live_of_slot key s hslot (h.quiet key s hslot)
    rcases (mem_live_iff key s past).mp hlive with ⟨later, earlier, heq, -, hc, -⟩
    refine ⟨later, s.generation, s.atEnd, earlier, hs ▸ heq, hc, ?_, ?_⟩
    · exact hs ▸ h.began_le _ _ _ _ (began_of_mem_live hlive)
    · exact hs ▸ hquiet _ (h.timed key s hlive)
  · rintro ⟨later, number, atEnd, earlier, heq, hc, -, hlt⟩
    -- Without a cancellation the task is live, and then it has its slot, or it has ended.
    rcases (heq ▸ h.lawful).ends_of_not_cancelled hc with ⟨hlive, -⟩ | ⟨-, hends⟩
    · rw [task?, h.slot_of_live _ _ (heq ▸ hlive)]
      rfl
    · -- A task that has ended was due.
      have hended : Mark.ended number task.due atEnd ∈ past := by
        rw [heq]
        refine List.mem_append_left _ ((mem_ends_iff _ _ _ _).mp ?_)
        rw [hends]
        exact List.mem_singleton_self _
      have hle := h.ended_le _ _ _ hended
      omega

-- The clock does not go back, and an advance leaves nothing overdue.
theorem quiet_advance (e : Engine) (milliseconds : Nat) :
    (e.move (.advance milliseconds)).Quiet :=
  advanceTo_quiet (now_fireDue_le _ _ (Nat.le_add_right _ _))

/-- The slots and the world never disagree. From a world without tasks, any moves lead to a state
    in which the world shows on each actor and tile the task of the slot or none, no key has two
    slots, and, when nothing is overdue, the slots are those of the accepted starts whose time has
    not passed and that were not cancelled. The state may lie in the midst of an advance, between
    two timers; after an advance nothing is overdue. A start on a key whose task is not ending is
    refused and changes nothing. -/
theorem slots_agree_with_world {w : World} (hidle : ∀ key, w.shownTask key = none) (stepTime : Nat)
    (ms : List Move) (time count : Nat) :
    let rested := (Engine.new w stepTime).moves ms
    let e := fireDue time count rested
    let past := dueMarks time count rested ++ (Engine.new w stepTime).history ms
    (∀ key, e.world.holds key = true → e.world.shownTask key = e.task? key) ∧
      (e.slots.map Prod.fst).Nodup ∧
      (e.Quiet → ∀ key task, e.task? key = some task ↔
        ∃ later number atEnd earlier,
          past = later ++ .began number key task atEnd :: earlier ∧ .cancelled ∉ later ∧
            task.start ≤ e.now ∧ e.now < task.due) ∧
      (∀ milliseconds, (rested.move (.advance milliseconds)).Quiet) ∧
      (∀ (e : Engine) timed key label duration description owner atEnd s,
        e.slot? key = some s → s.completing = false →
          e.start timed key label duration description owner atEnd = (e, false)) := by
  have hshown : Shown (Engine.new w stepTime) := fun key _ => hidle key
  have hrest := ((atRest_new w stepTime).moves ms).fireDue time count
  rw [List.append_nil] at hrest
  refine ⟨(hshown.moves ms).fireDue time count, hrest.nodup, hrest.task?_eq_some_iff,
    fun milliseconds => quiet_advance _ milliseconds, ?_⟩
  intro e timed key label duration description owner atEnd s hslot hs
  -- A task that is not ending keeps its key from being free.
  have hbusy : e.isFree key = false := by
    refine Bool.eq_false_iff.mpr fun hfree => ?_
    rw [(isFree_eq_true_iff e key).mp hfree s hslot] at hs
    exact absurd hs.symm Bool.false_ne_true
  rw [start_eq, hbusy]
  rfl

/-- The state in the midst of a task on the only tile of a world. -/
theorem slots_agree_with_world_field :
    let w := (World.empty ⟨1, 1⟩).insertTile (Tile.new "field" .farmland ⟨0, 0⟩)
    let e := (Engine.new w 1).moves
      [.start true (.tile "field") "growing" 10 "wheat" none [], .advance 4]
    (∀ key, w.shownTask key = none) ∧
      e.world.shownTask (.tile "field") = e.task? (.tile "field") ∧
        e.task? (.tile "field") = some ⟨"growing", "wheat", none, 0, 10⟩ := by
  intro w e
  have hidle : ∀ key, w.shownTask key = none := by
    intro key
    cases key with
    | actor id => rfl
    | tile id =>
        by_cases hid : id = "field"
        · rw [hid]
          rfl
        · rw [World.shownTask, show w.tiles.get? id = none from if_neg fun h => hid h.symm]
          rfl
  exact ⟨hidle, (slots_agree_with_world hidle 1 _ 0 0).1 (.tile "field") rfl, rfl⟩

/-! ## Completion -/

/-- A timer whose task is gone does nothing: since the start of the task everything was cancelled,
    or the task has ended. -/
theorem AtRest.fire_of_gone (h : AtRest e past) {later earlier : List Mark} {number : Nat}
    {key : TaskKey} {task : Task} {atEnd : List Action}
    (heq : past = later ++ .began number key task atEnd :: earlier)
    (hgone : .cancelled ∈ later ∨ ends number later ≠ []) {e' : Engine}
    (hslots : e'.slots = e.slots) : e'.fire ⟨task.due, key, number⟩ = e' := by
  have hlaw : Lawful (later ++ .began number key task atEnd :: earlier) := heq ▸ h.lawful
  rw [fire_eq]
  cases hs : e'.ending? ⟨task.due, key, number⟩ with
  | none => rfl
  | some s =>
      rcases (ending?_eq_some_iff e' _ s).mp hs with ⟨hslot, hn, hc⟩
      rw [slot?, hslots] at hslot
      -- A task that has its slot was not cancelled since it began, and its end has not come.
      have hlive := hlaw.of_live (heq ▸ h.live_of_slot key s hslot hc) hn
      rcases hgone with hcancelled | hended
      · exact absurd hcancelled hlive.1
      · exact absurd hlive.2 hended

-- A timer does the actions of the task that it finds, which is its own, or nothing at all; the
-- history has a mark for the one and none for the other.
theorem fire_spec (e : Engine) (t : Timer) :
    (∃ s, e.slot? t.key = some s ∧ s.generation = t.generation ∧ s.completing = false ∧
        e.fire t = ((e.closing t s).performAll s.atEnd).finish t.key t.generation ∧
        e.fireMarks t = (e.closing t s).marksAll s.atEnd ++ [.ended t.generation e.now s.atEnd]) ∨
      (e.fire t = e ∧ e.fireMarks t = []) := by
  rw [fire_eq, fireMarks]
  cases hs : e.ending? t with
  | none => exact Or.inr ⟨rfl, rfl⟩
  | some s =>
      rcases (ending?_eq_some_iff e t s).mp hs with ⟨hslot, hn, hc⟩
      exact Or.inl ⟨s, hslot, hn, hc, rfl, rfl⟩

/-- The end of a task comes once, at its time, or never. Whatever the moves, the actions of an
    accepted start are done once, when its time has come, if the clock came so far before any
    cancellation, and are not done otherwise. All actions that are done are those of an accepted
    start, and a refused start changes nothing. In all states, also in the midst of an advance, the
    timer of a task that was cancelled, or that has ended and may have been replaced, does
    nothing. -/
theorem end_comes_once_or_never (w : World) (stepTime : Nat) (ms : List Move) :
    let e := (Engine.new w stepTime).moves ms
    let past := (Engine.new w stepTime).history ms
    (∀ later number key task atEnd earlier,
      past = later ++ .began number key task atEnd :: earlier →
        (Reached task.due later → ends number past = [(task.due, atEnd)]) ∧
        (¬ Reached task.due later → ends number past = [])) ∧
      (∀ time count later number key task atEnd earlier,
        dueMarks time count e ++ past = later ++ .began number key task atEnd :: earlier →
          (.cancelled ∈ later ∨ ends number later ≠ []) →
            ∀ e' : Engine, e'.slots = (fireDue time count e).slots →
              e'.fire ⟨task.due, key, number⟩ = e') ∧
      (∀ number time actions, .ended number time actions ∈ past →
        ∃ key task, .began number key task actions ∈ past ∧ task.due = time) ∧
      (∀ (e : Engine) (t : Timer),
        (∃ s, e.slot? t.key = some s ∧ s.generation = t.generation ∧ s.completing = false ∧
          e.fire t = ((e.closing t s).performAll s.atEnd).finish t.key t.generation ∧
          e.fireMarks t = (e.closing t s).marksAll s.atEnd ++ [.ended t.generation e.now s.atEnd]) ∨
        (e.fire t = e ∧ e.fireMarks t = [])) ∧
      (∀ (e : Engine) timed key label duration description owner atEnd,
        (e.start timed key label duration description owner atEnd).2 = false →
          (e.start timed key label duration description owner atEnd).1 = e ∧
            e.startMarks timed key label duration description owner atEnd = []) := by
  have hrest := (atRest_new w stepTime).moves ms
  rw [List.append_nil] at hrest
  refine ⟨?_, ?_, fun number time actions => hrest.lawful.began_of_ended, fire_spec, ?_⟩
  -- A task that is reached ends once, at its time; one that is not never ends.
  · intro later number key task atEnd earlier heq
    have hlaw : Lawful (later ++ .began number key task atEnd :: earlier) := heq ▸ hrest.lawful
    have hsettled := settled_history (Engine.new w stepTime) ms
    rw [heq] at hsettled ⊢
    exact ⟨hlaw.ends_of_reached, hlaw.ends_of_not_reached hsettled⟩
  -- A stale timer finds no slot of its own.
  · intro time count later number key task atEnd earlier heq hgone e' hslots
    exact (hrest.fireDue time count).fire_of_gone heq hgone hslots
  · intro e timed key label duration description owner atEnd hrefused
    refine ⟨?_, ?_⟩
    · rw [start_eq] at hrefused ⊢
      split at hrefused
      · exact absurd hrefused.symm Bool.false_ne_true
      · next hbusy => rw [if_neg hbusy]
    · rw [startMarks, hrefused, if_neg Bool.false_ne_true]

end Engine

end Farmhand
