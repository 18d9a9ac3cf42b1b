import Farmhand.Proofs.World.Update

/-!
# Slots and Timers

What each part of a task's life does to the slots, the timers and the clock. A start that is
accepted is one state transformer (`started`), and so is the moment at which a timer runs out
(`atDue`); a timer that runs out ends a task only when `ending?` finds the task that it belongs to.
Everything later is stated with these, so that the definitions of the engine are opened here and
nowhere else.

## Main definitions

* `Engine.tally`: A sum over the slots.
* `Engine.started`: The state after a task has started.
* `Engine.atDue`: The state in which a timer runs out.
* `Engine.ending?`: The task that a timer ends when it runs out.
* `Engine.closing`: The state in which the end of a task begins.
* `Engine.expiries`: The timers that run out up to a time, each with the state it finds.

## Theorems

* `slot?_putSlot_self`, `slot?_putSlot_other`: A slot is where it was put.
* `tally_putSlot_le`, `tally_dropSlot_of_slot?`: What becomes of a sum over the slots.
* `start_eq`: A start is accepted or does nothing.
* `fire_eq`: A timer ends its task or does nothing.
* `earliest?_mem`, `earliest?_le`: The timer that runs out first.
* `fireDue_induction`: What every firing keeps, any number of them keeps.
-/

namespace Farmhand

namespace Engine

/-! ## Slots -/

-- A slot is put in front of the others, and the old one of its key is gone.
theorem putSlot_slots (e : Engine) (key : TaskKey) (s : Slot) :
    (e.putSlot key s).slots = (key, s) :: e.slots.filter fun (k, _) => k ≠ key :=
  rfl

@[simp] theorem slot?_putSlot_self (e : Engine) (key : TaskKey) (s : Slot) :
    (e.putSlot key s).slot? key = some s := by
  simp [slot?, putSlot]

-- Looking for one key, the entries of another one make no difference.
theorem find?_filter_ne (key other : TaskKey) (h : other ≠ key) (slots : List (TaskKey × Slot)) :
    (slots.filter fun (k, _) => k ≠ key).find? (fun (k, _) => k = other)
      = slots.find? fun (k, _) => k = other := by
  induction slots with
  | nil => rfl
  | cons entry rest ih =>
      rcases entry with ⟨k, s⟩
      by_cases hk : k = key
      · have hko : ¬ k = other := fun e => h (e ▸ hk)
        rw [List.filter_cons_of_neg (by simp [hk]), ih, List.find?_cons_of_neg (by simp [hko])]
      · rw [List.filter_cons_of_pos (by simp [hk])]
        by_cases hko : k = other
        · rw [List.find?_cons_of_pos (by simp [hko]), List.find?_cons_of_pos (by simp [hko])]
        · rw [List.find?_cons_of_neg (by simp [hko]), List.find?_cons_of_neg (by simp [hko]), ih]

theorem slot?_putSlot_other (e : Engine) (key other : TaskKey) (s : Slot) (h : other ≠ key) :
    (e.putSlot key s).slot? other = e.slot? other := by
  have hk : ¬ key = other := fun he => h he.symm
  simp only [slot?, putSlot]
  rw [List.find?_cons_of_neg (by simp [hk]), find?_filter_ne key other h]

-- A slot that was dropped is not found.
@[simp] theorem slot?_dropSlot_self (e : Engine) (key : TaskKey) :
    (e.dropSlot key).slot? key = none := by
  simp [slot?, dropSlot]

theorem slot?_dropSlot_other (e : Engine) (key other : TaskKey) (h : other ≠ key) :
    (e.dropSlot key).slot? other = e.slot? other := by
  simp only [slot?, dropSlot]
  rw [find?_filter_ne key other h]

-- A slot that is found is in the list.
theorem mem_of_slot? {e : Engine} {key : TaskKey} {s : Slot} (h : e.slot? key = some s) :
    (key, s) ∈ e.slots := by
  unfold slot? at h
  rcases Option.map_eq_some_iff.mp h with ⟨⟨k, s'⟩, hfind, hs⟩
  have hk : k = key := by simpa using List.find?_some hfind
  rw [← hk, ← show s' = s from hs]
  exact List.mem_of_find?_eq_some hfind

-- Each key keeps at most one slot.
theorem nodup_keys_filter (slots : List (TaskKey × Slot)) (key : TaskKey)
    (h : (slots.map Prod.fst).Nodup) :
    ((slots.filter fun (k, _) => k ≠ key).map Prod.fst).Nodup :=
  h.sublist (List.filter_sublist.map Prod.fst)

theorem nodup_keys_putSlot (e : Engine) (key : TaskKey) (s : Slot)
    (h : (e.slots.map Prod.fst).Nodup) : ((e.putSlot key s).slots.map Prod.fst).Nodup := by
  simp only [putSlot, List.map_cons, List.nodup_cons]
  refine ⟨?_, nodup_keys_filter e.slots key h⟩
  simp

/-! ## Sums over the slots -/

/-- A number for each slot, summed over the slots. -/
def tally (f : TaskKey → Slot → Nat) : List (TaskKey × Slot) → Nat
  | [] => 0
  | (key, s) :: rest => f key s + tally f rest

section

variable (f : TaskKey → Slot → Nat) {key : TaskKey} {s : Slot}

@[simp] theorem tally_cons (slots : List (TaskKey × Slot)) :
    tally f ((key, s) :: slots) = f key s + tally f slots :=
  rfl

-- Slots that are dropped only make a sum smaller.
theorem tally_filter_le (slots : List (TaskKey × Slot)) (key : TaskKey) :
    tally f (slots.filter fun (k, _) => k ≠ key) ≤ tally f slots := by
  induction slots with
  | nil => exact Nat.le_refl _
  | cons x rest ih =>
      rcases x with ⟨k, s⟩
      by_cases hk : k = key
      · rw [List.filter_cons_of_neg (by simp [hk]), tally_cons]
        omega
      · rw [List.filter_cons_of_pos (by simp [hk]), tally_cons, tally_cons]
        omega

-- Taking a key out of the slots takes out the number of its slot.
theorem tally_filter_of_mem {slots : List (TaskKey × Slot)} (h : (key, s) ∈ slots) :
    tally f (slots.filter fun (k, _) => k ≠ key) + f key s ≤ tally f slots := by
  induction slots with
  | nil => exact absurd h List.not_mem_nil
  | cons x rest ih =>
      rcases x with ⟨k, s'⟩
      by_cases hk : k = key
      · have hle := tally_filter_le f rest key
        rw [List.filter_cons_of_neg (by simp [hk]), tally_cons]
        rcases List.mem_cons.mp h with heq | hrest
        · rw [(Prod.mk.inj heq).2, hk]
          omega
        · have hrest' := ih hrest
          omega
      · rw [List.filter_cons_of_pos (by simp [hk]), tally_cons, tally_cons]
        rcases List.mem_cons.mp h with heq | hrest
        · exact absurd (Prod.mk.inj heq).1.symm hk
        · have hrest' := ih hrest
          omega

/-- A slot that is put adds at most its own number. It may take the place of another one. -/
theorem tally_putSlot_le (e : Engine) (key : TaskKey) (s : Slot) :
    tally f (e.putSlot key s).slots ≤ tally f e.slots + f key s := by
  have hle := tally_filter_le f e.slots key
  rw [putSlot_slots, tally_cons]
  omega

-- A slot that is put in the place of another changes the sum by the difference, at most.
theorem tally_putSlot_of_slot? {e : Engine} (h : e.slot? key = some s) (s' : Slot) :
    tally f (e.putSlot key s').slots + f key s ≤ tally f e.slots + f key s' := by
  have hle := tally_filter_of_mem f (mem_of_slot? h)
  rw [putSlot_slots, tally_cons]
  omega

/-- A slot that is dropped takes its number out of the sum. -/
theorem tally_dropSlot_of_slot? {e : Engine} (h : e.slot? key = some s) :
    tally f (e.dropSlot key).slots + f key s ≤ tally f e.slots :=
  tally_filter_of_mem f (mem_of_slot? h)

end

/-! ## The start of a task -/

/-- The state after a task has started on a key. -/
def started (e : Engine) (key : TaskKey) (task : Task) (atEnd : List Action) : Engine :=
  { (e.showTask key (some task)).putSlot key ⟨task, e.nextGeneration, false, atEnd⟩ with
    nextGeneration := e.nextGeneration + 1
    timers := e.timers ++ [⟨task.start + task.duration, key, e.nextGeneration⟩] }

/-- A start is accepted or does nothing. -/
theorem start_eq (e : Engine) (timed : Bool) (key : TaskKey) (label : String) (duration : Nat)
    (description : String) (owner : Option String) (atEnd : List Action) :
    e.start timed key label duration description owner atEnd =
      if e.isFree key && timed then
        (e.started key ⟨label, description, owner, e.now, duration⟩ atEnd, true)
      else (e, false) :=
  rfl

-- A start changes one slot, the task that the world shows for the key, the timers and the next
-- generation. The clock stays.
@[simp] theorem started_world (e : Engine) (key : TaskKey) (task : Task) (atEnd : List Action) :
    (e.started key task atEnd).world = e.world.withTask (some task) key := by
  simp only [started, showTask_eq, putSlot]

@[simp] theorem slot?_started_self (e : Engine) (key : TaskKey) (task : Task)
    (atEnd : List Action) :
    (e.started key task atEnd).slot? key = some ⟨task, e.nextGeneration, false, atEnd⟩ :=
  slot?_putSlot_self _ key _

theorem slot?_started_other (e : Engine) (key other : TaskKey) (task : Task)
    (atEnd : List Action) (h : other ≠ key) :
    (e.started key task atEnd).slot? other = e.slot? other := by
  have hput := slot?_putSlot_other (e.showTask key (some task)) key other
    ⟨task, e.nextGeneration, false, atEnd⟩ h
  rw [showTask_eq] at hput
  simpa only [started, showTask_eq, slot?] using hput

@[simp] theorem started_slots (e : Engine) (key : TaskKey) (task : Task) (atEnd : List Action) :
    (e.started key task atEnd).slots =
      (e.putSlot key ⟨task, e.nextGeneration, false, atEnd⟩).slots := by
  simp only [started, showTask_eq, putSlot]

@[simp] theorem started_now (e : Engine) (key : TaskKey) (task : Task) (atEnd : List Action) :
    (e.started key task atEnd).now = e.now := by
  simp only [started, showTask_eq, putSlot]

@[simp] theorem started_timers (e : Engine) (key : TaskKey) (task : Task) (atEnd : List Action) :
    (e.started key task atEnd).timers =
      e.timers ++ [⟨task.start + task.duration, key, e.nextGeneration⟩] :=
  rfl

@[simp] theorem started_nextGeneration (e : Engine) (key : TaskKey) (task : Task)
    (atEnd : List Action) : (e.started key task atEnd).nextGeneration = e.nextGeneration + 1 :=
  rfl

-- A key is free when its task is just ending or there is none.
theorem isFree_eq_true_iff (e : Engine) (key : TaskKey) :
    e.isFree key = true ↔ ∀ s, e.slot? key = some s → s.completing = true := by
  unfold isFree
  cases e.slot? key with
  | none => simp
  | some s => simp

/-! ## The end of a task -/

/-- The task that a timer ends when it runs out: the one under way on its key, if the timer is that
    task's own and its end is not under way already. -/
def ending? (e : Engine) (t : Timer) : Option Slot :=
  (e.slot? t.key).filter fun s => s.generation = t.generation && !s.completing

/-- The state in which the end of a task begins. -/
def closing (e : Engine) (t : Timer) (s : Slot) : Engine :=
  e.putSlot t.key { s with completing := true, atEnd := [] }

-- The generation tells the task of the timer from a later one on the same key.
theorem ending?_eq_some_iff (e : Engine) (t : Timer) (s : Slot) :
    e.ending? t = some s ↔
      e.slot? t.key = some s ∧ s.generation = t.generation ∧ s.completing = false := by
  unfold ending?
  rw [Option.filter_eq_some_iff]
  simp

/-- A timer that runs out does what is to happen at the end of its task and finishes it, or does
    nothing. -/
theorem fire_eq (e : Engine) (t : Timer) :
    e.fire t =
      match e.ending? t with
      | some s => ((e.closing t s).performAll s.atEnd).finish t.key t.generation
      | none => e := by
  unfold fire ending? closing
  cases e.slot? t.key with
  | none => rfl
  | some s =>
      simp only [Option.filter]
      split <;> rfl

-- The world sees nothing yet: what the task shows is cleared when the slot is.
@[simp] theorem closing_world (e : Engine) (t : Timer) (s : Slot) :
    (e.closing t s).world = e.world :=
  rfl

/-! ## Timers that run out -/

/-- The state in which a timer runs out: the timer is gone, and the clock stands at its time. -/
def atDue (e : Engine) (t : Timer) : Engine :=
  { e with timers := e.timers.erase t, now := max e.now t.due }

/-- The timers that run out up to a time, at most `count` of them, each with the state it finds. -/
def expiries (time : Nat) : Nat → Engine → List (Engine × Timer)
  | 0, _ => []
  | count + 1, e =>
    match earliest? e.timers with
    | none => []
    | some t =>
      if t.due ≤ time then (e.atDue t, t) :: expiries time count ((e.atDue t).fire t) else []

-- One round: the earliest timer runs out if its time has come.
theorem fireDue_succ (time count : Nat) (e : Engine) :
    fireDue time (count + 1) e =
      match earliest? e.timers with
      | none => e
      | some t => if t.due ≤ time then fireDue time count ((e.atDue t).fire t) else e :=
  rfl

-- The timer that runs out first is one of them. The induction keeps the best of those behind.
theorem earliest?_mem {timers : List Timer} {t : Timer} (h : earliest? timers = some t) :
    t ∈ timers := by
  induction timers generalizing t with
  | nil => simp only [earliest?, reduceCtorEq] at h
  | cons u rest ih =>
      simp only [earliest?] at h
      cases hrest : earliest? rest with
      | none =>
          simp only [hrest, Option.some.injEq] at h
          exact h ▸ List.mem_cons_self
      | some v =>
          simp only [hrest] at h
          split at h
          · exact List.mem_cons_of_mem _ (ih (by rw [hrest]; exact h))
          · simp only [Option.some.injEq] at h
            exact h ▸ List.mem_cons_self

-- There is none only if there are no timers.
theorem earliest?_eq_none_iff (timers : List Timer) : earliest? timers = none ↔ timers = [] := by
  cases timers with
  | nil => simp only [earliest?]
  | cons t rest =>
      simp only [earliest?, reduceCtorEq, iff_false]
      cases earliest? rest with
      | none => simp
      | some u =>
          simp only
          split <;> simp

/-- No timer is due before the earliest one. -/
theorem earliest?_le {timers : List Timer} {t : Timer} (h : earliest? timers = some t) :
    ∀ u ∈ timers, t.due ≤ u.due := by
  induction timers generalizing t with
  | nil => simp only [earliest?, reduceCtorEq] at h
  | cons v rest ih =>
      intro u hu
      simp only [earliest?] at h
      cases hrest : earliest? rest with
      | none =>
          have hnil := (earliest?_eq_none_iff rest).mp hrest
          simp only [hrest, Option.some.injEq] at h
          rw [hnil, List.mem_singleton] at hu
          exact Nat.le_of_eq (by rw [hu, h])
      | some w =>
          have hw := ih hrest
          simp only [hrest] at h
          split at h
          · simp only [Option.some.injEq] at h
            -- The earliest of the rest is due before the first, or the first is kept.
            rcases List.mem_cons.mp hu with huv | hurest
            · rw [← h, huv]
              omega
            · rw [← h]
              exact hw u hurest
          · simp only [Option.some.injEq] at h
            rcases List.mem_cons.mp hu with huv | hurest
            · exact Nat.le_of_eq (by rw [← h, huv])
            · have := hw u hurest
              rw [← h]
              omega

/-- What every firing keeps, any number of them keeps. -/
theorem fireDue_induction {P : Engine → Prop}
    (hstep : ∀ e t, P e → earliest? e.timers = some t → P ((e.atDue t).fire t))
    (time count : Nat) (e : Engine) (he : P e) : P (fireDue time count e) := by
  induction count generalizing e with
  | zero => exact he
  | succ count ih =>
      -- A firing happens only while the earliest timer is due.
      rw [fireDue_succ]
      cases ht : earliest? e.timers with
      | none => exact he
      | some t =>
          by_cases hdue : t.due ≤ time
          · simp only [hdue, if_true]
            exact ih _ (hstep e t he ht)
          · simp only [hdue, if_false]
            exact he

end Engine

end Farmhand
