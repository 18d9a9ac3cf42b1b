import Farmhand.Proofs.Engine.Moves
import Farmhand.Proofs.Engine.Quiet

/-!
# The Engine Agrees with its History

The invariant that ties the state of the engine to its history. The slots whose end is not under
way are exactly the live tasks of the history, each live task still has its timer, and numbers,
timers and times are what the history says they are.

A firing goes through states in which the invariant holds only with an exception: while the end of
a task is under way, its slot stays in place although the task is no longer live. `Closing` is the
invariant with that one exception, which the actions of the end keep, and which `finish` removes,
whether or not the actions have put a new task in the slot's place.

## Main definitions

* `Sound`: The invariant of every state.
* `Closing`: While the end of one task is under way.
* `AtRest`: When no end is under way.

## Theorems

* `Sound.started`: An accepted start keeps the invariant.
* `AtRest.closing`: The beginning of an end makes its task the exception.
* `Closing.stable`: What is done at the end of a task keeps the exception where it is.
* `Closing.finish`: The end of an end leaves the engine at rest.
* `AtRest.fire`: A timer that runs out leads from rest to rest.
-/

namespace Farmhand

namespace Engine

open History

/-- The state of the engine agrees with a history. -/
structure Sound (e : Engine) (past : List Mark) : Prop where
  lawful : Lawful past
  /-- No key has two slots. -/
  nodup : (e.slots.map Prod.fst).Nodup
  /-- A slot whose end is not under way belongs to a live task. -/
  live_of_slot : ∀ key s, e.slot? key = some s → s.completing = false → (key, s) ∈ live past
  /-- A live task has its slot. -/
  slot_of_live : ∀ key s, (key, s) ∈ live past → e.slot? key = some s
  /-- A live task has its timer. -/
  timed : ∀ key s, (key, s) ∈ live past → ⟨s.task.due, key, s.generation⟩ ∈ e.timers
  /-- A timer belongs to a task that began. -/
  known : ∀ t ∈ e.timers, ∃ task atEnd, .began t.generation t.key task atEnd ∈ past ∧
    task.due = t.due
  /-- The next number is new. -/
  fresh : ∀ n ∈ numbers past, n < e.nextGeneration
  /-- Starts and ends are past. -/
  began_le : ∀ n key task atEnd, .began n key task atEnd ∈ past → task.start ≤ e.now
  ended_le : ∀ n time actions, .ended n time actions ∈ past → time ≤ e.now
  /-- Timers are not. -/
  due_ge : ∀ t ∈ e.timers, e.now ≤ t.due

/-- The invariant while the end of one task is under way: only its slot is an exception, and the
    task is over. -/
structure Closing (e : Engine) (past : List Mark) (key : TaskKey) (number : Nat) : Prop
    extends Sound e past where
  only : ∀ k s, e.slot? k = some s → s.completing = true → k = key ∧ s.generation = number
  gone : ∀ x ∈ live past, x.2.generation ≠ number
  given : number < e.nextGeneration

/-- The invariant when no end is under way. -/
structure AtRest (e : Engine) (past : List Mark) : Prop extends Sound e past where
  quiet : ∀ key s, e.slot? key = some s → s.completing = false

variable {e : Engine} {past : List Mark}

theorem completing_of_live {key : TaskKey} {s : Slot} (h : (key, s) ∈ live past) :
    s.completing = false := by
  rcases (mem_live_iff key s past).mp h with ⟨later, earlier, -, hs, -⟩
  exact hs

-- A number belongs to one task.
theorem Sound.began_inj (h : Sound e past) {number : Nat} {key key' : TaskKey} {task task' : Task}
    {atEnd atEnd' : List Action} (h₁ : .began number key task atEnd ∈ past)
    (h₂ : .began number key' task' atEnd' ∈ past) :
    key' = key ∧ task' = task ∧ atEnd' = atEnd := by
  rcases List.append_of_mem h₁ with ⟨later, earlier, heq⟩
  exact (heq ▸ h.lawful).began_unique (heq ▸ h₂)

-- A live task with the number of a timer is the task of that timer.
theorem Sound.live_of_timer (h : Sound e past) {t : Timer} (ht : t ∈ e.timers) {key : TaskKey}
    {s : Slot} (hs : (key, s) ∈ live past) (hn : s.generation = t.generation) :
    key = t.key ∧ s.task.due = t.due := by
  rcases h.known t ht with ⟨task, atEnd, hbegan, hdue⟩
  have hsame := h.began_inj hbegan (hn ▸ began_of_mem_live hs)
  exact ⟨hsame.1, by rw [hsame.2.1, hdue]⟩

-- What the invariant does not look at may change.
theorem Sound.frame (h : Sound e past) {e' : Engine} (hslots : e'.slots = e.slots)
    (htimers : e'.timers = e.timers) (hnext : e'.nextGeneration = e.nextGeneration)
    (hnow : e'.now = e.now) : Sound e' past := by
  have hslot : ∀ key, e'.slot? key = e.slot? key := fun key => by simp only [slot?, hslots]
  refine ⟨h.lawful, hslots ▸ h.nodup, ?_, ?_, htimers ▸ h.timed, htimers ▸ h.known,
    hnext ▸ h.fresh, hnow ▸ h.began_le, hnow ▸ h.ended_le, ?_⟩
  · intro key s hs
    exact h.live_of_slot key s (hslot key ▸ hs)
  · intro key s hs
    rw [hslot]
    exact h.slot_of_live key s hs
  · rw [htimers, hnow]
    exact h.due_ge

/-! ## Starts -/

-- No live task has a key that is free.
theorem Sound.ne_of_isFree (h : Sound e past) {key : TaskKey} (hfree : e.isFree key = true)
    {k : TaskKey} {s : Slot} (hs : (k, s) ∈ live past) : k ≠ key := by
  intro hk
  have hcompleting := (isFree_eq_true_iff e key).mp hfree s (hk ▸ h.slot_of_live k s hs)
  rw [completing_of_live hs] at hcompleting
  exact absurd hcompleting Bool.false_ne_true

/-- An accepted start keeps the invariant. -/
theorem Sound.started (h : Sound e past) {key : TaskKey} {task : Task} {atEnd : List Action}
    (hfree : e.isFree key = true) (hstart : task.start = e.now) :
    Sound (e.started key task atEnd) (.began e.nextGeneration key task atEnd :: past) where
  lawful := ⟨h.fresh, h.lawful⟩
  nodup := by
    rw [started_slots]
    exact nodup_keys_putSlot e key _ h.nodup
  live_of_slot := by
    intro k s hs hc
    -- A slot is the new one or an old one.
    by_cases hkey : k = key
    · rw [hkey, slot?_started_self, Option.some.injEq] at hs
      rw [hkey, ← hs]
      exact List.mem_cons_self
    · rw [slot?_started_other _ _ _ _ _ hkey] at hs
      exact List.mem_cons_of_mem _ (h.live_of_slot k s hs hc)
  slot_of_live := by
    intro k s hs
    rcases List.mem_cons.mp hs with heq | hpast
    · rw [(Prod.mk.inj heq).1, (Prod.mk.inj heq).2]
      exact slot?_started_self e key task atEnd
    · rw [slot?_started_other _ _ _ _ _ (h.ne_of_isFree hfree hpast)]
      exact h.slot_of_live k s hpast
  timed := by
    intro k s hs
    rw [started_timers, List.mem_append, List.mem_singleton]
    rcases List.mem_cons.mp hs with heq | hpast
    · refine Or.inr ?_
      rw [(Prod.mk.inj heq).1, (Prod.mk.inj heq).2]
      rfl
    · exact Or.inl (h.timed k s hpast)
  known := by
    intro t ht
    -- So is a timer, and its task.
    rw [started_timers, List.mem_append, List.mem_singleton] at ht
    rcases ht with hold | hnew
    · rcases h.known t hold with ⟨task', atEnd', hbegan, hdue⟩
      exact ⟨task', atEnd', List.mem_cons_of_mem _ hbegan, hdue⟩
    · exact ⟨task, atEnd, by rw [hnew]; exact List.mem_cons_self, by rw [hnew]; rfl⟩
  fresh := by
    intro n hn
    rw [started_nextGeneration]
    rcases List.mem_cons.mp hn with heq | hpast
    · omega
    · have := h.fresh n hpast
      omega
  began_le := by
    intro n k task' atEnd' hmem
    rw [started_now]
    rcases List.mem_cons.mp hmem with heq | hpast
    · simp only [Mark.began.injEq] at heq
      exact Nat.le_of_eq (by rw [heq.2.2.1, hstart])
    · exact h.began_le n k task' atEnd' hpast
  ended_le := by
    intro n time actions hmem
    rcases List.mem_cons.mp hmem with heq | hpast
    · simp only [reduceCtorEq] at heq
    · rw [started_now]
      exact h.ended_le n time actions hpast
  due_ge := by
    intro t ht
    rw [started_timers, List.mem_append, List.mem_singleton] at ht
    rw [started_now]
    rcases ht with hold | hnew
    · exact h.due_ge t hold
    · rw [hnew, ← hstart]
      exact Nat.le_add_right _ _

theorem AtRest.started (h : AtRest e past) {key : TaskKey} {task : Task} {atEnd : List Action}
    (hfree : e.isFree key = true) (hstart : task.start = e.now) :
    AtRest (e.started key task atEnd) (.began e.nextGeneration key task atEnd :: past) := by
  refine ⟨h.toSound.started hfree hstart, fun k s hs => ?_⟩
  by_cases hkey : k = key
  · rw [hkey, slot?_started_self, Option.some.injEq] at hs
    rw [← hs]
  · rw [slot?_started_other _ _ _ _ _ hkey] at hs
    exact h.quiet k s hs

/-! ## Ends -/

/-- The beginning of an end makes its task the exception: it is over, and its slot is still
    there. -/
theorem AtRest.closing (h : AtRest e past) {t : Timer} {s : Slot}
    (ht : earliest? e.timers = some t) (hs : e.ending? t = some s) :
    Closing ((e.atDue t).closing t s) (.ended t.generation t.due s.atEnd :: past) t.key
      t.generation := by
  have hmem := earliest?_mem ht
  have hnow : ((e.atDue t).closing t s).now = t.due := Nat.max_eq_right (h.due_ge t hmem)
  rcases (ending?_eq_some_iff e t s).mp hs with ⟨hslot, hn, hc⟩
  have hlive := h.live_of_slot t.key s hslot hc
  have hself : ((e.atDue t).closing t s).slot? t.key =
      some { s with completing := true, atEnd := [] } :=
    slot?_putSlot_self (e.atDue t) t.key _
  have hother : ∀ k, k ≠ t.key → ((e.atDue t).closing t s).slot? k = e.slot? k := fun k hk =>
    slot?_putSlot_other (e.atDue t) t.key k _ hk
  -- A live task other than the one that ends has another key and another number.
  have hne : ∀ k s', (k, s') ∈ live past → s'.generation ≠ t.generation → k ≠ t.key := by
    intro k s' hs' hn' hk
    have heq := h.slot_of_live k s' hs'
    rw [hk, hslot, Option.some.injEq] at heq
    exact hn' (heq ▸ hn)
  exact {
    lawful := ⟨⟨t.key, s, hlive, hn, (h.live_of_timer hmem hlive hn).2, rfl⟩, h.lawful⟩
    nodup := nodup_keys_putSlot (e.atDue t) _ _ h.nodup
    live_of_slot := by
      intro k s' hs' hc'
      -- The slot whose end begins is no longer at rest, and the others are untouched.
      by_cases hkey : k = t.key
      · rw [hkey, hself, Option.some.injEq] at hs'
        rw [← hs'] at hc'
        exact absurd hc'.symm Bool.false_ne_true
      · rw [hother k hkey] at hs'
        have hold := h.live_of_slot k s' hs' hc'
        refine List.mem_filter.mpr ⟨hold, ?_⟩
        simp only [decide_not, Bool.not_eq_true', decide_eq_false_iff_not]
        exact fun hn' => hkey (h.live_of_timer hmem hold hn').1
    slot_of_live := by
      intro k s' hs'
      rcases List.mem_filter.mp hs' with ⟨hold, hn'⟩
      rw [hother k (hne k s' hold (by simpa using hn'))]
      exact h.slot_of_live k s' hold
    timed := by
      intro k s' hs'
      rcases List.mem_filter.mp hs' with ⟨hold, hn'⟩
      -- The timer that is gone was the one of the task that is over.
      refine (List.mem_erase_of_ne fun heq => ?_).mpr (h.timed k s' hold)
      simp [← heq] at hn'
    known := by
      intro u hu
      rcases h.known u (List.mem_of_mem_erase hu) with ⟨task, atEnd, hbegan, hdue⟩
      exact ⟨task, atEnd, List.mem_cons_of_mem _ hbegan, hdue⟩
    fresh := h.fresh
    began_le := by
      intro n k task atEnd hmem'
      rcases List.mem_cons.mp hmem' with heq | hpast
      · simp only [reduceCtorEq] at heq
      · rw [hnow]
        exact Nat.le_trans (h.began_le n k task atEnd hpast) (h.due_ge t hmem)
    ended_le := by
      intro n time actions hmem'
      rw [hnow]
      rcases List.mem_cons.mp hmem' with heq | hpast
      · simp only [Mark.ended.injEq] at heq
        exact Nat.le_of_eq heq.2.1
      · exact Nat.le_trans (h.ended_le n time actions hpast) (h.due_ge t hmem)
    due_ge := by
      intro u hu
      rw [hnow]
      exact earliest?_le ht u (List.mem_of_mem_erase hu)
    only := by
      intro k s' hs' hc'
      by_cases hkey : k = t.key
      · rw [hkey, hself, Option.some.injEq] at hs'
        exact ⟨hkey, hs' ▸ hn⟩
      · rw [hother k hkey] at hs'
        rw [h.quiet k s' hs'] at hc'
        exact absurd hc' Bool.false_ne_true
    gone := by
      intro x hx
      simpa using (List.mem_filter.mp hx).2
    given := h.fresh _ ((mem_numbers_iff _ _).mpr ⟨_, _, _, hn ▸ began_of_mem_live hlive⟩) }

/-- What is done at the end of a task keeps the exception where it is. -/
theorem Closing.stable (key : TaskKey) (number : Nat) :
    Stable fun e past => Closing e past key number := by
  refine ⟨?_, ?_, ?_⟩
  · intro e past text h
    exact ⟨h.toSound.frame rfl rfl rfl rfl, h.only, h.gone, h.given⟩
  · intro e past tile status quantity h
    rw [setStatus_eq]
    exact ⟨h.toSound.frame rfl rfl rfl rfl, h.only, h.gone, h.given⟩
  · intro e past k task atEnd h hfree hstart
    refine ⟨h.toSound.started hfree hstart, ?_, ?_, ?_⟩
    · intro k' s hs hc
      by_cases hkey : k' = k
      · -- A new task replaces the exception, if it takes its key.
        rw [hkey, slot?_started_self, Option.some.injEq] at hs
        rw [← hs] at hc
        exact absurd hc Bool.false_ne_true
      · rw [slot?_started_other _ _ _ _ _ hkey] at hs
        exact h.only k' s hs hc
    · intro x hx
      rcases List.mem_cons.mp hx with heq | hpast
      · -- The new number is not the one that is over.
        rw [heq]
        exact Nat.ne_of_gt h.given
      · exact h.gone x hpast
    · rw [started_nextGeneration]
      exact Nat.lt_succ_of_lt h.given

/-- The end of an end leaves the engine at rest, whether the slot is still the exception or a new
    task has taken its key. -/
theorem Closing.finish {key : TaskKey} {number : Nat} (h : Closing e past key number) :
    AtRest (e.finish key number) past := by
  unfold Engine.finish
  cases hslot : e.slot? key with
  | none =>
      -- The actions at the end dropped the slot, so there is no exception left.
      refine ⟨h.toSound, fun k s hs => Bool.eq_false_iff.mpr fun hc => ?_⟩
      have hk := (h.only k s hs hc).1
      rw [hk, hslot] at hs
      simp only [reduceCtorEq] at hs
  | some s =>
      simp only
      by_cases hn : s.generation = number
      · rw [if_pos hn, showTask_eq]
        -- The slot is still the exception, since no live task has the number.
        have hc : s.completing = true := by
          refine Bool.ne_false_iff.mp fun hc => ?_
          exact h.gone (key, s) (h.live_of_slot key s hslot hc) hn
        have hne : ∀ k s', (k, s') ∈ live past → k ≠ key := by
          intro k s' hs' hk
          have heq := h.slot_of_live k s' hs'
          rw [hk, hslot, Option.some.injEq] at heq
          rw [heq, completing_of_live hs'] at hc
          exact absurd hc Bool.false_ne_true
        have hother : ∀ k s', (e.dropSlot key).slot? k = some s' →
            k ≠ key ∧ e.slot? k = some s' := by
          intro k s' hs'
          by_cases hk : k = key
          · rw [hk, slot?_dropSlot_self] at hs'
            simp only [reduceCtorEq] at hs'
          · rw [slot?_dropSlot_other _ _ _ hk] at hs'
            exact ⟨hk, hs'⟩
        refine ⟨⟨h.lawful, nodup_keys_filter _ _ h.nodup, ?_, ?_, h.timed, h.known, h.fresh,
          h.began_le, h.ended_le, h.due_ge⟩, ?_⟩
        · intro k s' hs' hc'
          exact h.live_of_slot k s' (hother k s' hs').2 hc'
        · intro k s' hs'
          exact (slot?_dropSlot_other e key k (hne k s' hs')).trans (h.slot_of_live k s' hs')
        · intro k s' hs'
          rcases hother k s' hs' with ⟨hk, hold⟩
          exact Bool.eq_false_iff.mpr fun hc' => hk (h.only k s' hold hc').1
      · rw [if_neg hn]
        -- Another task has the key, and the exception had the same key.
        refine ⟨h.toSound, fun k s' hs' => Bool.eq_false_iff.mpr fun hc => ?_⟩
        rcases h.only k s' hs' hc with ⟨hk, hn'⟩
        rw [hk, hslot, Option.some.injEq] at hs'
        exact hn (hs' ▸ hn')

/-- A timer that runs out leads from rest to rest. -/
theorem AtRest.fire (h : AtRest e past) {t : Timer} (ht : earliest? e.timers = some t) :
    AtRest ((e.atDue t).fire t) ((e.atDue t).fireMarks t ++ past) := by
  have hmem := earliest?_mem ht
  have hnow : (e.atDue t).now = t.due := Nat.max_eq_right (h.due_ge t hmem)
  have hending : (e.atDue t).ending? t = e.ending? t := rfl
  rw [fire_eq, fireMarks, hending]
  cases hs : e.ending? t with
  | some s =>
      have hclosing := (h.closing ht hs)
      have hactions := (Closing.stable t.key t.generation).performAll _ _ hclosing s.atEnd
      simpa only [List.append_assoc, List.singleton_append, hnow] using hactions.finish
  | none =>
      exact {
        lawful := h.lawful
        nodup := h.nodup
        live_of_slot := h.live_of_slot
        slot_of_live := h.slot_of_live
        timed := by
          intro k s hs'
          refine (List.mem_erase_of_ne fun heq => ?_).mpr (h.timed k s hs')
          -- The timer of a live task would have found it.
          have hfound : e.ending? t = some s := by
            rw [ending?_eq_some_iff, ← heq]
            exact ⟨h.slot_of_live k s hs', rfl, completing_of_live hs'⟩
          rw [hs] at hfound
          simp only [reduceCtorEq] at hfound
        known := fun u hu => h.known u (List.mem_of_mem_erase hu)
        fresh := h.fresh
        began_le := by
          intro n k task atEnd hpast
          rw [hnow]
          exact Nat.le_trans (h.began_le n k task atEnd hpast) (h.due_ge t hmem)
        ended_le := by
          intro n time actions hpast
          rw [hnow]
          exact Nat.le_trans (h.ended_le n time actions hpast) (h.due_ge t hmem)
        due_ge := by
          intro u hu
          rw [hnow]
          exact earliest?_le ht u (List.mem_of_mem_erase hu)
        quiet := h.quiet }

end Engine

end Farmhand
