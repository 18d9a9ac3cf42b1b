import Farmhand.Proofs.Engine.Slots
import Farmhand.Proofs.Production.Stock

/-!
# What Slots Are For

The engine is in order when each of its slots has one of three duties. An actor may just be busy,
with nothing to do in the end; or it sets up a tile, which is then in preparation, names the actor
as its worker and has no slot of its own; or a tile works, and will be ready in the end. So at most
one slot attends to a tile: two actors that set it up would both be its worker, and a tile that an
actor sets up has no slot.

A slot whose end is under way may be left out of the account (`but`), since its duty is being done
just then.

## Main definitions

* `Duty`: The three duties.
* `Orderly`: Each slot has its duty, and nothing is owed on a tile.
* `Produce.engaged`: The number of cycles under way.

## Theorems

* `Duty.frame`, `Duty.elsewhere`: A duty survives what happens elsewhere.
* `Orderly.written`, `Orderly.started`, `Orderly.closing`, `Orderly.finish`: What the writes of the
  engine keep.
* `Orderly.frame`: What happens to actors and counters does not matter.
-/

namespace Farmhand

namespace Produce

/-- Whether a slot belongs to a cycle of a produce, as 1 or 0. -/
def engages (p : Produce) : TaskKey → Slot → Nat
  | .actor _, s => if s.task.label = p.course.setupLabel then 1 else 0
  | .tile _, s => if s.task.label = p.course.workLabel then 1 else 0

/-- The number of cycles under way. -/
def engaged (p : Produce) (e : Engine) : Nat :=
  Engine.tally p.engages e.slots

theorem preparing_ne_ready (p : Produce) : p.course.preparing ≠ readyStatus := by
  cases p <;> decide

theorem preparing_ne_idle (p : Produce) : p.course.preparing ≠ idleStatus := by
  cases p <;> decide

theorem working_ne_ready (p : Produce) : p.course.working ≠ readyStatus := by
  cases p <;> decide

theorem working_ne_preparing (p q : Produce) : p.course.working ≠ q.course.preparing := by
  cases p <;> cases q <;> decide

end Produce

namespace Engine

/-- What a slot is for. -/
inductive Duty (e : Engine) : TaskKey → Slot → Prop
  /-- An actor is busy, and nothing happens in the end. -/
  | busy {a : String} {s : Slot} (hend : s.atEnd = [])
      (hlabel : ∀ p : Produce, s.task.label ≠ p.course.setupLabel) : Duty e (.actor a) s
  /-- An actor sets up a tile. -/
  | setup {a : String} {s : Slot} (p : Produce) (tile : String)
      (hview : e.world.view tile = some (p.kind, p.course.preparing, some a))
      (hslot : e.slot? (.tile tile) = none) (hlabel : s.task.label = p.course.setupLabel)
      (hend : s.atEnd = afterSetup a tile p.course) : Duty e (.actor a) s
  /-- A tile works. -/
  | work {id : String} {s : Slot} (p : Produce) (worker : Option String)
      (hview : e.world.view id = some (p.kind, p.course.working, worker))
      (hlabel : s.task.label = p.course.workLabel)
      (hend : s.atEnd = [.setStatus id readyStatus (some p.course.yield)]) : Duty e (.tile id) s

/-- Each slot has its duty, some slots left out, and no tile holds less than nothing. -/
structure Orderly (e : Engine) (but : List TaskKey) : Prop where
  keyed : e.world.Keyed
  held_nonneg : ∀ (p : Produce) id t, e.world.tiles.get? id = some t → 0 ≤ p.held t
  duty : ∀ key s, key ∉ but → e.slot? key = some s → Duty e key s

/-- No actor sets up a tile, those left out aside. -/
def NotSetUp (e : Engine) (but : List TaskKey) (tile : String) : Prop :=
  ∀ (p : Produce) a s, .actor a ∉ but → e.slot? (.actor a) = some s →
    s.task.label = p.course.setupLabel →
      e.world.view tile ≠ some (p.kind, p.course.preparing, some a)

variable {e e' : Engine} {but : List TaskKey}

theorem notSetUp_of_view {tile status : String} {kind : TileKind} {worker : Option String}
    (hview : e.world.view tile = some (kind, status, worker))
    (hstatus : ∀ p : Produce, status ≠ p.course.preparing) : NotSetUp e but tile := by
  intro p a s _ _ _ hview'
  rw [hview] at hview'
  simp only [Option.some.injEq, Prod.mk.injEq] at hview'
  exact hstatus p hview'.2.1

theorem notSetUp_of_get? {tile : String} {t : Tile} (hget : e.world.tiles.get? tile = some t)
    (hstatus : ∀ p : Produce, t.status ≠ p.course.preparing) : NotSetUp e but tile := by
  refine notSetUp_of_view (show e.world.view tile = some (t.kind, t.status, t.worker?) from ?_)
    hstatus
  rw [World.view, hget]
  rfl

/-! ## What happens elsewhere -/

/-- A duty that has nothing to do with a tile survives what happens to the tile. -/
theorem Duty.elsewhere {key : TaskKey} {s : Slot} (h : Duty e key s) {tile : String}
    (hkey : key ≠ .tile tile)
    (hset : ∀ (p : Produce) a, key = .actor a → s.task.label = p.course.setupLabel →
      e.world.view tile ≠ some (p.kind, p.course.preparing, some a))
    (hview : ∀ id, id ≠ tile → e'.world.view id = e.world.view id)
    (hslot : ∀ id, id ≠ tile → e.slot? (.tile id) = none → e'.slot? (.tile id) = none) :
    Duty e' key s := by
  cases h with
  | busy hend hlabel => exact .busy hend hlabel
  | @setup a _ p id hview' hslot' hlabel hend =>
      have hid : id ≠ tile := fun heq => hset p a rfl hlabel (heq ▸ hview')
      exact .setup p id ((hview id hid).trans hview') (hslot id hid hslot') hlabel hend
  | @work id _ p worker hview' hlabel hend =>
      have hid : id ≠ tile := fun heq => hkey (heq ▸ rfl)
      exact .work p worker ((hview id hid).trans hview') hlabel hend

/-- A duty survives what happens to no tile at all. -/
theorem Duty.frame {key : TaskKey} {s : Slot} (h : Duty e key s)
    (hview : ∀ id, e'.world.view id = e.world.view id)
    (hslot : ∀ id, e.slot? (.tile id) = none → e'.slot? (.tile id) = none) : Duty e' key s := by
  cases h with
  | busy hend hlabel => exact .busy hend hlabel
  | setup p id hview' hslot' hlabel hend =>
      exact .setup p id ((hview id).trans hview') (hslot id hslot') hlabel hend
  | work p worker hview' hlabel hend => exact .work p worker ((hview _).trans hview') hlabel hend

/-- What happens to actors and counters does not matter. -/
theorem Orderly.frame (h : Orderly e but) {w : World} (hkeyed : w.Keyed)
    (htiles : w.tiles = e.world.tiles) : Orderly { e with world := w } but := by
  refine ⟨hkeyed, fun p id t ht => h.held_nonneg p id t (htiles ▸ ht), fun key s hkey hs => ?_⟩
  refine (h.duty key s hkey hs).frame (fun id => ?_) fun _ hslot => hslot
  rw [World.view, htiles]
  rfl

-- A task that is shown holds nothing.
theorem held_nonneg_withTask {w : World}
    (h : ∀ (p : Produce) id t, w.tiles.get? id = some t → 0 ≤ p.held t) (task : Option Task)
    (key : TaskKey) (p : Produce) (id : String) (t : Tile)
    (ht : (w.withTask task key).tiles.get? id = some t) : 0 ≤ p.held t := by
  cases key with
  | actor a => exact h p id t ht
  | tile tile =>
      rcases Table.exists_of_get?_modify ht with ⟨old, hold, heq | heq⟩
      · rw [heq]
        exact h p id old hold
      · rw [heq]
        exact h p id old hold

/-! ## The writes of the engine -/

/-- A tile to which no slot attends may be written, as long as it does not hold less than nothing
    then. -/
theorem Orderly.written (h : Orderly e but) {tile : String} {t : Tile}
    (hget : e.world.tiles.get? tile = some t) (entries : List (String × TileValue))
    (hheld : ∀ p : Produce, 0 ≤ p.held (t.written entries))
    (hslot : .tile tile ∈ but ∨ e.slot? (.tile tile) = none) (hset : NotSetUp e but tile) :
    Orderly { e with world := e.world.withState tile entries } but := by
  refine ⟨h.keyed.withState tile entries, ?_, ?_⟩
  · intro p id u hu
    by_cases hid : id = tile
    · rw [hid, World.get?_withState _ hget, Option.some.injEq] at hu
      rw [← hu]
      exact hheld p
    · rw [World.withState, Table.get?_modify_of_ne _ _ _ _ hid] at hu
      exact h.held_nonneg p id u hu
  · intro key s hkey hs
    -- The tile has no duty of its own, and no actor has one on it.
    have hne : key ≠ .tile tile := by
      intro heq
      rcases hslot with hbut | hnone
      · exact hkey (heq ▸ hbut)
      · have hs' : e.slot? key = some s := hs
        rw [heq, hnone] at hs'
        simp only [reduceCtorEq] at hs'
    refine (h.duty key s hkey hs).elsewhere hne ?_
      (fun id hid => World.view_withState_of_ne _ _ hid) fun _ _ hnone => hnone
    intro p a ha hlabel
    exact hset p a s (ha ▸ hkey) (ha ▸ hs) hlabel

/-- A task may start that has its duty, on an actor or on a tile that nobody sets up. -/
theorem Orderly.started (h : Orderly e but) {key : TaskKey} (task : Task) {atEnd : List Action}
    (hduty : Duty (e.started key task atEnd) key ⟨task, e.nextGeneration, false, atEnd⟩)
    (hset : ∀ tile, key = .tile tile → NotSetUp e but tile) :
    Orderly (e.started key task atEnd) but := by
  have hview : ∀ id, (e.started key task atEnd).world.view id = e.world.view id := by
    intro id
    rw [started_world, World.view_withTask]
  refine ⟨?_, ?_, ?_⟩
  · rw [started_world]
    exact h.keyed.withTask _ _
  · rw [started_world]
    exact held_nonneg_withTask h.held_nonneg _ _
  · intro k s hk hs
    by_cases hkey : k = key
    · rw [hkey, slot?_started_self, Option.some.injEq] at hs
      rw [hkey, ← hs]
      exact hduty
    · rw [slot?_started_other _ _ _ _ _ hkey] at hs
      -- The task of an actor concerns no tile; that of a tile concerns only those who set it up.
      cases key with
      | actor a =>
          refine (h.duty k s hk hs).frame hview fun id hnone => ?_
          rw [slot?_started_other _ _ _ _ _ (by simp)]
          exact hnone
      | tile tile =>
          refine (h.duty k s hk hs).elsewhere hkey ?_ (fun id _ => hview id) fun id hid hnone => ?_
          · intro p a ha hlabel
            exact hset tile rfl p a s (ha ▸ hk) (ha ▸ hs) hlabel
          · rw [slot?_started_other _ _ _ _ _ (by simp [hid])]
            exact hnone

/-- The slot whose end begins is left out of the account. -/
theorem Orderly.closing (h : Orderly e []) {t : Timer} {s : Slot}
    (hs : e.slot? t.key = some s) : Orderly (e.closing t s) [t.key] := by
  refine ⟨h.keyed, h.held_nonneg, fun key s' hkey hs' => ?_⟩
  have hne : key ≠ t.key := fun heq => hkey (heq ▸ List.mem_cons_self)
  rw [Engine.closing, slot?_putSlot_other _ _ _ _ hne] at hs'
  refine (h.duty key s' List.not_mem_nil hs').frame (fun _ => rfl) fun id hnone => ?_
  -- A tile without a slot is not the one whose end begins.
  have hid : TaskKey.tile id ≠ t.key := by
    intro heq
    rw [heq, hs] at hnone
    simp only [reduceCtorEq] at hnone
  rw [Engine.closing, slot?_putSlot_other _ _ _ _ hid]
  exact hnone

theorem finish_eq {key : TaskKey} {number : Nat} {s : Slot} (hs : e.slot? key = some s)
    (hn : s.generation = number) :
    e.finish key number = { e.dropSlot key with world := e.world.withTask none key } := by
  unfold Engine.finish
  rw [hs]
  simp only [hn, if_true, showTask_eq]
  rfl

/-- When the slot is gone, nothing is left out of the account. -/
theorem Orderly.finish {key : TaskKey} (h : Orderly e [key]) {number : Nat} {s : Slot}
    (hs : e.slot? key = some s) (hn : s.generation = number) :
    Orderly (e.finish key number) [] := by
  rw [finish_eq hs hn]
  refine ⟨h.keyed.withTask none key, held_nonneg_withTask h.held_nonneg none key, ?_⟩
  intro k s' _ hs'
  have hdrop : (e.dropSlot key).slot? k = some s' := hs'
  have hne : k ≠ key := by
    intro heq
    rw [heq, slot?_dropSlot_self] at hdrop
    simp only [reduceCtorEq] at hdrop
  rw [slot?_dropSlot_other _ _ _ hne] at hdrop
  refine (h.duty k s' (by simpa using hne) hdrop).frame (fun id => World.view_withTask _ _ _ _) ?_
  intro id hnone
  by_cases hid : TaskKey.tile id = key
  · exact hid ▸ slot?_dropSlot_self e key
  · exact (slot?_dropSlot_other e key _ hid).trans hnone

-- A cancellation leaves no slot without its duty, since it leaves no slot.
theorem Orderly.cancelAll (h : Orderly e []) : Orderly e.cancelAll [] := by
  rw [cancelAll_eq]
  refine ⟨h.keyed.withoutTasks _, ?_, ?_⟩
  · generalize e.slots.map Prod.fst = keys
    have hnonneg := h.held_nonneg
    generalize e.world = w at hnonneg
    induction keys generalizing w with
    | nil => exact hnonneg
    | cons key rest ih => exact ih _ (held_nonneg_withTask hnonneg none key)
  · intro key s _ hs
    exact absurd hs (by simp [slot?])

end Engine

end Farmhand
