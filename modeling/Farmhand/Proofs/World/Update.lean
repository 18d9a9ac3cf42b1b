import Farmhand.Engine
import Farmhand.Proofs.Table

/-!
# What Updates Do to the World

The updates of the world as total functions, and what a look-up finds after one. The engine writes
the world in two ways of its own: it shows which task an actor or tile has, and it sets the status
of a tile at the end of a task. Neither can fail on something that exists, and neither does
anything to something that does not, so both are plain functions on worlds (`withTask`,
`withState`), and an update of a task never meets an update of a state.

## Main definitions

* `World.holds`: The actors and tiles of a world, by their keys.
* `World.shownTask`: The task that the world shows on an actor or tile.
* `World.withTask`: The world with a task shown.
* `World.withoutTasks`: The world with several tasks taken off.
* `World.withState`: The world with entries of a tile's state written.

## Theorems

* `updateActor_eq_ok_iff`, `updateTile_eq_ok_iff`: When an update of one thing happens, and what
  it does.
* `Engine.showTask_eq`, `Engine.cancelAll_eq`, `Engine.setStatus_eq`: The writes of the engine.
* `shownTask_withTask_self`, `shownTask_withTask_other`: A task is shown where it was written.
* `shownTask_withState`: A status is no task.
-/

namespace Farmhand

namespace World

/-- Whether an actor or tile is in the world. -/
def holds (w : World) : TaskKey → Bool
  | .actor id => w.actors.contains id
  | .tile id => w.tiles.contains id

/-- The task that the world shows on an actor or tile. -/
def shownTask (w : World) : TaskKey → Option Task
  | .actor id => (w.actors.get? id).bind Actor.task
  | .tile id => (w.tiles.get? id).bind Tile.task

/-- The world with a task, or none, shown on an actor or tile that is there. -/
def withTask (w : World) (task : Option Task) : TaskKey → World
  | .actor id => { w with actors := w.actors.modify id fun a => { a with task } }
  | .tile id => { w with tiles := w.tiles.modify id fun t => { t with task } }

/-- The world with no task shown on several actors and tiles. -/
def withoutTasks (w : World) (keys : List TaskKey) : World :=
  keys.foldl (fun w key => w.withTask none key) w

/-- The world with entries written to the state of a tile that is there. -/
def withState (w : World) (id : String) (entries : List (String × TileValue)) : World :=
  { w with tiles := w.tiles.modify id fun t => { t with state := t.state.insertAll entries } }

theorem actor_eq_ok_iff (w : World) (id : String) (a : Actor) :
    w.actor id = .ok a ↔ w.actors.get? id = some a := by
  unfold actor
  cases w.actors.get? id with
  | none => simp only [reduceCtorEq]
  | some b => simp only [Except.ok.injEq, Option.some.injEq]

theorem tile_eq_ok_iff (w : World) (id : String) (t : Tile) :
    w.tile id = .ok t ↔ w.tiles.get? id = some t := by
  unfold tile
  cases w.tiles.get? id with
  | none => simp only [reduceCtorEq]
  | some u => simp only [Except.ok.injEq, Option.some.injEq]

/-- An update of an actor happens when the actor is there and its patch applies. -/
theorem updateActor_eq_ok_iff (w w' : World) (id : String) (patch : ActorPatch) :
    w.updateActor id patch = .ok w' ↔
      ∃ a b, w.actors.get? id = some a ∧ w.patchActor a patch = .ok b ∧
        w' = { w with actors := w.actors.insert id b } := by
  unfold updateActor actor
  cases hget : w.actors.get? id with
  | none => simp
  | some a =>
      cases hpatch : w.patchActor a patch with
      | error error => simp [hpatch]
      | ok b =>
          constructor
          · intro h
            simp only [hpatch, Except.ok.injEq] at h
            exact ⟨a, b, rfl, hpatch, h.symm⟩
          · rintro ⟨a', b', ha, hb, rfl⟩
            simp only [Option.some.injEq] at ha
            rw [← ha, hpatch, Except.ok.injEq] at hb
            simp only [hpatch, hb]

/-- An update of a tile happens when the tile is there. -/
theorem updateTile_eq_ok_iff (w w' : World) (id : String) (patch : TilePatch) :
    w.updateTile id patch = .ok w' ↔
      ∃ t, w.tiles.get? id = some t ∧
        w' = { w with tiles := w.tiles.insert id (t.patched patch) } := by
  unfold updateTile tile
  cases hget : w.tiles.get? id with
  | none => simp
  | some t => simp [eq_comm]

theorem shownTask_withTask_self (w : World) (task : Option Task) (key : TaskKey)
    (h : w.holds key = true) : (w.withTask task key).shownTask key = task := by
  cases key with
  | actor id =>
      rcases Option.isSome_iff_exists.mp h with ⟨a, ha⟩
      simp [withTask, shownTask, Table.modify, ha]
  | tile id =>
      rcases Option.isSome_iff_exists.mp h with ⟨t, ht⟩
      simp [withTask, shownTask, Table.modify, ht]

-- One key shows what it showed when another one is written.
theorem shownTask_withTask_other (w : World) (task : Option Task) (key other : TaskKey)
    (h : other ≠ key) : (w.withTask task key).shownTask other = w.shownTask other := by
  cases key with
  | actor id =>
      cases other with
      | tile j => rfl
      | actor j =>
          have hj : j ≠ id := fun e => h (e ▸ rfl)
          simp only [withTask, shownTask, Table.get?_modify_of_ne _ _ _ _ hj]
  | tile id =>
      cases other with
      | actor j => rfl
      | tile j =>
          have hj : j ≠ id := fun e => h (e ▸ rfl)
          simp only [withTask, shownTask, Table.get?_modify_of_ne _ _ _ _ hj]

@[simp] theorem holds_withTask (w : World) (task : Option Task) (key other : TaskKey) :
    (w.withTask task key).holds other = w.holds other := by
  cases key with
  | actor id =>
      cases other with
      | actor j => exact Table.contains_modify w.actors id j _
      | tile j => rfl
  | tile id =>
      cases other with
      | actor j => rfl
      | tile j => exact Table.contains_modify w.tiles id j _

@[simp] theorem holds_withoutTasks (w : World) (keys : List TaskKey) (other : TaskKey) :
    (w.withoutTasks keys).holds other = w.holds other := by
  induction keys generalizing w with
  | nil => rfl
  | cons key rest ih =>
      rw [withoutTasks, List.foldl_cons]
      exact (ih _).trans (holds_withTask w none key other)

/-- Clearing some keys: those among them show nothing, and the others what they showed. -/
theorem shownTask_withoutTasks (w : World) (keys : List TaskKey) {key : TaskKey}
    (h : w.holds key = true) :
    (w.withoutTasks keys).shownTask key = if key ∈ keys then none else w.shownTask key := by
  induction keys generalizing w with
  | nil => simp [withoutTasks]
  | cons k rest ih =>
      rw [withoutTasks, List.foldl_cons]
      refine (ih _ (by rw [holds_withTask]; exact h)).trans ?_
      by_cases hrest : key ∈ rest
      · rw [if_pos hrest, if_pos (List.mem_cons_of_mem _ hrest)]
      · rw [if_neg hrest]
        by_cases hk : key = k
        · rw [← hk, shownTask_withTask_self _ _ _ h, if_pos List.mem_cons_self]
        · rw [shownTask_withTask_other _ _ _ _ hk, if_neg]
          simp [hk, hrest]

/-- A status is no task. -/
@[simp] theorem shownTask_withState (w : World) (id : String)
    (entries : List (String × TileValue)) (key : TaskKey) :
    (w.withState id entries).shownTask key = w.shownTask key := by
  cases key with
  | actor j => rfl
  | tile j =>
      simp only [withState, shownTask]
      by_cases hj : j = id
      · rw [hj, Table.get?_modify_self, Option.bind_map]
        rfl
      · rw [Table.get?_modify_of_ne _ _ _ _ hj]

@[simp] theorem holds_withState (w : World) (id : String) (entries : List (String × TileValue))
    (key : TaskKey) : (w.withState id entries).holds key = w.holds key := by
  cases key with
  | actor j => rfl
  | tile j => exact Table.contains_modify w.tiles id j _

end World

namespace Engine

/-- Showing a task never fails; on what is not there it does nothing. -/
theorem showTask_eq (e : Engine) (key : TaskKey) (task : Option Task) :
    e.showTask key task = { e with world := e.world.withTask task key } := by
  cases key with
  | actor id =>
      cases h : e.world.actors.get? id with
      | none =>
          simp only [showTask, World.updateActor, World.actor, World.withTask, Table.modify, h]
      | some a =>
          have hpatch : e.world.patchActor a { task := some task } = .ok { a with task } := rfl
          simp only [showTask, World.updateActor, World.actor, World.withTask, Table.modify, h,
            hpatch]
  | tile id =>
      cases h : e.world.tiles.get? id with
      | none => simp only [showTask, World.updateTile, World.tile, World.withTask, Table.modify, h]
      | some t =>
          have hpatch : t.patched { task := some task } = { t with task } := rfl
          simp only [showTask, World.updateTile, World.tile, World.withTask, Table.modify, h,
            hpatch]

/-- A cancellation takes the tasks off the slots and out of the world, and leaves the timers. -/
theorem cancelAll_eq (e : Engine) :
    e.cancelAll =
      { e with slots := [], world := e.world.withoutTasks (e.slots.map Prod.fst) } := by
  unfold cancelAll World.withoutTasks
  generalize e.slots.map Prod.fst = keys
  induction keys generalizing e with
  | nil => rfl
  | cons key rest ih =>
      rw [List.foldl_cons, List.foldl_cons, showTask_eq]
      exact ih { e with world := e.world.withTask none key }

/-- The entries that a new status, and a new quantity if one is given, write. -/
def statusEntries (status : String) (quantity : Option Int) : List (String × TileValue) :=
  (statusKey, .text status) :: (quantity.map fun n => (quantityKey, TileValue.int n)).toList

/-- Setting a status never fails; on a tile that is not there it does nothing. -/
theorem setStatus_eq (e : Engine) (tile status : String) (quantity : Option Int) :
    e.setStatus tile status quantity =
      { e with world := e.world.withState tile (statusEntries status quantity) } := by
  cases h : e.world.tiles.get? tile with
  | none =>
      simp only [setStatus, World.updateTile, World.tile, World.withState, Table.modify, h]
  | some t =>
      simp only [setStatus, World.updateTile, World.tile, World.withState, Table.modify, h]
      cases quantity <;> rfl

end Engine

end Farmhand
