import Farmhand.Proofs.World.Transact
import Farmhand.TileFunction.Invoke

/-!
# The Stock of a World

What a world has of a produce: what the global counter says, and what lies on the tiles that are
ready. A tile that is not ready has nothing, whatever quantity it still carries from before. A
write moves the stock by what it does to its one tile, so an update of a task moves it not at all,
and a status moves it only if it makes a tile ready or takes its readiness away.

## Main definitions

* `Produce`: Wheat and ore, with the tiles, the counters and the functions of each.
* `Produce.held`: What lies on one tile.
* `Produce.stock`: What the world has.
* `World.view`: What is read of a tile: its kind, its status and its worker.

## Theorems

* `stock_withTask`, `stock_withoutTasks`: Tasks are no stock.
* `stock_withState`: A write moves the stock by what it does to its tile.
* `view_withTask`, `view_withState_of_ne`: Who sees a write.
-/

namespace Farmhand

/-- What tiles produce. -/
inductive Produce where
  | wheat | ore
deriving DecidableEq

namespace Produce

/-- The tiles that produce it. -/
def kind : Produce → TileKind
  | wheat => .farmland
  | ore => .mine

/-- The course of a cycle. -/
def course : Produce → Production
  | wheat => planting
  | ore => mining

/-- The global counter. -/
def counter : Produce → String
  | wheat => crop
  | ore => Farmhand.ore

/-- The function that starts a cycle. -/
def opener : Produce → TileFunction
  | wheat => .plant
  | ore => .mineInitiate

/-- The function that collects what a cycle has given. -/
def gatherer : Produce → TileFunction
  | wheat => .harvest
  | ore => .collect

theorem kind_inj {p q : Produce} (h : p.kind = q.kind) : p = q := by
  cases p <;> cases q <;> first | rfl | cases h

/-- What lies on a tile. -/
def held (p : Produce) (t : Tile) : Int :=
  if t.kind = p.kind ∧ t.status = readyStatus then t.quantity else 0

/-- What the world has: what is counted, and what lies on the tiles. -/
def stock (p : Produce) (w : World) : Int :=
  w.resource p.counter + w.tiles.total p.held

end Produce

/-- The actor that set a tile working. -/
def Tile.worker? (t : Tile) : Option String :=
  (t.state.get? workerKey).bind TileValue.toText?

/-- A tile with entries written to its state. -/
def Tile.written (t : Tile) (entries : List (String × TileValue)) : Tile :=
  { t with state := t.state.insertAll entries }

/-- What is read of a tile: its kind, its status and its worker. -/
def World.view (w : World) (id : String) : Option (TileKind × String × Option String) :=
  (w.tiles.get? id).map fun t => (t.kind, t.status, t.worker?)

/-! ## What is written -/

namespace Tile

variable (t : Tile) (status worker : String) (quantity : Int)

-- The entries that a status alone writes.
theorem status_written :
    (t.written (Engine.statusEntries status none)).status = status := by
  simp [Tile.status, written, Engine.statusEntries, Table.insertAll, TileValue.toText?]

theorem status_written_quantity :
    (t.written (Engine.statusEntries status (some quantity))).status = status := by
  have hne : statusKey ≠ quantityKey := by decide
  simp [Tile.status, written, Engine.statusEntries, Table.insertAll, TileValue.toText?,
    Table.get?_insert_of_ne _ _ _ _ hne]

theorem quantity_written :
    (t.written (Engine.statusEntries status (some quantity))).quantity = quantity := by
  simp [Tile.quantity, written, Engine.statusEntries, Table.insertAll, TileValue.toInt?]

theorem worker?_written (quantity : Option Int) :
    (t.written (Engine.statusEntries status quantity)).worker? = t.worker? := by
  have hstatus : workerKey ≠ statusKey := by decide
  have hquantity : workerKey ≠ quantityKey := by decide
  cases quantity <;>
    simp [worker?, written, Engine.statusEntries, Table.insertAll,
      Table.get?_insert_of_ne _ _ _ _ hstatus, Table.get?_insert_of_ne _ _ _ _ hquantity]

theorem status_written_worker :
    (t.written [(statusKey, .text status), (workerKey, .text worker)]).status = status := by
  have hne : statusKey ≠ workerKey := by decide
  simp [Tile.status, written, Table.insertAll, TileValue.toText?,
    Table.get?_insert_of_ne _ _ _ _ hne]

theorem worker?_written_worker :
    (t.written [(statusKey, .text status), (workerKey, .text worker)]).worker? = some worker := by
  simp [worker?, written, Table.insertAll, TileValue.toText?]

end Tile

namespace Produce

variable (p : Produce)

-- A tile that is not ready holds nothing.
theorem held_of_not_ready {t : Tile} (h : t.status ≠ readyStatus) : p.held t = 0 :=
  if_neg fun hready => h hready.2

theorem held_of_kind_ne {t : Tile} (h : t.kind ≠ p.kind) : p.held t = 0 :=
  if_neg fun hready => h hready.1

-- Worlds with the same tiles differ in stock by what they have counted.
theorem stock_of_tiles {w w' : World} (htiles : w'.tiles = w.tiles) :
    p.stock w' + w.resource p.counter = p.stock w + w'.resource p.counter := by
  rw [stock, stock, htiles]
  omega

theorem stock_congr {w w' : World} (htiles : w'.tiles = w.tiles)
    (hresources : w'.resources = w.resources) : p.stock w' = p.stock w := by
  rw [stock, stock, htiles, World.resource, World.resource, hresources]

/-- Tasks are no stock. -/
@[simp] theorem stock_withTask (w : World) (task : Option Task) (key : TaskKey) :
    p.stock (w.withTask task key) = p.stock w := by
  cases key with
  | actor id => rfl
  | tile id =>
      have hsum := Table.total_modify p.held w.tiles id (fun t => { t with task })
        fun t => rfl
      simp only [stock, World.withTask, hsum]
      rfl

@[simp] theorem stock_withoutTasks (w : World) (keys : List TaskKey) :
    p.stock (w.withoutTasks keys) = p.stock w := by
  induction keys generalizing w with
  | nil => rfl
  | cons key rest ih => exact (ih _).trans (p.stock_withTask w none key)

/-- A write moves the stock by what it does to its tile. -/
theorem stock_withState {w : World} {id : String} {t : Tile} (h : w.tiles.get? id = some t)
    (entries : List (String × TileValue)) :
    p.stock (w.withState id entries) + p.held t = p.stock w + p.held (t.written entries) := by
  have hsum := Table.total_insert p.held w.tiles id (t.written entries) t h
  have hresource : (w.withState id entries).resource p.counter = w.resource p.counter := rfl
  have htiles : (w.withState id entries).tiles = w.tiles.insert id (t.written entries) := by
    simp only [World.withState, Table.modify, h]
    rfl
  rw [stock, stock, hresource, htiles]
  omega

end Produce

/-! ## Who sees a write -/

namespace World

variable (w : World)

@[simp] theorem view_withTask (task : Option Task) (key : TaskKey) (id : String) :
    (w.withTask task key).view id = w.view id := by
  cases key with
  | actor a => rfl
  | tile tile =>
      rw [view, withTask]
      by_cases hid : id = tile
      · rw [hid, Table.get?_modify_self, Option.map_map]
        rfl
      · rw [Table.get?_modify_of_ne _ _ _ _ hid]
        rfl

theorem view_withState_of_ne {tile id : String} (entries : List (String × TileValue))
    (h : id ≠ tile) : (w.withState tile entries).view id = w.view id := by
  rw [view, withState, Table.get?_modify_of_ne _ _ _ _ h]
  rfl

theorem get?_withState {id : String} {t : Tile} (h : w.tiles.get? id = some t)
    (entries : List (String × TileValue)) :
    (w.withState id entries).tiles.get? id = some (t.written entries) := by
  rw [withState, Table.get?_modify_self, h]
  rfl

theorem view_withState_self {id : String} {t : Tile} (h : w.tiles.get? id = some t)
    (entries : List (String × TileValue)) :
    (w.withState id entries).view id =
      some (t.kind, (t.written entries).status, (t.written entries).worker?) := by
  rw [view, get?_withState w h]
  rfl

end World

end Farmhand
