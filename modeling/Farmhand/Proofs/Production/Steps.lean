import Farmhand.Proofs.Engine.Rest
import Farmhand.Proofs.Production.Charges

/-!
# What a Step Does to the Tiles

A call of a tile function and a timer that runs out, each with all that it can do to the slots and
the tiles. A call does one of four things: it leaves both alone, or it makes its actor busy, or it
writes to a tile to which nobody attends, or it begins to set such a tile up. A timer does what the
duty of its slot says, and takes the slot away. Whatever else is in the world, these lists say that
it stays.

The two lists hold in every state in which each slot has its duty and no end is under way
(`Attended`), whatever lies on the tiles, and they keep it.

## Main definitions

* `Engine.Attended`: Each slot has its duty, and the engine is at rest.
* `Engine.workTask`: The task of a tile that works.
* `Engine.Expiry`: What the timer that is due the earliest does.
* `Engine.Called`: What a call does.

## Theorems

* `Attended.expiry`, `Attended.called`: There is nothing else that they do.
* `invoke_of_slot?`: A call is refused while its actor or its tile has a task.
* `Attended.expired`, `Attended.fireDue`, `Attended.advanceTo`: Timers keep the invariant.
* `Attended.invoke`, `Attended.cancelAll`: So do calls and cancellations.
-/

namespace Farmhand

namespace Engine

variable {e : Engine} {t : Timer}

/-! ## Definitions -/

/-- Each slot has its duty, and no end is under way. -/
structure Attended (e : Engine) : Prop where
  keyed : e.world.Keyed
  duty : ∀ key s, e.slot? key = some s → Duty e key s
  rest : ∃ past, AtRest e past

/-- The task of a tile that works from a time on, after an actor has set it up. -/
def workTask (actor : String) (time : Nat) (p : Production) : Task :=
  ⟨p.workLabel, p.workDescription, some actor, time, p.workTime⟩

/-- What the timer that is due the earliest does to slots and tiles when it runs out. -/
inductive Expiry (e : Engine) (t : Timer) (e' : Engine) : Prop
  /-- Its task is gone. -/
  | gone (hgone : ∀ s, e.slot? t.key = some s → s.generation ≠ t.generation)
      (hslots : ∀ key, e'.slot? key = e.slot? key) (htiles : e'.world.tiles = e.world.tiles)
  /-- An actor is no longer busy. -/
  | busy {a : String} {s : Slot} (hkey : t.key = .actor a) (hs : e.slot? (.actor a) = some s)
      (hend : s.atEnd = []) (hfree : e'.slot? (.actor a) = none)
      (hslots : ∀ key, key ≠ .actor a → e'.slot? key = e.slot? key)
      (htiles : e'.world.tiles = e.world.tiles)
  /-- An actor has set up a tile, and the tile works. -/
  | setup {a tile : String} {s : Slot} (p : Produce) (hkey : t.key = .actor a)
      (hs : e.slot? (.actor a) = some s) (hdue : s.task.due = t.due)
      (hend : s.atEnd = afterSetup a tile p.course)
      (hview : e.world.view tile = some (p.kind, p.course.preparing, some a))
      (hidle : e.slot? (.tile tile) = none) (hfree : e'.slot? (.actor a) = none)
      (hwork : e'.slot? (.tile tile) = some ⟨workTask a t.due p.course, e.nextGeneration, false,
        [.setStatus tile readyStatus (some p.course.yield)]⟩)
      (hslots : ∀ key, key ≠ .actor a → key ≠ .tile tile → e'.slot? key = e.slot? key)
      (hview' : e'.world.view tile = some (p.kind, p.course.working, some a))
      (htiles : ∀ id, id ≠ tile → e'.world.tiles.get? id = e.world.tiles.get? id)
  /-- A tile has worked, and is ready. -/
  | work {id : String} {s : Slot} {worker : Option String} (p : Produce) (hkey : t.key = .tile id)
      (hs : e.slot? (.tile id) = some s) (hdue : s.task.due = t.due)
      (hlabel : s.task.label = p.course.workLabel)
      (hview : e.world.view id = some (p.kind, p.course.working, worker))
      (hfree : e'.slot? (.tile id) = none)
      (hslots : ∀ key, key ≠ .tile id → e'.slot? key = e.slot? key)
      (hready : ∃ u, e'.world.tiles.get? id = some u ∧ u.kind = p.kind ∧
        u.status = readyStatus ∧ u.quantity = p.course.yield)
      (htiles : ∀ other, other ≠ id → e'.world.tiles.get? other = e.world.tiles.get? other)

/-- What a call of a tile function does to slots and tiles. -/
inductive Called (e : Engine) (actor tile name : String) (r : Outcome × Engine) : Prop
  /-- Nothing. -/
  | aside (hslots : ∀ key, r.2.slot? key = e.slot? key)
      (htiles : r.2.world.tiles = e.world.tiles)
  /-- The actor is busy. -/
  | busy {s : Slot} (hidle : e.slot? (.actor actor) = none)
      (hbusy : r.2.slot? (.actor actor) = some s) (hend : s.atEnd = [])
      (hlabel : ∀ p : Produce, s.task.label ≠ p.course.setupLabel)
      (hslots : ∀ key, key ≠ .actor actor → r.2.slot? key = e.slot? key)
      (htiles : r.2.world.tiles = e.world.tiles)
  /-- The tile is written. It is ready before only if what lies on it is collected. -/
  | wrote {t : Tile} (hget : e.world.tiles.get? tile = some t)
      (hfree : e.slot? (.tile tile) = none) (hset : NotSetUp e [] tile)
      (hready : t.status = readyStatus →
        r.1.isOk = true ∧ ∃ p : Produce, t.kind = p.kind ∧ name = p.gatherer.name)
      (hslots : ∀ key, r.2.slot? key = e.slot? key)
      (htiles : ∀ id, id ≠ tile → r.2.world.tiles.get? id = e.world.tiles.get? id)
  /-- The actor sets the tile up. -/
  | setup {t : Tile} (p : Produce) (hget : e.world.tiles.get? tile = some t)
      (hnot : t.status ≠ readyStatus) (hfree : e.slot? (.tile tile) = none)
      (hset : NotSetUp e [] tile) (hidle : e.slot? (.actor actor) = none)
      (hsetup : r.2.slot? (.actor actor) = some ⟨e.setupTask actor p.course, e.nextGeneration,
        false, afterSetup actor tile p.course⟩)
      (hslots : ∀ key, key ≠ .actor actor → r.2.slot? key = e.slot? key)
      (hview : r.2.world.view tile = some (p.kind, p.course.preparing, some actor))
      (htiles : ∀ id, id ≠ tile → r.2.world.tiles.get? id = e.world.tiles.get? id)

-- What happens at the end of a setting up tells the tile and the kind.
theorem afterSetup_inj {actor actor' tile tile' : String} {p q : Produce}
    (h : afterSetup actor tile p.course = afterSetup actor' tile' q.course) :
    tile = tile' ∧ p = q := by
  have hstatus := (List.cons.inj h).1
  simp only [Action.setStatus.injEq] at hstatus
  refine ⟨hstatus.1, ?_⟩
  have hworking := hstatus.2.1
  cases p <;> cases q <;> first | rfl | exact absurd hworking (by decide)

-- The label of the work names the produce.
theorem workLabel_inj {p q : Produce} (h : p.course.workLabel = q.course.workLabel) : p = q := by
  cases p <;> cases q <;> first | rfl | exact absurd h (by decide)

theorem view_congr {w w' : World} {id : String} (h : w'.tiles.get? id = w.tiles.get? id) :
    w'.view id = w.view id := by
  rw [World.view, World.view, h]

theorem view_of_tiles {w w' : World} (h : w'.tiles = w.tiles) (id : String) :
    w'.view id = w.view id :=
  view_congr (by rw [h])

-- An actor that sets up a tile is its worker, and the tile is of the kind of the cycle.
theorem Attended.view_of_setup (h : Attended e) {actor tile : String} {s : Slot} {p : Produce}
    (hs : e.slot? (.actor actor) = some s) (hend : s.atEnd = afterSetup actor tile p.course) :
    e.world.view tile = some (p.kind, p.course.preparing, some actor) := by
  cases h.duty _ s hs with
  | busy hend' _ =>
      rw [hend'] at hend
      cases hend
  | setup q tile' hview _ _ hend' =>
      rcases afterSetup_inj (hend'.symm.trans hend) with ⟨rfl, rfl⟩
      exact hview

-- A tile with a task works.
theorem Attended.view_of_work (h : Attended e) {tile : String} {s : Slot} {p : Produce}
    (hs : e.slot? (.tile tile) = some s) (hlabel : s.task.label = p.course.workLabel) :
    ∃ worker, e.world.view tile = some (p.kind, p.course.working, worker) := by
  cases h.duty _ s hs with
  | work q worker hview hlabel' _ =>
      rw [workLabel_inj (hlabel'.symm.trans hlabel)] at hview
      exact ⟨worker, hview⟩

/-! ## Timers -/

-- The slot of a task whose end has come and gone is gone, and the rest is as the end left it.
theorem slot?_finish {key : TaskKey} {number : Nat} {s : Slot} (hs : e.slot? key = some s)
    (hn : s.generation = number) :
    (e.finish key number).slot? key = none ∧
      (∀ other, other ≠ key → (e.finish key number).slot? other = e.slot? other) ∧
        (e.finish key number).world = e.world.withTask none key := by
  rw [finish_eq hs hn]
  exact ⟨slot?_dropSlot_self e key,
    fun other hother => slot?_dropSlot_other e key other hother, rfl⟩

theorem get?_withState_of_ne (w : World) {tile id : String} (entries : List (String × TileValue))
    (h : id ≠ tile) : (w.withState tile entries).tiles.get? id = w.tiles.get? id :=
  Table.get?_modify_of_ne _ _ _ _ h

-- A task is shown on its own tile only.
theorem get?_withTask_of_ne (w : World) (task : Option Task) {key : TaskKey} {id : String}
    (h : key ≠ .tile id) : (w.withTask task key).tiles.get? id = w.tiles.get? id := by
  cases key with
  | actor a => rfl
  | tile other =>
      have hid : id ≠ other := fun heq => h (heq ▸ rfl)
      rw [World.withTask, Table.get?_modify_of_ne _ _ _ _ hid]

-- A task that is shown on a tile leaves its state alone.
theorem get?_withTask_tile {w : World} {id : String} {u : Tile} (h : w.tiles.get? id = some u)
    (task : Option Task) : (w.withTask task (.tile id)).tiles.get? id = some { u with task } := by
  rw [World.withTask, Table.get?_modify_self, h, Option.map_some]

-- The end of the setting up of a tile: the tile works.
theorem finish_afterSetup {a tile : String} {s : Slot} {number : Nat} {p : Produce}
    (hs : e.slot? (.actor a) = some s) (hn : s.generation = number)
    (hidle : e.slot? (.tile tile) = none)
    (hview : e.world.view tile = some (p.kind, p.course.preparing, some a)) :
    let e' := (e.performAll (afterSetup a tile p.course)).finish (.actor a) number
    e'.slot? (.actor a) = none ∧
      e'.slot? (.tile tile) = some ⟨workTask a e.now p.course, e.nextGeneration, false,
        [.setStatus tile readyStatus (some p.course.yield)]⟩ ∧
      (∀ key, key ≠ .actor a → key ≠ .tile tile → e'.slot? key = e.slot? key) ∧
      e'.world.view tile = some (p.kind, p.course.working, some a) ∧
      ∀ id, id ≠ tile → e'.world.tiles.get? id = e.world.tiles.get? id := by
  intro e'
  have hne : TaskKey.tile tile ≠ .actor a := by simp
  rcases Option.map_eq_some_iff.mp hview with ⟨u, hget, hu⟩
  simp only [Prod.mk.injEq] at hu
  let marked : Engine :=
    { e with world := e.world.withState tile (statusEntries p.course.working none) }
  let working := marked.started (.tile tile) (workTask a e.now p.course)
    [.setStatus tile readyStatus (some p.course.yield)]
  have he' : e' = working.finish (.actor a) number := by
    change (e.performAll (afterSetup a tile p.course)).finish (.actor a) number = _
    rw [performAll_afterSetup hidle]
    rfl
  have hworking : working.slot? (.actor a) = some s :=
    (slot?_started_other marked _ _ _ _ hne.symm).trans hs
  rcases slot?_finish hworking hn with ⟨hfree, hothers, hworld⟩
  rw [← he'] at hfree hothers hworld
  refine ⟨hfree, ?_, fun key hkey hkey' => ?_, ?_, fun id hid => ?_⟩
  · exact (hothers _ hne).trans (slot?_started_self marked _ _ _)
  · exact (hothers key hkey).trans (slot?_started_other marked _ _ _ _ hkey')
  · rw [hworld, World.view_withTask, started_world, World.view_withTask,
      World.view_withState_self _ hget, Tile.status_written, Tile.worker?_written, hu.1, hu.2.2]
  · have hid' : TaskKey.tile tile ≠ .tile id := by simpa using hid.symm
    rw [hworld, get?_withTask_of_ne _ _ (by simp), started_world, get?_withTask_of_ne _ _ hid']
    exact get?_withState_of_ne _ _ hid

-- The end of the work of a tile: the tile is ready.
theorem finish_ready {id : String} {s : Slot} {number : Nat} {u : Tile} (quantity : Int)
    (hs : e.slot? (.tile id) = some s) (hn : s.generation = number)
    (hget : e.world.tiles.get? id = some u) :
    let e' := (e.performAll [.setStatus id readyStatus (some quantity)]).finish (.tile id) number
    e'.slot? (.tile id) = none ∧ (∀ key, key ≠ .tile id → e'.slot? key = e.slot? key) ∧
      (∃ u', e'.world.tiles.get? id = some u' ∧ u'.kind = u.kind ∧ u'.status = readyStatus ∧
        u'.quantity = quantity) ∧
      ∀ other, other ≠ id → e'.world.tiles.get? other = e.world.tiles.get? other := by
  intro e'
  let ripe : Engine :=
    { e with world := e.world.withState id (statusEntries readyStatus (some quantity)) }
  have he' : e' = ripe.finish (.tile id) number := by
    change (e.performAll [.setStatus id readyStatus (some quantity)]).finish (.tile id) number = _
    simp only [performAll, perform, setStatus_eq]
    rfl
  rcases slot?_finish (e := ripe) hs hn with ⟨hfree, hothers, hworld⟩
  rw [← he'] at hfree hothers hworld
  refine ⟨hfree, hothers, ⟨{ u.written (statusEntries readyStatus (some quantity)) with
    task := none }, ?_, rfl, u.status_written_quantity readyStatus quantity,
    u.quantity_written readyStatus quantity⟩, fun other hother => ?_⟩
  · rw [hworld]
    exact get?_withTask_tile (World.get?_withState _ hget _) none
  · have hother' : TaskKey.tile id ≠ .tile other := by simpa using hother.symm
    rw [hworld, get?_withTask_of_ne _ _ hother']
    exact get?_withState_of_ne _ _ hother

/-- The timer that is due the earliest does what the duty of its slot says. -/
theorem Attended.expiry (h : Attended e) (ht : earliest? e.timers = some t) :
    Expiry e t ((e.atDue t).fire t) := by
  rcases h.rest with ⟨past, hrest⟩
  have hnow : (e.atDue t).now = t.due := Nat.max_eq_right (hrest.due_ge t (earliest?_mem ht))
  have hending : (e.atDue t).ending? t = e.ending? t := rfl
  rw [fire_eq, hending]
  cases hending : e.ending? t with
  | none =>
      refine .gone (fun s hs hn => ?_) (fun _ => rfl) rfl
      rw [(ending?_eq_some_iff e t s).mpr ⟨hs, hn, hrest.quiet _ s hs⟩] at hending
      cases hending
  | some s =>
      rcases (ending?_eq_some_iff e t s).mp hending with ⟨hs, hn, hc⟩
      have hdue := (hrest.live_of_timer (earliest?_mem ht) (hrest.live_of_slot _ s hs hc) hn).2
      -- While the end is under way, the slot is still there.
      have hself : ((e.atDue t).closing t s).slot? t.key =
          some { s with completing := true, atEnd := [] } := slot?_putSlot_self _ _ _
      have hothers : ∀ key, key ≠ t.key → ((e.atDue t).closing t s).slot? key = e.slot? key :=
        fun key hkey => slot?_putSlot_other (e.atDue t) _ _ _ hkey
      have hworld : ((e.atDue t).closing t s).world = e.world := rfl
      have hnow' : ((e.atDue t).closing t s).now = t.due := hnow
      have hnext : ((e.atDue t).closing t s).nextGeneration = e.nextGeneration := rfl
      change Expiry e t ((((e.atDue t).closing t s).performAll s.atEnd).finish t.key t.generation)
      generalize (e.atDue t).closing t s = c at hself hothers hworld hnow' hnext ⊢
      have hduty := h.duty t.key s hs
      generalize hkey : t.key = key at hduty hs hself hothers
      cases hduty with
      | @busy a _ hend hlabel =>
          rcases slot?_finish hself hn with ⟨hfree, hkept, htiles⟩
          rw [hend, performAll]
          refine .busy hkey hs hend hfree (fun k hk => (hkept k hk).trans (hothers k hk)) ?_
          rw [htiles, hworld]
          rfl
      | @setup a _ p tile hview hslot hlabel hend =>
          have hidle := (hothers (.tile tile) (by simp)).trans hslot
          rcases finish_afterSetup hself hn hidle (hworld ▸ hview) with
            ⟨hfree, hwork, hkept, hview', htiles⟩
          rw [hnow', hnext] at hwork
          rw [hworld] at htiles
          rw [hend]
          exact .setup p hkey hs hdue hend hview hslot hfree hwork
            (fun k hk hk' => (hkept k hk hk').trans (hothers k hk)) hview' htiles
      | @work id _ p worker hview hlabel hend =>
          rcases Option.map_eq_some_iff.mp hview with ⟨u, hget, hu⟩
          rcases finish_ready p.course.yield hself hn (hworld ▸ hget) with
            ⟨hfree, hkept, hready, htiles⟩
          rw [(Prod.mk.inj hu).1] at hready
          rw [hworld] at htiles
          rw [hend]
          exact .work p hkey hs hdue hlabel hview hfree
            (fun k hk => (hkept k hk).trans (hothers k hk)) hready htiles

/-! ## Calls -/

section

variable {a : Actor} {u : Tile} {timed : Bool} {r : Outcome × Engine}

-- What is read of a tile that has been prepared.
theorem view_prepared {w : World} (hget : w.tiles.get? u.id = some u) {p : Produce}
    (hkind : u.kind = p.kind) (actor : String) :
    (w.withState u.id [(statusKey, .text p.course.preparing), (workerKey, .text actor)]).view u.id =
      some (p.kind, p.course.preparing, some actor) := by
  rw [World.view_withState_self w hget, Tile.status_written_worker, Tile.worker?_written_worker,
    hkind]

/-- A start of a cycle prepares the tile, and takes the preparation back if the actor's task cannot
    start. -/
theorem startProduction_called (hget : e.world.tiles.get? u.id = some u)
    (hidle : e.slot? (.actor a.id) = none) (hfree : e.slot? (.tile u.id) = none) {p : Produce}
    (hkind : u.kind = p.kind) {energy : Nat} (hr : e.startProduction timed a u energy p.course = r)
    (name : String) : Called e a.id u.id name r := by
  unfold startProduction at hr
  by_cases hstart : (u.status ≠ idleStatus && !e.isInterrupted u p.course) = true
  · rw [if_pos hstart] at hr
    exact hr ▸ .aside (fun _ => rfl) rfl
  rw [if_neg hstart] at hr
  rcases notSetUp_of_startable hget hkind hstart with ⟨hstatus, hset⟩
  simp only at hr
  cases htransact : e.transact [u.unchanged statusKey, u.unchanged workerKey,
      .actor a.id { energy := some (.debit energy) },
      .tile u.id
        { state := [(statusKey, .text p.course.preparing), (workerKey, .text a.id)] }] with
  | error error =>
      rw [htransact] at hr
      exact hr ▸ .aside (fun _ => rfl) rfl
  | ok prepared =>
      rw [htransact] at hr
      rcases (transact_eq_ok_iff _ _ _).mp htransact with ⟨w, hw, rfl⟩
      rcases transact_actor_tile (transact_guard (transact_guard hw)) with ⟨v, rfl, htiles, _⟩
      have hview := view_prepared (htiles ▸ hget) hkind a.id
      have hothers : ∀ id, id ≠ u.id → (v.withState u.id
          [(statusKey, .text p.course.preparing), (workerKey, .text a.id)]).tiles.get? id =
          e.world.tiles.get? id :=
        fun id hid => (get?_withState_of_ne v _ hid).trans (by rw [htiles])
      generalize v.withState u.id
        [(statusKey, .text p.course.preparing), (workerKey, .text a.id)] = w at hr hview hothers
      by_cases hstarts : (isFree { e with world := w } (.actor a.id) && timed) = true
      · -- The actor sets the tile up.
        simp only [start_eq, if_pos hstarts] at hr
        rw [← hr]
        refine .setup p hget hstatus hfree hset hidle
          (slot?_started_self { e with world := w } _ _ _)
          (fun key hkey => slot?_started_other { e with world := w } _ _ _ _ hkey) ?_
          fun id hid => ?_
        · rw [started_world, World.view_withTask]
          exact hview
        · rw [started_world, get?_withTask_of_ne _ _ (by simp)]
          exact hothers id hid
      · -- Nothing times the setting up.
        simp only [start_eq, if_neg hstarts] at hr
        rw [← hr]
        refine .wrote hget hfree hset (fun hready => absurd hready hstatus) (fun key => ?_)
          fun id hid => ?_
        · split
          · next restored hrestored =>
              rcases (transact_eq_ok_iff _ _ _).mp hrestored with ⟨w', _, rfl⟩
              rfl
          · rfl
        · split
          · next restored hrestored =>
              rcases (transact_eq_ok_iff _ _ _).mp hrestored with ⟨w', hw', rfl⟩
              rcases transact_actor_tile hw' with ⟨v', rfl, htiles', _⟩
              refine (get?_withState_of_ne v' _ hid).trans ?_
              rw [htiles']
              exact hothers id hid
          · exact hothers id hid

/-- What lies on a ready tile is collected, or nothing happens. -/
theorem collectOutput_called (hget : e.world.tiles.get? u.id = some u)
    (hfree : e.slot? (.tile u.id) = none) {p : Produce} (hkind : u.kind = p.kind) {energy : Nat}
    (hr : e.collectOutput a u energy p.counter = r) :
    Called e a.id u.id p.gatherer.name r := by
  unfold collectOutput at hr
  by_cases hready : u.status ≠ readyStatus
  · rw [if_pos hready] at hr
    exact hr ▸ .aside (fun _ => rfl) rfl
  rw [if_neg hready] at hr
  rw [ne_eq, Decidable.not_not] at hready
  simp only at hr
  cases htransact : e.transact [u.unchanged statusKey,
      .tile u.id { state := [(statusKey, .text idleStatus), (quantityKey, .int 0)] },
      .resources (ResourceChange.add .empty p.counter (max u.quantity 0)),
      .actor a.id { energy := some (.debit energy) }] with
  | error error =>
      rw [htransact] at hr
      exact hr ▸ .aside (fun _ => rfl) rfl
  | ok collected =>
      rw [htransact] at hr
      rcases (transact_eq_ok_iff _ _ _).mp htransact with ⟨w₁, hw, rfl⟩
      rcases (World.transact_cons_eq_ok_iff _ _ _ _).mp (transact_guard hw) with ⟨w₂, htile, hrest⟩
      rcases (World.transact_cons_eq_ok_iff _ _ _ _).mp hrest with ⟨w₃, hchange, hrest'⟩
      rcases (World.transact_cons_eq_ok_iff _ _ _ _).mp hrest' with ⟨w₄, hactor, hnil⟩
      rw [(World.transact_nil_eq_ok_iff _ _).mp hnil] at hactor
      have hw₂ : w₂ = e.world.withState u.id (statusEntries idleStatus (some 0)) :=
        World.updateTile_eq_ok htile
      have htiles : w₁.tiles = w₂.tiles :=
        (World.updateActor_eq_ok hactor).1.trans (World.updateResources_eq_ok hchange).2.1
      -- Nobody sets up a tile that is ready.
      have hset : NotSetUp e [] u.id := notSetUp_of_get? hget fun q => by
        rw [hready]
        exact q.preparing_ne_ready.symm
      rw [← hr]
      refine .wrote hget hfree hset (fun _ => ⟨rfl, p, hkind, rfl⟩) (fun _ => rfl) fun id hid => ?_
      change w₁.tiles.get? id = _
      rw [htiles, hw₂]
      exact get?_withState_of_ne _ _ hid

/-- A meal makes its actor busy, or nothing happens. -/
theorem eat_called (hidle : e.slot? (.actor a.id) = none) (hr : e.eat timed a u = r)
    (name : String) : Called e a.id u.id name r := by
  unfold eat at hr
  rw [start_eq] at hr
  by_cases hstarts : (e.isFree (.actor a.id) && timed) = true
  · rw [if_pos hstarts] at hr
    simp only at hr
    generalize htask : (⟨"eat", "Eating", some a.id, e.now, mealTime⟩ : Task) = task at hr
    have hself := slot?_started_self e (.actor a.id) task []
    have hothers := fun key => slot?_started_other e (.actor a.id) key task []
    have htiles : (e.started (.actor a.id) task []).world.tiles = e.world.tiles := by
      rw [started_world]
      rfl
    have hlabel : ∀ p : Produce, task.label ≠ p.course.setupLabel := by
      intro p
      rw [← htask]
      change "eat" ≠ p.course.setupLabel
      cases p <;> decide
    generalize e.started (.actor a.id) task [] = e₁ at hr hself hothers htiles
    -- The food may fail to arrive, which does not undo the start.
    cases hupdate : e₁.world.updateActor a.id { energy := some (.credit u.nutrition) } with
    | error error =>
        rw [hupdate] at hr
        exact hr ▸ .busy hidle hself rfl hlabel hothers htiles
    | ok w =>
        rw [hupdate] at hr
        exact hr ▸ .busy hidle hself rfl hlabel hothers
          ((World.updateActor_eq_ok hupdate).1.trans htiles)
  · rw [if_neg hstarts] at hr
    exact hr ▸ .aside (fun _ => rfl) rfl

/-- A deposit has nothing to do with slots and tiles. -/
theorem store_called {energy : Nat} (hr : e.store a energy = r) (tile name : String) :
    Called e a.id tile name r := by
  unfold store at hr
  by_cases hload : a.load = 0
  · rw [if_pos hload] at hr
    exact hr ▸ .aside (fun _ => rfl) rfl
  rw [if_neg hload] at hr
  simp only at hr
  split at hr
  · exact hr ▸ .aside (fun _ => rfl) rfl
  · next stored htransact =>
      rcases (transact_eq_ok_iff _ _ _).mp htransact with ⟨w₁, hw, rfl⟩
      rcases (World.transact_cons_eq_ok_iff _ _ _ _).mp hw with ⟨w₂, hactor, hrest⟩
      rcases (World.transact_cons_eq_ok_iff _ _ _ _).mp hrest with ⟨w₃, hchange, hnil⟩
      rw [(World.transact_nil_eq_ok_iff _ _).mp hnil] at hchange
      exact hr ▸ .aside (fun _ => rfl)
        ((World.updateResources_eq_ok hchange).2.1.trans (World.updateActor_eq_ok hactor).1)

end

/-- A call does one of four things to slots and tiles. -/
theorem Attended.called (h : Attended e) (timed : Bool) (actor tile name : String) :
    Called e actor tile name (e.invoke timed actor tile name) := by
  rcases invoke_cases h.keyed timed actor tile name with ⟨failure, hfailed, _⟩ |
    ⟨f, a, u, rfl, rfl, ha, hu, hf, _, hidle, hfree, heq⟩
  · rw [hfailed]
    exact .aside (fun _ => rfl) rfl
  · rcases function?_eq_some hf with ⟨rfl, hkind⟩
    rw [heq]
    cases f with
    | plant => exact startProduction_called (p := .wheat) hu hidle hfree hkind.symm rfl _
    | harvest => exact collectOutput_called (p := .wheat) hu hfree hkind.symm rfl
    | mineInitiate => exact startProduction_called (p := .ore) hu hidle hfree hkind.symm rfl _
    | collect => exact collectOutput_called (p := .ore) hu hfree hkind.symm rfl
    | eat => exact eat_called hidle rfl _
    | store => exact store_called rfl _ _

/-- While its actor or its tile has a task, a call is refused. -/
theorem invoke_of_slot? (hkeyed : e.world.Keyed) {actor tile : String} {s : Slot}
    (hs : e.slot? (.actor actor) = some s ∨ e.slot? (.tile tile) = some s) (timed : Bool)
    (name : String) : (e.invoke timed actor tile name).1.isOk = false := by
  rcases invoke_cases hkeyed timed actor tile name with ⟨failure, hfailed, _⟩ |
    ⟨_, _, _, _, _, _, _, _, _, hidle, hfree, _⟩
  · rw [hfailed]
    rfl
  · rcases hs with hs | hs
    · rw [hidle] at hs
      cases hs
    · rw [hfree] at hs
      cases hs

/-! ## The invariant -/

/-- Slots and tiles that are as they were keep their duties. -/
theorem Duty.same {e' : Engine} {key : TaskKey} {s : Slot} (h : Duty e key s)
    (hslots : ∀ key, e'.slot? key = e.slot? key) (htiles : e'.world.tiles = e.world.tiles) :
    Duty e' key s :=
  h.frame (fun id => view_of_tiles htiles id) fun id hnone => (hslots (.tile id)).trans hnone

/-- A timer that runs out keeps the invariant. -/
theorem Attended.expired (h : Attended e) (ht : earliest? e.timers = some t) :
    Attended ((e.atDue t).fire t) := by
  rcases h.rest with ⟨past, hrest⟩
  refine ⟨World.followed_keyed.fire (e.atDue t) t h.keyed, fun key s hs => ?_,
    ⟨_, hrest.fire ht⟩⟩
  have hexpiry := h.expiry ht
  generalize (e.atDue t).fire t = e' at hs hexpiry
  cases hexpiry with
  | gone _ hslots htiles =>
      rw [hslots] at hs
      exact (h.duty key s hs).same hslots htiles
  | @busy a _ _ _ _ hfree hslots htiles =>
      have hkey : key ≠ .actor a := fun hkey => by
        rw [hkey, hfree] at hs
        cases hs
      rw [hslots key hkey] at hs
      exact (h.duty key s hs).frame (fun id => view_of_tiles htiles id)
        fun id hnone => (hslots (.tile id) (by simp)).trans hnone
  | @setup a tile _ p _ _ _ _ hview _ hfree hwork hslots hview' htiles =>
      have hkey : key ≠ .actor a := fun hkey => by
        rw [hkey, hfree] at hs
        cases hs
      by_cases htile : key = .tile tile
      · rw [htile, hwork, Option.some.injEq] at hs
        rw [htile, ← hs]
        exact .work p (some a) hview' rfl rfl
      · rw [hslots key hkey htile] at hs
        refine (h.duty key s hs).elsewhere htile ?_ (fun id hid => view_congr (htiles id hid))
          fun id hid hnone => (hslots (.tile id) (by simp) (by simpa using hid)).trans hnone
        -- Another actor that sets up the tile would be its worker.
        intro q b hb _ hview''
        rw [hview] at hview''
        simp only [Option.some.injEq, Prod.mk.injEq] at hview''
        exact hkey (hb.trans (congrArg TaskKey.actor hview''.2.2.symm))
  | @work id _ worker p _ _ _ _ hview hfree hslots _ htiles =>
      have hkey : key ≠ .tile id := fun hkey => by
        rw [hkey, hfree] at hs
        cases hs
      rw [hslots key hkey] at hs
      refine (h.duty key s hs).elsewhere hkey ?_
        (fun other hother => view_congr (htiles other hother))
        fun other hother hnone => (hslots (.tile other) (by simpa using hother)).trans hnone
      -- Nobody sets up a tile that works.
      intro q b _ _ hview'
      rw [hview] at hview'
      simp only [Option.some.injEq, Prod.mk.injEq] at hview'
      exact p.working_ne_preparing q hview'.2.1

-- A call keeps the engine at rest.
theorem AtRest.invoke {past : List Mark} (h : AtRest e past) (timed : Bool)
    (actor tile name : String) : ∃ past, AtRest (e.invoke timed actor tile name).2 past :=
  invoke_induction (P := fun e => ∃ past, AtRest e past) ⟨past, h⟩ timed actor tile name
    (fun _ _ _ _ _ ⟨past, hrest⟩ _ _ => ⟨past, hrest.frame rfl rfl rfl rfl, hrest.quiet⟩)
    fun _ _ _ _ _ ⟨_, hrest⟩ hfree hstart _ => ⟨_, hrest.started hfree hstart⟩

/-- A call keeps the invariant. -/
theorem Attended.invoke (h : Attended e) (timed : Bool) (actor tile name : String) :
    Attended (e.invoke timed actor tile name).2 := by
  rcases h.rest with ⟨past, hrest⟩
  refine ⟨World.followed_keyed.invoke e timed actor tile name h.keyed, fun key s hs => ?_,
    hrest.invoke timed actor tile name⟩
  have hcalled := h.called timed actor tile name
  generalize e.invoke timed actor tile name = r at hs hcalled
  cases hcalled with
  | aside hslots htiles =>
      rw [hslots] at hs
      exact (h.duty key s hs).same hslots htiles
  | busy _ hbusy hend hlabel hslots htiles =>
      by_cases hkey : key = .actor actor
      · rw [hkey, hbusy, Option.some.injEq] at hs
        rw [hkey, ← hs]
        exact .busy hend hlabel
      · rw [hslots key hkey] at hs
        exact (h.duty key s hs).frame (fun id => view_of_tiles htiles id)
          fun id hnone => (hslots (.tile id) (by simp)).trans hnone
  | wrote hget hfree hset _ hslots htiles =>
      rw [hslots] at hs
      have hkey : key ≠ .tile tile := fun hkey => by
        rw [hkey, hfree] at hs
        cases hs
      refine (h.duty key s hs).elsewhere hkey ?_ (fun id hid => view_congr (htiles id hid))
        fun id _ hnone => (hslots (.tile id)).trans hnone
      exact fun q b hb hlabel => hset q b s List.not_mem_nil (hb ▸ hs) hlabel
  | setup p hget _ hfree hset hidle hsetup hslots hview htiles =>
      by_cases hkey : key = .actor actor
      · rw [hkey, hsetup, Option.some.injEq] at hs
        rw [hkey, ← hs]
        exact .setup p tile hview ((hslots _ (by simp)).trans hfree) rfl rfl
      · rw [hslots key hkey] at hs
        have htile : key ≠ .tile tile := fun hkey => by
          rw [hkey, hfree] at hs
          cases hs
        refine (h.duty key s hs).elsewhere htile ?_ (fun id hid => view_congr (htiles id hid))
          fun id _ hnone => (hslots (.tile id) (by simp)).trans hnone
        exact fun q b hb hlabel => hset q b s List.not_mem_nil (hb ▸ hs) hlabel

/-- Any number of timers keeps the invariant, and so does what they keep together with it. -/
theorem Attended.fireDue (h : Attended e) (time count : Nat) :
    Attended (Engine.fireDue time count e) :=
  fireDue_induction (fun _ _ hattended ht => hattended.expired ht) time count e h

/-- An advance of the clock keeps the invariant. -/
theorem Attended.advanceTo (h : Attended e) {time : Nat} (hle : e.now ≤ time) :
    Attended (e.advanceTo time) := by
  rcases h.rest with ⟨past, hrest⟩
  have hfired := h.fireDue time e.pending
  exact ⟨hfired.keyed, fun key s hs => (hfired.duty key s hs).same (fun _ => rfl) rfl,
    ⟨_, hrest.advance hle⟩⟩

/-- A cancellation keeps the invariant. -/
theorem Attended.cancelAll (h : Attended e) : Attended e.cancelAll := by
  rcases h.rest with ⟨past, hrest⟩
  refine ⟨World.followed_keyed.cancelAll e h.keyed, fun key s hs => ?_, ⟨_, hrest.cancelAll⟩⟩
  rw [cancelAll_eq] at hs
  cases hs

/-- What happens to actors keeps the invariant. -/
theorem Attended.frame (h : Attended e) {w : World} (hkeyed : w.Keyed)
    (htiles : w.tiles = e.world.tiles) : Attended { e with world := w } := by
  rcases h.rest with ⟨past, hrest⟩
  exact ⟨hkeyed, fun key s hs => (h.duty key s hs).same (fun _ => rfl) htiles,
    past, hrest.frame rfl rfl rfl rfl, hrest.quiet⟩

theorem attended_new {w : World} (hkeyed : w.Keyed) (stepTime : Nat) :
    Attended (Engine.new w stepTime) :=
  ⟨hkeyed, fun _ _ hs => absurd hs (by simp [slot?, Engine.new]), [], atRest_new w stepTime⟩

end Engine

end Farmhand
