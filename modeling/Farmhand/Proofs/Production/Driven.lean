import Farmhand.Proofs.Production.Reached

/-!
# Who Drives a Tile

A tile that is neither idle nor ready is in the middle of a cycle, or its cycle was cancelled and it
may be started over. No one writes down which; it is told from the tile's worker and from the label
of the worker's task. In every state that can be reached, a tile whose cycle is under way is
refused, so that no cycle is started on top of another. The converse has a gap. A worker that has
left a cancelled tile behind and now sets up another tile of the same kind has a task with the same
label, and it is taken to be at work on the first. As long as it is, the first tile is refused,
although nothing will ever bring it on.

## Main definitions

* `Engine.Drives`, `Engine.Driven`: A task whose end brings a tile on.
* `Engine.Elsewhere`: The worker of a tile sets up another tile of the same kind.
* `Engine.Asks`: An idle actor with the energy for it asks to start a cycle.

## Theorems

* `Attended.isSettingUp_iff`: What the engine takes for the setting up of a tile.
* `startProduction_accepts`: A tile that may be started is started.
* `refused_iff`: A tile is refused while it is driven, and while its worker is elsewhere.
* `not_refused_iff_driven`: A tile that is not driven and refused all the same.
-/

namespace Farmhand

namespace Engine

variable {e : Engine} {a : Actor} {t : Tile} {p : Produce}

/-! ## Definitions -/

/-- A task whose end brings a tile on: that of an actor that sets the tile up, or that of the tile
    itself. -/
def Drives (tile : String) : TaskKey → Slot → Prop
  | .actor actor, s => ∃ p : Produce, s.atEnd = afterSetup actor tile p.course
  | .tile id, _ => id = tile

/-- A task is under way whose end brings a tile on. -/
def Driven (e : Engine) (tile : String) : Prop :=
  ∃ key s, e.slot? key = some s ∧ Drives tile key s

/-- The worker that a tile names sets up another tile of the same kind. -/
def Elsewhere (e : Engine) (t : Tile) (p : Produce) : Prop :=
  ∃ worker s other, t.worker? = some worker ∧ e.slot? (.actor worker) = some s ∧
    s.atEnd = afterSetup worker other p.course ∧ other ≠ t.id

/-- An idle actor with the energy for it stands on a tile that offers to start a cycle. -/
structure Asks (e : Engine) (a : Actor) (t : Tile) (p : Produce) : Prop where
  actor : e.world.actors.get? a.id = some a
  tile : e.world.tiles.get? t.id = some t
  kind : t.kind = p.kind
  binds : t.binds p.opener.name = true
  there : a.position = t.position
  idle : e.slot? (.actor a.id) = none
  able : p.opener.energy ≤ a.energy

/-! ## Who is at work on a tile -/

theorem setupLabel_inj {p q : Produce} (h : p.course.setupLabel = q.course.setupLabel) : p = q := by
  cases p <;> cases q <;> first | rfl | exact absurd h (by decide)

-- What the engine looks at is the label of the task that the worker of the tile has.
theorem isSettingUp_eq_true_iff (e : Engine) (t : Tile) (p : Production) :
    e.isSettingUp t p = true ↔ ∃ worker s, t.worker? = some worker ∧
      e.slot? (.actor worker) = some s ∧ s.task.label = p.setupLabel := by
  have hread : (t.state.get? workerKey).bind TileValue.toText? = t.worker? := rfl
  unfold isSettingUp
  rw [hread]
  cases t.worker? with
  | none => simp
  | some worker =>
      rw [Option.bind_some, actorTask?, task?]
      cases hs : e.slot? (.actor worker) with
      | none => simp [hs]
      | some s => simp [hs]

/-- What the engine takes for the setting up of a tile: the worker of the tile sets up the tile or
    another one of its kind. -/
theorem Attended.isSettingUp_iff (h : Attended e) (t : Tile) (p : Produce) :
    e.isSettingUp t p.course = true ↔ ∃ worker s tile, t.worker? = some worker ∧
      e.slot? (.actor worker) = some s ∧ s.atEnd = afterSetup worker tile p.course := by
  rw [isSettingUp_eq_true_iff]
  constructor
  · rintro ⟨worker, s, hworker, hs, hsetting⟩
    -- A task with the label of a setting up is one.
    cases h.duty _ s hs with
    | busy _ hlabel => exact absurd hsetting (hlabel p)
    | setup q tile _ _ hlabel hend =>
        rw [setupLabel_inj (hlabel.symm.trans hsetting)] at hend
        exact ⟨worker, s, tile, hworker, hs, hend⟩
  · rintro ⟨worker, s, tile, hworker, hs, hend⟩
    cases h.duty _ s hs with
    | busy hend' _ =>
        rw [hend'] at hend
        cases hend
    | setup q tile' _ _ hlabel hend' =>
        rw [(afterSetup_inj (hend'.symm.trans hend)).2] at hlabel
        exact ⟨worker, s, hworker, hs, hlabel⟩

/-- A tile without a task is taken to be set up while it is, and while its worker is elsewhere. -/
theorem Attended.isSettingUp_iff_driven (h : Attended e) (hget : e.world.tiles.get? t.id = some t)
    (hkind : t.kind = p.kind) (hfree : e.slot? (.tile t.id) = none) :
    e.isSettingUp t p.course = true ↔ Driven e t.id ∨ Elsewhere e t p := by
  rw [h.isSettingUp_iff]
  constructor
  · rintro ⟨worker, s, tile, hworker, hs, hend⟩
    by_cases htile : tile = t.id
    · exact Or.inl ⟨.actor worker, s, hs, p, htile ▸ hend⟩
    · exact Or.inr ⟨worker, s, tile, hworker, hs, hend, htile⟩
  · rintro (⟨key, s, hs, hdrives⟩ | ⟨worker, s, tile, hworker, hs, hend, _⟩)
    · cases key with
      | actor actor =>
          rcases hdrives with ⟨q, hend⟩
          have hview := h.view_of_setup hs hend
          rw [World.view, hget, Option.map_some, Option.some.injEq] at hview
          simp only [Prod.mk.injEq] at hview
          have hq : q = p := Produce.kind_inj (hview.1.symm.trans hkind)
          exact ⟨actor, s, t.id, hview.2.2, hs, hq ▸ hend⟩
      | tile id =>
          have hid : id = t.id := hdrives
          rw [hid, hfree] at hs
          cases hs
    · exact ⟨worker, s, tile, hworker, hs, hend⟩

/-! ## Starting a cycle -/

-- What a tile is seen to hold, it holds as long as it is as it was seen.
theorem apply_unchanged {w : World} (htile : w.tiles.get? t.id = some t) (key : String) :
    w.apply (t.unchanged key) = .ok w := by
  rw [Tile.unchanged, World.apply, (World.tile_eq_ok_iff _ _ _).mpr htile]
  exact if_pos rfl

-- The transaction that prepares a tile goes through when the actor can pay.
theorem transact_prepare (hactor : e.world.actors.get? a.id = some a)
    (htile : e.world.tiles.get? t.id = some t) {energy : Nat} (hable : energy ≤ a.energy)
    (entries : List (String × TileValue)) :
    ∃ w, e.transact [t.unchanged statusKey, t.unchanged workerKey,
      .actor a.id { energy := some (.debit energy) }, .tile t.id { state := entries }] =
        .ok { e with world := w } := by
  have hpaid : e.world.patchActor a { energy := some (.debit energy) } =
      .ok { a with energy := a.energy - energy } := by
    simp only [World.patchActor, World.patchActor.energyPatched, Actor.changeEnergy, if_pos hable,
      Except.map, World.patchActor.rest, Option.getD_none]
  obtain ⟨paid, hpays, hthere⟩ : ∃ paid, e.world.updateActor a.id
      { energy := some (.debit energy) } = .ok paid ∧ paid.tiles.get? t.id = some t :=
    ⟨_, (World.updateActor_eq_ok_iff _ _ _ _).mpr ⟨a, _, hactor, hpaid, rfl⟩, htile⟩
  obtain ⟨marked, hmarks⟩ : ∃ marked, paid.updateTile t.id { state := entries } = .ok marked :=
    ⟨_, (World.updateTile_eq_ok_iff _ _ _ _).mpr ⟨t, hthere, rfl⟩⟩
  refine ⟨marked, (transact_eq_ok_iff _ _ _).mpr ⟨marked, ?_, rfl⟩⟩
  simp only [World.transact_cons_eq_ok_iff, World.transact_nil_eq_ok_iff]
  exact ⟨_, apply_unchanged htile _, _, apply_unchanged htile _, _, hpays, _, hmarks, rfl⟩

/-- A tile that is idle or interrupted is started. -/
theorem startProduction_accepts (hactor : e.world.actors.get? a.id = some a)
    (htile : e.world.tiles.get? t.id = some t) (hidle : e.slot? (.actor a.id) = none)
    {energy : Nat} (hable : energy ≤ a.energy) {p : Production}
    (hstart : t.status = idleStatus ∨ e.isInterrupted t p = true) :
    (e.startProduction true a t energy p).1.isOk = true := by
  have hguard : ¬ (t.status ≠ idleStatus && !e.isInterrupted t p) = true := by
    rcases hstart with hstart | hstart <;> simp [hstart]
  rcases transact_prepare hactor htile hable
    [(statusKey, .text p.preparing), (workerKey, .text a.id)] with ⟨w, hw⟩
  have hfree : isFree { e with world := w } (.actor a.id) = true :=
    isFree_of_slot?_eq_none (e := { e with world := w }) hidle
  unfold startProduction
  rw [if_neg hguard]
  simp only [hw, start_eq, hfree, Bool.and_true, if_true]
  rfl

-- A tile that is neither idle nor interrupted is refused.
theorem startProduction_refuses (hidle : t.status ≠ idleStatus) {p : Production}
    (hlive : e.isInterrupted t p = false) (timed : Bool) (a : Actor) (energy : Nat) :
    e.startProduction timed a t energy p = (.error (.notIdle t.id t.status t.kind), e) := by
  rw [startProduction, if_pos (by simp [hidle, hlive])]

-- A tile that is not ready and has no task is interrupted unless it is taken to be set up.
theorem isInterrupted_eq (hready : t.status ≠ readyStatus) (hfree : e.slot? (.tile t.id) = none)
    (p : Production) : e.isInterrupted t p = !e.isSettingUp t p := by
  simp [isInterrupted, tileTask?, task?, hfree, hready]

/-- A call that nothing stands in the way of runs the function. -/
theorem Asks.invoke_eq (h : Asks e a t p) (hfree : e.slot? (.tile t.id) = none) :
    e.invoke true a.id t.id p.opener.name =
      e.startProduction true a t p.opener.energy p.course := by
  have hfunction : t.function? p.opener.name = some p.opener := by
    rw [Tile.function?, if_pos h.binds, h.kind]
    cases p <;> decide
  have hobstacle : e.obstacle? p.opener a t = none := by
    rw [obstacle?, if_neg (not_not_intro h.there), actorTask?, task?, h.idle, tileTask?, task?,
      hfree]
    simp [Nat.not_lt.mpr h.able]
  unfold invoke
  rw [(World.actor_eq_ok_iff _ _ _).mpr h.actor, (World.tile_eq_ok_iff _ _ _).mpr h.tile]
  simp only [hfunction, hobstacle]
  cases p <;> rfl

-- A call that is refused changes nothing.
theorem invoke_refused (hkeyed : e.world.Keyed) (actor tile name : String)
    (hrefused : (e.invoke true actor tile name).1.isOk = false) :
    (e.invoke true actor tile name).2 = e := by
  rcases invoke_whole hkeyed actor tile name with ⟨f, a, t, _, _, _, _, hwhole⟩ |
    ⟨failure, hfailed, _⟩
  · generalize e.invoke true actor tile name = r at hrefused hwhole
    unfold Whole at hwhole
    cases hr : r.1 with
    | error failure =>
        rw [hr] at hwhole
        exact hwhole.1
    | ok success =>
        rw [hr] at hrefused
        cases hrefused
  · rw [hfailed]

/-- In every state that can be reached, an idle actor with the energy for it that asks to start a
    cycle on a tile that is neither idle nor ready is refused in two cases only: a task is under way
    whose end brings the tile on, or the worker of the tile sets up another tile of the same kind.
    A call that is refused changes nothing, and any other call starts the tile over. -/
theorem refused_iff {w : World} (hkeyed : w.Keyed) (stepTime : Nat) (hs : List Happening)
    (a : Actor) (t : Tile) (p : Produce)
    (hasks : Asks ((Engine.new w stepTime).happenings hs) a t p) (hidle : t.status ≠ idleStatus)
    (hready : t.status ≠ readyStatus) :
    let e := (Engine.new w stepTime).happenings hs
    let r := e.invoke true a.id t.id p.opener.name
    (r.1.isOk = false ↔ Driven e t.id ∨ Elsewhere e t p) ∧
      (r.1.isOk = false → r.2 = e) ∧
      (r.1.isOk = true → SetsUp e r.2 a.id t.id p.opener.energy p.course) := by
  intro e r
  have h : Attended e := (attended_new hkeyed stepTime).happenings hs
  refine ⟨?_, invoke_refused h.keyed a.id t.id p.opener.name, invoke_setsUp h.keyed p⟩
  cases hs : e.slot? (.tile t.id) with
  | some s =>
      exact iff_of_true (invoke_of_slot? h.keyed (Or.inr hs) _ _) (Or.inl ⟨.tile t.id, s, hs, rfl⟩)
  | none =>
      rw [← h.isSettingUp_iff_driven hasks.tile hasks.kind hs]
      have hr : r = e.startProduction true a t p.opener.energy p.course := hasks.invoke_eq hs
      have hlive := isInterrupted_eq hready hs p.course
      cases hsetting : e.isSettingUp t p.course with
      | true =>
          rw [hr, startProduction_refuses hidle (by rw [hlive, hsetting]; rfl)]
          exact iff_of_true rfl rfl
      | false =>
          have hok := startProduction_accepts hasks.actor hasks.tile hasks.idle hasks.able
            (Or.inr (by rw [hlive, hsetting]; rfl) : _ ∨ e.isInterrupted t p.course = true)
          rw [hr, hok]
          exact iff_of_false nofun nofun

-- What is seen of an actor and a tile tells whether the actor asks to start a cycle there.
theorem asks_of_seen (hkeyed : e.world.Keyed) (actor tile : String) {status : String}
    {place : Position}
    (hactor : (e.world.actors.get? actor).map
      (fun a => (a.position, decide (p.opener.energy ≤ a.energy))) = some (place, true))
    (htile : (e.world.tiles.get? tile).map
      (fun t => (t.kind, t.binds p.opener.name, t.position, t.status)) =
        some (p.kind, true, place, status))
    (hidle : (e.slot? (.actor actor)).isNone = true) :
    ∃ a t, a.id = actor ∧ t.id = tile ∧ t.status = status ∧ Asks e a t p := by
  rcases Option.map_eq_some_iff.mp hactor with ⟨a, ha, hseen⟩
  rcases Option.map_eq_some_iff.mp htile with ⟨t, ht, hshown⟩
  simp only [Prod.mk.injEq, decide_eq_true_eq] at hseen hshown
  have haid := hkeyed.actors actor a ha
  have htid := hkeyed.tiles tile t ht
  refine ⟨a, t, haid, htid, hshown.2.2.2, haid ▸ ha, htid ▸ ht, hshown.1, hshown.2.1,
    hseen.1.trans hshown.2.2.1.symm, ?_, hseen.2⟩
  rw [haid, ← Option.isNone_iff_eq_none, hidle]

/-! ## Two mines -/

/-- Two mines next to each other, with two actors at the first. -/
def mines : World :=
  ((((World.empty ⟨2, 1⟩).insertTile (Tile.new "west" .mine ⟨0, 0⟩)).insertTile
    (Tile.new "east" .mine ⟨1, 0⟩)).insertActor (Actor.new "ann" ⟨0, 0⟩)).insertActor
      (Actor.new "bob" ⟨0, 0⟩)

/-- One actor begins to set up the first mine, and goes to the other when that was cancelled. -/
def leaving : List Happening :=
  [.deed (.call true "ann" "west" "mine_initiate"), .deed .cancel, .arrive "ann" ⟨1, 0⟩]

/-- There it begins to set up the other mine. -/
def settling : List Happening :=
  leaving ++ [.deed (.call true "ann" "east" "mine_initiate")]

theorem keyed_mines : mines.Keyed :=
  ((((World.keyed_empty _).insertTile _).insertTile _).insertActor _).insertActor _

-- The other actor asks to start the mine that was left.
theorem asks_mines (hs : List Happening)
    (hactor : (((Engine.new mines 1).happenings hs).world.actors.get? "bob").map
      (fun a => (a.position, decide (10 ≤ a.energy))) = some (⟨0, 0⟩, true))
    (htile : (((Engine.new mines 1).happenings hs).world.tiles.get? "west").map
      (fun t => (t.kind, t.binds "mine_initiate", t.position, t.status)) =
        some (.mine, true, ⟨0, 0⟩, "preparing"))
    (hidle : (((Engine.new mines 1).happenings hs).slot? (.actor "bob")).isNone = true) :
    ∃ a t, a.id = "bob" ∧ t.id = "west" ∧ t.status = "preparing" ∧
      Asks ((Engine.new mines 1).happenings hs) a t .ore :=
  asks_of_seen (p := .ore) ((attended_new keyed_mines 1).happenings hs).keyed "bob" "west" hactor
    htile hidle

/-- When the worker is done with the other mine, the first one is started over by another actor. -/
theorem refused_iff_neighbours :
    let e := (Engine.new mines 1).happenings (settling ++ [.deed (.advance 5000)])
    ∃ a t, a.id = "bob" ∧ t.id = "west" ∧ t.status = "preparing" ∧ Asks e a t .ore ∧
      SetsUp e (e.invoke true a.id t.id "mine_initiate").2 a.id t.id 10 mining := by
  intro e
  rcases asks_mines (settling ++ [.deed (.advance 5000)]) (by decide +kernel)
    (by decide +kernel) (by decide +kernel) with ⟨a, t, ha, ht, hstatus, hasks⟩
  have hcalled := refused_iff keyed_mines 1 _ a t .ore hasks (hstatus ▸ by decide)
    (hstatus ▸ by decide)
  have hok : (e.invoke true "bob" "west" "mine_initiate").1.isOk = true := by decide +kernel
  refine ⟨a, t, ha, ht, hstatus, hasks, hcalled.2.2 ?_⟩
  rw [ha, ht]
  exact hok

/-- It is not so that only a task under way keeps a tile from being started: a cancelled mine is
    refused to another actor for as long as the one that left it sets up the mine next to it. -/
theorem not_refused_iff_driven :
    ¬ ∀ (w : World) (hs : List Happening) (a : Actor) (t : Tile) (p : Produce), w.Keyed →
      Asks ((Engine.new w 1).happenings hs) a t p → t.status ≠ idleStatus →
      t.status ≠ readyStatus →
        ((((Engine.new w 1).happenings hs).invoke true a.id t.id p.opener.name).1.isOk = false ↔
          Driven ((Engine.new w 1).happenings hs) t.id) := by
  intro hclaim
  let e := (Engine.new mines 1).happenings settling
  rcases asks_mines settling (by decide +kernel) (by decide +kernel)
    (by decide +kernel) with ⟨a, t, ha, ht, hstatus, hasks⟩
  have hrefused : (e.invoke true "bob" "west" "mine_initiate").1.isOk = false := by decide +kernel
  rcases (hclaim mines settling a t .ore keyed_mines hasks (hstatus ▸ by decide)
    (hstatus ▸ by decide)).mp (ha ▸ ht ▸ hrefused) with ⟨key, s, hslot, hdrives⟩
  -- The only task under way is that of the other mine.
  have hsets : SetsUp ((Engine.new mines 1).happenings leaving) e "ann" "east" 10 mining :=
    invoke_setsUp ((attended_new keyed_mines 1).happenings leaving).keyed .ore (by decide +kernel)
  have hnone : ((Engine.new mines 1).happenings leaving).slots = [] :=
    List.isEmpty_iff.mp (by decide +kernel)
  have honly := mem_of_slot? hslot
  rw [hsets.slots, hnone, List.mem_singleton, Prod.mk.injEq] at honly
  rw [honly.1, honly.2] at hdrives
  rcases hdrives with ⟨q, hend⟩
  have hsame := (afterSetup_inj (p := .ore) hend).1
  rw [ht] at hsame
  exact absurd hsame (by decide)

end Engine

end Farmhand
