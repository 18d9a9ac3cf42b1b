import Farmhand.Proofs.Engine.Interaction
import Farmhand.Proofs.Production.Conservation

/-!
# All or Nothing

A call of a tile function has several parts: it may take energy from the actor, write to the tile,
add to the counters and start a task. The parts that can fail for want of something are one
transaction, and the start of the task is the only other part that can fail. But a call gets so far
only when the actor has no slot at all, and a transaction gives it none. So the start is accepted,
the way back that is laid for a refused start is never taken, and a call that fails has done
nothing.

## Main definitions

* `World.energy?`: The energy of an actor.
* `TileFunction.leaves`: The energy that a function leaves to its actor.
* `Engine.Whole`: A call that fails has done nothing, and one that succeeds has taken its price.
* `Engine.setupTask`, `Engine.SetsUp`: What an accepted start of a cycle does.

## Theorems

* `World.updateActor_debit`: What an actor pays with.
* `startProduction_whole`, `collectOutput_whole`, `eat_whole`, `store_whole`: The functions.
* `invoke_whole`: Every call is all or nothing.
* `World.Followed.deeds`: What is followed by all that can happen to the tiles.
* `all_or_nothing`: So it is in every state that such deeds lead to.
-/

namespace Farmhand

/-- The energy of an actor. -/
def World.energy? (w : World) (actor : String) : Option Nat :=
  (w.actors.get? actor).map Actor.energy

/-- The energy that an accepted call of a function leaves to its actor. -/
def TileFunction.leaves (f : TileFunction) (a : Actor) (t : Tile) : Nat :=
  match f with
  | eat => min (a.energy + t.nutrition) a.maxEnergy
  | store => if a.load = 0 then a.energy else a.energy - f.energy
  | f => a.energy - f.energy

namespace World

variable {w w' : World} {id : String}

/-- An actor that pays has the energy, and keeps the rest. -/
theorem updateActor_debit {patch : ActorPatch} {amount : Nat}
    (henergy : patch.energy = some (.debit amount)) (hposition : patch.position = none)
    (h : w.updateActor id patch = .ok w') :
    ∃ a, w.actors.get? id = some a ∧ amount ≤ a.energy ∧
      w' = { w with actors := w.actors.insert id { a with
        energy := a.energy - amount
        inventory := patch.inventory.getD a.inventory
        task := patch.task.getD a.task } } := by
  rcases (updateActor_eq_ok_iff w w' id patch).mp h with ⟨a, b, ha, hb, rfl⟩
  simp only [patchActor, hposition, patchActor.energyPatched, henergy, Actor.changeEnergy] at hb
  by_cases hle : amount ≤ a.energy
  · rw [if_pos hle] at hb
    rw [← Except.ok.inj hb]
    exact ⟨a, ha, hle, rfl⟩
  · rw [if_neg hle] at hb
    simp only [Except.map, reduceCtorEq] at hb

theorem energy?_eq_some {a : Actor} (h : w.actors.get? id = some a) :
    w.energy? id = some a.energy := by
  rw [energy?, h, Option.map_some]

theorem energy?_insert (w : World) (id : String) (a : Actor) :
    ({ w with actors := w.actors.insert id a } : World).energy? id = some a.energy :=
  energy?_eq_some (Table.get?_insert_self _ _ _)

end World

theorem Failure.ofWorldError_ne_couldNotStart (error : WorldError) (id label : String) :
    ofWorldError error ≠ .couldNotStart id label := by
  cases error <;> exact nofun

namespace Engine

variable {e e' : Engine} {a : Actor} {t : Tile}

/-- What a call comes to for its actor. If it fails, nothing has changed, and a task that could not
    start is not the reason. If it succeeds, the actor has what it leaves, and nothing is taken
    later. -/
def Whole (e : Engine) (actor : String) (left : Nat) (r : Outcome × Engine) : Prop :=
  match r.1 with
  | .error failure => r.2 = e ∧ ∀ id label, failure ≠ .couldNotStart id label
  | .ok s => s.energyCost = none ∧ r.2.world.energy? actor = some left

theorem whole_error {actor : String} {left : Nat} {failure : Failure}
    (h : ∀ id label, failure ≠ .couldNotStart id label) :
    Whole e actor left (.error failure, e) :=
  ⟨rfl, h⟩

theorem whole_ofWorldError {actor : String} {left : Nat} (error : WorldError) :
    Whole e actor left (.error (.ofWorldError error), e) :=
  whole_error (Failure.ofWorldError_ne_couldNotStart error)

-- A key without a slot is free.
theorem isFree_of_slot?_eq_none {key : TaskKey} (h : e.slot? key = none) :
    e.isFree key = true := by
  rw [isFree, h]

-- A slot on a key that had none is one more, and the others stay.
theorem putSlot_slots_of_slot?_eq_none {key : TaskKey} (h : e.slot? key = none) (s : Slot) :
    (e.putSlot key s).slots = (key, s) :: e.slots := by
  have hall : ∀ entry ∈ e.slots, decide (entry.1 ≠ key) = true := by
    intro entry hentry
    have hfind := List.find?_eq_none.mp (Option.map_eq_none_iff.mp h) entry hentry
    simpa only [decide_eq_true_eq] using hfind
  rw [putSlot_slots, List.filter_eq_self.mpr hall]

/-! ## Setting up -/

/-- The task of an actor that sets a tile up. -/
def setupTask (e : Engine) (actor : String) (p : Production) : Task :=
  ⟨p.setupLabel, p.setupDescription, some actor, e.now, p.setupTime⟩

/-- What an accepted start of a cycle does: the actor pays the energy and is shown at its task,
    which is one more under way, with a timer of its own; the tile gets the status and the worker;
    and this is all. -/
structure SetsUp (e e' : Engine) (actor tile : String) (energy : Nat) (p : Production) : Prop where
  pays : ∃ a, e.world.actors.get? actor = some a ∧ energy ≤ a.energy ∧
    e'.world.actors.get? actor =
      some { a with energy := a.energy - energy, task := some (e.setupTask actor p) }
  free : e.slot? (.actor actor) = none
  slots : e'.slots = (.actor actor,
    ⟨e.setupTask actor p, e.nextGeneration, false, afterSetup actor tile p⟩) :: e.slots
  timers : e'.timers = e.timers ++ [⟨e.now + p.setupTime, .actor actor, e.nextGeneration⟩]
  marks : ∃ t t', e.world.tiles.get? tile = some t ∧ e'.world.tiles.get? tile = some t' ∧
    t' = { t with state := t'.state } ∧ t'.state.get? statusKey = some (.text p.preparing) ∧
      t'.state.get? workerKey = some (.text actor) ∧
        ∀ key, key ≠ statusKey → key ≠ workerKey → t'.state.get? key = t.state.get? key
  actors : ∀ other, other ≠ actor → e'.world.actors.get? other = e.world.actors.get? other
  tiles : ∀ other, other ≠ tile → e'.world.tiles.get? other = e.world.tiles.get? other
  resources : e'.world.resources = e.world.resources
  ground : e'.world.bounds = e.world.bounds ∧ e'.world.places = e.world.places
  aside : Aside e e'

-- A worker and a status that were written are there, and nothing else is another.
theorem state_prepared (t : Tile) (preparing worker : String) :
    let state := t.state.insertAll [(statusKey, .text preparing), (workerKey, .text worker)]
    state.get? statusKey = some (.text preparing) ∧ state.get? workerKey = some (.text worker) ∧
      ∀ key, key ≠ statusKey → key ≠ workerKey → state.get? key = t.state.get? key := by
  have hne : statusKey ≠ workerKey := by decide
  simp only [Table.insertAll, List.foldl_cons, List.foldl_nil]
  refine ⟨?_, Table.get?_insert_self _ _ _, fun key hstatus hworker => ?_⟩
  · rw [Table.get?_insert_of_ne _ _ _ _ hne, Table.get?_insert_self]
  · rw [Table.get?_insert_of_ne _ _ _ _ hworker, Table.get?_insert_of_ne _ _ _ _ hstatus]

-- The payment and the writing, and then the task of an actor that has none.
theorem setsUp_started (ha : e.world.actors.get? a.id = some a)
    (ht : e.world.tiles.get? t.id = some t) (hfree : e.slot? (.actor a.id) = none) {energy : Nat}
    (henergy : energy ≤ a.energy) (p : Production) :
    let paid : World := { e.world with
      actors := e.world.actors.insert a.id { a with energy := a.energy - energy } }
    let marked := paid.withState t.id [(statusKey, .text p.preparing), (workerKey, .text a.id)]
    SetsUp e (({ e with world := marked } : Engine).started (.actor a.id) (e.setupTask a.id p)
      (afterSetup a.id t.id p)) a.id t.id energy p := by
  intro paid marked
  have hstate := state_prepared t p.preparing a.id
  have hslots : ({ e with world := marked } : Engine).slot? (.actor a.id) = none := hfree
  have haside : Aside e { e with world := marked } := ⟨rfl, rfl, rfl, rfl, rfl, rfl⟩
  refine ⟨⟨a, ha, henergy, ?_⟩, hfree, ?_, rfl, ⟨t,
    t.written [(statusKey, .text p.preparing), (workerKey, .text a.id)], ht, ?_, rfl, hstate⟩,
    fun other hother => ?_, fun other hother => ?_, ?_, ?_, haside.started _ _ _⟩
  · rw [started_world]
    simp only [World.withTask, Table.get?_modify_self, marked, World.withState, paid,
      Table.get?_insert_self, Option.map_some]
  · rw [started_slots]
    exact putSlot_slots_of_slot?_eq_none hslots _
  · rw [started_world]
    simp only [World.withTask, marked, World.withState, Table.get?_modify_self, paid, ht,
      Option.map_some]
    rfl
  · rw [started_world]
    simp only [World.withTask, marked, World.withState, paid,
      Table.get?_modify_of_ne _ _ _ _ hother, Table.get?_insert_of_ne _ _ _ _ hother]
  · rw [started_world]
    simp only [World.withTask, marked, World.withState, paid,
      Table.get?_modify_of_ne _ _ _ _ hother]
  · rw [started_world]
    rfl
  · rw [started_world]
    exact ⟨rfl, rfl⟩

/-- A start of a cycle by an actor without a task is all or nothing. -/
theorem startProduction_whole (ha : e.world.actors.get? a.id = some a)
    (ht : e.world.tiles.get? t.id = some t) (hfree : e.slot? (.actor a.id) = none) (energy : Nat)
    (p : Production) :
    Whole e a.id (a.energy - energy) (e.startProduction true a t energy p) ∧
      ((e.startProduction true a t energy p).1.isOk = true →
        SetsUp e (e.startProduction true a t energy p).2 a.id t.id energy p) := by
  unfold startProduction
  split
  · exact ⟨whole_error nofun, fun h => absurd h Bool.false_ne_true⟩
  · simp only
    cases htransact : e.transact [t.unchanged statusKey, t.unchanged workerKey,
        .actor a.id { energy := some (.debit energy) },
        .tile t.id { state := [(statusKey, .text p.preparing), (workerKey, .text a.id)] }] with
    | error error => exact ⟨whole_ofWorldError error, fun h => absurd h Bool.false_ne_true⟩
    | ok prepared =>
        rcases (transact_eq_ok_iff _ _ _).mp htransact with ⟨w, hw, rfl⟩
        -- The demands change nothing. The actor pays, and then the tile is written.
        have hrest := transact_guard (transact_guard hw)
        rcases (World.transact_cons_eq_ok_iff _ _ _ _).mp hrest with ⟨w₁, hpays, hmarks⟩
        rcases (World.transact_cons_eq_ok_iff _ _ _ _).mp hmarks with ⟨w₂, htile, hnil⟩
        rcases World.updateActor_debit rfl rfl hpays with ⟨b, hb, henergy, rfl⟩
        rw [World.transact_nil_eq_ok_iff] at hnil
        have hwritten := World.updateTile_eq_ok htile
        rw [hb, Option.some.injEq] at ha
        rw [← hnil, hwritten, ha]
        dsimp only
        have hsets := setsUp_started (hb.trans (congrArg some ha)) ht hfree (ha ▸ henergy) p
        have hmarked : ∀ w : World, ({ e with world := w } : Engine).isFree (.actor a.id) = true :=
          fun _ => isFree_of_slot?_eq_none (e := { e with world := _ }) hfree
        rw [start_eq, hmarked, Bool.and_true, if_pos rfl]
        refine ⟨⟨rfl, ?_⟩, fun _ => hsets⟩
        rcases hsets.pays with ⟨c, hc, _, hleft⟩
        rw [hb, ha, Option.some.injEq] at hc
        rw [← hc] at hleft
        exact World.energy?_eq_some hleft

/-! ## The other functions -/

/-- The collecting of what a tile has is all or nothing. -/
theorem collectOutput_whole (ha : e.world.actors.get? a.id = some a) (energy : Nat)
    (resource : String) :
    Whole e a.id (a.energy - energy) (e.collectOutput a t energy resource) := by
  unfold collectOutput
  split
  · exact whole_error nofun
  · simp only
    cases htransact : e.transact [t.unchanged statusKey,
        .tile t.id { state := [(statusKey, .text idleStatus), (quantityKey, .int 0)] },
        .resources (ResourceChange.add .empty resource (max t.quantity 0)),
        .actor a.id { energy := some (.debit energy) }] with
    | error error => exact whole_ofWorldError error
    | ok collected =>
        rcases (transact_eq_ok_iff _ _ _).mp htransact with ⟨w, hw, rfl⟩
        rcases (World.transact_cons_eq_ok_iff _ _ _ _).mp (transact_guard hw) with
          ⟨w₁, htile, hrest⟩
        rcases (World.transact_cons_eq_ok_iff _ _ _ _).mp hrest with ⟨w₂, hcounters, hlast⟩
        rcases (World.transact_cons_eq_ok_iff _ _ _ _).mp hlast with ⟨w₃, hpays, hnil⟩
        rw [World.transact_nil_eq_ok_iff] at hnil
        rcases World.updateActor_debit rfl rfl hpays with ⟨b, hb, _, rfl⟩
        -- Neither the tile nor the counters are the actor's.
        rw [(World.updateResources_eq_ok hcounters).1, World.updateTile_eq_ok htile] at hb
        have hsame : a = b := Option.some.inj (ha.symm.trans hb)
        refine ⟨rfl, ?_⟩
        rw [← hnil, hsame]
        exact World.energy?_insert _ _ _

/-- The meal of an actor without a task succeeds, and its energy has come. -/
theorem eat_whole (ha : e.world.actors.get? a.id = some a) (hfree : e.slot? (.actor a.id) = none) :
    Whole e a.id (min (a.energy + t.nutrition) a.maxEnergy) (e.eat true a t) := by
  unfold eat
  rw [start_eq, isFree_of_slot?_eq_none hfree, Bool.and_true, if_pos rfl]
  -- The task that is shown already takes nothing from the actor.
  generalize htask : (⟨"eat", "Eating", some a.id, e.now, mealTime⟩ : Task) = task
  have hshown : (e.started (.actor a.id) task []).world.actors.get? a.id =
      some { a with task := some task } := by
    simp only [started_world, World.withTask, Table.get?_modify_self, ha, Option.map_some]
  have hmeal : (e.started (.actor a.id) task []).world.updateActor a.id
      { energy := some (.credit t.nutrition) } = .ok { (e.started (.actor a.id) task []).world with
        actors := (e.started (.actor a.id) task []).world.actors.insert a.id { a with
          energy := min (a.energy + t.nutrition) a.maxEnergy
          task := some task } } :=
    (World.updateActor_eq_ok_iff _ _ _ _).mpr ⟨_, _, hshown, rfl, rfl⟩
  simp only [hmeal]
  exact ⟨rfl, World.energy?_insert _ _ _⟩

/-- A deposit is all or nothing. -/
theorem store_whole (ha : e.world.actors.get? a.id = some a) (energy : Nat) :
    Whole e a.id (if a.load = 0 then a.energy else a.energy - energy) (e.store a energy) := by
  unfold store
  by_cases hload : a.load = 0
  · rw [if_pos hload, if_pos hload]
    exact ⟨rfl, World.energy?_eq_some ha⟩
  · rw [if_neg hload, if_neg hload]
    simp only
    split
    · next error _ => exact whole_ofWorldError error
    · next stored htransact =>
        rcases (transact_eq_ok_iff _ _ _).mp htransact with ⟨w, hw, rfl⟩
        rcases (World.transact_cons_eq_ok_iff _ _ _ _).mp hw with ⟨w₁, hpays, hrest⟩
        rcases (World.transact_cons_eq_ok_iff _ _ _ _).mp hrest with ⟨w₂, hcounters, hnil⟩
        rw [World.transact_nil_eq_ok_iff] at hnil
        rcases World.updateActor_debit rfl rfl hpays with ⟨b, hb, _, rfl⟩
        have hsame : a = b := Option.some.inj (ha.symm.trans hb)
        refine ⟨rfl, ?_⟩
        rw [World.energy?, ← hnil, (World.updateResources_eq_ok hcounters).1, hsame]
        exact World.energy?_insert _ _ _

/-! ## Calls -/

/-- A function for an actor without a task is all or nothing. -/
theorem runFunction_whole (ha : e.world.actors.get? a.id = some a)
    (ht : e.world.tiles.get? t.id = some t) (hfree : e.slot? (.actor a.id) = none)
    (f : TileFunction) : Whole e a.id (f.leaves a t) (e.runFunction true f a t) := by
  cases f with
  | plant => exact (startProduction_whole ha ht hfree _ planting).1
  | harvest => exact collectOutput_whole ha _ crop
  | mineInitiate => exact (startProduction_whole ha ht hfree _ mining).1
  | collect => exact collectOutput_whole ha _ Farmhand.ore
  | eat => exact eat_whole ha hfree
  | store => exact store_whole ha _

-- Where nothing stands in the way, the actor has the energy that the function asks for.
theorem energy_le_of_obstacle?_eq_none {f : TileFunction} (h : e.obstacle? f a t = none) :
    f.energy ≤ a.energy := by
  unfold obstacle? at h
  split at h
  · simp only [reduceCtorEq] at h
  · split at h
    · simp only [reduceCtorEq] at h
    · split at h
      · simp only [reduceCtorEq] at h
      · split at h
        · simp only [reduceCtorEq] at h
        · next henergy => exact Nat.le_of_not_lt henergy

-- What stands in the way is never that a task could not start.
theorem obstacle?_ne_couldNotStart {f : TileFunction} {failure : Failure}
    (h : e.obstacle? f a t = some failure) (id label : String) :
    failure ≠ .couldNotStart id label := by
  unfold obstacle? at h
  split at h
  · exact Option.some.inj h ▸ nofun
  · split at h
    · exact Option.some.inj h ▸ nofun
    · split at h
      · exact Option.some.inj h ▸ nofun
      · split at h
        · exact Option.some.inj h ▸ nofun
        · simp only [reduceCtorEq] at h

/-- A call either fails before it does anything, or is a function that runs for an actor and a tile
    that are there, with nothing in its way. -/
theorem invoke_cases (hkeyed : e.world.Keyed) (timed : Bool) (actor tile name : String) :
    (∃ failure, e.invoke timed actor tile name = (.error failure, e) ∧
      ∀ id label, failure ≠ .couldNotStart id label) ∨
    ∃ f a t, a.id = actor ∧ t.id = tile ∧ e.world.actors.get? actor = some a ∧
      e.world.tiles.get? tile = some t ∧ t.function? name = some f ∧ f.energy ≤ a.energy ∧
        e.slot? (.actor actor) = none ∧ e.slot? (.tile tile) = none ∧
          e.invoke timed actor tile name = e.runFunction timed f a t := by
  unfold invoke
  cases hactor : e.world.actor actor with
  | error error => exact Or.inl ⟨_, rfl, nofun⟩
  | ok a =>
      cases htile : e.world.tile tile with
      | error error => exact Or.inl ⟨_, rfl, nofun⟩
      | ok t =>
          rw [World.actor_eq_ok_iff] at hactor
          rw [World.tile_eq_ok_iff] at htile
          cases hf : t.function? name with
          | none => exact Or.inl ⟨.noSuchFunction t.id name, by simp only [hf], nofun⟩
          | some f =>
              cases hobstacle : e.obstacle? f a t with
              | some failure =>
                  exact Or.inl ⟨failure, by simp only [hf, hobstacle],
                    obstacle?_ne_couldNotStart hobstacle⟩
              | none =>
                  have haid := hkeyed.actors actor a hactor
                  have htid := hkeyed.tiles tile t htile
                  rcases slot?_of_obstacle?_eq_none hobstacle with ⟨hidle, hfree⟩
                  exact Or.inr ⟨f, a, t, haid, htid, hactor, htile, hf,
                    energy_le_of_obstacle?_eq_none hobstacle, haid ▸ hidle, htid ▸ hfree,
                    by simp only [hf, hobstacle]⟩

/-- Every call is all or nothing, and leaves to its actor what its function says. -/
theorem invoke_whole (hkeyed : e.world.Keyed) (actor tile name : String) :
    (∃ f a t, e.world.actors.get? actor = some a ∧ e.world.tiles.get? tile = some t ∧
      t.function? name = some f ∧ f.energy ≤ a.energy ∧
        Whole e actor (f.leaves a t) (e.invoke true actor tile name)) ∨
    ∃ failure, e.invoke true actor tile name = (.error failure, e) ∧
      ∀ id label, failure ≠ .couldNotStart id label := by
  rcases invoke_cases hkeyed true actor tile name with hfailed |
    ⟨f, a, t, rfl, rfl, ha, ht, hf, henergy, hfree, _, heq⟩
  · exact Or.inr hfailed
  · exact Or.inl ⟨f, a, t, ha, ht, hf, henergy, heq ▸ runFunction_whole ha ht hfree f⟩

/-- An accepted call that starts a cycle sets the tile up. -/
theorem invoke_setsUp (hkeyed : e.world.Keyed) {actor tile : String} (p : Produce)
    (hok : (e.invoke true actor tile p.opener.name).1.isOk = true) :
    SetsUp e (e.invoke true actor tile p.opener.name).2 actor tile p.opener.energy p.course := by
  rcases invoke_cases hkeyed true actor tile p.opener.name with ⟨failure, hfailed, _⟩ |
    ⟨f, a, t, rfl, rfl, ha, ht, hf, henergy, hfree, _, heq⟩
  · rw [hfailed] at hok
    simp only [Except.isOk, Except.toBool, Bool.false_eq_true] at hok
  · have hname := (function?_eq_some hf).1
    have hopener : f = p.opener := by
      cases p <;> cases f <;> first | rfl | exact absurd hname (by decide)
    rw [heq] at hok ⊢
    have hruns :
        e.runFunction true f a t = e.startProduction true a t p.opener.energy p.course := by
      rw [hopener]
      cases p <;> rfl
    rw [hruns] at hok ⊢
    exact (startProduction_whole ha ht hfree _ _).2 hok

end Engine

/-! ## Deeds -/

/-- What tile functions and tasks follow is followed by all that can happen to the tiles. -/
theorem World.Followed.deeds {R : World → World → Prop} (h : Followed R) (e : Engine)
    (ds : List Deed) : R e.world (e.deeds ds).world := by
  induction ds generalizing e with
  | nil => exact h.self _
  | cons d rest ih =>
      refine h.trans ?_ (ih (e.deed d))
      cases d with
      | call timed actor tile name => exact h.invoke e timed actor tile name
      | expire =>
          cases ht : Engine.earliest? e.timers with
          | none => simpa only [Engine.deed, ht] using h.self _
          | some t =>
              simp only [Engine.deed, ht]
              exact h.fire (e.atDue t) t
      | advance milliseconds => exact h.attends.advanceTo e _
      | cancel => exact h.cancelAll e

namespace Engine

/-- In every state that calls, timers, advances of the clock and cancellations lead to, a call that
    fails leaves everything as it was, and it never fails because a task could not start. A call
    that starts a cycle and succeeds takes just its energy from the actor, adds just the task of
    setting up, and changes nothing of the tile but its status and its worker. -/
theorem all_or_nothing {w : World} (hkeyed : w.Keyed) (stepTime : Nat) (ds : List Deed)
    (actor tile : String) :
    let e := (Engine.new w stepTime).deeds ds
    (∀ name failure, (e.invoke true actor tile name).1 = .error failure →
      (e.invoke true actor tile name).2 = e ∧ ∀ id label, failure ≠ .couldNotStart id label) ∧
    ∀ p : Produce, (e.invoke true actor tile p.opener.name).1.isOk = true →
      SetsUp e (e.invoke true actor tile p.opener.name).2 actor tile p.opener.energy p.course := by
  intro e
  have hreached : e.world.Keyed := World.followed_keyed.deeds (Engine.new w stepTime) ds hkeyed
  refine ⟨fun name failure hfailure => ?_, fun p => invoke_setsUp hreached p⟩
  rcases invoke_whole hreached actor tile name with ⟨f, a, t, _, _, _, _, hwhole⟩ |
    ⟨other, heq, hreason⟩
  · rw [Whole, hfailure] at hwhole
    exact hwhole
  · rw [heq] at hfailure ⊢
    exact ⟨rfl, Except.error.inj hfailure ▸ hreason⟩

/-- A field whose planting was cancelled is no field to harvest, and is planted again. -/
theorem all_or_nothing_field :
    let w := ((World.empty ⟨1, 1⟩).insertTile (Tile.new "field" .farmland ⟨0, 0⟩)).insertActor
      (Actor.new "bot" ⟨0, 0⟩)
    let e := (Engine.new w 1).deeds [.call true "bot" "field" "plant", .advance 500, .cancel]
    w.Keyed ∧ (e.invoke true "bot" "field" "harvest").2 = e ∧
      SetsUp e (e.invoke true "bot" "field" "plant").2 "bot" "field" 5 planting := by
  intro w e
  have hkeyed : w.Keyed := ((World.keyed_empty _).insertTile _).insertActor _
  have hwhole := all_or_nothing hkeyed 1
    [.call true "bot" "field" "plant", .advance 500, .cancel] "bot" "field"
  have hrefused : (e.invoke true "bot" "field" "harvest").1.isOk = false := by decide
  refine ⟨hkeyed, ?_, hwhole.2 .wheat (by decide)⟩
  cases hharvest : (e.invoke true "bot" "field" "harvest").1 with
  | error failure => exact (hwhole.1 "harvest" failure hharvest).1
  | ok s => simp only [hharvest, Except.isOk, Except.toBool, Bool.true_eq_false] at hrefused

end Engine

end Farmhand
