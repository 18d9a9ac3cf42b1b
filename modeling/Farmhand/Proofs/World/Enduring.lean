import Farmhand.Proofs.Engine.Interaction
import Farmhand.Proofs.World.Layout

/-!
# What Lasts in the World

Much of a world is settled when its file is read: its size, who and what is in it, and what these
can do. Scripts change where an actor is, what energy it has and what it carries, what the tiles
tell of themselves, and the counters. None of these changes puts an actor outside the world or lets
it have more energy than it can have, and no counter ever goes down, since nothing takes from the
counters and a counter that could overflow stays at the largest value.

A counter only lasts in this way as long as it is not above that value to begin with. That is one
of the things that a world file has to keep to, so it is part of what is said of a world here.

## Main definitions

* `World.Sound`: No actor is outside or has too much energy, and no counter is too large.
* `Actor.nature`, `Tile.nature`: What nothing changes in an actor or tile.
* `World.Lasts`: What is settled stays, and counters do not go down.
* `World.Endures`: A sound world lasts and stays sound.

## Theorems

* `WorldFile.sound_of_build`: The world of a file is sound.
* `World.endures_updateActor`: Worlds endure whatever is done to an actor.
* `World.followed_endures`: They endure all that tile functions and tasks do to them.
-/

namespace Farmhand

/-- What nothing changes in an actor. -/
def Actor.nature (a : Actor) : String × ActorKind × Nat × Float :=
  (a.id, a.kind, a.maxEnergy, a.speed)

/-- What nothing changes in a tile. -/
def Tile.nature (t : Tile) : String × TileKind × Position × List String :=
  (t.id, t.kind, t.position, t.functions)

namespace World

/-- No actor is outside or has more energy than it can have, and no counter is larger than a counter
    can be. -/
structure Sound (w : World) : Prop where
  inside : ∀ id a, w.actors.get? id = some a → w.bounds.contains a.position = true
  energy : ∀ id a, w.actors.get? id = some a → a.energy ≤ a.maxEnergy
  counters : ∀ name, w.resource name ≤ Integer.maxCounter

/-- What is settled stays, and counters do not go down. -/
structure Lasts (w w' : World) : Prop where
  bounds : w'.bounds = w.bounds
  actors : ∀ id, (w'.actors.get? id).map Actor.nature = (w.actors.get? id).map Actor.nature
  tiles : ∀ id, (w'.tiles.get? id).map Tile.nature = (w.tiles.get? id).map Tile.nature
  counters : ∀ name, w.resource name ≤ w'.resource name

/-- A sound world lasts and stays sound. -/
def Endures (w w' : World) : Prop :=
  w.Sound → w.Lasts w' ∧ w'.Sound

variable {w w' w'' : World}

theorem lasts_self (w : World) : w.Lasts w :=
  ⟨rfl, fun _ => rfl, fun _ => rfl, fun _ => Nat.le_refl _⟩

-- What lasts through one change and through another lasts through both.
theorem Lasts.trans (h : w.Lasts w') (h' : w'.Lasts w'') : w.Lasts w'' :=
  ⟨h'.bounds.trans h.bounds, fun id => (h'.actors id).trans (h.actors id),
    fun id => (h'.tiles id).trans (h.tiles id),
    fun name => Nat.le_trans (h.counters name) (h'.counters name)⟩

theorem endures_self (w : World) : w.Endures w :=
  fun hsound => ⟨lasts_self w, hsound⟩

-- Soundness is kept in between.
theorem Endures.trans (h : w.Endures w') (h' : w'.Endures w'') : w.Endures w'' := by
  intro hsound
  have hfirst := h hsound
  have hlater := h' hfirst.2
  exact ⟨hfirst.1.trans hlater.1, hlater.2⟩

/-! ## Actors -/

-- Another actor of the same nature in the place of one.
theorem endures_insertActor {id : String} {a b : Actor} (ha : w.actors.get? id = some a)
    (hnature : b.nature = a.nature)
    (hinside : w.bounds.contains a.position = true → w.bounds.contains b.position = true)
    (henergy : a.energy ≤ a.maxEnergy → b.energy ≤ b.maxEnergy) :
    w.Endures { w with actors := w.actors.insert id b } := by
  intro hsound
  have hall : ∀ {P : Actor → Prop}, w.actors.All P → (P a → P b) → (w.actors.insert id b).All P :=
    fun h hb => h.insert id (hb (h id a ha))
  refine ⟨⟨rfl, fun other => ?_, fun _ => rfl, fun _ => Nat.le_refl _⟩,
    hall hsound.inside hinside, hall hsound.energy henergy, hsound.counters⟩
  by_cases hother : other = id
  · rw [hother, Table.get?_insert_self, ha, Option.map_some, Option.map_some, hnature]
  · rw [Table.get?_insert_of_ne _ _ _ _ hother]

/-- Worlds endure whatever is done to an actor. -/
theorem endures_updateActor {id : String} {patch : ActorPatch}
    (h : w.updateActor id patch = .ok w') : w.Endures w' := by
  rcases (updateActor_eq_ok_iff w w' id patch).mp h with ⟨a, b, ha, hb, rfl⟩
  rcases patchActor_eq_ok hb with ⟨n, rfl, henergy, hinside⟩
  refine endures_insertActor ha rfl (fun h => ?_) henergy
  cases hposition : patch.position with
  | none => exact h
  | some p => exact hinside p hposition

/-! ## Tiles and counters -/

-- A change of a tile that leaves its nature.
theorem endures_modifyTile (w : World) (id : String) {f : Tile → Tile}
    (hf : ∀ t, (f t).nature = t.nature) : w.Endures { w with tiles := w.tiles.modify id f } := by
  refine fun hsound => ⟨⟨rfl, fun _ => rfl, fun other => ?_, fun _ => Nat.le_refl _⟩,
    hsound.inside, hsound.energy, hsound.counters⟩
  by_cases hother : other = id
  · rw [hother, Table.get?_modify_self, Option.map_map]
    exact congrArg (Option.map · _) (funext hf)
  · rw [Table.get?_modify_of_ne _ _ _ _ hother]

-- The state of a tile, its status and quantity included, is no part of its nature.
theorem endures_withState (w : World) (id : String) (entries : List (String × TileValue)) :
    w.Endures (w.withState id entries) :=
  endures_modifyTile w id fun _ => rfl

theorem endures_updateTile {id : String} {patch : TilePatch}
    (h : w.updateTile id patch = .ok w') : w.Endures w' := by
  rcases (updateTile_eq_ok_iff w w' id patch).mp h with ⟨t, ht, rfl⟩
  have hmodify : w.tiles.modify id (·.patched patch) = w.tiles.insert id (t.patched patch) := by
    rw [Table.modify, ht]
  rw [← hmodify]
  exact endures_modifyTile w id fun _ => rfl

-- The task that is shown is no part of the nature of a tile or an actor.
theorem endures_withTask (w : World) (task : Option Task) (key : TaskKey) :
    w.Endures (w.withTask task key) := by
  cases key with
  | tile id => exact endures_modifyTile w id fun _ => rfl
  | actor id =>
      cases ha : w.actors.get? id with
      | none =>
          have hsame : w.withTask task (.actor id) = w := by
            simp only [withTask, Table.modify, ha]
          rw [hsame]
          exact endures_self w
      | some a =>
          simp only [withTask, Table.modify, ha]
          exact endures_insertActor ha rfl (fun h => h) fun h => h

-- Additions to counters. A counter that is not too large does not go down when it is capped.
theorem endures_updateResources {change : ResourceChange} (hchange : change.All (0 ≤ ·))
    (h : w.updateResources change = .ok w') : w.Endures w' := by
  have hframe := updateResources_eq h
  have hcounters := (updateResources_eq_ok h).2.2
  intro hsound
  have hstep : ∀ name, w.resource name ≤ w'.resource name ∧
      w'.resource name ≤ Integer.maxCounter := by
    intro name
    have hold := hsound.counters name
    rw [hcounters name]
    cases hdelta : change.get? name with
    | none => exact ⟨Nat.le_refl _, hold⟩
    | some delta =>
        have hnonneg : 0 ≤ delta := hchange name delta hdelta
        simp only [Option.elim_some]
        omega
  refine ⟨⟨?_, fun id => ?_, fun id => ?_, fun name => (hstep name).1⟩, ?_, ?_,
    fun name => (hstep name).2⟩
  · rw [hframe]
  · rw [hframe]
  · rw [hframe]
  · rw [hframe]
    exact hsound.inside
  · rw [hframe]
    exact hsound.energy

/-- Worlds endure all that tile functions and tasks do to them. -/
theorem followed_endures : Followed Endures where
  self := endures_self
  trans := Endures.trans
  apply := by
    intro w w' actor op hop h
    cases op with
    | actor id patch => exact endures_updateActor h
    | tile id patch => exact endures_updateTile h
    | resources change => exact endures_updateResources hop h
    | guard id key expected =>
        rw [apply_guard_eq_ok h]
        exact endures_self w
  task := endures_withTask
  state := endures_withState

end World

/-! ## World files -/

namespace World

variable {w w' : World}

-- A counter that was just set.
theorem resource_insertResource_le {m : Nat} (h : ∀ name, w.resource name ≤ m) (name : String)
    {amount : Nat} (hamount : amount ≤ m) (other : String) :
    (w.insertResource name amount).resource other ≤ m := by
  have hget : (w.insertResource name amount).resource other =
      ((w.resources.insert name amount).get? other).getD 0 := rfl
  rw [hget]
  by_cases hother : other = name
  · rw [hother, Table.get?_insert_self]
    exact hamount
  · rw [Table.get?_insert_of_ne _ _ _ _ hother]
    exact h other

-- There is nothing to be wrong in an empty world.
theorem sound_empty (bounds : Bounds) : (empty bounds).Sound :=
  ⟨Table.all_empty, Table.all_empty, fun _ => Nat.zero_le _⟩

-- A counter is written with an amount that is checked before.
theorem Sound.insertResource (h : w.Sound) (name : String) {amount : Nat}
    (hamount : amount ≤ Integer.maxCounter) : (w.insertResource name amount).Sound :=
  ⟨h.inside, h.energy, resource_insertResource_le h.counters name hamount⟩

/-- Each actor of a file is checked for its place and its energy before it is put into the world. -/
theorem Sound.addActors (h : w.Sound) {entries : List ActorEntry}
    (hadd : w.addActors entries = .ok w') : w'.Sound := by
  induction entries generalizing w with
  | nil => exact Except.ok.inj hadd ▸ h
  | cons entry rest ih =>
      unfold World.addActors at hadd
      split at hadd
      · simp only [reduceCtorEq] at hadd
      · next v hv =>
        refine ih ?_ hadd
        unfold addActor at hv
        split at hv
        · next hinside =>
          rw [← Except.ok.inj hv]
          exact ⟨Table.All.insert h.inside entry.id hinside,
            Table.All.insert h.energy entry.id (Nat.min_le_right _ _), h.counters⟩
        · simp only [reduceCtorEq] at hv

-- Tiles have no energy.
theorem Sound.addTiles (h : w.Sound) {entries : List TileEntry}
    (hadd : w.addTiles entries = .ok w') : w'.Sound := by
  induction entries generalizing w with
  | nil => exact Except.ok.inj hadd ▸ h
  | cons entry rest ih =>
      unfold World.addTiles at hadd
      split at hadd
      · simp only [reduceCtorEq] at hadd
      · next v hv =>
        refine ih ?_ hadd
        unfold addTile at hv
        split at hv
        · split at hv
          · simp only [reduceCtorEq] at hv
          · rw [← Except.ok.inj hv]
            exact ⟨h.inside, h.energy, h.counters⟩
        · simp only [reduceCtorEq] at hv

-- The counters of a file are within their range, so the loop over them keeps all counters within
-- it.
theorem Sound.insertResources (h : w.Sound) {entries : List (String × Nat)}
    (hentries : ∀ entry ∈ entries, entry.2 ≤ Integer.maxCounter) :
    (entries.foldl (fun w (name, (amount : Nat)) => w.insertResource name amount) w).Sound := by
  induction entries generalizing w with
  | nil => exact h
  | cons entry rest ih =>
      exact ih (h.insertResource entry.1 (hentries entry List.mem_cons_self)) fun other hother =>
        hentries other (List.mem_cons_of_mem _ hother)

end World

/-- The world of a file whose counters are not too large is sound. -/
theorem WorldFile.sound_of_build {file : WorldFile} {w : World} (h : file.build = .ok w)
    (hcounters : ∀ entry ∈ file.resources.entries, entry.2 ≤ Integer.maxCounter) : w.Sound := by
  rcases exists_of_build_eq_ok h with ⟨peopled, laid, hpeopled, htiles, rfl⟩
  have hlaid := ((World.sound_empty file.bounds).addActors hpeopled).addTiles htiles
  exact hlaid.insertResources hcounters

end Farmhand
