import Farmhand.Proofs.World.Update

/-!
# What Transactions Do to the World

A transaction that goes through has made each of its steps in turn, and each kind of step has its
own small effect: a demand changes nothing, an actor's step changes one actor and leaves tiles and
counters alone, a tile's step writes entries to one tile, and a change of the counters adds to each
of them. A caller puts the effect of its transaction together from these.

## Main definitions

* `World.Keyed`: Actors and tiles are filed under their own ids.

## Theorems

* `Keyed.insertActor`, `Keyed.insertTile`, `Keyed.withTask`, `Keyed.withState`: What keeps the files
  in order.
* `transact_cons_eq_ok_iff`: A transaction makes its steps in turn.
* `apply_guard_eq_ok`, `updateActor_eq_ok`, `updateTile_eq_ok`: The steps.
* `updateResources_eq_ok`: Each counter grows by its part of the change.
-/

namespace Farmhand

namespace World

/-! ## Files in order -/

/-- Actors and tiles are filed under their own ids. -/
structure Keyed (w : World) : Prop where
  actors : w.actors.Filed Actor.id
  tiles : w.tiles.Filed Tile.id

theorem keyed_empty (bounds : Bounds) : Keyed (empty bounds) :=
  ⟨Table.filed_empty, Table.filed_empty⟩

section

variable {w : World}

theorem Keyed.insertActor (h : Keyed w) (a : Actor) : Keyed (w.insertActor a) :=
  ⟨h.actors.insert a, h.tiles⟩

theorem Keyed.insertTile (h : Keyed w) (t : Tile) : Keyed (w.insertTile t) :=
  ⟨h.actors, h.tiles.insert t⟩

theorem Keyed.withTask (h : Keyed w) (task : Option Task) (key : TaskKey) :
    Keyed (w.withTask task key) := by
  cases key with
  | actor id => exact ⟨h.actors.modify id fun _ => rfl, h.tiles⟩
  | tile id => exact ⟨h.actors, h.tiles.modify id fun _ => rfl⟩

theorem Keyed.withoutTasks (h : Keyed w) (keys : List TaskKey) : Keyed (w.withoutTasks keys) := by
  induction keys generalizing w with
  | nil => exact h
  | cons key rest ih => exact ih (h.withTask none key)

theorem Keyed.withState (h : Keyed w) (id : String) (entries : List (String × TileValue)) :
    Keyed (w.withState id entries) :=
  ⟨h.actors, h.tiles.modify id fun _ => rfl⟩

end

/-! ## Steps of a transaction -/

theorem transact_cons_eq_ok_iff (w w' : World) (op : WorldOp) (rest : List WorldOp) :
    w.transact (op :: rest) = .ok w' ↔ ∃ v, w.apply op = .ok v ∧ v.transact rest = .ok w' := by
  rw [transact]
  cases w.apply op with
  | error error => simp
  | ok v => simp

theorem transact_nil_eq_ok_iff (w w' : World) : w.transact [] = .ok w' ↔ w = w' := by
  rw [transact, Except.ok.injEq]

-- A demand changes nothing.
theorem apply_guard_eq_ok {w w' : World} {id key : String} {expected : Option TileValue}
    (h : w.apply (.guard id key expected) = .ok w') : w' = w := by
  rw [apply] at h
  cases ht : w.tile id with
  | error error => simp [ht] at h
  | ok t =>
      simp only [ht] at h
      split at h
      · exact (Except.ok.inj h).symm
      · simp at h

-- What a patch makes of an actor. Only the energy is not what the patch says; it stays in range.
theorem patchActor_eq_ok {w : World} {a b : Actor} {patch : ActorPatch}
    (h : w.patchActor a patch = .ok b) :
    ∃ n, b = { a with
        position := patch.position.getD a.position
        energy := n
        inventory := patch.inventory.getD a.inventory
        task := patch.task.getD a.task } ∧
      (a.energy ≤ a.maxEnergy → n ≤ a.maxEnergy) ∧
      ∀ p, patch.position = some p → w.bounds.contains p = true := by
  -- Energy is set, taken or given, and never more than the actor can have.
  have henergy : ∀ c, patchActor.energyPatched patch a = .ok c →
      ∃ n, c = { a with energy := n } ∧ (a.energy ≤ a.maxEnergy → n ≤ a.maxEnergy) := by
    intro c hc
    unfold patchActor.energyPatched at hc
    split at hc
    · next change _ =>
      cases change with
      | set amount => exact ⟨_, (Except.ok.inj hc).symm, fun _ => Nat.min_le_right _ _⟩
      | debit amount =>
          simp only [Actor.changeEnergy] at hc
          split at hc
          · exact ⟨_, (Except.ok.inj hc).symm, Nat.le_trans (Nat.sub_le _ _)⟩
          · simp only [reduceCtorEq] at hc
      | credit amount => exact ⟨_, (Except.ok.inj hc).symm, fun _ => Nat.min_le_right _ _⟩
    · exact ⟨a.energy, (Except.ok.inj hc).symm, id⟩
  unfold patchActor at h
  cases hc : patchActor.energyPatched patch a with
  | error error =>
      simp only [hc, Except.map] at h
      split at h
      · split at h <;> simp only [reduceCtorEq] at h
      · simp only [reduceCtorEq] at h
  | ok c =>
      rcases henergy c hc with ⟨n, rfl, hn⟩
      simp only [hc, Except.map] at h
      split at h
      · next p hpatch =>
        split at h
        · next hp =>
          rw [← Except.ok.inj h, hpatch]
          exact ⟨n, rfl, hn, fun q hq => Option.some.inj hq ▸ hp⟩
        · simp only [reduceCtorEq] at h
      · next hpatch =>
        rw [← Except.ok.inj h, hpatch]
        exact ⟨n, rfl, hn, fun q hq => by simp only [reduceCtorEq] at hq⟩

-- A patch does not change an actor's id.
theorem patchActor_id {w : World} {a b : Actor} {patch : ActorPatch}
    (h : w.patchActor a patch = .ok b) : b.id = a.id := by
  rcases patchActor_eq_ok h with ⟨n, rfl, _⟩
  rfl

-- A change of an actor leaves tiles and counters alone.
theorem updateActor_eq_ok {w w' : World} {id : String} {patch : ActorPatch}
    (h : w.updateActor id patch = .ok w') :
    w'.tiles = w.tiles ∧ w'.resources = w.resources ∧ (Keyed w → Keyed w') := by
  rcases (updateActor_eq_ok_iff w w' id patch).mp h with ⟨a, b, ha, hb, heq⟩
  rw [heq]
  refine ⟨rfl, rfl, fun hkeyed => ⟨?_, hkeyed.tiles⟩⟩
  have hid : id = b.id := by rw [patchActor_id hb, hkeyed.actors id a ha]
  rw [hid]
  exact hkeyed.actors.insert b

-- A change of a tile's state writes its entries.
theorem updateTile_eq_ok {w w' : World} {id : String} {entries : List (String × TileValue)}
    (h : w.updateTile id { state := entries } = .ok w') : w' = w.withState id entries := by
  rcases (updateTile_eq_ok_iff w w' id _).mp h with ⟨t, ht, heq⟩
  rw [heq, withState, Table.modify, ht]
  rfl

/-! ## Counters -/

-- A counter with room for an addition is not capped.
theorem counted_of_room {n : Nat} {delta : Int} (hdelta : 0 ≤ delta)
    (hroom : n + delta ≤ Integer.maxCounter) :
    ((min ((n : Int) + delta).toNat Integer.maxCounter : Nat) : Int) = n + delta := by
  have htoNat : ((n : Int) + delta).toNat ≤ Integer.maxCounter := by omega
  rw [Nat.min_eq_left htoNat]
  omega

-- What a counter stands at after an addition, which it may be too small to hold.
theorem resource_addResource_self (w : World) (name : String) (delta : Int) :
    (w.addResource name delta).resource name =
      min ((w.resource name : Int) + delta).toNat Integer.maxCounter := by
  rw [addResource, resource, insertResource, Table.get?_insert_self]
  rfl

theorem resource_addResource_of_ne (w : World) (name other : String) (delta : Int)
    (h : other ≠ name) : (w.addResource name delta).resource other = w.resource other := by
  rw [addResource, resource, insertResource, Table.get?_insert_of_ne _ _ _ _ h]
  rfl

-- Additions to distinct counters leave each of them with its own addition.
theorem resource_foldl_addResource (entries : List (String × Int)) (w : World) (name : String)
    (hnodup : (entries.map Prod.fst).Nodup) :
    (entries.foldl (fun w (name, delta) => w.addResource name delta) w).resource name =
      (Entries.get? name entries).elim (w.resource name) fun delta =>
        min ((w.resource name : Int) + delta).toNat Integer.maxCounter :=
  Entries.read_foldl resource (fun w (name, delta) => w.addResource name delta)
    (fun (n : Nat) (delta : Int) => min ((n : Int) + delta).toNat Integer.maxCounter)
    resource_addResource_self
    (fun w k delta other hother => resource_addResource_of_ne w k other delta hother) hnodup w name

-- A change of the counters is nothing else.
theorem updateResources_eq {w w' : World} {change : ResourceChange}
    (h : w.updateResources change = .ok w') :
    w' = { w with resources := w'.resources } := by
  have hframe : ∀ (step : World → String × Int → World),
      (∀ w entry, step w entry = w.addResource entry.1 entry.2) →
      ∀ (entries : List (String × Int)) (w : World),
        entries.foldl step w = { w with resources := (entries.foldl step w).resources } := by
    intro step hstep entries
    induction entries with
    | nil => exact fun w => rfl
    | cons entry rest ih =>
        intro w
        rw [List.foldl_cons, hstep]
        exact ih (w.addResource entry.1 entry.2)
  unfold updateResources at h
  split at h
  · simp only [reduceCtorEq] at h
  · rw [← Except.ok.inj h]
    exact hframe _ (fun _ _ => rfl) change.entries w

-- A change of the counters leaves everything else alone and gives each counter its part.
theorem updateResources_eq_ok {w w' : World} {change : ResourceChange}
    (h : w.updateResources change = .ok w') :
    w'.actors = w.actors ∧ w'.tiles = w.tiles ∧
      ∀ name, w'.resource name =
        (change.get? name).elim (w.resource name) fun delta =>
          min ((w.resource name : Int) + delta).toNat Integer.maxCounter := by
  have hframe : ∀ (entries : List (String × Int)) (w : World),
      (entries.foldl (fun w (name, delta) => w.addResource name delta) w).actors = w.actors ∧
        (entries.foldl (fun w (name, delta) => w.addResource name delta) w).tiles = w.tiles := by
    intro entries
    induction entries with
    | nil => exact fun w => ⟨rfl, rfl⟩
    | cons entry rest ih => exact fun w => ih (w.addResource entry.1 entry.2)
  unfold updateResources at h
  split at h
  · simp at h
  · rw [← Except.ok.inj h]
    exact ⟨(hframe change.entries w).1, (hframe change.entries w).2, fun name =>
      resource_foldl_addResource change.entries w name change.nodup_keys⟩

end World

end Farmhand
