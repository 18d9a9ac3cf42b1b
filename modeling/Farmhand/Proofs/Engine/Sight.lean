import Farmhand.Proofs.Engine.Interaction

/-!
# What an Actor Sees

Of everything that the engine holds, an actor and its interpreter see little: the actor itself, the
bounds of the world, which functions the tiles offer, the time of a step, whether motion was stopped
and whether the interpreter may go on. Two engines that agree on these, and on what the actor's runs
have told, are the same for them, whatever else is different. Whatever other actors do with tile
functions, and whatever their tasks do at their ends, the engine stays the same for an actor that
has no task itself.

## Main definitions

* `World.SameFor`, `Engine.SameFor`: Two worlds, or engines, are the same for an actor.
* `Engine.Clear`: An actor has no task, and none can come to it by the end of another.

## Theorems

* `World.sameFor_transact`: Transactions about others leave the world the same.
* `Engine.sameFor_invoke`, `Engine.sameFor_fire`: So do tile functions of others, and timers.
-/

namespace Farmhand

/-- What decides which functions a tile offers. -/
def Tile.services (t : Tile) : TileKind × List String :=
  (t.kind, t.functions)

theorem Tile.function?_of_services {t u : Tile} (h : u.services = t.services) (name : String) :
    u.function? name = t.function? name := by
  unfold Tile.services at h
  unfold Tile.function? Tile.binds
  rw [(Prod.mk.inj h).1, (Prod.mk.inj h).2]

/-! ## Worlds -/

/-- Two worlds are the same for an actor: so is the actor, and so are the bounds and the functions
    that tiles offer. -/
structure World.SameFor (a : String) (w w' : World) : Prop where
  actor : w'.actors.get? a = w.actors.get? a
  bounds : w'.bounds = w.bounds
  places : w'.places = w.places
  services : ∀ id, (w'.tiles.get? id).map Tile.services = (w.tiles.get? id).map Tile.services

namespace World

variable {a b : String} {w w' w'' : World}

theorem sameFor_self (a : String) (w : World) : w.SameFor a w :=
  ⟨rfl, rfl, rfl, fun _ => rfl⟩

theorem SameFor.symm (h : w.SameFor a w') : w'.SameFor a w :=
  ⟨h.actor.symm, h.bounds.symm, h.places.symm, fun id => (h.services id).symm⟩

theorem SameFor.trans (h : w.SameFor a w') (h' : w'.SameFor a w'') : w.SameFor a w'' :=
  ⟨h'.actor.trans h.actor, h'.bounds.trans h.bounds, h'.places.trans h.places,
    fun id => (h'.services id).trans (h.services id)⟩

theorem SameFor.actor_eq (h : w.SameFor a w') : w'.actor a = w.actor a := by
  unfold World.actor
  rw [h.actor]

-- A function is offered in both worlds or in neither.
theorem SameFor.offers (h : w.SameFor a w') (p : Position) (name : String) :
    ((w'.tileAt? p).filter fun t => (t.function? name).isSome).isSome =
      ((w.tileAt? p).filter fun t => (t.function? name).isSome).isSome := by
  unfold tileAt?
  rw [h.places]
  generalize w.places.find? _ = found
  cases found with
  | none => rfl
  | some place =>
      have hservices := h.services place.2
      simp only
      cases hw : w.tiles.get? place.2 with
      | none =>
          rw [hw, Option.map_none, Option.map_eq_none_iff] at hservices
          rw [hservices]
      | some t =>
          rw [hw, Option.map_some, Option.map_eq_some_iff] at hservices
          rcases hservices with ⟨u, hu, heq⟩
          simp only [hu, Option.filter_some, Tile.function?_of_services heq name]
          split <;> rfl

/-! ### Changes of other things -/

theorem sameFor_updateActor {id : String} {patch : ActorPatch} (hne : id ≠ a)
    (h : w.updateActor id patch = .ok w') : w.SameFor a w' := by
  rcases (updateActor_eq_ok_iff w w' id patch).mp h with ⟨_, b, _, _, rfl⟩
  exact ⟨Table.get?_insert_of_ne _ _ _ _ (Ne.symm hne), rfl, rfl, fun _ => rfl⟩

-- A change of a tile in place, which leaves the functions that it offers.
theorem sameFor_modifyTile (a : String) (w : World) (id : String) {f : Tile → Tile}
    (hf : ∀ t, (f t).services = t.services) :
    w.SameFor a { w with tiles := w.tiles.modify id f } := by
  refine ⟨rfl, rfl, rfl, fun other => ?_⟩
  by_cases hother : other = id
  · rw [hother, Table.get?_modify_self, Option.map_map]
    exact congrArg (Option.map · _) (funext hf)
  · rw [Table.get?_modify_of_ne _ _ _ _ hother]

theorem sameFor_withState (a : String) (w : World) (id : String)
    (entries : List (String × TileValue)) : w.SameFor a (w.withState id entries) :=
  sameFor_modifyTile a w id fun _ => rfl

theorem sameFor_withTask (w : World) (task : Option Task) {key : TaskKey}
    (hne : key ≠ .actor a) : w.SameFor a (w.withTask task key) := by
  cases key with
  | actor id =>
      have hid : a ≠ id := fun heq => hne (heq ▸ rfl)
      exact ⟨Table.get?_modify_of_ne _ _ _ _ hid, rfl, rfl, fun _ => rfl⟩
  | tile id => exact sameFor_modifyTile a w id fun _ => rfl

-- One step of a transaction about another actor.
theorem sameFor_apply {op : WorldOp} (hop : op.Concerns b) (hne : b ≠ a)
    (h : w.apply op = .ok w') : w.SameFor a w' ∧ (w.Keyed → w'.Keyed) := by
  cases op with
  | actor id patch =>
      exact ⟨sameFor_updateActor (hop.1 ▸ hne) h, (updateActor_eq_ok h).2.2⟩
  | tile id patch =>
      have hstate : patch = { state := patch.state } := by
        rcases patch with ⟨state, task⟩
        exact congrArg (TilePatch.mk state) hop
      rw [apply, hstate] at h
      rw [updateTile_eq_ok h]
      exact ⟨sameFor_withState a w id _, fun hkeyed => hkeyed.withState id _⟩
  | resources change =>
      rw [updateResources_eq h]
      exact ⟨⟨rfl, rfl, rfl, fun _ => rfl⟩, fun hkeyed => ⟨hkeyed.actors, hkeyed.tiles⟩⟩
  | guard id key expected =>
      rw [apply_guard_eq_ok h]
      exact ⟨sameFor_self a w, fun hkeyed => hkeyed⟩

/-- Transactions about another actor leave the world the same for an actor. -/
theorem sameFor_transact {ops : List WorldOp} (hops : ∀ op ∈ ops, WorldOp.Concerns b op)
    (hne : b ≠ a) (h : w.transact ops = .ok w') : w.SameFor a w' ∧ (w.Keyed → w'.Keyed) := by
  induction ops generalizing w with
  | nil =>
      rw [← (transact_nil_eq_ok_iff w w').mp h]
      exact ⟨sameFor_self a w, fun hkeyed => hkeyed⟩
  | cons op rest ih =>
      rcases (transact_cons_eq_ok_iff w w' op rest).mp h with ⟨v, hv, hrest⟩
      have hfirst := sameFor_apply (hops op List.mem_cons_self) hne hv
      have hlater := ih (fun op hop => hops op (List.mem_cons_of_mem _ hop)) hrest
      exact ⟨hfirst.1.trans hlater.1, fun hkeyed => hlater.2 (hfirst.2 hkeyed)⟩

end World

/-! ## Engines -/

namespace Engine

/-- What the runs of an actor have told, the last in front. -/
def toldBy (e : Engine) (a : String) : List Event :=
  e.log.filter fun event => event.actor = a

/-- Two engines are the same for an actor and its interpreter. -/
structure SameFor (a : String) (h : Nat) (e e' : Engine) : Prop where
  world : e.world.SameFor a e'.world
  stepTime : e'.stepTime = e.stepTime
  motionEpoch : e'.motionEpoch = e.motionEpoch
  flag : e'.running[h]? = e.running[h]?
  told : e'.toldBy a = e.toldBy a

/-- An actor has no task, and none can come to it by the end of another. -/
structure Clear (a : String) (e : Engine) : Prop where
  keyed : e.world.Keyed
  slots : ∀ key s, (key, s) ∈ e.slots → key ≠ .actor a ∧ Action.AllOnTiles s.atEnd

variable {a : String} {h : Nat} {e e' e'' : Engine}

theorem sameFor_self (a : String) (h : Nat) (e : Engine) : e.SameFor a h e :=
  ⟨e.world.sameFor_self a, rfl, rfl, rfl, rfl⟩

theorem SameFor.symm (hs : e.SameFor a h e') : e'.SameFor a h e :=
  ⟨hs.world.symm, hs.stepTime.symm, hs.motionEpoch.symm, hs.flag.symm, hs.told.symm⟩

theorem SameFor.trans (hs : e.SameFor a h e') (hs' : e'.SameFor a h e'') : e.SameFor a h e'' :=
  ⟨hs.world.trans hs'.world, hs'.stepTime.trans hs.stepTime,
    hs'.motionEpoch.trans hs.motionEpoch, hs'.flag.trans hs.flag, hs'.told.trans hs.told⟩

theorem SameFor.isRunning (hs : e.SameFor a h e') : e'.isRunning h = e.isRunning h := by
  unfold Engine.isRunning
  rw [List.getD_eq_getElem?_getD, List.getD_eq_getElem?_getD, hs.flag]

theorem Clear.idle (hclear : e.Clear a) : e.actorTask? a = none := by
  unfold actorTask? task?
  cases hslot : e.slot? (.actor a) with
  | none => rfl
  | some s => exact absurd rfl (hclear.slots _ s (mem_of_slot? hslot)).1

-- A change of the world and its tasks that is none for the actor.
theorem SameFor.aside (hs : e.SameFor a h e') (haside : Aside e' e'')
    (hworld : e'.world.SameFor a e''.world) : e.SameFor a h e'' := by
  refine ⟨hs.world.trans hworld, haside.stepTime.trans hs.stepTime,
    haside.motionEpoch.trans hs.motionEpoch, ?_, ?_⟩
  · rw [haside.running, hs.flag]
  · unfold toldBy
    rw [haside.log]
    exact hs.told

/-! ### Tasks of others -/

-- Slots that are put or dropped, for another key.
theorem Clear.putSlot (hclear : e.Clear a) {key : TaskKey} (hne : key ≠ .actor a) {s : Slot}
    (hatEnd : Action.AllOnTiles s.atEnd) : (e.putSlot key s).Clear a := by
  refine ⟨hclear.keyed, fun other s' hmem => ?_⟩
  rw [putSlot_slots] at hmem
  rcases List.mem_cons.mp hmem with heq | hrest
  · rw [(Prod.mk.inj heq).1, (Prod.mk.inj heq).2]
    exact ⟨hne, hatEnd⟩
  · exact hclear.slots other s' (List.mem_filter.mp hrest).1

-- A task of somebody else changes nothing that this actor can see of its own.
theorem sameFor_started (hs : e.SameFor a h e') (hclear : e'.Clear a) {key : TaskKey}
    (hne : key ≠ .actor a) (task : Task) {atEnd : List Action}
    (hatEnd : Action.AllOnTiles atEnd) :
    e.SameFor a h (e'.started key task atEnd) ∧ (e'.started key task atEnd).Clear a := by
  have hput : (e'.putSlot key ⟨task, e'.nextGeneration, false, atEnd⟩).Clear a :=
    hclear.putSlot hne hatEnd
  refine ⟨hs.aside ((aside_self e').started key task atEnd) ?_, ?_, ?_⟩
  · rw [started_world]
    exact World.sameFor_withTask e'.world (some task) hne
  · rw [started_world]
    exact hclear.keyed.withTask _ _
  · rw [started_slots]
    exact hput.slots

/-- Tile functions of other actors leave the engine the same for an actor. -/
theorem sameFor_invoke (hclear : e.Clear a) {b : String} (hne : b ≠ a) (timed : Bool)
    (tile name : String) :
    e.SameFor a h (e.invoke timed b tile name).2 ∧ (e.invoke timed b tile name).2.Clear a := by
  have hid : ∀ x, e.world.actor b = .ok x → x.id ≠ a := by
    intro x hx
    rw [hclear.keyed.actors b x ((World.actor_eq_ok_iff e.world b x).mp hx)]
    exact hne
  refine invoke_induction (P := fun e' => e.SameFor a h e' ∧ e'.Clear a)
    ⟨sameFor_self a h e, hclear⟩ timed b tile name ?_ ?_
  · intro x hx e' ops world he' hops htransact
    have hworld := World.sameFor_transact hops (hid x hx) htransact
    exact ⟨he'.1.aside ⟨rfl, rfl, rfl, rfl, rfl, rfl⟩ hworld.1, hworld.2 he'.2.keyed, he'.2.slots⟩
  · intro x hx e' task atEnd he' _ _ hatEnd
    exact sameFor_started he'.1 he'.2 (fun heq => hid x hx (TaskKey.actor.inj heq)) task hatEnd

/-! ### Timers -/

-- What is done at the end of a task that is no task of the actor.
theorem tended_sameFor (e : Engine) : Tended fun e' => e.SameFor a h e' ∧ e'.Clear a where
  note _ _ he' :=
    ⟨he'.1.aside ⟨rfl, rfl, rfl, rfl, rfl, rfl⟩ (World.sameFor_self a _), he'.2.keyed, he'.2.slots⟩
  status e' tile status quantity he' := by
    rw [setStatus_eq]
    exact ⟨he'.1.aside ⟨rfl, rfl, rfl, rfl, rfl, rfl⟩ (World.sameFor_withState a _ tile _),
      he'.2.keyed.withState _ _, he'.2.slots⟩
  start _ _ task _ he' hatEnd := sameFor_started he'.1 he'.2 TaskKey.noConfusion task hatEnd

-- The end of a task changes nothing for an actor that has none under way.
theorem sameFor_finish (hs : e.SameFor a h e') (hclear : e'.Clear a) (key : TaskKey)
    (generation : Nat) :
    e.SameFor a h (e'.finish key generation) ∧ (e'.finish key generation).Clear a := by
  unfold finish
  split
  · next s hslot =>
    split
    · have hne := (hclear.slots key s (mem_of_slot? hslot)).1
      rw [showTask_eq]
      exact ⟨hs.aside ⟨rfl, rfl, rfl, rfl, rfl, rfl⟩ (World.sameFor_withTask e'.world none hne),
        hclear.keyed.withTask none key,
        fun other s' hmem => hclear.slots other s' (List.mem_filter.mp hmem).1⟩
    · exact ⟨hs, hclear⟩
  · exact ⟨hs, hclear⟩

/-- A timer changes nothing for an actor that has no task. -/
theorem sameFor_fire (hclear : e.Clear a) (t : Timer) :
    e.SameFor a h (e.fire t) ∧ (e.fire t).Clear a := by
  rw [fire_eq]
  split
  · next s hending =>
    have hslot := hclear.slots _ s (mem_of_slot? ((ending?_eq_some_iff e t s).mp hending).1)
    have hclosing : e.SameFor a h (e.closing t s) ∧ (e.closing t s).Clear a :=
      ⟨⟨World.sameFor_self a _, rfl, rfl, rfl, rfl⟩, hclear.putSlot hslot.1 trivial⟩
    have hperformed := (tended_sameFor e).performAll _ hclosing s.atEnd hslot.2
    exact sameFor_finish hperformed.1 hperformed.2 t.key t.generation
  · exact ⟨sameFor_self a h e, hclear⟩

end Engine

end Farmhand
