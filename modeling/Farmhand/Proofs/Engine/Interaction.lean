import Farmhand.Proofs.Engine.Moves
import Farmhand.Proofs.World.Transact
import Farmhand.TileFunction.Invoke

/-!
# What Actors and Tasks Touch

An actor that calls a function of a tile writes to itself, to tiles and to the counters, and starts
tasks on itself; at the end of such a task the tile may start one of its own. All of this goes
through the world and its tasks. The rest of the engine is left alone: the clock, the log, the
flags of the interpreters and the account of motion. A property that survives these few changes
survives every call of a tile function and every timer.

## Main definitions

* `Action.OnTiles`: An action that, with all that follows from it, is about tiles only.
* `WorldOp.Concerns`: A step of a transaction that writes to no actor but one, shows no task and
  takes nothing from the counters.
* `Engine.Tended`: A property that actions on tiles keep one by one.
* `Engine.Aside`: What changes is the world and its tasks.
* `World.Attends`, `World.Followed`: A relation that tasks follow in what they do to the world, or
  tile functions and tasks.

## Theorems

* `Engine.runFunction_induction`, `Engine.invoke_induction`: What survives a tile function.
* `Engine.Tended.performAll`: What survives actions on tiles.
* `Engine.aside_invoke`, `Engine.aside_fire`: Tile functions and timers leave the rest alone.
* `World.Attends.fire`, `World.Attends.advanceTo`: What is followed by a timer and by the clock.
* `World.Followed.invoke`, `World.Followed.fire`, `World.Followed.cancelAll`: What is followed by a
  tile function, a timer and a stop.
* `World.followed_keyed`, `World.followed_bounds`: Actors and tiles stay filed under their own ids,
  and the world has its bounds.
-/

namespace Farmhand

mutual

/-- An action that, with all that follows from it, is about tiles only. -/
def Action.OnTiles : Action → Prop
  | .note _ => True
  | .setStatus _ _ _ => True
  | .start key _ _ _ _ atEnd accepted refused =>
    (∃ id, key = .tile id) ∧ Action.AllOnTiles atEnd ∧ Action.AllOnTiles accepted ∧
      Action.AllOnTiles refused

/-- Actions that are all about tiles only. -/
def Action.AllOnTiles : List Action → Prop
  | [] => True
  | action :: rest => action.OnTiles ∧ Action.AllOnTiles rest

end

/-- A step of a transaction that writes to no actor but one, shows no task and takes nothing from
    the counters. -/
def WorldOp.Concerns (actor : String) : WorldOp → Prop
  | .actor id patch => id = actor ∧ patch.position = none ∧ patch.task = none
  | .tile _ patch => patch.task = none
  | .resources change => change.All (0 ≤ ·)
  | .guard _ _ _ => True

namespace Engine

/-! ## Tile functions -/

-- What happens when an actor has set a tile up is about the tile.
theorem onTiles_afterSetup (actor tile : String) (p : Production) :
    Action.AllOnTiles (afterSetup actor tile p) :=
  ⟨trivial, ⟨⟨tile, rfl⟩, ⟨trivial, trivial⟩, trivial, ⟨trivial, trivial⟩⟩, trivial⟩

-- An addition to a change that takes nothing.
theorem nonneg_add {change : ResourceChange} (h : change.All (0 ≤ ·)) (name : String)
    {delta : Int} (hdelta : 0 ≤ delta) : (change.add name delta).All (0 ≤ ·) := by
  refine h.insert name (Int.add_nonneg ?_ hdelta)
  cases hold : change.get? name with
  | none => exact Int.le_refl 0
  | some n => exact h name n hold

-- The change that a deposit makes takes nothing.
theorem nonneg_deposit (entries : List (String × Nat)) {change : ResourceChange}
    (h : change.All (0 ≤ ·)) :
    (entries.foldl (fun (change : ResourceChange) (item, (count : Nat)) =>
      change.add item count) change).All (0 ≤ ·) := by
  induction entries generalizing change with
  | nil => exact h
  | cons entry rest ih => exact ih (nonneg_add h entry.1 (Int.natCast_nonneg entry.2))

section

variable {P : Engine → Prop} {e : Engine} {a : Actor}
variable (hwrite : ∀ e ops world, P e → (∀ op ∈ ops, WorldOp.Concerns a.id op) →
  e.world.transact ops = .ok world → P { e with world })
variable (hstart : ∀ e (task : Task) atEnd, P e → e.isFree (.actor a.id) = true →
  task.start = e.now → Action.AllOnTiles atEnd → P (e.started (.actor a.id) task atEnd))

include hwrite in
-- A transaction is the steps that it is made of.
theorem transact_induction {e' : Engine} {ops : List WorldOp} (he : P e)
    (hops : ∀ op ∈ ops, WorldOp.Concerns a.id op) (h : e.transact ops = .ok e') : P e' := by
  unfold transact at h
  cases hworld : e.world.transact ops with
  | error error => simp only [hworld, Except.map, reduceCtorEq] at h
  | ok world =>
      simp only [hworld, Except.map, Except.ok.injEq] at h
      exact h ▸ hwrite e ops world he hops hworld

include hstart in
-- A task that starts on the actor may end on tiles only.
theorem start_induction (he : P e) (timed : Bool) (label : String) (duration : Nat)
    (description : String) (owner : Option String) {atEnd : List Action}
    (hatEnd : Action.AllOnTiles atEnd) :
    P (e.start timed (.actor a.id) label duration description owner atEnd).1 := by
  rw [start_eq]
  split
  · next hfree =>
    exact hstart e _ atEnd he (Bool.and_eq_true_iff.mp hfree).1 rfl hatEnd
  · exact he

include hwrite hstart in
-- A cycle is paid for first. Where the status cannot be set, what was paid comes back; and the
-- setup is a task of the actor.
theorem startProduction_induction (he : P e) (timed : Bool) (t : Tile) (energy : Nat)
    (p : Production) : P (e.startProduction timed a t energy p).2 := by
  unfold startProduction
  split
  · exact he
  · simp only
    split
    · exact he
    · next e₁ htransact =>
      have hprepared : P e₁ := by
        refine transact_induction hwrite he (fun op hop => ?_) htransact
        simp only [List.mem_cons, List.not_mem_nil, or_false] at hop
        rcases hop with rfl | rfl | rfl | rfl
        · trivial
        · trivial
        · exact ⟨rfl, rfl, rfl⟩
        · rfl
      have hstarted := start_induction hstart hprepared timed p.setupLabel p.setupTime
        p.setupDescription (some a.id) (onTiles_afterSetup a.id t.id p)
      split
      · next e₂ hstart₂ =>
        rw [hstart₂] at hstarted
        exact hstarted
      · next e₂ hstart₂ =>
        rw [hstart₂] at hstarted
        simp only
        split
        · next e₃ hrefund =>
          refine transact_induction hwrite hstarted (fun op hop => ?_) hrefund
          simp only [List.mem_cons, List.not_mem_nil, or_false] at hop
          rcases hop with rfl | rfl
          · exact ⟨rfl, rfl, rfl⟩
          · rfl
        · exact hstarted

include hwrite in
-- Collecting writes to the tile and gives energy or goods to the actor.
theorem collectOutput_induction (he : P e) (t : Tile) (energy : Nat) (resource : String) :
    P (e.collectOutput a t energy resource).2 := by
  unfold collectOutput
  split
  · exact he
  · simp only
    split
    · exact he
    · next e₁ htransact =>
      refine transact_induction hwrite he (fun op hop => ?_) htransact
      simp only [List.mem_cons, List.not_mem_nil, or_false] at hop
      rcases hop with rfl | rfl | rfl | rfl
      · trivial
      · rfl
      · exact nonneg_add Table.all_empty resource (Int.le_max_right _ _)
      · exact ⟨rfl, rfl, rfl⟩

include hwrite hstart in
-- A meal is a task of the actor with a gift of energy at its beginning.
theorem eat_induction (he : P e) (timed : Bool) (t : Tile) : P (e.eat timed a t).2 := by
  have hstarted := start_induction hstart he timed "eat" mealTime "Eating" (some a.id)
    (show Action.AllOnTiles [] from trivial)
  unfold eat
  split
  · next e₁ hstart₁ =>
    rw [hstart₁] at hstarted
    exact hstarted
  · next e₁ hstart₁ =>
    rw [hstart₁] at hstarted
    split
    · exact hstarted
    · next world hworld =>
      have htransact : e₁.world.transact
          [.actor a.id { energy := some (.credit t.nutrition) }] = .ok world := by
        simp only [World.transact, World.apply, hworld]
      refine hwrite e₁ _ world hstarted (fun op hop => ?_) htransact
      rw [List.mem_singleton.mp hop]
      exact ⟨rfl, rfl, rfl⟩

include hwrite in
-- What the actor carries goes to the counters.
theorem store_induction (he : P e) (energy : Nat) : P (e.store a energy).2 := by
  unfold store
  split
  · exact he
  · simp only
    split
    · exact he
    · next e₁ htransact =>
      refine transact_induction hwrite he (fun op hop => ?_) htransact
      simp only [List.mem_cons, List.not_mem_nil, or_false] at hop
      rcases hop with rfl | rfl
      · exact ⟨rfl, rfl, rfl⟩
      · exact nonneg_deposit a.inventory.entries Table.all_empty

include hwrite hstart in
/-- What survives the writes of an actor and the start of its tasks survives a tile function. -/
theorem runFunction_induction (he : P e) (timed : Bool) (f : TileFunction) (t : Tile) :
    P (e.runFunction timed f a t).2 := by
  cases f with
  | plant => exact startProduction_induction hwrite hstart he timed t _ planting
  | mineInitiate => exact startProduction_induction hwrite hstart he timed t _ mining
  | harvest => exact collectOutput_induction hwrite he t _ crop
  | collect => exact collectOutput_induction hwrite he t _ ore
  | eat => exact eat_induction hwrite hstart he timed t
  | store => exact store_induction hwrite he _

end

/-- What survives the writes of an actor and the start of its tasks survives a call of a tile
    function, whether it succeeds or not. -/
theorem invoke_induction {P : Engine → Prop} {e : Engine} (he : P e) (timed : Bool)
    (actor tile name : String)
    (hwrite : ∀ a, e.world.actor actor = .ok a → ∀ e ops world, P e →
      (∀ op ∈ ops, WorldOp.Concerns a.id op) → e.world.transact ops = .ok world →
        P { e with world })
    (hstart : ∀ a, e.world.actor actor = .ok a → ∀ e (task : Task) atEnd, P e →
      e.isFree (.actor a.id) = true → task.start = e.now → Action.AllOnTiles atEnd →
        P (e.started (.actor a.id) task atEnd)) :
    P (e.invoke timed actor tile name).2 := by
  unfold invoke
  split
  · exact he
  · exact he
  · next a t ha _ =>
    split
    · exact he
    · split
      · exact he
      · exact runFunction_induction (hwrite a ha) (hstart a ha) he timed _ t

/-! ## Actions on tiles -/

/-- A property that survives a note, a status and the start of a task on a tile. -/
structure Tended (P : Engine → Prop) : Prop where
  note : ∀ e text, P e → P { e with notes := (e.now, text) :: e.notes }
  status : ∀ e tile status quantity, P e → P (e.setStatus tile status quantity)
  start : ∀ e id task atEnd, P e → Action.AllOnTiles atEnd → P (e.started (.tile id) task atEnd)

mutual

/-- Each action is one of the steps that the property survives. An action that starts a task names
    what follows it, so the cases are those of the actions. -/
theorem Tended.perform {P : Engine → Prop} (h : Tended P) (e : Engine) (he : P e) :
    ∀ action : Action, action.OnTiles → P (e.perform action)
  | .note text, _ => h.note e text he
  | .setStatus tile status quantity, _ => h.status e tile status quantity he
  | .start key label duration description owner atEnd accepted refused, hon => by
      rcases hon with ⟨⟨id, rfl⟩, hatEnd, haccepted, hrefused⟩
      by_cases hfree : e.isFree (.tile id) = true
      · have hnext := h.start e id ⟨label, description, owner, e.now, duration⟩ atEnd he hatEnd
        simpa [Engine.perform, start_eq, hfree] using
          Tended.performAll h _ hnext accepted haccepted
      · simpa [Engine.perform, start_eq, hfree] using
          Tended.performAll h e he refused hrefused

/-- It survives actions on tiles. -/
theorem Tended.performAll {P : Engine → Prop} (h : Tended P) (e : Engine) (he : P e) :
    ∀ actions : List Action, Action.AllOnTiles actions → P (e.performAll actions)
  | [], _ => he
  | action :: rest, hon =>
      Tended.performAll h _ (Tended.perform h e he action hon.1) rest hon.2

end

/-! ## What is left alone -/

/-- What changes is the world and its tasks; the clock, the log, the flags and the account of motion
    stay. -/
structure Aside (e e' : Engine) : Prop where
  stepTime : e'.stepTime = e.stepTime
  motionEpoch : e'.motionEpoch = e.motionEpoch
  moveRequests : e'.moveRequests = e.moveRequests
  now : e'.now = e.now
  running : e'.running = e.running
  log : e'.log = e.log

-- Nothing, and one change after another, are changes aside.
theorem aside_self (e : Engine) : Aside e e :=
  ⟨rfl, rfl, rfl, rfl, rfl, rfl⟩

section

variable {e e' : Engine}

theorem Aside.trans {e'' : Engine} (h : Aside e e') (h' : Aside e' e'') : Aside e e'' :=
  ⟨h'.stepTime.trans h.stepTime, h'.motionEpoch.trans h.motionEpoch,
    h'.moveRequests.trans h.moveRequests, h'.now.trans h.now, h'.running.trans h.running,
    h'.log.trans h.log⟩

-- The parts of a task's life each write to the world and its tasks only.
theorem Aside.started (h : Aside e e') (key : TaskKey) (task : Task) (atEnd : List Action) :
    Aside e (e'.started key task atEnd) := by
  unfold Engine.started
  rw [showTask_eq]
  exact h.trans ⟨rfl, rfl, rfl, rfl, rfl, rfl⟩

theorem Aside.setStatus (h : Aside e e') (tile status : String) (quantity : Option Int) :
    Aside e (e'.setStatus tile status quantity) := by
  rw [setStatus_eq]
  exact h.trans ⟨rfl, rfl, rfl, rfl, rfl, rfl⟩

theorem Aside.finish (h : Aside e e') (key : TaskKey) (generation : Nat) :
    Aside e (e'.finish key generation) := by
  unfold Engine.finish
  split
  · split
    · rw [showTask_eq]
      exact h.trans ⟨rfl, rfl, rfl, rfl, rfl, rfl⟩
    · exact h
  · exact h

end

/-- Tile functions leave everything alone but the world and its tasks. -/
theorem aside_invoke (e : Engine) (timed : Bool) (actor tile name : String) :
    Aside e (e.invoke timed actor tile name).2 :=
  invoke_induction (aside_self e) timed actor tile name
    (fun _ _ _ _ _ h _ _ => h.trans ⟨rfl, rfl, rfl, rfl, rfl, rfl⟩)
    fun _ _ _ task atEnd h _ _ _ => h.started _ task atEnd

/-- A timer that runs out leaves the rest of the engine alone. -/
theorem aside_fire (e : Engine) (t : Timer) : Aside e (e.fire t) := by
  have hstable : Stable fun e' _ => Aside e e' :=
    ⟨fun _ _ _ h => h.trans ⟨rfl, rfl, rfl, rfl, rfl, rfl⟩,
      fun _ _ tile status quantity h => h.setStatus tile status quantity,
      fun _ _ key task atEnd h _ _ => h.started key task atEnd⟩
  rw [fire_eq]
  split
  · next s _ =>
    have hclosing : Aside e (e.closing t s) := ⟨rfl, rfl, rfl, rfl, rfl, rfl⟩
    exact (hstable.performAll _ [] hclosing s.atEnd).finish t.key t.generation
  · exact aside_self e

end Engine

/-! ## What happens to the world -/

/-- A relation between worlds that tasks follow: what is shown of them, and what their ends write to
    the tiles. -/
structure World.Attends (R : World → World → Prop) : Prop where
  self : ∀ w, R w w
  trans : ∀ {w w' w''}, R w w' → R w' w'' → R w w''
  task : ∀ w task key, R w (w.withTask task key)
  state : ∀ w id entries, R w (w.withState id entries)

/-- A relation between worlds that tile functions and tasks follow in all that they do to them. -/
structure World.Followed (R : World → World → Prop) : Prop where
  self : ∀ w, R w w
  trans : ∀ {w w' w''}, R w w' → R w' w'' → R w w''
  apply : ∀ {w w' actor op}, WorldOp.Concerns actor op → w.apply op = .ok w' → R w w'
  task : ∀ w task key, R w (w.withTask task key)
  state : ∀ w id entries, R w (w.withState id entries)

namespace World

variable {R : World → World → Prop} {w w' : World} {e : Engine}

-- The world shows a task from its start on.
theorem Attends.started (h : Attends R) (hw : R w e.world) (key : TaskKey) (task : Task)
    (atEnd : List Action) : R w (e.started key task atEnd).world := by
  unfold Engine.started
  rw [Engine.showTask_eq]
  exact h.trans hw (h.task _ _ key)

-- From its end on a task is no longer shown, and what it does there is done to tiles.
theorem Attends.finish (h : Attends R) (hw : R w e.world) (key : TaskKey) (generation : Nat) :
    R w (e.finish key generation).world := by
  unfold Engine.finish
  split
  · split
    · rw [Engine.showTask_eq]
      exact h.trans hw (h.task _ none key)
    · exact hw
  · exact hw

/-- What tasks follow is followed by a timer that runs out. -/
theorem Attends.fire (h : Attends R) (e : Engine) (t : Timer) : R e.world (e.fire t).world := by
  have hstable : Engine.Stable fun e' _ => R e.world e'.world := by
    refine ⟨fun _ _ _ hw => hw, ?_, fun _ _ key task atEnd hw _ _ => h.started hw key task atEnd⟩
    intro e' _ tile status quantity hw
    rw [Engine.setStatus_eq]
    exact h.trans hw (h.state _ tile _)
  rw [Engine.fire_eq]
  split
  · next s _ =>
    have hclosing : R e.world (e.closing t s).world := h.self _
    exact h.finish (hstable.performAll _ [] hclosing s.atEnd) t.key t.generation
  · exact h.self _

/-- It is followed by an advance of the clock. -/
theorem Attends.advanceTo (h : Attends R) (e : Engine) (time : Nat) :
    R e.world (e.advanceTo time).world :=
  Engine.fireDue_induction (P := fun e' => R e.world e'.world)
    (fun e' t hw _ => h.trans hw (h.fire (e'.atDue t) t)) time e.pending e (h.self _)

-- A stop clears what the world shows of all the tasks.
theorem Attends.withoutTasks (h : Attends R) (w : World) (keys : List TaskKey) :
    R w (w.withoutTasks keys) := by
  induction keys generalizing w with
  | nil => exact h.self w
  | cons key rest ih => exact h.trans (h.task w none key) (ih _)

/-- It is followed by a stop. -/
theorem Attends.cancelAll (h : Attends R) (e : Engine) : R e.world e.cancelAll.world := by
  rw [Engine.cancelAll_eq]
  exact h.withoutTasks _ _

-- Tile functions do all that tasks do.
theorem Followed.attends (h : Followed R) : Attends R :=
  ⟨h.self, h.trans, h.task, h.state⟩

/-- A transaction is followed step by step. -/
theorem Followed.transact (h : Followed R) {actor : String} {ops : List WorldOp}
    (hops : ∀ op ∈ ops, WorldOp.Concerns actor op) (htransact : w.transact ops = .ok w') :
    R w w' := by
  induction ops generalizing w with
  | nil =>
      rw [← (transact_nil_eq_ok_iff w w').mp htransact]
      exact h.self w
  | cons op rest ih =>
      rcases (transact_cons_eq_ok_iff w w' op rest).mp htransact with ⟨v, hv, hrest⟩
      have hfirst := h.apply (hops op List.mem_cons_self) hv
      exact h.trans hfirst (ih (fun op hop => hops op (List.mem_cons_of_mem _ hop)) hrest)

/-- What tile functions and tasks follow is followed by a call of a tile function. -/
theorem Followed.invoke (h : Followed R) (e : Engine) (timed : Bool) (actor tile name : String) :
    R e.world (e.invoke timed actor tile name).2.world :=
  Engine.invoke_induction (P := fun e' => R e.world e'.world) (h.self _) timed actor tile name
    (fun _ _ _ _ _ hw hops htransact => h.trans hw (h.transact hops htransact))
    fun _ _ _ task atEnd hw _ _ _ => h.attends.started hw _ task atEnd

/-- It is followed by a timer that runs out. -/
theorem Followed.fire (h : Followed R) (e : Engine) (t : Timer) : R e.world (e.fire t).world :=
  h.attends.fire e t

/-- It is followed by a stop. -/
theorem Followed.cancelAll (h : Followed R) (e : Engine) : R e.world e.cancelAll.world :=
  h.attends.cancelAll e

/-- Tile functions and tasks leave actors and tiles filed under their own ids. -/
theorem followed_keyed : Followed fun w w' => w.Keyed → w'.Keyed where
  self _ h := h
  trans h h' hkeyed := h' (h hkeyed)
  apply := by
    intro w w' actor op hop h hkeyed
    cases op with
    | actor id patch => exact (updateActor_eq_ok h).2.2 hkeyed
    | tile id patch =>
        rcases (updateTile_eq_ok_iff w w' id patch).mp h with ⟨t, ht, rfl⟩
        have hid : id = (t.patched patch).id := (hkeyed.tiles id t ht).symm
        rw [hid]
        exact ⟨hkeyed.actors, hkeyed.tiles.insert (t.patched patch)⟩
    | resources change =>
        rw [updateResources_eq h]
        exact ⟨hkeyed.actors, hkeyed.tiles⟩
    | guard id key expected =>
        rw [apply_guard_eq_ok h]
        exact hkeyed
  task _ task key hkeyed := hkeyed.withTask task key
  state _ id entries hkeyed := hkeyed.withState id entries

-- The size of the world is no field of an actor.
theorem bounds_updateActor {id : String} {patch : ActorPatch}
    (h : w.updateActor id patch = .ok w') : w'.bounds = w.bounds := by
  rcases (updateActor_eq_ok_iff w w' id patch).mp h with ⟨_, _, _, _, rfl⟩
  rfl

/-- They leave the bounds of the world. -/
theorem followed_bounds : Followed fun w w' => w'.bounds = w.bounds where
  self _ := rfl
  trans h h' := h'.trans h
  apply := by
    intro w w' actor op _ h
    cases op with
    | actor id patch => exact bounds_updateActor h
    | tile id patch =>
        rcases (updateTile_eq_ok_iff w w' id patch).mp h with ⟨_, _, rfl⟩
        rfl
    | resources change => rw [updateResources_eq h]
    | guard id key expected => rw [apply_guard_eq_ok h]
  task _ _ key := by
    cases key with
    | _ => rfl
  state _ _ _ := rfl

end World

end Farmhand
