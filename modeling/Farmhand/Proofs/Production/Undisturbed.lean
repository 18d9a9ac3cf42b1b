import Farmhand.Proofs.Engine.Schedule
import Farmhand.Proofs.Production.Reached

/-!
# A Cycle Runs Its Course

From the moment an actor has been allowed to start a cycle on a tile, the cycle belongs to two tasks
in turn: first to that of the actor, whose end makes the tile work, then to that of the tile, whose
end makes it ready. A task takes its key, so no call can take its place, and nobody else's end has
to do with this tile. Only a cancellation can stop the cycle, and only the gathering of what it has
brought takes the tile out of its last state. So at each moment at which no timer is due, the clock
alone says how far the cycle is.

## Main definitions

* `World.status?`, `World.quantity?`: What is seen of a tile.
* `Engine.Underway`: The three stages of a cycle.
* `Happening.gathers`, `Engine.gathers`: The gathering of what a tile has to give.

## Theorems

* `Called.slot_stays`, `Called.tile_stays`: A call leaves tasks and ready tiles alone.
* `Underway.expired`, `Underway.advanceTo`, `Underway.invoke`: One step keeps the cycle going.
* `Underway.happenings`: So does everything that happens, until the gathering.
* `undisturbed`: The clock says how far a cycle is.
-/

namespace Farmhand

/-! ## Definitions -/

/-- The status of a tile. -/
def World.status? (w : World) (tile : String) : Option String :=
  (w.tiles.get? tile).map Tile.status

/-- The quantity of what a tile has to give. -/
def World.quantity? (w : World) (tile : String) : Option Int :=
  (w.tiles.get? tile).map Tile.quantity

/-- Whether a happening is a call that gathers a produce from a tile. -/
def Happening.gathers (e : Engine) (tile : String) (p : Produce) : Happening → Bool
  | .deed (.call timed actor tile' name) =>
    tile' = tile && name = p.gatherer.name && (e.invoke timed actor tile' name).1.isOk
  | _ => false

namespace Engine

/-- Whether one of several happenings gathers a produce from a tile. -/
def gathers (e : Engine) (tile : String) (p : Produce) : List Happening → Bool
  | [] => false
  | x :: rest => x.gathers e tile p || (e.happen x).gathers tile p rest

variable {e e₀ : Engine} {t : Timer} {actor tile : String} {p : Produce}

/-- How far a cycle is that an actor started on a tile in a state `e₀`. -/
inductive Underway (e₀ : Engine) (actor tile : String) (p : Produce) (e : Engine) : Prop
  /-- The actor sets the tile up. -/
  | setup {number : Nat} (hs : e.slot? (.actor actor) =
      some ⟨e₀.setupTask actor p.course, number, false, afterSetup actor tile p.course⟩)
  /-- The tile works. -/
  | work {number : Nat} (hs : e.slot? (.tile tile) =
      some ⟨workTask actor (e₀.now + p.course.setupTime) p.course, number, false,
        [.setStatus tile readyStatus (some p.course.yield)]⟩)
  /-- The tile is ready. -/
  | ready {u : Tile} (hget : e.world.tiles.get? tile = some u) (hkind : u.kind = p.kind)
      (hstatus : u.status = readyStatus) (hquantity : u.quantity = p.course.yield)
      (hover : e₀.now + p.course.setupTime + p.course.workTime ≤ e.now)

-- Slots and tiles that are as they were keep a cycle where it is.
theorem Underway.frame {e' : Engine} (h : Underway e₀ actor tile p e)
    (hslots : ∀ key, e'.slot? key = e.slot? key) (htiles : e'.world.tiles = e.world.tiles)
    (hnow : e.now ≤ e'.now) : Underway e₀ actor tile p e' := by
  cases h with
  | setup hs => exact .setup ((hslots _).trans hs)
  | work hs => exact .work ((hslots _).trans hs)
  | ready hget hkind hstatus hquantity hover =>
      exact .ready (htiles ▸ hget) hkind hstatus hquantity (Nat.le_trans hover hnow)

/-! ## Calls -/

-- A call leaves alone who has a task.
theorem Called.slot_stays {actor tile name : String} {r : Outcome × Engine}
    (h : Called e actor tile name r) {key : TaskKey} {s : Slot} (hs : e.slot? key = some s) :
    r.2.slot? key = some s := by
  have hkey : e.slot? (.actor actor) = none → key ≠ .actor actor := fun hidle heq => by
    rw [heq, hidle] at hs
    cases hs
  cases h with
  | aside hslots _ => exact (hslots key).trans hs
  | busy hidle _ _ _ hslots _ => exact (hslots key (hkey hidle)).trans hs
  | wrote _ _ _ _ hslots _ => exact (hslots key).trans hs
  | setup _ _ _ _ _ hidle _ hslots _ _ => exact (hslots key (hkey hidle)).trans hs

-- A call leaves alone what is ready, or gathers it.
theorem Called.tile_stays {actor tile name id : String} {r : Outcome × Engine} {u : Tile}
    (h : Called e actor tile name r) (hget : e.world.tiles.get? id = some u)
    (hready : u.status = readyStatus) :
    r.2.world.tiles.get? id = some u ∨
      tile = id ∧ r.1.isOk = true ∧ ∃ p : Produce, u.kind = p.kind ∧ name = p.gatherer.name := by
  cases h with
  | aside _ htiles => exact Or.inl (htiles ▸ hget)
  | busy _ _ _ _ _ htiles => exact Or.inl (htiles ▸ hget)
  | wrote hget' _ _ hwrote _ htiles =>
      by_cases hid : id = tile
      · rw [← hid, hget, Option.some.injEq] at hget'
        exact Or.inr ⟨hid.symm, hget' ▸ hwrote (hget' ▸ hready)⟩
      · exact Or.inl ((htiles id hid).trans hget)
  | setup _ hget' hnot _ _ _ _ _ _ htiles =>
      by_cases hid : id = tile
      · rw [← hid, hget, Option.some.injEq] at hget'
        exact absurd (hget' ▸ hready) hnot
      · exact Or.inl ((htiles id hid).trans hget)

/-- A call keeps a cycle going, or gathers what it has brought. -/
theorem Underway.invoke (h : Underway e₀ actor tile p e) (hattended : Attended e) (timed : Bool)
    (caller place name : String) :
    Underway e₀ actor tile p (e.invoke timed caller place name).2 ∨
      (Happening.deed (.call timed caller place name)).gathers e tile p = true ∧
        e₀.now + p.course.setupTime + p.course.workTime ≤ e.now := by
  have hcalled := hattended.called timed caller place name
  have hnow := (aside_invoke e timed caller place name).now
  cases h with
  | setup hs => exact Or.inl (.setup (hcalled.slot_stays hs))
  | work hs => exact Or.inl (.work (hcalled.slot_stays hs))
  | ready hget hkind hstatus hquantity hover =>
      rcases hcalled.tile_stays hget hstatus with hstays | ⟨hplace, hok, q, hq, hname⟩
      · exact Or.inl (.ready hstays hkind hstatus hquantity (hnow ▸ hover))
      · refine Or.inr ⟨?_, hover⟩
        rw [Produce.kind_inj (hq.symm.trans hkind)] at hname
        simp only [Happening.gathers, hplace, hname, decide_true, Bool.and_self, Bool.true_and]
        exact hname ▸ hplace ▸ hok

/-! ## Timers -/

-- A timer that runs out leaves alone the tasks of other keys.
theorem Expiry.slot_stays {e' : Engine} (h : Expiry e t e') {key : TaskKey} {s : Slot}
    (hs : e.slot? key = some s) (hkey : key ≠ t.key) : e'.slot? key = some s := by
  cases h with
  | gone _ hslots _ => exact (hslots key).trans hs
  | busy hkey' _ _ _ hslots _ => exact (hslots key (hkey' ▸ hkey)).trans hs
  | @setup _ tile _ _ hkey' _ _ _ _ hidle _ _ hslots _ _ =>
      have hne : key ≠ .tile tile := fun heq => by
        rw [heq, hidle] at hs
        cases hs
      exact (hslots key (hkey' ▸ hkey) hne).trans hs
  | work _ hkey' _ _ _ _ _ hslots _ _ => exact (hslots key (hkey' ▸ hkey)).trans hs

-- A timer that runs out leaves alone what is ready.
theorem Expiry.tile_stays {e' : Engine} (h : Expiry e t e') {id : String} {u : Tile}
    (hget : e.world.tiles.get? id = some u) (hready : u.status = readyStatus) :
    e'.world.tiles.get? id = some u := by
  -- What is prepared or works is not ready.
  have hview : ∀ {kind status worker}, e.world.view id = some (kind, status, worker) →
      status = readyStatus := by
    intro kind status worker hview
    rw [World.view, hget, Option.map_some, Option.some.injEq] at hview
    exact (Prod.mk.inj (Prod.mk.inj hview).2).1.symm.trans hready
  cases h with
  | gone _ _ htiles => exact htiles ▸ hget
  | busy _ _ _ _ _ htiles => exact htiles ▸ hget
  | @setup _ tile _ q _ _ _ _ hpreparing _ _ _ _ _ htiles =>
      by_cases hid : id = tile
      · exact absurd (hview (hid ▸ hpreparing)) q.preparing_ne_ready
      · exact (htiles id hid).trans hget
  | @work place _ _ q _ _ _ _ hworking _ _ _ htiles =>
      by_cases hid : id = place
      · exact absurd (hview (hid ▸ hworking)) q.working_ne_ready
      · exact (htiles id hid).trans hget

/-- A timer that runs out keeps a cycle going: its own timer brings it to its next stage. -/
theorem Underway.expired (h : Underway e₀ actor tile p e) (hattended : Attended e)
    (ht : earliest? e.timers = some t) : Underway e₀ actor tile p ((e.atDue t).fire t) := by
  have hnow : ((e.atDue t).fire t).now = max e.now t.due := now_fire _ _
  have hexpiry := hattended.expiry ht
  generalize (e.atDue t).fire t = e' at hnow hexpiry
  have hlater : e.now ≤ e'.now := hnow ▸ Nat.le_max_left _ _
  cases h with
  | setup hs =>
      by_cases hkey : TaskKey.actor actor = t.key
      · cases hexpiry with
        -- A stale timer on the same key: the slot stays.
        | gone _ hslots htiles => exact .setup ((hslots _).trans hs)
        | busy hkey' hs' hend _ _ _ =>
            have hactor := TaskKey.actor.inj (hkey.trans hkey')
            rw [← hactor, hs, Option.some.injEq] at hs'
            rw [← hs'] at hend
            cases hend
        -- It is, and the work on the tile has begun.
        | setup q hkey' hs' hdue hend _ _ _ hwork _ _ _ =>
            have hactor := TaskKey.actor.inj (hkey.trans hkey')
            rw [← hactor, hs, Option.some.injEq] at hs'
            rw [← hs'] at hdue hend
            rcases afterSetup_inj hend with ⟨htile, hq⟩
            rw [← hactor, ← htile, ← hq, ← hdue] at hwork
            exact .work hwork
        | work _ hkey' _ _ _ _ _ _ _ _ => cases hkey.trans hkey'
      · exact .setup (hexpiry.slot_stays hs hkey)
  | work hs =>
      by_cases hkey : TaskKey.tile tile = t.key
      · cases hexpiry with
        | gone _ hslots htiles => exact .work ((hslots _).trans hs)
        | busy hkey' _ _ _ _ _ => cases hkey.trans hkey'
        | setup _ hkey' _ _ _ _ _ _ _ _ _ _ => cases hkey.trans hkey'
        -- The work is over, and the tile is ready.
        | work q hkey' hs' hdue hlabel _ _ _ hready _ =>
            have htile := TaskKey.tile.inj (hkey.trans hkey')
            rw [← htile, hs, Option.some.injEq] at hs'
            rw [← hs'] at hdue hlabel
            rw [← htile, ← workLabel_inj hlabel] at hready
            rcases hready with ⟨u, hget, hkind, hstatus, hquantity⟩
            refine .ready hget hkind hstatus hquantity ?_
            rw [hnow, ← hdue]
            exact Nat.le_max_right _ _
      · exact .work (hexpiry.slot_stays hs hkey)
  | ready hget hkind hstatus hquantity hover =>
      exact .ready (hexpiry.tile_stays hget hstatus) hkind hstatus hquantity
        (Nat.le_trans hover hlater)

/-- An advance of the clock keeps a cycle going. -/
theorem Underway.advanceTo (h : Underway e₀ actor tile p e) (hattended : Attended e) (time : Nat) :
    Underway e₀ actor tile p (e.advanceTo time) := by
  have hfired := fireDue_induction (P := fun e => Attended e ∧ Underway e₀ actor tile p e)
    (fun e t he ht => ⟨he.1.expired ht, he.2.expired he.1 ht⟩) time e.pending e ⟨hattended, h⟩
  exact hfired.2.frame (fun _ => rfl) rfl (Nat.le_max_left _ _)

/-! ## Runs -/

/-- What happens keeps a cycle going, or gathers what it has brought, a cancellation aside. -/
theorem Underway.happen (h : Underway e₀ actor tile p e) (hattended : Attended e) {x : Happening}
    (hx : x ≠ .deed .cancel) :
    Underway e₀ actor tile p (e.happen x) ∨ x.gathers e tile p = true ∧
      e₀.now + p.course.setupTime + p.course.workTime ≤ e.now := by
  cases x with
  | deed d =>
      cases d with
      | call timed caller place name => exact h.invoke hattended timed caller place name
      | expire =>
          unfold Engine.happen deed
          cases ht : earliest? e.timers with
          | none => exact Or.inl h
          | some t => exact Or.inl (h.expired hattended ht)
      | advance milliseconds => exact Or.inl (h.advanceTo hattended _)
      | cancel => exact absurd rfl hx
  | setOut => exact Or.inl (h.frame (fun _ => rfl) rfl (Nat.le_refl _))
  | arrive caller target =>
      rcases updated_eq e caller { position := some target } with ⟨w, hw, htiles, _⟩
      rw [Engine.happen, hw]
      exact Or.inl (h.frame (fun _ => rfl) htiles (Nat.le_refl _))
  | pay caller amount =>
      rcases updated_eq e caller { energy := some (.debit amount) } with ⟨w, hw, htiles, _⟩
      rw [Engine.happen, hw]
      exact Or.inl (h.frame (fun _ => rfl) htiles (Nat.le_refl _))

/-- A cycle that is not cancelled goes on until somebody gathers what it has brought, and this is
    not before its time is over. -/
theorem Underway.happenings (h : Underway e₀ actor tile p e) (hattended : Attended e)
    {xs : List Happening} (hxs : .deed .cancel ∉ xs) :
    Underway e₀ actor tile p (e.happenings xs) ∨ e.gathers tile p xs = true ∧
      e₀.now + p.course.setupTime + p.course.workTime ≤ (e.happenings xs).now := by
  induction xs generalizing e with
  | nil => exact Or.inl h
  | cons x rest ih =>
      rw [List.mem_cons, not_or] at hxs
      rw [gathers, Bool.or_eq_true]
      rcases h.happen hattended (Ne.symm hxs.1) with hgoes | ⟨hgathers, hover⟩
      · rcases ih hgoes (hattended.happen x) hxs.2 with hgoes' | ⟨hgathers, hover⟩
        · exact Or.inl hgoes'
        · exact Or.inr ⟨Or.inr hgathers, hover⟩
      · -- The clock does not go back.
        have hlater := now_le_happenings e (x :: rest)
        exact Or.inr ⟨Or.inl hgathers, Nat.le_trans hover hlater⟩

/-! ## The clock -/

-- An accepted call that starts a cycle sets it going.
theorem underway_invoke (hkeyed : e.world.Keyed)
    (hok : (e.invoke true actor tile p.opener.name).1.isOk = true) :
    Underway e actor tile p (e.invoke true actor tile p.opener.name).2 := by
  have hsets := invoke_setsUp hkeyed p hok
  have hslot : (e.invoke true actor tile p.opener.name).2.slot? (.actor actor) =
      some ⟨e.setupTask actor p.course, e.nextGeneration, false,
        afterSetup actor tile p.course⟩ := by
    rw [slot?, hsets.slots]
    simp
  exact .setup hslot

-- When no timer is due, the tasks under way are those of the present time.
theorem Attended.task_now (h : Attended e) (hquiet : e.Quiet) {key : TaskKey} {s : Slot}
    (hs : e.slot? key = some s) : s.task.start ≤ e.now ∧ e.now < s.task.due := by
  rcases h.rest with ⟨past, hrest⟩
  have htask : e.task? key = some s.task := by rw [task?, hs, Option.map_some]
  rcases (hrest.task?_eq_some_iff hquiet key s.task).mp htask with ⟨_, _, _, _, _, _, hnow⟩
  exact hnow

-- The status of a tile is seen with its kind and its worker.
theorem status?_of_view {w : World} {kind : TileKind} {status : String} {worker : Option String}
    (h : w.view tile = some (kind, status, worker)) : w.status? tile = some status := by
  rcases Option.map_eq_some_iff.mp h with ⟨u, hget, hu⟩
  rw [World.status?, hget, Option.map_some, (Prod.mk.inj (Prod.mk.inj hu).2).1]

/-- When no timer is due, the time alone says how far a cycle is. -/
theorem Underway.shown (h : Underway e₀ actor tile p e) (hattended : Attended e)
    (hquiet : e.Quiet) {ripe finished : Nat} (hripe : ripe = e₀.now + p.course.setupTime)
    (hover : finished = ripe + p.course.workTime) :
    (e.now < ripe → e.world.status? tile = some p.course.preparing ∧
      e.actorTask? actor = some (e₀.setupTask actor p.course) ∧
        ∀ timed other name, (e.invoke timed actor other name).1.isOk = false) ∧
    (ripe ≤ e.now → e.now < finished → e.world.status? tile = some p.course.working ∧
      e.tileTask? tile = some (workTask actor ripe p.course) ∧
        ∀ timed other name, (e.invoke timed other tile name).1.isOk = false) ∧
    (finished ≤ e.now → e.world.status? tile = some readyStatus ∧
      e.world.quantity? tile = some 1) := by
  subst hripe hover
  cases h with
  | setup hslot =>
      have hnow : e.now < e₀.now + p.course.setupTime := (hattended.task_now hquiet hslot).2
      have hview := hattended.view_of_setup hslot rfl
      refine ⟨fun _ => ⟨status?_of_view hview, ?_, fun timed other name => ?_⟩, ?_, ?_⟩
      · rw [actorTask?, task?, hslot, Option.map_some]
      · exact invoke_of_slot? hattended.keyed (Or.inl hslot) timed name
      -- The other times have not come.
      · omega
      · omega
  | work hslot =>
      have hnow : e₀.now + p.course.setupTime ≤ e.now ∧
          e.now < e₀.now + p.course.setupTime + p.course.workTime := hattended.task_now hquiet hslot
      rcases hattended.view_of_work (p := p) hslot rfl with ⟨worker, hview⟩
      refine ⟨by omega, fun _ _ => ⟨status?_of_view hview, ?_, fun timed other name => ?_⟩,
        by omega⟩
      · rw [tileTask?, task?, hslot, Option.map_some]
      · exact invoke_of_slot? hattended.keyed (Or.inr hslot) timed name
  | ready hget _ hstatus hquantity hover =>
      have hyield : p.course.yield = 1 := by cases p <;> rfl
      refine ⟨by omega, by omega, fun _ => ⟨?_, ?_⟩⟩
      · rw [World.status?, hget, Option.map_some, hstatus]
      · rw [World.quantity?, hget, Option.map_some, hquantity, hyield]

/-- From any state that can be reached, let an actor start a cycle on a tile, and let anything
    happen then that is not a cancellation. When no timer is due, the time alone says how far the
    cycle is. Before the time of the setting up is over, the tile is being prepared and the task of
    the actor keeps it from every call; then, until the time of the work is over, the tile works and
    its task keeps everybody from calling it; and then the tile is ready and has one piece to give,
    until this has been gathered. -/
theorem undisturbed {w : World} (hkeyed : w.Keyed) (stepTime : Nat) (hs : List Happening)
    (actor tile : String) (p : Produce)
    (hok : (((Engine.new w stepTime).happenings hs).invoke true actor tile p.opener.name).1.isOk =
      true)
    (hs' : List Happening) (hcancel : .deed .cancel ∉ hs')
    (hquiet : ((((Engine.new w stepTime).happenings hs).invoke true actor tile
      p.opener.name).2.happenings hs').Quiet) :
    let e := (Engine.new w stepTime).happenings hs
    let started := (e.invoke true actor tile p.opener.name).2
    let e' := started.happenings hs'
    let ripe := e.now + p.course.setupTime
    let finished := ripe + p.course.workTime
    (e'.now < ripe → e'.world.status? tile = some p.course.preparing ∧
      e'.actorTask? actor = some (e.setupTask actor p.course) ∧
        ∀ timed other name, (e'.invoke timed actor other name).1.isOk = false) ∧
    (ripe ≤ e'.now → e'.now < finished → e'.world.status? tile = some p.course.working ∧
      e'.tileTask? tile = some (workTask actor ripe p.course) ∧
        ∀ timed other name, (e'.invoke timed other tile name).1.isOk = false) ∧
    (finished ≤ e'.now → started.gathers tile p hs' = false →
      e'.world.status? tile = some readyStatus ∧ e'.world.quantity? tile = some 1) := by
  intro e started e' ripe finished
  have hreached : Attended e := (attended_new hkeyed stepTime).happenings hs
  have hstarted : Attended started := hreached.invoke true actor tile p.opener.name
  have hattended : Attended e' := hstarted.happenings hs'
  rcases (underway_invoke hreached.keyed hok).happenings hstarted hcancel with
    hunderway | ⟨hgathers, hover⟩
  · rcases hunderway.shown hattended hquiet rfl rfl with ⟨hsetup, hwork, hready⟩
    exact ⟨hsetup, hwork, fun hnow _ => hready hnow⟩
  · -- What has been gathered was ready, and its time does not come back.
    have hpast : finished ≤ e'.now := hover
    refine ⟨by omega, by omega, fun _ hnone => ?_⟩
    rw [hgathers] at hnone
    cases hnone

/-- Another actor tries to start the mine over and to collect too early. When the time of the mine
    is over, one piece of ore lies there all the same. -/
theorem undisturbed_pit :
    let w := (((World.empty ⟨1, 1⟩).insertTile (Tile.new "pit" .mine ⟨0, 0⟩)).insertActor
      (Actor.new "ann" ⟨0, 0⟩)).insertActor (Actor.new "bob" ⟨0, 0⟩)
    let started := ((Engine.new w 1).invoke true "ann" "pit" "mine_initiate").2
    let e := started.happenings [.deed (.call true "bob" "pit" "mine_initiate"),
      .deed (.advance 3000), .arrive "ann" ⟨0, 0⟩, .deed (.call true "bob" "pit" "collect"),
      .deed (.advance 10000)]
    e.Quiet ∧ e.now = 13000 ∧ e.world.status? "pit" = some readyStatus ∧
      e.world.quantity? "pit" = some 1 := by
  intro w started e
  have hkeyed : w.Keyed :=
    (((World.keyed_empty _).insertTile _).insertActor _).insertActor _
  have hnone : e.timers = [] := List.isEmpty_iff.mp (by decide +kernel)
  have hquiet : e.Quiet := by
    intro t ht
    rw [hnone] at ht
    cases ht
  have hnow : e.now = 13000 := by decide +kernel
  have hcourse := undisturbed hkeyed 1 [] "ann" "pit" .ore (by decide +kernel) _ (by simp) hquiet
  exact ⟨hquiet, hnow, hcourse.2.2 (by decide +kernel) (by decide +kernel)⟩

end Engine

end Farmhand
