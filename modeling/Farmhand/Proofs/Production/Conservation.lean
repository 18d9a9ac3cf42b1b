import Farmhand.Proofs.Production.Calls
import Farmhand.Proofs.Production.Firing

/-!
# Nothing Is Lost and Nothing Comes Twice

What is true of the stock of a produce in every run. Actors call functions of tiles, timers run out
and everything is cancelled, in any order; a tile may be set up again after its cycle was cancelled,
by the same actor or by another one. Through all of this the stock grows by one for each tile that
becomes ready and by what is stored, and stays as it is otherwise; and no more tiles become ready
than were set up.

## Main definitions

* `Deed`: What can happen.
* `Engine.deed`, `Engine.deeds`: The state after one deed, and after several.
* `Engine.ripenings`, `Engine.openings`: The tiles that become ready in a deed, and the cycles that
  it starts.

## Theorems

* `fireDue_yields`: The timers that run out up to a time add what each of them adds.
* `deeds_engaged`: No more tiles become ready than were set up.
* `stock_conserved`: How the stock changes.
-/

namespace Farmhand

/-- What can happen to the tiles of a world. -/
inductive Deed where
  /-- An actor calls a function of a tile, with or without something to time its tasks. -/
  | call (timed : Bool) (actor tile name : String)
  /-- The timer that is due the earliest runs out. -/
  | expire
  /-- The clock is advanced by some milliseconds. -/
  | advance (milliseconds : Nat)
  /-- All tasks are cancelled. -/
  | cancel

namespace Engine

/-- The state after a deed. -/
def deed (e : Engine) : Deed → Engine
  | .call timed actor tile name => (e.invoke timed actor tile name).2
  | .expire =>
    match earliest? e.timers with
    | some t => (e.atDue t).fire t
    | none => e
  | .advance milliseconds => e.advanceTo (e.now + milliseconds)
  | .cancel => e.cancelAll

/-- The number of tiles that become ready as timers run out. -/
def ripenedBy (p : Produce) : List (Engine × Timer) → Nat
  | [] => 0
  | (e, t) :: rest => e.ripens p t + ripenedBy p rest

/-- The number of tiles that become ready in a deed. -/
def ripenings (e : Engine) (p : Produce) : Deed → Nat
  | .call _ _ _ _ => 0
  | .expire =>
    match earliest? e.timers with
    | some t => (e.atDue t).ripens p t
    | none => 0
  | .advance milliseconds => ripenedBy p (expiries (e.now + milliseconds) e.pending e)
  | .cancel => 0

/-- The number of cycles that a deed starts: one, if it is a call that sets a tile up and
    succeeds. -/
def openings (e : Engine) (p : Produce) : Deed → Nat
  | .call timed actor tile name =>
    if name = p.opener.name ∧ (e.invoke timed actor tile name).1.isOk = true then 1 else 0
  | _ => 0

/-- The state after several deeds. -/
def deeds (e : Engine) : List Deed → Engine
  | [] => e
  | d :: rest => (e.deed d).deeds rest

/-- The number of tiles that become ready in several deeds. -/
def ripened (e : Engine) (p : Produce) : List Deed → Nat
  | [] => 0
  | d :: rest => e.ripenings p d + (e.deed d).ripened p rest

/-- The number of cycles that several deeds start. -/
def opened (e : Engine) (p : Produce) : List Deed → Nat
  | [] => 0
  | d :: rest => e.openings p d + (e.deed d).opened p rest

variable {e : Engine}

/-! ## Timers -/

theorem yields_self (h : Orderly e []) : Yields e e fun _ => 0 :=
  ⟨h, fun _ => (Int.add_zero _).symm, fun _ => Nat.le_refl _⟩

theorem Yields.trans {e₁ e₂ : Engine} {gain gain' : Produce → Nat} (h : Yields e e₁ gain)
    (h' : Yields e₁ e₂ gain') : Yields e e₂ fun p => gain p + gain' p := by
  refine ⟨h'.orderly, fun p => ?_, fun p => ?_⟩
  · have hfirst := h.stock p
    have hsecond := h'.stock p
    omega
  · have hfirst := h.engaged p
    have hsecond := h'.engaged p
    omega

theorem Orderly.atDue (h : Orderly e []) (t : Timer) : Orderly (e.atDue t) [] :=
  ⟨h.keyed, h.held_nonneg, fun key s hkey hs =>
    (h.duty key s hkey hs).frame (fun _ => rfl) fun _ hnone => hnone⟩

-- The timer that is due the earliest adds to the stock if it ends the work of a tile.
theorem expire_yields (h : Orderly e []) (t : Timer) :
    Yields e ((e.atDue t).fire t) fun p => (e.atDue t).ripens p t := by
  have hyields := fire_yields (h.atDue t) t
  exact ⟨hyields.orderly, hyields.stock, hyields.engaged⟩

/-- The timers that run out up to a time add what each of them adds. -/
theorem fireDue_yields (h : Orderly e []) (time count : Nat) :
    Yields e (fireDue time count e) fun p => ripenedBy p (expiries time count e) := by
  -- By induction on the number of timers, with the invariant at every state between them.
  induction count generalizing e with
  | zero => exact yields_self h
  | succ count ih =>
      rw [fireDue_succ]
      unfold expiries
      cases ht : earliest? e.timers with
      | none => exact yields_self h
      | some t =>
          by_cases hdue : t.due ≤ time
          · have hfirst := expire_yields h t
            simpa only [hdue, if_true, ripenedBy] using hfirst.trans (ih hfirst.orderly)
          · simp only [hdue, if_false]
            exact yields_self h

theorem advance_yields (h : Orderly e []) (time : Nat) :
    Yields e (e.advanceTo time) fun p => ripenedBy p (expiries time e.pending e) := by
  have hfired := fireDue_yields h time e.pending
  refine ⟨⟨hfired.orderly.keyed, hfired.orderly.held_nonneg, fun key s hkey hs => ?_⟩,
    hfired.stock, hfired.engaged⟩
  exact (hfired.orderly.duty key s hkey hs).frame (fun _ => rfl) fun _ hnone => hnone

/-! ## Runs -/

-- A deed keeps the engine in order, and ends no more cycles than were under way or are started.
theorem deed_engaged (h : Orderly e []) (d : Deed) :
    Orderly (e.deed d) [] ∧ ∀ p : Produce,
      p.engaged (e.deed d) + e.ripenings p d ≤ p.engaged e + e.openings p d := by
  cases d with
  | call timed actor tile name =>
      have hearns := invoke_earns h (rfl : e.invoke timed actor tile name = _)
      exact ⟨hearns.orderly, hearns.engaged⟩
  | expire =>
      unfold deed ripenings
      cases ht : earliest? e.timers with
      | none => exact ⟨h, fun p => Nat.le_refl _⟩
      | some t =>
          have hyields := expire_yields h t
          exact ⟨hyields.orderly, hyields.engaged⟩
  | advance milliseconds =>
      have hyields := advance_yields h (e.now + milliseconds)
      exact ⟨hyields.orderly, hyields.engaged⟩
  | cancel =>
      refine ⟨h.cancelAll, fun p => ?_⟩
      rw [deed, cancelAll_eq]
      exact Nat.zero_le _

theorem deeds_engaged (h : Orderly e []) (ds : List Deed) :
    Orderly (e.deeds ds) [] ∧ ∀ p : Produce,
      p.engaged (e.deeds ds) + e.ripened p ds ≤ p.engaged e + e.opened p ds := by
  induction ds generalizing e with
  | nil => exact ⟨h, fun p => Nat.le_refl _⟩
  | cons d rest ih =>
      rcases deed_engaged h d with ⟨hdeed, hfirst⟩
      rcases ih hdeed with ⟨hdeeds, hrest⟩
      refine ⟨hdeeds, fun p => ?_⟩
      -- The slots that stand for a cycle carry the balance from one deed to the next.
      have hfirst' := hfirst p
      have hrest' := hrest p
      simp only [deeds, ripened, opened]
      omega

-- A world whose tiles hold nothing below zero is in order as long as nothing has happened.
theorem orderly_new {w : World} (hkeyed : w.Keyed)
    (hready : ∀ id t, w.tiles.get? id = some t → t.kind.isProducer = true →
      t.status = readyStatus → 0 ≤ t.quantity) (stepTime : Nat) :
    Orderly (Engine.new w stepTime) [] := by
  refine ⟨hkeyed, fun p id t ht => ?_, fun key s _ hs => ?_⟩
  · rw [Produce.held]
    split
    · next hheld =>
      refine hready id t ht ?_ hheld.2
      rw [hheld.1]
      cases p <;> rfl
    · exact Int.le_refl 0
  · exact absurd hs (by simp [slot?, Engine.new])

/-- How the stock of a produce changes. In every state of every run from a world whose ready tiles
    hold nothing below zero, a call adds what it stores, as long as the counter can hold what comes
    in, and nothing if it does anything else or fails; a timer that runs out adds one if it ends the
    work of a tile, and nothing otherwise; an advance of the clock adds what its timers add; and a
    cancellation adds nothing. Over the whole run no more tiles become ready than calls set up. -/
theorem stock_conserved {w : World} (hkeyed : w.Keyed)
    (hready : ∀ id t, w.tiles.get? id = some t → t.kind.isProducer = true →
      t.status = readyStatus → 0 ≤ t.quantity) (stepTime : Nat) (ds : List Deed) (p : Produce) :
    let e := (Engine.new w stepTime).deeds ds
    (∀ timed actor tile name,
      e.world.resource p.counter + p.income e actor tile name ≤ Integer.maxCounter →
        p.stock (e.invoke timed actor tile name).2.world = p.stock e.world +
          if name = TileFunction.store.name ∧ (e.invoke timed actor tile name).1.isOk = true then
            (p.deposit e actor : Int) else 0) ∧
      (∀ t, earliest? e.timers = some t →
        p.stock ((e.atDue t).fire t).world = p.stock e.world + (e.atDue t).ripens p t) ∧
      (∀ time, p.stock (e.advanceTo time).world =
        p.stock e.world + ripenedBy p (expiries time e.pending e)) ∧
      p.stock e.cancelAll.world = p.stock e.world ∧
      (Engine.new w stepTime).ripened p ds ≤ (Engine.new w stepTime).opened p ds := by
  rcases deeds_engaged (orderly_new hkeyed hready stepTime) ds with ⟨horderly, hengaged⟩
  refine ⟨?_, ?_, ?_, ?_, ?_⟩
  · intro timed actor tile name hroom
    exact (invoke_earns horderly rfl).stock p hroom
  · intro t _
    exact (expire_yields horderly t).stock p
  · intro time
    exact (advance_yields horderly time).stock p
  · rw [cancelAll_eq]
    exact p.stock_withoutTasks _ _
  · -- No cycle is under way at the beginning, and none is counted twice.
    have hcount := hengaged p
    have hnone : p.engaged (Engine.new w stepTime) = 0 := rfl
    omega

/-- A field that is planted and left alone. -/
theorem stock_conserved_field :
    let w := ((World.empty ⟨1, 1⟩).insertTile (Tile.new "field" .farmland ⟨0, 0⟩)).insertActor
      (Actor.new "bot" ⟨0, 0⟩)
    let ds := [.call true "bot" "field" "plant", .advance 10000]
    let e := (Engine.new w 1).deeds ds
    w.Keyed ∧ Produce.wheat.stock (e.invoke true "bot" "field" "harvest").2.world =
        Produce.wheat.stock e.world ∧
      (Engine.new w 1).ripened .wheat ds = 1 := by
  intro w ds e
  have hkeyed : w.Keyed := ((World.keyed_empty _).insertTile _).insertActor _
  have hready : ∀ id t, w.tiles.get? id = some t → t.kind.isProducer = true →
      t.status = readyStatus → 0 ≤ t.quantity := by
    intro id t ht _ _
    by_cases hid : id = "field"
    · have hfield : some (Tile.new "field" .farmland ⟨0, 0⟩) = some t := (hid ▸ ht :)
      rw [← Option.some.inj hfield]
      decide
    · rw [show w.tiles.get? id = none from if_neg fun h => hid h.symm] at ht
      simp only [reduceCtorEq] at ht
  have hharvest := (stock_conserved hkeyed hready 1 ds .wheat).1 true "bot" "field" "harvest"
    (by decide)
  rw [if_neg fun h => absurd h.1 (by decide), Int.add_zero] at hharvest
  refine ⟨hkeyed, ?_, by decide⟩
  simpa only [e] using hharvest

end Engine

end Farmhand
