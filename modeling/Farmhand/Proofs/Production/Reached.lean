import Farmhand.Proofs.Interpreter.Composition
import Farmhand.Proofs.Production.Steps

/-!
# What Can Happen to the Tiles

The states that a world can come to when actors walk about in it and call functions of its tiles,
while timers run out, the clock is advanced and everything may be cancelled. A motion has its own
share in this: it is asked for, it may bring the actor to its target some time later, and its price
may be taken. All of it keeps the invariant of the slots, from any world in which actors and tiles
are filed under their own ids.

## Main definitions

* `Happening`: What can happen, motions included.
* `Engine.happen`, `Engine.happenings`: The state after one happening, and after several.
* `Process.Unfolds`: Work on the engine that consists of happenings.

## Theorems

* `move_unfolds`: A motion consists of happenings.
* `Attended.happen`, `Attended.happenings`: What can happen keeps the invariant.
* `now_le_happenings`: The clock does not go back.
-/

namespace Farmhand

/-- What can happen to a world in which actors walk about and call functions of tiles. -/
inductive Happening where
  /-- Something other than a motion. -/
  | deed (d : Deed)
  /-- A motion is asked for. -/
  | setOut
  /-- An actor arrives at a position, if it is one of the world. -/
  | arrive (actor : String) (target : Position)
  /-- An actor pays for a motion, if it can. -/
  | pay (actor : String) (amount : Nat)

namespace Engine

/-- The state after an update of an actor, or the same state if the update fails. -/
def updated (e : Engine) (actor : String) (patch : ActorPatch) : Engine :=
  match e.world.updateActor actor patch with
  | .ok world => { e with world }
  | .error _ => e

/-- The state after a happening. -/
def happen (e : Engine) : Happening → Engine
  | .deed d => e.deed d
  | .setOut => { e with moveRequests := e.moveRequests + 1 }
  | .arrive actor target => e.updated actor { position := some target }
  | .pay actor amount => e.updated actor { energy := some (.debit amount) }

/-- The state after several happenings. -/
def happenings (e : Engine) : List Happening → Engine
  | [] => e
  | h :: rest => (e.happen h).happenings rest

theorem happenings_append (e : Engine) (hs hs' : List Happening) :
    e.happenings (hs ++ hs') = (e.happenings hs).happenings hs' := by
  induction hs generalizing e with
  | nil => rfl
  | cons h rest ih => exact ih (e.happen h)

end Engine

/-! ## Motions -/

/-- Work on the engine, from a state on, that consists of happenings: whenever it waits or is done,
    what it has done since the state that it last saw is a list of them. -/
inductive Process.Unfolds {α : Type} : Engine → Process α → Prop
  | done {e a} (hs : List Happening) : Unfolds e (.done a (e.happenings hs))
  | wait {e time resume} (hs : List Happening) (h : ∀ e', Unfolds e' (resume e')) :
      Unfolds e (.wait time (e.happenings hs) resume)

-- The end of a motion brings the actor to its target, or nothing happens.
theorem arrival_unfolds (id : String) (target : Position) (epoch : Nat) (hs : List Happening)
    (e e' : Engine) (he : e' = e.happenings hs) :
    Process.Unfolds e (Process.arrival id target epoch e') := by
  rcases Process.arrival_cases id target epoch e' with ⟨world, heq, _, hupdate⟩ | ⟨heq, _⟩
  · have hstate : { e' with world } = e.happenings (hs ++ [.arrive id target]) := by
      rw [Engine.happenings_append, ← he, Engine.happenings, Engine.happenings, Engine.happen,
        Engine.updated, hupdate]
    rw [heq, hstate]
    exact .done _
  · rw [heq, he]
    exact .done hs

/-- The motion of an actor consists of happenings. -/
theorem move_unfolds (id : String) (target : Position) (e : Engine) :
    Process.Unfolds e (Process.move id target e) := by
  have hout : { e with moveRequests := e.moveRequests + 1 } = e.happenings [.setOut] := rfl
  rcases Process.move_begins id target e with ⟨r, _, heq⟩ | ⟨a, time, _, _, _, heq⟩
  · rw [heq, hout]
    exact .done _
  · rw [heq]
    unfold Process.sleep
    split
    · exact arrival_unfolds id target _ [.setOut] e _ hout
    · rw [Process.bind, hout]
      exact .wait [.setOut] fun e' => arrival_unfolds id target _ [] e' e' rfl

namespace Engine

variable {e : Engine}

/-! ## Runs -/

-- An update of an actor leaves everything else alone.
theorem updated_eq (e : Engine) (actor : String) (patch : ActorPatch) :
    ∃ w, e.updated actor patch = { e with world := w } ∧ w.tiles = e.world.tiles ∧
      (e.world.Keyed → w.Keyed) := by
  unfold updated
  cases hupdate : e.world.updateActor actor patch with
  | ok w =>
      rcases World.updateActor_eq_ok hupdate with ⟨htiles, _, hkeyed⟩
      exact ⟨w, rfl, htiles, hkeyed⟩
  | error error => exact ⟨e.world, rfl, rfl, id⟩

/-- What can happen keeps the invariant. -/
theorem Attended.happen (h : Attended e) (x : Happening) : Attended (e.happen x) := by
  cases x with
  | deed d =>
      cases d with
      | call timed actor tile name => exact h.invoke timed actor tile name
      | expire =>
          unfold Engine.happen deed
          cases ht : earliest? e.timers with
          | none => exact h
          | some t => exact h.expired ht
      | advance milliseconds => exact h.advanceTo (Nat.le_add_right _ _)
      | cancel => exact h.cancelAll
  | setOut =>
      rcases h.rest with ⟨past, hrest⟩
      exact ⟨h.keyed, fun key s hs => (h.duty key s hs).same (fun _ => rfl) rfl, past,
        hrest.frame rfl rfl rfl rfl, hrest.quiet⟩
  | arrive actor target =>
      rcases updated_eq e actor { position := some target } with ⟨w, hw, htiles, hkeyed⟩
      rw [Engine.happen, hw]
      exact h.frame (hkeyed h.keyed) htiles
  | pay actor amount =>
      rcases updated_eq e actor { energy := some (.debit amount) } with ⟨w, hw, htiles, hkeyed⟩
      rw [Engine.happen, hw]
      exact h.frame (hkeyed h.keyed) htiles

/-- Whatever happens keeps the invariant. -/
theorem Attended.happenings (h : Attended e) (hs : List Happening) :
    Attended (e.happenings hs) := by
  induction hs generalizing e with
  | nil => exact h
  | cons x rest ih => exact ih (h.happen x)

/-! ## The clock -/

theorem now_le_fireDue (e : Engine) (time count : Nat) :
    e.now ≤ (Engine.fireDue time count e).now := by
  refine fireDue_induction (P := fun e' => e.now ≤ e'.now) (fun e' t hle _ => ?_) time count e
    (Nat.le_refl _)
  rw [now_fire]
  exact Nat.le_trans hle (Nat.le_max_left _ _)

/-- The clock never goes back, whatever happens. -/
theorem now_le_happen (e : Engine) (x : Happening) : e.now ≤ (e.happen x).now := by
  cases x with
  | deed d =>
      cases d with
      | call timed actor tile name =>
          exact Nat.le_of_eq (aside_invoke e timed actor tile name).now.symm
      | expire =>
          unfold Engine.happen deed
          cases earliest? e.timers with
          | none => exact Nat.le_refl _
          | some t =>
              simp only [now_fire]
              exact Nat.le_max_left _ _
      | advance milliseconds =>
          exact Nat.le_trans (now_le_fireDue e _ _) (Nat.le_max_left _ _)
      | cancel => exact Nat.le_of_eq (by rw [Engine.happen, deed, cancelAll_eq])
  | setOut => exact Nat.le_refl _
  | arrive actor target =>
      rcases updated_eq e actor { position := some target } with ⟨w, hw, _⟩
      exact Nat.le_of_eq (by rw [Engine.happen, hw])
  | pay actor amount =>
      rcases updated_eq e actor { energy := some (.debit amount) } with ⟨w, hw, _⟩
      exact Nat.le_of_eq (by rw [Engine.happen, hw])

/-- The clock does not go back. -/
theorem now_le_happenings (e : Engine) (hs : List Happening) : e.now ≤ (e.happenings hs).now := by
  induction hs generalizing e with
  | nil => exact Nat.le_refl _
  | cons x rest ih => exact Nat.le_trans (now_le_happen e x) (ih (e.happen x))

end Engine

end Farmhand
