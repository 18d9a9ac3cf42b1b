import Farmhand.Proofs.Concurrent.Unbroken

/-!
# One Motion

A motion of an actor to a place that cannot begin is over as soon as it is asked for. Otherwise it
waits for its end, unless it takes no time, and at its end it brings the actor to the place, unless
motion was stopped since it began. An actor can be so slow that the time of its step does not fit.
Then the motion breaks off before it begins.

## Main definitions

* `World.Moved`: The effect of a motion that arrives.
* `Engine.Admits`: A motion can begin.
* `Engine.Overtaxes`: A motion breaks off, as its time does not fit.

## Theorems

* `World.updateActor_position_iff`: A change of the place of an actor changes nothing else.
* `Process.move_cases`: How a motion begins.
-/

namespace Farmhand

namespace World

variable {w w' : World} {id : String} {p : Position}

/-- The world with an actor at another place, and everything else as it was. -/
def Moved (w : World) (id : String) (p : Position) (w' : World) : Prop :=
  ∃ a, w.actors.get? id = some a ∧
    w' = { w with actors := w.actors.insert id { a with position := p } }

-- Nothing but the place changes, and it has to be in the world.
theorem updateActor_position_iff :
    w.updateActor id { position := some p } = .ok w' ↔
      w.bounds.contains p = true ∧ w.Moved id p w' := by
  have hpatch : ∀ a, w.patchActor a { position := some p } =
      if w.bounds.contains p then .ok { a with position := p } else .error (.outOfBounds p) :=
    fun _ => rfl
  rw [updateActor_eq_ok_iff]
  constructor
  · rintro ⟨a, b, ha, hb, rfl⟩
    rw [hpatch] at hb
    split at hb
    · next hp => exact ⟨hp, a, ha, by rw [Except.ok.inj hb]⟩
    · simp only [reduceCtorEq] at hb
  · rintro ⟨hp, a, ha, rfl⟩
    exact ⟨a, _, ha, by rw [hpatch, if_pos hp], rfl⟩

end World

namespace Engine

variable {e : Engine} {id : String} {target : Position} {time time' : Nat}

/-- A motion of an actor to a place can begin, and takes some nanoseconds: the place is in the
    world, and the actor is there and has a speed at which it moves. -/
structure Admits (e : Engine) (id : String) (target : Position) (time : Nat) : Prop where
  inside : e.world.bounds.contains target = true
  able : ∃ a, e.world.actors.get? id = some a ∧ Duration.stepAt? e.stepTime a.speed = some time

/-- A motion of an actor to a place breaks off: it could begin, but its time does not fit. -/
structure Overtaxes (e : Engine) (id : String) (target : Position) : Prop where
  inside : e.world.bounds.contains target = true
  slow : ∃ a, e.world.actors.get? id = some a ∧
    Duration.stepAt e.stepTime a.speed = .error .stepTime

-- A time that does not fit is none.
theorem Admits.not_overtaxes (h : e.Admits id target time) : ¬ e.Overtaxes id target := by
  intro hslow
  rcases h.able with ⟨a, ha, htime⟩
  rcases hslow.slow with ⟨b, hb, hbreaks⟩
  rw [Option.some.inj (ha.symm.trans hb), Duration.stepAt?_eq_some_iff, hbreaks] at htime
  cases htime

theorem Admits.unique (h : e.Admits id target time) (h' : e.Admits id target time') :
    time = time' := by
  rcases h.able with ⟨a, ha, htime⟩
  rcases h'.able with ⟨b, hb, htime'⟩
  rw [Option.some.inj (ha.symm.trans hb), htime'] at htime
  exact (Option.some.inj htime).symm

end Engine

namespace Process

/-- A motion ends at once if it cannot begin, and breaks off if its time does not fit. If it takes
    no time, its end comes at once, and otherwise it waits for its end. -/
theorem move_cases (id : String) (target : Position) (e : Engine) :
    let asked := { e with moveRequests := e.moveRequests + 1 }
    (((∀ time, ¬ e.Admits id target time) ∧ ¬ e.Overtaxes id target) ∧
      move id target e = .done (.ok false) asked) ∨
    (e.Overtaxes id target ∧ move id target e = .done (.error .stepTime) asked) ∨
    (e.Admits id target 0 ∧ move id target e = arrival id target e.motionEpoch asked) ∨
    ∃ time, e.Admits id target time ∧ time ≠ 0 ∧
      move id target e = .wait (Duration.ticks time) asked (arrival id target e.motionEpoch) := by
  intro asked
  unfold move
  simp only
  cases hactor : e.world.actor id with
  | error error =>
      -- There is no such actor.
      have hnone : ∀ a, e.world.actors.get? id ≠ some a := fun a ha => by
        rw [(World.actor_eq_ok_iff _ _ _).mpr ha] at hactor
        cases hactor
      exact .inl ⟨⟨fun time h => h.able.elim fun a ha => hnone a ha.1,
        fun h => h.slow.elim fun a ha => hnone a ha.1⟩, rfl⟩
  | ok a =>
      have ha := (World.actor_eq_ok_iff _ _ _).mp hactor
      cases hinside : e.world.bounds.contains target with
      | false =>
          exact .inl ⟨⟨fun time h => Bool.false_ne_true (hinside.symm.trans h.inside),
            fun h => Bool.false_ne_true (hinside.symm.trans h.inside)⟩, rfl⟩
      | true =>
          simp only [if_true]
          cases htime : Duration.stepAt e.stepTime a.speed with
          | error overflow =>
              have hover := Duration.stepAt_eq_error htime
              rw [hover] at htime ⊢
              exact .inr (.inl ⟨⟨hinside, a, ha, htime⟩, rfl⟩)
          | ok time =>
              cases time with
              | none =>
                  refine .inl ⟨⟨fun time h => ?_, fun h => ?_⟩, rfl⟩
                  · rcases h.able with ⟨b, hb, hsome⟩
                    rw [Option.some.inj (hb.symm.trans ha), Duration.stepAt?_eq_some_iff,
                      htime] at hsome
                    cases hsome
                  · rcases h.slow with ⟨b, hb, hbreaks⟩
                    rw [Option.some.inj (hb.symm.trans ha), htime] at hbreaks
                    cases hbreaks
              | some time =>
                  have hadmits : e.Admits id target time :=
                    ⟨hinside, a, ha, Duration.stepAt?_eq_some_iff.mpr htime⟩
                  by_cases hzero : time = 0
                  · rw [hzero] at hadmits ⊢
                    exact .inr (.inr (.inl ⟨hadmits, rfl⟩))
                  · refine .inr (.inr (.inr ⟨time, hadmits, hzero, ?_⟩))
                    simp only
                    rw [sleep, if_neg hzero]
                    rfl

end Process

end Farmhand
