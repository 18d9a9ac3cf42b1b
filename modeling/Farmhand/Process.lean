import Farmhand.Engine

/-!
# Processes

Work on the engine that may have to wait. A process is either done, with a result and the engine as
it left it, or it waits for some time and then goes on from the engine as it is by then. Whatever
happens to the engine in between is not the process's doing, and it sees all of it: the only states
in which others can act are those in which a process waits.

## Main definitions

* `Process`: Work that may wait.
* `Process.bind`: One piece of work after another.
* `Process.sleep`: Waiting.
* `Process.move`: The motion of an actor to a target.

## Theorems

* `Process.andThen_eq_bind`: The unfolded form of `bind` is `bind`.
-/

namespace Farmhand

/-- Work on the engine that may have to wait. -/
inductive Process (α : Type) where
  | done (result : α) (e : Engine)
  /-- Waits some milliseconds, and goes on from the engine as it is then. -/
  | wait (time : Nat) (e : Engine) (resume : Engine → Process α)

namespace Process

variable {α β : Type}

/-- One piece of work after another. -/
def bind (p : Process α) (next : α → Engine → Process β) : Process β :=
  match p with
  | done result e => next result e
  | wait time e resume => wait time e fun e => (resume e).bind next

/-- One piece of work after another, with the case that the first is done in the open. -/
@[inline]
def andThen (p : Process α) (next : α → Engine → Process β) : Process β :=
  match p with
  | done result e => next result e
  | wait time e resume => wait time e fun e => (resume e).bind next

theorem andThen_eq_bind (p : Process α) (next : α → Engine → Process β) :
    p.andThen next = p.bind next := by
  cases p <;> rfl

/-- Waits for some nanoseconds, up to the next whole millisecond. No time is no wait. -/
def sleep (nanoseconds : Nat) (e : Engine) : Process Unit :=
  if nanoseconds = 0 then done () e else wait (Duration.ticks nanoseconds) e (done ())

/-- The motion of an actor to a target, and whether it arrived. A motion that cannot begin does not
    wait. One that began ends at its target unless all motion was stopped in the meantime. Neither
    happens if the time of the motion does not fit. -/
def move (id : String) (target : Position) (e : Engine) : Process (Except Overflow Bool) :=
  let e := { e with moveRequests := e.moveRequests + 1 }
  let epoch := e.motionEpoch
  match e.world.actor id with
  | .error _ => done (.ok false) e
  | .ok a =>
    if e.world.bounds.contains target then
      match Duration.stepAt e.stepTime a.speed with
      | .error overflow => done (.error overflow) e
      | .ok none => done (.ok false) e
      | .ok (some time) =>
        (sleep time e).bind fun _ e =>
          if e.motionEpoch = epoch then
            match e.world.updateActor id { position := some target } with
            | .ok world => done (.ok true) { e with world }
            | .error _ => done (.ok false) e
          else done (.ok false) e
    else done (.ok false) e

end Process

end Farmhand
