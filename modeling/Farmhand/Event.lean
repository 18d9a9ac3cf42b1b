import Farmhand.Outcome

/-!
# Events

What a run tells those who watch it: that it started and how it ended, every statement and every
call, what a script prints, and what went wrong.

## Main definitions

* `CallSource`: Where a called name was found.
* `Event`: The messages of a run.
* `Event.ofFailure`: How a failure is told.
-/

namespace Farmhand

/-- Where a called name was found. -/
inductive CallSource where
  | capability | tileFunction | subroutine
deriving DecidableEq

/-- The name of a source in data. -/
def CallSource.name : CallSource → String
  | capability => "capability"
  | tileFunction => "tile_function"
  | subroutine => "subroutine"

/-- The messages of a run, each with the actor whose run it is. -/
inductive Event where
  | started (actor : String)
  | completed (actor message : String)
  | failed (actor message : String)
  | stopped (actor : String)
  | statement (actor subroutine : String) (line : Nat) (text : String)
  /-- A call, with the number of subroutines around it and the texts of its arguments. -/
  | call (actor : String) (depth : Nat) (name : String) (args : List String) (source : CallSource)
  | log (actor : String) (severity : Severity) (message : String)
  /-- A failure, with advice that follows from its class. -/
  | error (actor : String) (kind : ErrorKind) (message : String)

namespace Event

/-- The actor whose run an event is about. -/
def actor : Event → String
  | started a | completed a _ | failed a _ | stopped a | statement a _ _ _ | call a _ _ _ _
  | log a _ _ | error a _ _ => a

/-- How a failure is told at the end of a run: a run that was stopped only stops, any other failure
    is an error and then the failure of the run. -/
def ofFailure (actor : String) (f : Failure) : List Event :=
  match f.kind with
  | .stopped => [stopped actor]
  | kind => [error actor kind f.message, failed actor f.message]

end Event

end Farmhand
