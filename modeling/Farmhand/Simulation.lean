import Farmhand.Concurrent
import Farmhand.Interpreter.Call

/-!
# Simulations

A world with its interpreters on one clock. There is at most one interpreter for each actor; it is
made when it is first needed, and keeps its subroutines and variables from then on. Everything that
happens in a simulation goes through the operations of this module or of the engine.

## Main definitions

* `Simulation`: The state.
* `Simulation.interpreter`: The interpreter of an actor.
* `Simulation.load`, `Simulation.setSubroutines`: Scripts.
* `Job`, `Simulation.runJobs`: Runs and calls, side by side.
* `Simulation.drain`: What was told since it was last asked for.
-/

namespace Farmhand

/-- A world with its interpreters on one clock. -/
structure Simulation where
  engine : Engine
  settings : Settings
  /-- The interpreters by their actors. -/
  interpreters : Table Interpreter

/-- Why an operation of a simulation does not happen. -/
inductive SimulationError where
  | world (error : WorldError)
  | load (error : LoadError)

namespace SimulationError

/-- The text of an error. -/
def message : SimulationError → String
  | world error => error.message
  | load error => error.message

/-- The failure of a run that an error stands for. -/
def toFailure : SimulationError → Failure
  | world error => .world error
  | load error => .load error

end SimulationError

/-- What an interpreter is asked to do. -/
inductive Job where
  | main (actor : String)
  | call (actor name : String) (args : List Value)

/-- What came of a job. -/
structure JobResult where
  actor : String
  outcome : Outcome
  /-- The last value of every variable that was ever assigned. -/
  assigned : List (String × Value)
  /-- Whether the interpreter may still go on. -/
  running : Bool

namespace Job

/-- The actor whose interpreter is asked. -/
def actor : Job → String
  | main actor => actor
  | call actor _ _ => actor

/-- The step that the interpreter takes. -/
def step : Job → Step Success
  | main _ => runMain
  | call _ name args => callFunction name args

end Job

namespace Simulation

/-- The moments through which a step of a simulation may go. -/
def budget : Nat := 1000000000

/-- A world at the start of time, without interpreters. -/
def new (world : World) (stepTime : Nat) (settings : Settings) : Simulation where
  engine := .new world stepTime
  settings
  interpreters := .empty

/-- Changes the engine, with an answer. -/
def act {α : Type} (s : Simulation) (f : Engine → α × Engine) : α × Simulation :=
  let (a, engine) := f s.engine
  (a, { s with engine })

/-- The interpreter of an actor, made if there is none yet. -/
def interpreter (s : Simulation) (actor : String) :
    Except WorldError (Interpreter × Simulation) :=
  match s.interpreters.get? actor with
  | some i => .ok (i, s)
  | none =>
    (Interpreter.create s.engine s.settings actor).map fun (i, engine) =>
      (i, { s with engine, interpreters := s.interpreters.insert actor i })

/-- Puts an interpreter back. -/
def put (s : Simulation) (actor : String) (i : Interpreter) : Simulation :=
  { s with interpreters := s.interpreters.insert actor i }

/-- Changes the interpreter of an actor, unless its script cannot be loaded. -/
def changeInterpreter (s : Simulation) (actor : String)
    (f : Interpreter → Except LoadError Interpreter) : Except SimulationError Unit × Simulation :=
  match s.interpreter actor with
  | .error error => (.error (.world error), s)
  | .ok (i, s) =>
    match f i with
    | .error error => (.error (.load error), s)
    | .ok i => (.ok (), s.put actor i)

/-- Loads a script file for an actor. -/
def load (s : Simulation) (actor script : String) : Except SimulationError Unit × Simulation :=
  s.changeInterpreter actor fun i => i.load script

/-- Replaces the subroutines of an actor. -/
def setSubroutines (s : Simulation) (actor : String) (sources : Table String) :
    Except SimulationError Unit × Simulation :=
  s.changeInterpreter actor fun i => i.setSubroutines sources

/-- The interpreters of several jobs. -/
def prepare (s : Simulation) : List Job → Except WorldError (List Interpreter × Simulation)
  | [] => .ok ([], s)
  | job :: rest =>
    match s.interpreter job.actor with
    | .error error => .error error
    | .ok (i, s) =>
      match s.prepare rest with
      | .error error => .error error
      | .ok (others, s) => .ok (i :: others, s)

/-- The alarm that stops the interpreter of an actor some time from now, if there is to be one. -/
def stopAlarm (s : Simulation) : Option (String × Nat) →
    Except WorldError (List Alarm × Simulation)
  | none => .ok ([], s)
  | some (actor, delay) =>
    (s.interpreter actor).map fun (i, s) => ([⟨s.engine.now + delay, .stop i.handle⟩], s)

/-- Does jobs side by side with their interpreters, up to alarms. -/
def perform (s : Simulation) (jobs : List (Job × Interpreter)) (alarms : List Alarm) :
    Option (List JobResult × Simulation) :=
  let processes := jobs.map fun (job, i) e => job.step i e
  (s.engine.run processes alarms budget).map fun (results, engine) =>
    let finished := (jobs.zip results).foldl
      (fun (s : Simulation) ((job, _), (_, i)) => s.put job.actor i) { s with engine }
    let answers := (jobs.zip results).map fun ((job, _), (outcome, i)) =>
      { actor := job.actor, outcome, assigned := i.assigned.entries,
        running := engine.isRunning i.handle }
    (answers, finished)

/-- Does several jobs side by side, with a stop of one interpreter some time after the start.
    There is no answer only if the jobs go through more moments than the budget allows. -/
def runJobs (s : Simulation) (jobs : List Job) (stop : Option (String × Nat)) :
    Option (Except WorldError (List JobResult) × Simulation) :=
  match s.prepare jobs with
  | .error error => some (.error error, s)
  | .ok (interpreters, s) =>
    match s.stopAlarm stop with
    | .error error => some (.error error, s)
    | .ok (alarms, s) =>
      (s.perform (jobs.zip interpreters) alarms).map fun (answers, s) => (.ok answers, s)

/-- Stops the interpreter of an actor. -/
def stop (s : Simulation) (actor : String) : Except WorldError Unit × Simulation :=
  match s.interpreter actor with
  | .error error => (.error error, s)
  | .ok (i, s) => (.ok (), { s with engine := s.engine.stop i.handle })

/-- Moves an actor to a target, with a stop of all motion some time after the start, and tells
    whether it arrived. -/
def move (s : Simulation) (actor : String) (target : Position) (stopAfter : Option Nat) :
    Option (Except Overflow Bool × Simulation) :=
  let alarms := stopAfter.toList.map fun delay =>
    (⟨s.engine.now + delay, .stopMotion⟩ : Alarm)
  match s.engine.run [Process.move actor target] alarms budget with
  | some ([arrived], engine) => some (arrived, { s with engine })
  | _ => none

/-- What was told and noted since it was last asked for, in order. -/
def drain (s : Simulation) : List Event × List (Nat × String) × Simulation :=
  (s.engine.log.reverse, s.engine.notes.reverse,
    { s with engine := { s.engine with log := [], notes := [] } })

end Simulation

end Farmhand
