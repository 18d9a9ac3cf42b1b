import Farmhand.Process

/-!
# Processes Side by Side

Several processes run on one engine. Each first runs until it must wait, in order; from then on the
clock moves to the next moment at which something happens. Tasks that are due end first, then come
the alarms, which stop a run or all motion, and then the process whose wait is over, the first in
order if there are several.

## Main definitions

* `Thread`: A process that waits until a time, or its result.
* `Alarm`: A stop at a given time.
* `Engine.launch`: The start of several processes.
* `Engine.run`: What they come to, if a number of moments is enough.
-/

namespace Farmhand

/-- A process under way: it waits until a time, or it is over. -/
inductive Thread (α : Type) where
  | asleep (wake : Nat) (resume : Engine → Process α)
  | finished (result : α)

/-- What an alarm does. -/
inductive AlarmAction where
  | stop (handle : Nat)
  | stopMotion

/-- A stop at a given time. -/
structure Alarm where
  due : Nat
  action : AlarmAction

namespace Thread

variable {α : Type}

/-- A process as far as it has come. -/
def ofProcess : Process α → Thread α × Engine
  | .done result e => (.finished result, e)
  | .wait time e resume => (.asleep (e.now + time) resume, e)

/-- The time until which a process waits. -/
def wake? : Thread α → Option Nat
  | asleep wake _ => some wake
  | finished _ => none

/-- The earliest time until which one of some processes waits. -/
def earliest? : List (Thread α) → Option Nat
  | [] => none
  | t :: rest =>
    match t.wake?, earliest? rest with
    | some a, some b => some (min a b)
    | some a, none => some a
    | none, other => other

/-- Lets the first process go on that waits until a time. -/
def resumeFirst (time : Nat) (e : Engine) : List (Thread α) → List (Thread α) × Engine
  | [] => ([], e)
  | asleep wake resume :: rest =>
    if wake = time then
      let (t, e) := ofProcess (resume e)
      (t :: rest, e)
    else
      let (others, e) := resumeFirst time e rest
      (asleep wake resume :: others, e)
  | finished result :: rest =>
    let (others, e) := resumeFirst time e rest
    (finished result :: others, e)

/-- The results of processes that are over. -/
def results : List (Thread α) → List α
  | [] => []
  | finished result :: rest => result :: results rest
  | asleep _ _ :: rest => results rest

end Thread

namespace Engine

variable {α : Type}

/-- Starts processes one after the other. -/
def launch (e : Engine) : List (Engine → Process α) → List (Thread α) × Engine
  | [] => ([], e)
  | p :: rest =>
    let (t, e) := Thread.ofProcess (p e)
    let (others, e) := e.launch rest
    (t :: others, e)

/-- What an alarm does to the engine. -/
def ring (e : Engine) : AlarmAction → Engine
  | .stop handle => e.stop handle
  | .stopMotion => e.stopMotion

/-- The first of the alarms that are due the earliest, and the others. -/
def nextAlarm? : List Alarm → Option (Alarm × List Alarm)
  | [] => none
  | a :: rest =>
    match nextAlarm? rest with
    | some (b, others) => if b.due < a.due then some (b, a :: others) else some (a, rest)
    | none => some (a, rest)

/-- Lets processes and alarms happen in the order of time until all are over, through at most
    `count` moments. -/
def runFor (threads : List (Thread α)) (alarms : List Alarm) (e : Engine) :
    Nat → Option (List α × Engine)
  | 0 => none
  | count + 1 =>
    match nextAlarm? alarms, Thread.earliest? threads with
    | none, none => some (Thread.results threads, e)
    | some (alarm, others), none =>
      runFor threads others ((e.advanceTo alarm.due).ring alarm.action) count
    | none, some time =>
      let (threads, e) := Thread.resumeFirst time (e.advanceTo time) threads
      runFor threads alarms e count
    | some (alarm, others), some time =>
      if alarm.due ≤ time then
        runFor threads others ((e.advanceTo alarm.due).ring alarm.action) count
      else
        let (threads, e) := Thread.resumeFirst time (e.advanceTo time) threads
        runFor threads alarms e count

/-- What some processes come to, with alarms, if `count` moments are enough. -/
def run (e : Engine) (processes : List (Engine → Process α)) (alarms : List Alarm) (count : Nat) :
    Option (List α × Engine) :=
  let (threads, e) := e.launch processes
  runFor threads alarms e count

end Engine

end Farmhand
