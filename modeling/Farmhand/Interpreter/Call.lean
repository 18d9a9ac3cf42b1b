import Farmhand.Capability.Catalog
import Farmhand.Capability.Run
import Farmhand.Interpreter.Evaluate

/-!
# Calls

What a call does. The actor is looked at first, and if it has a task the call fails. Then the name
is looked up: among the capabilities, then among the functions of the tile under the actor, then
among the subroutines of the script. A capability is called only if the energy it asks for is
there; what it reports as its cost is taken afterwards. An action that takes time delays the script
by a short pause only, and goes on by itself.

Calls of subroutines may nest up to a limit, and `callAt` recurses on how many more may
begin.

## Main definitions

* `Step.settle`: What follows a call that succeeded.
* `Step.enter`: The run of a subroutine's body.
* `callAt`: A call, with the number of subroutine calls that may still begin.
* `callFunction`: A call from outside.
* `runMain`: A whole run of the entry script.
-/

namespace Farmhand

open Script

/-- The pause after an action that takes some time. -/
def pacingPause (duration cap : Nat) : Nat :=
  min duration cap

namespace Step

/-- Fails if the actor has a task. -/
def checkIdle : Step Unit :=
  fun i e =>
    match e.actorTask? i.actor.id with
    | some task =>
      .done (.error (.actorBusy i.actor.id task.description (task.wholePercentAt e.now)), i) e
    | none => .done (.ok (), i) e

/-- Tells that a call begins. -/
def announceCall (name : String) (args : List Value) (source : CallSource) : Step Unit :=
  fun i e =>
    .done (.ok (), i)
      (e.emit (.call i.actor.id i.frames.length name (args.map Value.render) source))

/-- Takes energy from the actor. -/
def debit (amount : Nat) : Step Unit :=
  fun i e =>
    match e.world.updateActor i.actor.id { energy := some (.debit amount) } with
    | .error error => .done (.error (.ofWorldError error), i) e
    | .ok world =>
      let seen :=
        match world.actor i.actor.id with
        | .ok a => { i with actor := a }
        | .error _ => i
      .done (.ok (), seen) { e with world }

/-- What follows a call that succeeded: its cost is taken, and the script pauses if the call
    started something that takes time. -/
def settle (s : Success) : Step Success := do
  match s.energyCost with
  | some cost => if 0 < cost then debit cost
  | none => pure ()
  match s.duration with
  | some duration =>
    let cap := (← interpreter).settings.pacingCap
    ofProcess (Process.sleep (pacingPause duration cap * 1000000))
  | none => pure ()
  return s

/-- Calls a capability, if the energy that it asks for is there. -/
def callCapability (c : Capability) (args : List Value) : Step Success := do
  let actor := (← interpreter).actor
  let required ← counted (c.energy.demand actor args)
  if actor.energy < required then fail (.energyRequired c.name required actor.energy)
  else
    let s ← c.operation.run args
    settle s

/-- Calls a function of a tile. -/
def callTile (t : Tile) (name : String) : Step Success := do
  let actor := (← interpreter).actor
  let outcome ← act fun e => e.invoke true actor.id t.id name
  let s ← ofExcept outcome
  settle s

/-- Ends the innermost subroutine call. -/
def leave : Interpreter → Interpreter :=
  fun i => { i with frames := i.frames.tail }

/-- What a subroutine call comes back with, by the flow of its body. -/
def ofFlow (name : String) : Flow → Outcome
  | .normal => .ok { message := some s!"{name} completed" }
  | .returned v => .ok { message := some s!"{name} returned", data := some v }
  | .broken => .error (.jumpOutsideLoop "break")
  | .continued => .error (.jumpOutsideLoop "continue")

/-- The variables of a subroutine call when it begins. The entry script has none of its own. -/
def initialLocals (name : String) (args : List Value) : Option (Table Value) :=
  if name = mainName then none else some (.ofList [("args", .list args)])

/-- Runs a subroutine's body in a call of its own, which ends whatever happens in it. -/
def enter (name : String) (s : Subroutine) (args : List Value) (body : Step Flow) :
    Step Success :=
  fun i e =>
    let frame : Frame := ⟨name, s.lines, initialLocals name args⟩
    (body { i with frames := frame :: i.frames } e).andThen fun (r, i) e =>
      match r with
      | .ok flow => .done (ofFlow name flow, leave i) e
      | .error f => .done (.error f, leave i) e

/-- The tile under the actor, if it offers a function of a name. -/
def offering? (i : Interpreter) (e : Engine) (name : String) : Option Tile :=
  (e.world.tileAt? i.actor.position).filter fun t => (t.function? name).isSome

/-- Calls a name, with what is to be done for a subroutine as a parameter. -/
def callWith (subroutine : String → Subroutine → List Value → Step Success) : Caller :=
  fun name args => do
    resync
    checkIdle
    match Catalog.builtin.get? name with
    | some c =>
      announceCall name args .capability
      callCapability c args
    | none =>
      match offering? (← interpreter) (← engine) name with
      | some t =>
        announceCall name args .tileFunction
        callTile t name
      | none =>
        match (← interpreter).subroutines.get? name with
        | some s =>
          announceCall name args .subroutine
          subroutine name s args
        | none => fail (.functionNotFound name)

/-- The failure of a subroutine call beyond the limit. -/
def tooDeep : Step Success := do
  fail (.callDepth (← interpreter).settings.maxCallDepth)

end Step

/-- A call, with the number of subroutine calls that may still begin inside each other. -/
def callAt : Nat → Caller
  | 0 => Step.callWith fun _ _ _ => Step.tooDeep
  | depth + 1 => Step.callWith fun name s args i e =>
    Step.enter name s args (runBlock (callAt depth) i.settings.maxLoopIterations s.body) i e

/-- A call by whoever drives the interpreter. If nothing is under way, it sets the interpreter
    going. -/
def callFunction (name : String) (args : List Value) : Step Success :=
  fun i e =>
    let e := if i.frames.isEmpty then e.setRunning i.handle true else e
    callAt (i.settings.maxCallDepth - i.frames.length) name args i e

/-- The end of a run: it is told, and the interpreter rests. If the program broke off, the run has
    no such end. -/
def endRun (actor : String) (handle : Nat) (outcome : Outcome) (e : Engine) : Engine :=
  match outcome.overflow? with
  | some _ => e
  | none =>
    let e := e.setRunning handle false
    match outcome with
    | .ok s => e.emit (.completed actor (s.message.getD "completed"))
    | .error f => e.emitAll (Event.ofFailure actor f)

/-- A whole run of the entry script, from the message that it starts to the message how it
    ended. -/
def runMain : Step Success :=
  fun i e =>
    let actor := i.actor.id
    if i.subroutines.contains mainName then
      let e := (e.setRunning i.handle true).emit (.started actor)
      (callFunction mainName [] i e).andThen fun (outcome, i) e =>
        .done (outcome, i) (endRun actor i.handle outcome e)
    else
      .done (.error .noEntryScript, i) (e.emitAll (Event.ofFailure actor .noEntryScript))

end Farmhand
