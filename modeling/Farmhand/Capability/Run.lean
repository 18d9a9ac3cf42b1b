import Farmhand.Capability.Compute
import Farmhand.Interpreter.State
import Farmhand.TileFunction.Invoke

/-!
# Running Capabilities

What each operation does when a script calls it. A walk is checked as a whole before its first
step: if one of its positions lies outside the world, nothing happens. Between the steps the walk
ends if the interpreter has been stopped. To lay out a walk and to time a step of it takes numbers
that are expected to fit.

## Main definitions

* `Step.walk`: A walk through given positions.
* `Step.onTile`: A function of the tile under the actor.
* `Step.pause`: A wait.
* `Operation.run`: What an operation does.
-/

namespace Farmhand

/-- A position as a value. -/
def Position.toValue (p : Position) : Value :=
  .map [("x", .int p.x), ("y", .int p.y)]

namespace Step

/-- A result that depends on the arguments alone, if they are good. -/
def computed (r : Except ArgumentError Value) : Step Success :=
  match r with
  | .ok v => Step.pure { data := some v }
  | .error error => fail (.argument error)

/-- What follows if the arguments are good. -/
def withArgument {α β : Type} (r : Except ArgumentError α) (next : α → Step β) : Step β :=
  match r with
  | .ok a => next a
  | .error error => fail (.argument error)

/-- The failure of a motion that did not arrive. The actor is looked at again. -/
def interruptedAt (target : Position) : Step Unit :=
  fun i e =>
    let seen :=
      match e.world.actor i.actor.id with
      | .ok a => { i with actor := a }
      | .error _ => i
    .done (.error (.interrupted target (e.isRunning i.handle)), seen) e

/-- The motion of the actor to a position, and whether it arrived. -/
def motion (target : Position) : Step Bool := do
  let i ← interpreter
  counted (← ofProcess (Process.move i.actor.id target))

/-- Moves to one position after the other. -/
def visit : List Position → Step Unit
  | [] => pure ()
  | target :: rest => do
    checkRunning
    if ← motion target then visit rest else interruptedAt target

/-- Walks through some positions, if all of them lie in the world. -/
def walk (path : List Position) : Step Success := do
  let i ← interpreter
  let bounds := (← engine).world.bounds
  match path.find? fun p => !bounds.contains p with
  | some outside => fail (.outsideWorld outside bounds)
  | none =>
    if path.isEmpty then
      return {
        message := some s!"Already at {i.actor.position.render}"
        data := some i.actor.position.toValue }
    else
      visit path
      resync
      let position := (← interpreter).actor.position
      return {
        message := some s!"Moved to {position.render}"
        data := some position.toValue
        energyCost := some (min (stepEnergy * path.length) Integer.maxAmount) }

/-- Walks some steps in a direction. More steps than the world is wide or high lead out of it, so
    no more than that are laid out. -/
def stride (direction : Direction) (steps : Int) : Step Success := do
  let position := (← interpreter).actor.position
  let bounds := (← engine).world.bounds
  let asked := min steps (max bounds.width bounds.height + 1)
  let count := if Integer.isCoordinate asked then asked.toNat else 0
  walk (← counted (position.layLine direction.delta.1 direction.delta.2 count))

/-- The direction that the first argument names. -/
def directionArgument (args : Arguments) : Except ArgumentError Direction :=
  match args.text 0 "direction" with
  | .error error => .error error
  | .ok text =>
    match Direction.ofText? text with
    | some direction => .ok direction
    | none => .error (.unknownDirection text)

/-- The number of steps that the second argument gives, one if there is none. -/
def stepsArgument (args : Arguments) : Except ArgumentError Int :=
  if args.length ≤ 1 then .ok 1
  else
    match args.int 1 "steps" with
    | .error error => .error error
    | .ok n => if 0 ≤ n then .ok n else .error (.negativeSteps n)

/-- Walks to the position that the arguments give. -/
def walkTo (goal : Position) : Step Success := do
  walk (← counted ((← interpreter).actor.position.layOut goal))

/-- Calls a function of the tile under the actor, if it is a tile of the right kind. -/
def onTile (f : TileFunction) : Step Success :=
  fun i e =>
    let here := e.world.tileAt? i.actor.position
    let wrong := Failure.wrongTile f.name f.kind i.actor.id (here.map fun t => (t.id, t.kind))
      i.actor.position
    match here with
    | some t =>
      if t.kind = f.kind then
        let (outcome, e) := e.invoke true i.actor.id t.id f.name
        .done (outcome, i) e
      else .done (.error wrong, i) e
    | none => .done (.error wrong, i) e

/-- The time that the first argument gives in seconds, with that number. -/
def secondsArgument (args : Arguments) : Except ArgumentError (Float × Nat) :=
  match args.number 0 "seconds" with
  | .error error => .error error
  | .ok seconds =>
    if Decimal.compare? seconds 0.0 == some .lt then .error (.negativeSeconds seconds)
    else
      match Duration.nanoseconds? seconds with
      | some nanoseconds => .ok (seconds, nanoseconds)
      | none => .error (.secondsOutOfRange seconds)

/-- Waits. -/
def pause (seconds : Float) (nanoseconds : Nat) : Step Success := do
  ofProcess (Process.sleep nanoseconds)
  return { message := some s!"Waited {Decimal.Layout.plain.render seconds}s" }

/-- Prints the arguments with blanks between them. -/
def print (args : Arguments) : Step Success := do
  let text := " ".intercalate (args.map Value.render)
  emit (.log (← interpreter).actor.id .info text)
  return { message := some text }

end Step

/-- What an operation does. -/
def Operation.run (o : Operation) (args : Arguments) : Step Success :=
  match o with
  | .step direction => Step.stride direction 1
  | .move =>
    Step.withArgument (Step.directionArgument args) fun direction =>
      Step.withArgument (Step.stepsArgument args) (Step.stride direction)
  | .moveTo => Step.withArgument args.target Step.walkTo
  | .plant => Step.onTile .plant
  | .harvest => Step.onTile .harvest
  | .eat => Step.onTile .eat
  | .store => Step.onTile .store
  | .wait => Step.withArgument (Step.secondsArgument args) fun (seconds, nanoseconds) =>
      Step.pause seconds nanoseconds
  | .getPosition => do
    return { data := some (← Step.interpreter).actor.position.toValue }
  | .getEnergy => do
    return { data := some (.int (← Step.interpreter).actor.energy) }
  | .getInventory => do
    let items := (← Step.interpreter).actor.inventory.entries
    return { data := some (.map (items.map fun (item, count) => (item, .int count))) }
  | .print => Step.print args
  | .range => Step.computed args.range
  | .len => Step.computed args.len
  | .min => Step.computed args.least
  | .max => Step.computed args.greatest
  | .sum => Step.computed args.sum
  | .abs => Step.computed args.abs

end Farmhand
