import Farmhand.Check
import Farmhand.Command.Arguments
import Farmhand.Command.Files
import Farmhand.Command.Report
import Farmhand.Command.Watch
import Farmhand.Configuration
import Farmhand.Simulation
import Farmhand.World.File

/-!
# Performing Commands

What the commands do, as a function of their arguments, of the files they can read and of the
environment. A run loads the configuration, the world and the scripts, in this order, and starts
only if all of them are there; then it shows the events of all scripts in the order in which they
happen, and in the end how the actor and the counters stand. Time passes only in the world, so a run
takes no longer than its computation.

## Main definitions

* `Environment`: The variables of the environment that set something.
* `loadConfiguration`: The configuration of a command.
* `runScripts`, `checkScript`, `listCapabilities`: The commands.
* `perform`: A command line.
-/

namespace Farmhand

namespace Command

open Text (Style)

/-- The variables of the environment that set something, as far as they are there. -/
structure Environment where
  logLevel : Option String
  pacing : Option String
deriving DecidableEq, Inhabited

/-- A number from the environment; a plus sign may be in front of it. -/
def natural? (text : String) : Option Nat :=
  let digits :=
    match text.toList with
    | '+' :: rest => rest
    | cs => cs
  (Decimal.natural? digits).filter fun n => n ≤ Integer.maxCounter

/-- A configuration with what the environment sets. -/
def Environment.apply (env : Environment) (c : Configuration) : Configuration :=
  let c := { c with level := env.logLevel.getD c.level }
  match env.pacing.bind natural? with
  | some cap => { c with settings := { c.settings with pacingCap := cap } }
  | none => c

/-- Whether there is something at a path. -/
def exists? (files : Files) (path : String) : Bool :=
  match files path with
  | .ok _ => true
  | .error e => !e.isAbsence

/-- The configuration file that is read if no other is named. -/
def configurationName : String := "tilescript.toml"

/-- A failure to load the configuration. -/
def configurationFailure (causes : List String) : Report :=
  ⟨"Failed to load configuration", causes⟩

/-- The configuration in a file. -/
def readConfiguration (files : Files) (path : String) : Except Report Configuration :=
  match files path with
  | .error e => .error (configurationFailure [s!"IO error: {e.message}", e.message])
  | .ok source =>
    match Configuration.read? source with
    | some c => .ok c
    | none => .error (configurationFailure ["Config parse error: not a configuration"])

/-- The configuration of a command: of the file that is named, which must be there, or of the file
    with the usual name, or the default. -/
def loadConfiguration (files : Files) (named : Option String) : Except Report Configuration :=
  match named with
  | some path =>
    if exists? files path then readConfiguration files path
    else .error (configurationFailure [s!"Config file not found: {path}"])
  | none =>
    if exists? files configurationName then readConfiguration files configurationName
    else .ok .default

/-- The text of a script. -/
def readScript (files : Files) (path : String) : Except Report String :=
  match files path with
  | .ok source => .ok source
  | .error e => .error ⟨s!"Failed to read script: {path}", [e.message]⟩

/-- The world of a run that names none: ten by ten, with one actor in the corner. -/
def defaultWorld : World :=
  (World.empty ⟨10, 10⟩).insertActor (.new "bot" ⟨0, 0⟩)

/-- The world of a run. -/
def loadWorld (files : Files) (named : Option String) : Except Report World :=
  match named with
  | none => .ok defaultWorld
  | some path =>
    let failure := fun cause => Report.mk s!"Failed to load world: {path}" [cause]
    match files path with
    | .error e => .error (failure (WorldFileError.invalid s!"{path}: {e.message}"))
    | .ok source =>
      match World.ofText source with
      | .ok w => .ok w
      | .error e => .error (failure e.message)

/-- The actor that a script drives if none is named. -/
def primaryActor (w : World) : Except Report String :=
  match w.actors.values.find? fun a => a.kind = .primary with
  | some a => .ok a.id
  | none => .error ⟨"World has no primary actor", []⟩

/-- Why a script cannot be loaded. A section without tokens has a reason of its own. -/
def loadCauses (e : LoadError) : List String :=
  match e with
  | .file _ => [e.message]
  | .inSection _ error => [e.message, error.message]

/-- An interpreter for an actor with its script. -/
def loadInterpreter (files : Files) (e : Engine) (settings : Settings) (role actor path : String) :
    Except Report (Interpreter × Engine) := do
  match Interpreter.create e settings actor with
  | .error error => .error ⟨s!"Unknown {role}: {actor}", [error.message]⟩
  | .ok (i, e) =>
    let source ← readScript files path
    match i.load source with
    | .error error => .error ⟨s!"Failed to load script: {path}", loadCauses error⟩
    | .ok i => .ok (i, e)

/-- The actor and the script of another participant in a run. -/
def splitDrone (text : String) : Except Report (String × String) :=
  match splitEqual text.toList with
  | (id, some path) => .ok (String.ofList id, String.ofList path)
  | (_, none) => .error ⟨s!"Expected ID=SCRIPT, got `{text}`", []⟩

/-- Interpreters for the other participants in a run. -/
def loadDrones (files : Files) (e : Engine) (settings : Settings) :
    List String → Except Report (List Interpreter × Engine)
  | [] => .ok ([], e)
  | text :: rest => do
    let (id, path) ← splitDrone text
    let (i, e) ← loadInterpreter files e settings "drone" id path
    let (others, e) ← loadDrones files e settings rest
    .ok (i :: others, e)

/-- A run that is ready to start. -/
structure Prepared where
  engine : Engine
  /-- The actor whose script decides how the run ends. -/
  actor : String
  main : Interpreter
  drones : List Interpreter

/-- Loads everything that a run needs. -/
def prepare (files : Files) (c : Configuration) (r : RunRequest) : Except Report Prepared := do
  let world ← loadWorld files r.world
  let actor ←
    match r.actor with
    | some id => .ok id
    | none => primaryActor world
  let engine := Engine.new world c.stepTime
  let (main, engine) ← loadInterpreter files engine c.settings "actor" actor r.script
  let (drones, engine) ← loadDrones files engine c.settings r.drones
  .ok { engine, actor, main, drones }

/-- How an actor and the counters stand. -/
def summary (w : World) (actor : String) : List String :=
  let standing :=
    match w.actor actor with
    | .ok a =>
      [Style.bold.paint a.id ++
        s!" at {a.position.render} with {a.energy}/{a.maxEnergy} energy"]
    | .error _ => []
  let counters := w.resources.entries.map fun entry => s!"{entry.2} {entry.1}"
  if counters.isEmpty then standing
  else standing ++ ["resources: " ++ ", ".intercalate counters]

/-- The report of a run, if it failed: on the script that decides, or else on the others. -/
def runReport (main : Outcome) (drones : List Outcome) : Option Report :=
  match main with
  | .error f => some ⟨s!"Script failed ({f.kind.title}): {f.message}", []⟩
  | .ok _ =>
    let failures := (drones.filter fun o => !o.toBool).length
    if failures = 0 then none else some ⟨s!"{failures} drone script(s) failed", []⟩

/-- What a run that is over leaves behind. If the program broke off, the summary is missing, and it
    broke off as a whole if that happened to the script that decides. -/
def runOutput (json : Bool) (actor : String) (outcomes : List Outcome) (e : Engine) : Output :=
  let events := e.log.reverse
  let told := if json then events.map Event.record else events.flatMap Event.lines
  let lines := if json then told else told ++ summary e.world actor
  match outcomes with
  | [] => .success lines
  | main :: drones =>
    match main.overflow?, drones.findSome? Outcome.overflow? with
    | some overflow, _ => .broken told overflow.message
    | none, some overflow => .failure told ⟨s!"Drone task panicked: {overflow.message}", []⟩
    | none, none =>
      match runReport main drones with
      | none => .success lines
      | some report => .failure lines report

/-- The command to run a script, with others beside it. -/
def runScripts (files : Files) (c : Configuration) (r : RunRequest) : Output :=
  match prepare files c r with
  | .error report => .failure [] report
  | .ok p =>
    let processes := (p.main :: p.drones).map fun i e => runMain i e
    match p.engine.run processes [] Simulation.budget with
    | some (results, e) => runOutput r.json p.actor (results.map Prod.fst) e
    | none => .failure [] ⟨"The run takes too long", []⟩

/-- A warning about a script as it is shown. -/
def warningLine (path : String) (w : Check.Warning) : String :=
  let title := Style.bold.paint (Style.yellow.paint "warning:")
  match w with
  | .skipped line error =>
    let note := Style.dim.paint "line is skipped when run"
    s!"{title} {path}:{line}: {error.message} ({note})"
  | .unknown line name => s!"{title} {path}:{line}: function not found: {name}"

/-- Why a check could not be finished. -/
def checkCause : LoadError → String
  | .file error => error.message
  | .inSection name error => s!"{name}: {error.message}"

/-- The command to check a script. -/
def checkScript (files : Files) (path : String) : Output :=
  match readScript files path with
  | .error report => .failure [] report
  | .ok source =>
    let result := check source
    let lines := result.warnings.map (warningLine path)
    match result.error with
    | some error => .failure lines ⟨s!"Failed to check: {path}", [checkCause error]⟩
    | none =>
      if lines.isEmpty then
        .success [Style.green.paint "ok" ++ s!" {path} ({result.sections} subroutines)"]
      else .success (lines ++ [s!"{lines.length} warning(s)"])

/-- The line of a listing about one tile function. -/
def tileFunctionLine (f : TileFunction) : String :=
  s!"  {Catalog.padded 28 f.name} {f.description} ({f.kind.name} tile, {f.energy} energy)"

/-- The command to list what scripts can call. -/
def listCapabilities : Output :=
  let listing := Output.success ("[tile functions]" :: TileFunction.all.map tileFunctionLine)
  { listing with out := Catalog.builtin.describe ++ listing.out }

/-- A command line. -/
def perform (files : Files) (env : Environment) (arguments : Arguments) : Output :=
  match loadConfiguration files arguments.config with
  | .error report => .failure [] report
  | .ok c =>
    match arguments.request with
    | .run request => runScripts files (env.apply c) request
    | .check script => checkScript files script
    | .capabilities => listCapabilities

/-- How the program is used. -/
def usage : String :=
  "Usage: farmhand [-v] [-c FILE] run SCRIPT [-w FILE] [-a ACTOR] [--drone ID=SCRIPT] [--json]\n" ++
  "       farmhand [-v] [-c FILE] check SCRIPT\n" ++
  "       farmhand [-v] [-c FILE] capabilities\n"

/-- The program as a function. -/
def respond (files : Files) (env : Environment) (arguments : List String) : Output :=
  match Arguments.ofList? arguments with
  | some arguments => perform files env arguments
  | none => { code := 2, out := "", err := usage }

/-- The files that a command line may read. -/
def paths (arguments : List String) : List String :=
  match Arguments.ofList? arguments with
  | none => []
  | some a =>
    let scripts :=
      match a.request with
      | .run r =>
        r.script :: r.world.toList ++
          r.drones.filterMap fun text => ((splitDrone text).toOption).map Prod.snd
      | .check script => [script]
      | .capabilities => []
    configurationName :: a.config.toList ++ scripts

end Command

end Farmhand
