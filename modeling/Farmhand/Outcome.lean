import Farmhand.Script.Sections
import Farmhand.Value.Operate
import Farmhand.World.Store

/-!
# Outcomes

What a call comes back with: a success, which may carry a message, a value, the length of the task
it started and the energy it costs, or a failure. A failure is known by its cause; its class and
its text follow from that. One of the causes is no failure that anyone gets to see: the program
breaks off where a number does not fit.

## Main definitions

* `ErrorKind`, `Severity`: The classes of failures, with advice for the author of a script.
* `ArgumentError`: What can be wrong with the arguments of a call.
* `LoadError`: Why a script cannot be loaded.
* `Failure`: The causes of failures.
* `Outcome`: A success or a failure.
-/

namespace Farmhand

/-- How serious a message is. -/
inductive Severity where
  | error | warning | info
deriving DecidableEq

/-- The name of a severity. -/
def Severity.name : Severity → String
  | error => "error"
  | warning => "warning"
  | info => "info"

/-- The classes of failures. -/
inductive ErrorKind where
  /-- A target outside the world. -/
  | bounds
  /-- An actor or a tile in the middle of a task. -/
  | blocked
  /-- The wrong tile, the wrong place, or too early. -/
  | precondition
  /-- Not enough energy, or not enough of a global counter. -/
  | resource
  /-- An unknown name. -/
  | notFound
  /-- A script that cannot be read. -/
  | malformed
  /-- An error in the course of a script. -/
  | execution
  /-- A run that was stopped. -/
  | stopped
deriving DecidableEq

namespace ErrorKind

/-- All classes. -/
def all : List ErrorKind :=
  [bounds, blocked, precondition, resource, notFound, malformed, execution, stopped]

/-- The name of a class in front of a failure's text. -/
def title : ErrorKind → String
  | bounds => "Bounds"
  | blocked => "Blocked"
  | precondition => "Precondition"
  | resource => "Resource"
  | notFound => "NotFound"
  | malformed => "Syntax"
  | execution => "Execution"
  | stopped => "Stopped"

/-- The name of a class in data. -/
def name : ErrorKind → String
  | bounds => "bounds"
  | blocked => "blocked"
  | precondition => "precondition"
  | resource => "resource"
  | notFound => "not_found"
  | malformed => "syntax"
  | execution => "execution"
  | stopped => "stopped"

/-- The concept to read about. -/
def concept : ErrorKind → String
  | bounds => "coordinates"
  | blocked => "tasks"
  | precondition => "tiles"
  | resource => "energy"
  | notFound => "functions"
  | malformed => "syntax"
  | execution => "expressions"
  | stopped => "execution"

/-- What to do about it. -/
def suggestion : ErrorKind → String
  | bounds => "Check the world size before moving; x and y start at 0."
  | blocked => "Run the next action after the current task finishes."
  | precondition => "Move onto the right kind of tile first."
  | resource => "Eat something to restore energy before trying again."
  | notFound => "Check the spelling, or define a subroutine with that name."
  | malformed => "Check quotes and indentation on the reported line."
  | execution => "Check the types of the values used in the expression."
  | stopped => "Run the script again when ready."

/-- How serious a failure of this class is. -/
def severity : ErrorKind → Severity
  | stopped => .info
  | blocked => .warning
  | _ => .error

end ErrorKind

/-- What can be wrong with the arguments of a call. -/
inductive ArgumentError where
  | missing (name : String)
  /-- An argument of another type than the one asked for. -/
  | wrongType (name wanted type : String)
  | outOfRange (name : String) (n : Int)
  | unknownDirection (text : String)
  | negativeSteps (n : Int)
  | negativeSeconds (seconds : Float)
  | secondsOutOfRange (seconds : Float)
  | rangeArity
  | rangeStepZero
  | rangeTooLong (limit : Nat)
  | noLength (type : String)
  | noValues
  | incomparable (type other : String)
  | notSummable (type : String)
  | noAbsoluteValue (type : String)
  | operation (error : OperationError)

/-- The text of an error. -/
def ArgumentError.message : ArgumentError → String
  | missing name => s!"missing argument: {name}"
  | wrongType name wanted type => s!"{name} must be {wanted}, got {type}"
  | outOfRange name n => s!"{name} out of range: {n}"
  | unknownDirection text => s!"unknown direction: {text}"
  | negativeSteps n => s!"steps must not be negative: {n}"
  | negativeSeconds seconds =>
    s!"seconds must not be negative: {Decimal.Layout.plain.render seconds}"
  | secondsOutOfRange seconds => s!"seconds out of range: {Decimal.Layout.plain.render seconds}"
  | rangeArity => "range takes 1 to 3 integers"
  | rangeStepZero => "range step must not be zero"
  | rangeTooLong limit => s!"range longer than {limit}"
  | noLength type => s!"{type} has no length"
  | noValues => "expected at least one value"
  | incomparable type other => s!"cannot compare {type} with {other}"
  | notSummable type => s!"cannot sum {type}"
  | noAbsoluteValue type => s!"abs of {type}"
  | operation error => error.message

/-- Why a script cannot be loaded. -/
inductive LoadError where
  | file (error : Script.ScriptFileError)
  /-- A section without tokens. -/
  | inSection (name : String) (error : Script.LexError)
deriving DecidableEq

/-- The text of an error. -/
def LoadError.message : LoadError → String
  | file error => error.message
  | inSection name error => s!"in `{name}`: {error.message}"

/-- The causes of failures. -/
inductive Failure where
  /-- There is nothing to run. -/
  | noEntryScript
  | functionNotFound (name : String)
  /-- The actor has a task, which is done to some percentage. -/
  | actorBusy (id description : String) (percent : Nat)
  /-- The tile has a task, which is done to some percentage. -/
  | tileBusy (id description : String) (percent : Nat)
  /-- The energy asked for in advance is not there. -/
  | energyRequired (name : String) (needed available : Nat)
  | outsideWorld (target : Position) (bounds : Bounds)
  /-- A motion that ended before its target, in a run that was stopped or went on. -/
  | interrupted (target : Position) (whileRunning : Bool)
  | stopped
  | argument (error : ArgumentError)
  /-- A function that needs a tile of another kind than the one here, if there is one. -/
  | wrongTile (function : String) (kind : TileKind) (actor : String)
      (here : Option (String × TileKind)) (position : Position)
  | noSuchFunction (tile function : String)
  | notOnTile (actor tile : String) (tilePosition : Position) (function : String)
      (position : Position)
  | notIdle (tile status : String) (kind : TileKind)
  | notReady (tile status : String)
  | couldNotStart (actor label : String)
  /-- A tile that changed between the look at it and the update. -/
  | overtaken (tile : String)
  /-- An update of the world that did not happen for want of energy or of a counter. -/
  | shortage (error : WorldError)
  | world (error : WorldError)
  | load (error : LoadError)
  | operation (error : OperationError)
  | loopLimit (limit : Nat)
  | callDepth (limit : Nat)
  | undefinedVariable (name : String)
  | jumpOutsideLoop (word : String)
  /-- The program broke off at a number that does not fit. This comes back to nobody and is not told
      in any run; it has a class and a text only because every cause has. -/
  | overflow (overflow : Overflow)

namespace Failure

/-- The number that did not fit, if the program broke off. -/
def overflow? : Failure → Option Overflow
  | overflow o => some o
  | _ => none

/-- The class of a failure. -/
def kind : Failure → ErrorKind
  | noEntryScript | functionNotFound _ | noSuchFunction _ _ => .notFound
  | actorBusy _ _ _ | tileBusy _ _ _ | couldNotStart _ _ | overtaken _ => .blocked
  | energyRequired _ _ _ | shortage _ => .resource
  | outsideWorld _ _ => .bounds
  | interrupted _ whileRunning => if whileRunning then .execution else .stopped
  | stopped => .stopped
  | wrongTile _ _ _ _ _ | notOnTile _ _ _ _ _ | notIdle _ _ _ | notReady _ _ => .precondition
  | load _ => .malformed
  | argument _ | world _ | operation _ | loopLimit _ | callDepth _ | undefinedVariable _
  | jumpOutsideLoop _ | overflow _ => .execution

/-- The text of an error in the course of a script. -/
def executionError (text : String) : String :=
  s!"execution error: {text}"

/-- The text of a failure. -/
def message : Failure → String
  | noEntryScript => "no entry script"
  | functionNotFound name => s!"function not found: {name}"
  | actorBusy id description percent => s!"{id} is busy: {description} ({percent}% complete)"
  | tileBusy id description percent => s!"{id} is not ready: {description} ({percent}% complete)"
  | energyRequired name needed available =>
    s!"not enough energy: {name} needs {needed}, have {available}"
  | outsideWorld target bounds =>
    s!"cannot move to {target.render}: outside the {bounds.width}x{bounds.height} world"
  | interrupted target _ => s!"move to {target.render} was interrupted"
  | stopped => "execution stopped"
  | argument error => s!"invalid argument: {error.message}"
  | wrongTile function kind actor here position =>
    let ground :=
      match here with
      | some (id, kind) => s!"{id} ({kind.name})"
      | none => "open ground"
    s!"{function} needs a {kind.name} tile, but {actor} is on {ground} at {position.render}"
  | noSuchFunction tile function => s!"{tile} has no function {function}"
  | notOnTile actor tile tilePosition function position =>
    s!"{actor} must stand on {tile} at {tilePosition.render} to {function}, " ++
      s!"but is at {position.render}"
  | notIdle tile status kind => s!"{tile} is {status}, only an idle {kind.name} can start"
  | notReady tile status => s!"{tile} is not ready (status: {status})"
  | couldNotStart actor label => s!"{actor} could not start {label}"
  | overtaken tile => s!"{tile} is not ready: another actor got there first"
  | shortage error => error.message
  | world error => executionError error.message
  | load error => error.message
  | operation error => executionError error.message
  | loopLimit limit => executionError s!"loop limit exceeded: more than {limit} iterations"
  | callDepth limit => executionError s!"call depth exceeded: more than {limit} nested calls"
  | undefinedVariable name => executionError s!"undefined variable: {name}"
  | jumpOutsideLoop word => executionError s!"`{word}` outside a loop"
  | overflow o => o.message

/-- The failure of a call whose update of the world did not happen. -/
def ofWorldError : WorldError → Failure
  | .insufficientEnergy needed available => .shortage (.insufficientEnergy needed available)
  | .insufficientResource name needed available =>
    .shortage (.insufficientResource name needed available)
  | .conflict id _ _ => .overtaken id
  | error => .world error

end Failure

/-- What a successful call comes back with. -/
structure Success where
  message : Option String := none
  data : Option Value := none
  /-- The length of the task that the call started, in milliseconds. -/
  duration : Option Nat := none
  /-- The energy that is taken from the actor after the call. -/
  energyCost : Option Nat := none

/-- What a call comes back with. -/
abbrev Outcome := Except Failure Success

namespace Outcome

/-- The number that did not fit, if the program broke off. Otherwise the outcome is one that comes
    back. -/
def overflow? : Outcome → Option Overflow
  | .ok _ => none
  | .error f => f.overflow?

/-- The message of an outcome. -/
def message? : Outcome → Option String
  | .ok s => s.message
  | .error f => some f.message

/-- An outcome as a line of text. -/
def render : Outcome → String
  | .ok s => "ok: " ++ s.message.getD "done"
  | .error f => f.kind.title ++ ": " ++ f.message

end Outcome

end Farmhand
