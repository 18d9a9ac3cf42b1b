import Farmhand.Event
import Farmhand.Text.JsonText
import Farmhand.Text.Style

/-!
# Watching a Run

The events of a run as lines of a terminal or as records, one to a line.

## Main definitions

* `Event.lines`: An event as it is shown to people.
* `Event.record`: An event as a record.
-/

namespace Farmhand

open Text (Style)

namespace Event

/-- A message in the colour of its severity. -/
def paintMessage (severity : Severity) (message : String) : String :=
  match severity with
  | .error => Style.red.paint message
  | .warning => Style.yellow.paint message
  | .info => message

/-- An event as it is shown to people. Calls are not shown, since the statements that hold them
    are. -/
def lines : Event → List String
  | started actor => [Style.green.paint "▶" ++ " " ++ Style.bold.paint s!"{actor} started"]
  | completed actor message =>
    [Style.green.paint "✔" ++ " " ++ Style.bold.paint actor ++ ": " ++ message]
  | failed actor message =>
    [Style.red.paint "✘" ++ " " ++ Style.bold.paint actor ++ ": " ++ message]
  | stopped actor => [Style.yellow.paint "■" ++ " " ++ Style.bold.paint actor ++ " stopped"]
  | statement actor subroutine line text =>
    [Style.dim.paint s!"  [{actor}] {subroutine}:{line} {text}"]
  | call _ _ _ _ _ => []
  | log actor severity message => [s!"  [{actor}] " ++ paintMessage severity message]
  | error actor kind message =>
    [Style.bold.paint (Style.red.paint "error:") ++ s!" [{actor}] {message}",
     "  " ++ Style.cyan.paint "hint:" ++ s!" {kind.suggestion} ({kind.concept})"]

/-- The name of an event in data. -/
def name : Event → String
  | started _ => "started"
  | completed _ _ => "completed"
  | failed _ _ => "failed"
  | stopped _ => "stopped"
  | statement _ _ _ _ => "statement"
  | call _ _ _ _ _ => "call"
  | log _ _ _ => "log"
  | error _ _ _ => "error"

/-- What an event says beyond its name and its actor. -/
def details : Event → List (String × Text.Json.Item)
  | started _ => []
  | completed _ message => [("message", .text message)]
  | failed _ message => [("message", .text message)]
  | stopped _ => []
  | statement _ subroutine line text =>
    [("subroutine", .text subroutine), ("line", .number line), ("text", .text text)]
  | call _ _ name args source =>
    [("name", .text name), ("args", .texts args), ("source", .text source.name)]
  | log _ severity message => [("severity", .text severity.name), ("message", .text message)]
  | error _ kind message =>
    [("message", .text message), ("suggestion", .text kind.suggestion),
     ("concept", .text kind.concept), ("severity", .text kind.severity.name)]

/-- An event as a record. -/
def record (e : Event) : String :=
  Text.Json.record (("event", .text e.name) :: ("actor", .text e.actor) :: e.details)

end Event

end Farmhand
