import Farmhand.Document.Reader
import Farmhand.Document.Written
import Farmhand.Interpreter.State

/-!
# Configuration

What a user can set: the limits and the pace of the interpreter, the time of a step, and how much is
logged. A configuration is a document with a section for each of the three; what it leaves out has
its default, and what it says beyond them does no harm.

## Main definitions

* `Configuration`: The settings.
* `Configuration.read?`, `Configuration.render`: A configuration as text.
* `LogLevel.ofText`: How much is logged, by its name.
-/

namespace Farmhand

open Document

/-- What a user can set. -/
structure Configuration where
  settings : Settings
  /-- The time of a step at speed one, in milliseconds. -/
  stepTime : Nat
  /-- The name of the log level; it need not be a known one. -/
  level : String
deriving DecidableEq, Inhabited

namespace Configuration

/-- The configuration that says nothing. -/
def default : Configuration where
  settings := { pacingCap := 500, maxLoopIterations := 10000, maxCallDepth := 64 }
  stepTime := 300
  level := "info"

/-- The section of the interpreter. -/
def readSettings (d : Datum) : Option Settings :=
  match d.record? ["pacing_cap_ms", "max_loop_iterations", "max_call_depth"] with
  | some [cap, iterations, depth] => do
    let pacingCap ← optional? default.settings.pacingCap Datum.natural? cap
    let maxLoopIterations ← optional? default.settings.maxLoopIterations Datum.natural? iterations
    let maxCallDepth ← optional? default.settings.maxCallDepth Datum.natural? depth
    some { pacingCap, maxLoopIterations, maxCallDepth }
  | _ => none

/-- The section of motion. -/
def readStepTime (d : Datum) : Option Nat :=
  match d.record? ["step_ms"] with
  | some [step] => optional? default.stepTime Datum.natural? step
  | _ => none

/-- The section of the log. -/
def readLevel (d : Datum) : Option String :=
  match d.record? ["level"] with
  | some [level] => optional? default.level Datum.text? level
  | _ => none

/-- A document as a configuration. -/
def ofDatum? (d : Datum) : Option Configuration :=
  match d.record? ["interpreter", "movement", "log"] with
  | some [interpreter, movement, log] => do
    let settings ← optional? default.settings readSettings interpreter
    let stepTime ← optional? default.stepTime readStepTime movement
    let level ← optional? default.level readLevel log
    some { settings, stepTime, level }
  | _ => none

/-- A text as a configuration. -/
def read? (source : String) : Option Configuration :=
  (Document.read? source).bind ofDatum?

/-- A configuration as text. -/
def render (c : Configuration) : String :=
  String.join
    ["[interpreter]\n",
     s!"pacing_cap_ms = {c.settings.pacingCap}\n",
     s!"max_loop_iterations = {c.settings.maxLoopIterations}\n",
     s!"max_call_depth = {c.settings.maxCallDepth}\n",
     "\n[movement]\n",
     s!"step_ms = {c.stepTime}\n",
     "\n[log]\n",
     s!"level = {Document.written c.level}\n"]

end Configuration

/-- How much is logged. -/
inductive LogLevel where
  | debug | info | warning | error
deriving DecidableEq, Inhabited

/-- A log level by its name, in any case of the ASCII letters. A name that is not known comes
    back in lower case. -/
def LogLevel.ofText (text : String) : Except String LogLevel :=
  let word := String.ofList (text.toList.map Char.toLower)
  match word with
  | "debug" => .ok debug
  | "trace" => .ok debug
  | "info" => .ok info
  | "warn" => .ok warning
  | "warning" => .ok warning
  | "error" => .ok error
  | word => .error word

/-- The text that tells of an unknown log level. -/
def LogLevel.unknown (word : String) : String :=
  s!"unknown log level: {word}"

end Farmhand
