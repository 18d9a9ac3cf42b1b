import Farmhand.Process
import Farmhand.Script.Statement

/-!
# Interpreters

One interpreter drives one actor. It holds the subroutines of a script file, the variables, the
subroutine calls under way, and the actor as it last saw it. A step of a script is a process on the
engine that also changes the interpreter, and that ends with a result or with the failure of the
whole statement.

## Main definitions

* `Settings`: The limits and the pace of a run.
* `Subroutine`, `Frame`, `Interpreter`: The state.
* `Step`: A step of a script.
* `Interpreter.create`, `Interpreter.load`: How an interpreter comes to be and gets its script.
* `Interpreter.lookup?`, `Interpreter.assign`: Variables.
-/

namespace Farmhand

open Script (Block Parsed)
open Text (SourceLines)

/-- The limits and the pace of a run. -/
structure Settings where
  /-- The longest pause after an action that takes time, in milliseconds. -/
  pacingCap : Nat
  maxLoopIterations : Nat
  maxCallDepth : Nat
deriving DecidableEq, Inhabited

/-- A compiled section of a script file. -/
structure Subroutine where
  body : Block
  lines : SourceLines

/-- A subroutine call under way. The entry script has no variables of its own. -/
structure Frame where
  name : String
  lines : SourceLines
  locals : Option (Table Value)

/-- The state of an interpreter. -/
structure Interpreter where
  /-- The number under which the engine knows whether it may go on. -/
  handle : Nat
  settings : Settings
  /-- The actor as it was seen last. -/
  actor : Actor
  subroutines : Table Subroutine
  globals : Table Value
  /-- The calls under way, the innermost in front. -/
  frames : List Frame
  /-- The last value of every variable that was ever assigned. -/
  assigned : Table Value

/-- A step of a script: a process that also changes the interpreter. -/
abbrev Step (α : Type) := Interpreter → Engine → Process (Except Failure α × Interpreter)

namespace Step

variable {α β : Type}

/-- A result at once. -/
@[inline]
protected def pure (a : α) : Step α :=
  fun i e => .done (.ok a, i) e

/-- One step after another. A failure ends both. -/
@[inline]
protected def bind (s : Step α) (next : α → Step β) : Step β :=
  fun i e => (s i e).andThen fun (r, i) e =>
    match r with
    | .ok a => next a i e
    | .error f => .done (.error f, i) e

instance : Monad Step where
  pure := Step.pure
  bind := Step.bind

/-- A failure. -/
@[inline]
def fail (f : Failure) : Step α :=
  fun i e => .done (.error f, i) e

/-- A result or a failure that was computed. -/
@[inline]
def ofExcept (r : Except Failure α) : Step α :=
  fun i e => .done (r, i) e

/-- A result whose numbers had to fit. -/
@[inline]
def counted (r : Except Overflow α) : Step α :=
  ofExcept (r.mapError .overflow)

/-- The interpreter as it is. -/
@[inline]
def interpreter : Step Interpreter :=
  fun i e => .done (.ok i, i) e

/-- The engine as it is. -/
@[inline]
def engine : Step Engine :=
  fun i e => .done (.ok e, i) e

/-- Changes the interpreter. -/
@[inline]
def change (f : Interpreter → Interpreter) : Step Unit :=
  fun i e => .done (.ok (), f i) e

/-- Changes the engine, with a result. -/
@[inline]
def act (f : Engine → α × Engine) : Step α :=
  fun i e => let (a, e) := f e; .done (.ok a, i) e

/-- A process that does not look at the interpreter. -/
@[inline]
def ofProcess (p : Engine → Process α) : Step α :=
  fun i e => (p e).andThen fun a e => .done (.ok a, i) e

/-- Tells something about the run. -/
@[inline]
def emit (event : Event) : Step Unit :=
  act fun e => ((), e.emit event)

/-- The result of an operation on values. -/
@[inline]
def operation (r : Except OperationError α) : Step α :=
  match r with
  | .ok a => Step.pure a
  | .error error => fail (.operation error)

/-- Looks at the actor again. -/
def resync : Step Unit :=
  fun i e =>
    match e.world.actor i.actor.id with
    | .ok a => .done (.ok (), { i with actor := a }) e
    | .error error => .done (.error (.world error), i) e

/-- Goes on only if the interpreter has not been stopped. -/
def checkRunning : Step Unit :=
  fun i e => .done (if e.isRunning i.handle then .ok () else .error .stopped, i) e

end Step

namespace Interpreter

/-- An interpreter for an actor, without a script. -/
def new (handle : Nat) (settings : Settings) (actor : Actor) : Interpreter where
  handle
  settings
  actor
  subroutines := .empty
  globals := .empty
  frames := []
  assigned := .empty

/-- A new interpreter for an actor of the world. -/
def create (e : Engine) (settings : Settings) (actor : String) :
    Except WorldError (Interpreter × Engine) :=
  (e.world.actor actor).map fun a =>
    (new e.running.length settings a, { e with running := e.running ++ [false] })

/-- The subroutines of named sources, unless one of them has no tokens. -/
def compileAll : List (String × String) → Except LoadError (List (String × Subroutine))
  | [] => .ok []
  | (name, source) :: rest =>
    match Script.compile source with
    | .error error => .error (.inSection name error)
    | .ok parsed =>
      (compileAll rest).map fun others => (name, ⟨parsed.body, .ofString source⟩) :: others

/-- Replaces all subroutines by those of named sources; none is replaced if one of the sources has
    no tokens. -/
def setSubroutines (i : Interpreter) (sources : Table String) : Except LoadError Interpreter :=
  (compileAll sources.entries).map fun subroutines =>
    { i with subroutines := .ofList subroutines }

/-- Loads a script file. -/
def load (i : Interpreter) (source : String) : Except LoadError Interpreter :=
  match Script.sections source with
  | .error error => .error (.file error)
  | .ok sources => i.setSubroutines sources

/-- The value of a variable: that of the innermost call, or else the global one. -/
def lookup? (i : Interpreter) (name : String) : Option Value :=
  let own := (i.frames.head?.bind Frame.locals).bind fun locals => locals.get? name
  match own with
  | some v => some v
  | none => i.globals.get? name

/-- Assigns to a variable of the innermost call; in the entry script, and outside of all calls, to
    a global one. -/
def assign (i : Interpreter) (name : String) (value : Value) : Interpreter :=
  let i := { i with assigned := i.assigned.insert name value }
  match i.frames with
  | frame :: rest =>
    match frame.locals with
    | some locals =>
      { i with frames := { frame with locals := some (locals.insert name value) } :: rest }
    | none => { i with globals := i.globals.insert name value }
  | [] => { i with globals := i.globals.insert name value }

end Interpreter

end Farmhand
