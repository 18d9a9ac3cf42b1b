import Farmhand.Capability.Catalog
import Farmhand.Outcome
import Farmhand.Script.Statement
import Farmhand.TileFunction.Basic

/-!
# Checking Scripts

A script file can be checked without running it. The check warns of every line that is no statement,
since a run skips it, and of every call that nothing could answer: no capability, no tile function
and no subroutine of the file has its name.

## Main definitions

* `Warning`: What a check warns of.
* `isAnswerable`: The names that calls can have.
* `check`: The warnings about a script file.
-/

namespace Farmhand

namespace Check

/-- What a check warns of. -/
inductive Warning where
  /-- A line that is no statement. -/
  | skipped (line : Nat) (error : Script.ParseError)
  /-- A call that nothing could answer. -/
  | unknown (line : Nat) (name : String)

/-- Whether a call of a name can be answered, by the subroutines of a file or by what is built
    in. -/
def isAnswerable (sections : Table String) (name : String) : Bool :=
  (Catalog.builtin.get? name).isSome || (TileFunction.ofName? name).isSome ||
    sections.contains name

/-- The warnings about one section: about its lines first, then about its calls. -/
def sectionWarnings (sections : Table String) (p : Script.Parsed) : List Warning :=
  let skipped := p.faults.map fun fault => Warning.skipped fault.line fault.error
  let unanswered := p.calls.filter fun call => !isAnswerable sections call.2
  skipped ++ unanswered.map fun call => .unknown call.1 call.2

/-- The warnings about sections up to one that has no tokens, and the error of that one. -/
def warningsOf (sections : Table String) :
    List (String × String) → List Warning × Option LoadError
  | [] => ([], none)
  | (name, source) :: rest =>
    match Script.compile source with
    | .error error => ([], some (.inSection name error))
    | .ok parsed =>
      let (others, error) := warningsOf sections rest
      (sectionWarnings sections parsed ++ others, error)

/-- What a check comes to. -/
structure Result where
  warnings : List Warning
  /-- The number of sections in the file. -/
  sections : Nat
  /-- Why the check could not be finished. -/
  error : Option LoadError

end Check

/-- The warnings about a script file. -/
def check (source : String) : Check.Result :=
  match Script.sections source with
  | .error error => { warnings := [], sections := 0, error := some (.file error) }
  | .ok sections =>
    let (warnings, error) := Check.warningsOf sections sections.entries
    { warnings, sections := sections.size, error }

end Farmhand
