import Farmhand.Script.Lexer
import Farmhand.Table

/-!
# Script Files

A script file holds the entry script and any number of subroutines. A header `def NAME:` at the
start of a line opens a subroutine, whose body is the lines below it up to the next code line at
the start of a line; every other code line there belongs to the entry script. Blank lines and
comments belong to the section around them.

Each section keeps the numbering of the file: the lines of other sections are empty in it. The body
of a subroutine is moved to the left by its common indentation.

## Main definitions

* `Owner`: The section a line belongs to.
* `owners`: The owners of the lines of a file.
* `sectionText`: The text of one section.
* `sections`: All sections of a file by name.
-/

namespace Farmhand

namespace Script

/-- The name of the entry script. -/
def mainName : String := "main"

/-- What can be wrong with a script file. -/
inductive ScriptFileError where
  | invalidHeader (line : Nat) (text : String)
  | duplicate (line : Nat) (name : String)
deriving DecidableEq

/-- The text of an error. -/
def ScriptFileError.message : ScriptFileError → String
  | invalidHeader line text =>
    s!"line {line}: malformed subroutine header `{text}`, expected `def NAME:`"
  | duplicate line name => s!"line {line}: subroutine `{name}` is defined twice"

/-- The section a line belongs to. -/
inductive Owner where
  | main
  | subroutine (name : String)
  /-- The header of a subroutine, which belongs to no section. -/
  | header (name : String)
deriving DecidableEq

/-- Drops a given text from the start of another. -/
def dropStart? (start : List Char) (text : List Char) : Option (List Char) :=
  if start.isPrefixOf text then some (text.drop start.length) else none

/-- Drops a given text from the end of another. -/
def dropEnd? (stop : List Char) (text : List Char) : Option (List Char) :=
  if stop.isSuffixOf text then some (text.take (text.length - stop.length)) else none

/-- The name in a header line without its `def`: a name, parentheses or none, and a colon. -/
def headerName? (text : List Char) : Option String :=
  match dropEnd? [':'] (Text.trim text) with
  | none => none
  | some before =>
    let before := Text.trimEnd before
    let name := Text.trimEnd ((dropEnd? ['(', ')'] before).getD before)
    if Text.isName name then some (String.ofList name) else none

/-- The owners of numbered lines, `current` being the section that the line above belongs to and
    `seen` the names of the subroutines so far. -/
def ownersFrom (number : Nat) (current : Owner) (seen : List String) :
    List (List Char) → Except ScriptFileError (List Owner)
  | [] => .ok []
  | line :: rest =>
    if isCode line && !isIndent (line.headD ' ') then
      match dropStart? "def ".toList line with
      | none => (ownersFrom (number + 1) .main seen rest).map (.main :: ·)
      | some text =>
        match headerName? text with
        | none => .error (.invalidHeader number (String.ofList (Text.trim line)))
        | some name =>
          if name = mainName || seen.contains name then .error (.duplicate number name)
          else
            (ownersFrom (number + 1) (.subroutine name) (name :: seen) rest).map
              (.header name :: ·)
    else (ownersFrom (number + 1) current seen rest).map (current :: ·)

/-- The owners of the lines of a file. -/
def owners (lines : List (List Char)) : Except ScriptFileError (List Owner) :=
  ownersFrom 1 .main [] lines

/-- The lines of a section, in order. -/
def ownLines (owner : Owner) (lines : List (List Char × Owner)) : List (List Char) :=
  (lines.filter fun (_, o) => o = owner).map Prod.fst

/-- The common indentation of lines, the blank ones aside. -/
def commonIndent (lines : List (List Char)) : Nat :=
  (((lines.filter fun line => !Text.isAllBlank line).map indentLength).min?).getD 0

/-- A line moved to the left. A line that is not indented so far, which can only be a blank one,
    loses its leading white space. -/
def dedentLine (indent : Nat) (line : List Char) : List Char :=
  if indent ≤ indentLength line then line.drop indent else Text.trimStart line

/-- The lines of a file as one section sees them. -/
def sectionLines (owner : Owner) (indent : Nat) (lines : List (List Char × Owner)) :
    List (List Char) :=
  lines.map fun (line, o) => if o = owner then dedentLine indent line else []

/-- The text of a section, every line of it ended. -/
def sectionText (owner : Owner) (indent : Nat) (lines : List (List Char × Owner)) : String :=
  String.ofList ((sectionLines owner indent lines).flatMap (· ++ ['\n']))

/-- The names of the subroutines whose headers stand among owners, in order. -/
def headerNames (owners : List Owner) : List String :=
  owners.filterMap fun
    | .header name => some name
    | _ => none

/-- The sections of a file by name. The entry script comes first; it is there only if a line that
    is not blank belongs to it. -/
def sections (source : String) : Except ScriptFileError (Table String) :=
  let lines := Text.lines source.toList
  match owners lines with
  | .error e => .error e
  | .ok owners =>
    let owned := lines.zip owners
    let main :=
      if (ownLines .main owned).any fun line => !Text.isAllBlank line then
        [(mainName, sectionText .main 0 owned)]
      else []
    let subroutines := (headerNames owners).map fun name =>
      let owner := Owner.subroutine name
      (name, sectionText owner (commonIndent (ownLines owner owned)) owned)
    .ok (.ofList (main ++ subroutines))

end Script

end Farmhand
