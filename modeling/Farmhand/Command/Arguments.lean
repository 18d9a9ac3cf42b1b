/-!
# Arguments of the Command Line

The program has three commands: to run a script, to check one, and to list what scripts can call.
Options have a long name, some also a letter; the value of an option is the next argument, or
follows the name after an equals sign or the letter at once. A configuration file can be named
before the command or after it, and the later one counts. An option that is not repeatable must not
occur twice.

## Main definitions

* `Command`, `Arguments`: What is asked for.
* `OptionSpec`: An option that a command has.
* `Arguments.ofList?`: A list of arguments as a request.
-/

namespace Farmhand

namespace Command

/-- What to run. -/
structure RunRequest where
  script : String
  /-- The world file, if it is not the world with one actor in it. -/
  world : Option String
  /-- The actor that the script drives, if it is not the first primary one. -/
  actor : Option String
  /-- Other actors with their scripts, as they were written. -/
  drones : List String
  /-- Whether the events are written as records. -/
  json : Bool
deriving DecidableEq, Inhabited

/-- The commands. -/
inductive Request where
  | run (request : RunRequest)
  | check (script : String)
  | capabilities
deriving DecidableEq, Inhabited

/-- A whole command line. -/
structure Arguments where
  request : Request
  /-- Whether more is logged. The log is no part of the output. -/
  verbose : Bool
  config : Option String
deriving DecidableEq, Inhabited

/-- An option that a command has. -/
structure OptionSpec where
  name : String
  letter : Option Char
  /-- Whether it has a value. -/
  valued : Bool
  /-- Whether it can occur more than once. -/
  repeatable : Bool

/-- The option that names a configuration file. -/
def configOption : OptionSpec :=
  ⟨"config", some 'c', true, false⟩

/-- The options before a command. -/
def globalOptions : List OptionSpec :=
  [configOption, ⟨"verbose", some 'v', false, false⟩]

/-- The options of the command to run a script. -/
def runOptions : List OptionSpec :=
  [configOption, ⟨"world", some 'w', true, false⟩, ⟨"actor", some 'a', true, false⟩,
   ⟨"drone", none, true, true⟩, ⟨"json", none, false, false⟩]

/-- Arguments sorted into options with their values and other words. -/
structure Sorted where
  options : List (String × String) := []
  words : List String := []

/-- Whether an argument has the form of an option. -/
def isOption (argument : String) : Bool :=
  match argument.toList with
  | '-' :: _ :: _ => true
  | _ => false

/-- A text up to an equals sign, and what follows that, if there is one. -/
def splitEqual (cs : List Char) : List Char × Option (List Char) :=
  match cs.dropWhile (· != '=') with
  | [] => (cs, none)
  | _ :: value => (cs.takeWhile (· != '='), some value)

/-- The options that an argument of letters sets, and whether the value of the last one is the
    next argument. -/
def letters? (specs : List OptionSpec) :
    List Char → Option (List (String × String) × Option String)
  | [] => some ([], none)
  | c :: rest =>
    match specs.find? fun spec => spec.letter == some c with
    | none => none
    | some spec =>
      if spec.valued then
        match rest with
        | [] => some ([], some spec.name)
        | '=' :: value => some ([(spec.name, String.ofList value)], none)
        | value => some ([(spec.name, String.ofList value)], none)
      else
        (letters? specs rest).map fun (options, last) => ((spec.name, "") :: options, last)

/-- The options that one argument sets, and the option whose value is the next argument. -/
def option? (specs : List OptionSpec) (argument : String) :
    Option (List (String × String) × Option String) :=
  match argument.toList with
  | '-' :: '-' :: long =>
    let (name, value) := splitEqual long
    match specs.find? fun spec => spec.name.toList == name, value with
    | some spec, some value =>
      if spec.valued then some ([(spec.name, String.ofList value)], none) else none
    | some spec, none =>
      if spec.valued then some ([], some spec.name) else some ([(spec.name, "")], none)
    | none, _ => none
  | '-' :: short => letters? specs short
  | _ => none

/-- Sorts the arguments of a command. All arguments after two hyphens are words. -/
def sort? (specs : List OptionSpec) : List String → Option Sorted
  | [] => some {}
  | argument :: rest =>
    if argument = "--" then some { words := rest }
    else if isOption argument then
      match option? specs argument with
      | none => none
      | some (options, none) =>
        (sort? specs rest).map fun s => { s with options := options ++ s.options }
      | some (options, some name) =>
        match rest with
        | value :: rest =>
          if isOption value then none
          else
            (sort? specs rest).map fun s =>
              { s with options := options ++ (name, value) :: s.options }
        | [] => none
    else (sort? specs rest).map fun s => { s with words := argument :: s.words }

/-- The arguments up to the command, and the command with those after it. -/
def splitCommand (specs : List OptionSpec) : List String → List String × List String
  | [] => ([], [])
  | argument :: rest =>
    if isOption argument then
      match option? specs argument, rest with
      | some (_, some _), value :: rest =>
        let (before, after) := splitCommand specs rest
        (argument :: value :: before, after)
      | _, rest =>
        let (before, after) := splitCommand specs rest
        (argument :: before, after)
    else ([], argument :: rest)

namespace Sorted

/-- The values that an option has. -/
def values (s : Sorted) (name : String) : List String :=
  (s.options.filter fun option => option.1 == name).map Prod.snd

/-- The value of an option that occurs at most once. -/
def value? (s : Sorted) (name : String) : Option String :=
  (s.values name).head?

/-- Whether no option occurs more often than it may. -/
def isLegal (s : Sorted) (specs : List OptionSpec) : Bool :=
  specs.all fun spec => spec.repeatable || (s.values spec.name).length ≤ 1

end Sorted

/-- The arguments of a command, if all of its options may be there as often as they are. -/
def sorted? (specs : List OptionSpec) (arguments : List String) : Option Sorted :=
  (sort? specs arguments).filter fun s => s.isLegal specs

/-- A command by its name and arguments, and the configuration file named after it. -/
def request? (name : String) (arguments : List String) : Option (Request × Option String) :=
  match name with
  | "run" => do
    let s ← sorted? runOptions arguments
    match s.words with
    | [script] =>
      some
        (.run
          { script
            world := s.value? "world"
            actor := s.value? "actor"
            drones := s.values "drone"
            json := (s.value? "json").isSome },
         s.value? "config")
    | _ => none
  | "check" => do
    let s ← sorted? [configOption] arguments
    match s.words with
    | [script] => some (.check script, s.value? "config")
    | _ => none
  | "capabilities" => do
    let s ← sorted? [configOption] arguments
    match s.words with
    | [] => some (.capabilities, s.value? "config")
    | _ => none
  | _ => none

/-- A list of arguments as a request. -/
def Arguments.ofList? (arguments : List String) : Option Arguments :=
  match splitCommand globalOptions arguments with
  | (before, name :: after) => do
    let outer ← sorted? globalOptions before
    let (request, config) ← request? name after
    some
      { request
        verbose := (outer.value? "verbose").isSome
        config := config.or (outer.value? "config") }
  | (_, []) => none

end Command

end Farmhand
