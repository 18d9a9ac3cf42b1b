import Farmhand.World.Entity
import Farmhand.Integer
import Farmhand.Outcome

/-!
# Capabilities

The operations that a script can call wherever its actor stands. Each has a name, a category, a
list of parameters, a description and a cost. The cost is known before the call: nothing, a fixed
amount, or an amount for every step that the call will take. To ask for it the steps are counted,
and a goal can be too far away for that.

## Main definitions

* `Operation`: The operations.
* `EnergyCost`, `EnergyCost.required`: What a call costs.
* `EnergyCost.demand`: What is asked for before it.
* `Capability`: An operation with all that is declared about it.
* `Arguments`: The arguments of a call, taken by position.
-/

namespace Farmhand

/-- The energy of one step. -/
def stepEnergy : Nat := 5

/-- The operations that a script can call. -/
inductive Operation where
  | step (direction : Direction)
  | move | moveTo
  | plant | harvest | eat | store
  | wait
  | getPosition | getEnergy | getInventory
  | print | range | len | min | max | sum | abs
deriving DecidableEq

/-- The groups of capabilities. -/
inductive Category where
  | movement | interaction | system | utility
deriving DecidableEq

namespace Category

/-- All groups, in the order in which they are listed. -/
def all : List Category :=
  [movement, interaction, system, utility]

/-- The name of a group. -/
def name : Category → String
  | movement => "movement"
  | interaction => "interaction"
  | system => "system"
  | utility => "utility"

end Category

/-- A declared parameter. -/
structure Parameter where
  name : String
  type : String
  required : Bool
  description : String
deriving DecidableEq

/-- The arguments of a call. -/
abbrev Arguments := List Value

namespace Arguments

/-- The integer at a position. -/
def int (args : Arguments) (position : Nat) (name : String) : Except ArgumentError Int :=
  match args[position]? with
  | some v =>
    match v.toInt? with
    | some n => .ok n
    | none => .error (.wrongType name "an integer" v.typeName)
  | none => .error (.missing name)

/-- The number at a position. -/
def number (args : Arguments) (position : Nat) (name : String) : Except ArgumentError Float :=
  match args[position]? with
  | some v =>
    match v.toFloat? with
    | some x => .ok x
    | none => .error (.wrongType name "a number" v.typeName)
  | none => .error (.missing name)

/-- The text at a position. -/
def text (args : Arguments) (position : Nat) (name : String) : Except ArgumentError String :=
  match args[position]? with
  | some v =>
    match v.toText? with
    | some s => .ok s
    | none => .error (.wrongType name "a string" v.typeName)
  | none => .error (.missing name)

/-- An integer that is a coordinate. -/
def coordinate (name : String) (n : Int) : Except ArgumentError Int :=
  if Integer.isCoordinate n then .ok n else .error (.outOfRange name n)

/-- The position given by the first two arguments. -/
def target (args : Arguments) : Except ArgumentError Position :=
  match args.int 0 "x" with
  | .error error => .error error
  | .ok x =>
    match args.int 1 "y" with
    | .error error => .error error
    | .ok y =>
      match coordinate "x" x with
      | .error error => .error error
      | .ok x => (coordinate "y" y).map fun y => ⟨x, y⟩

end Arguments

/-- How the steps of a call are counted before it. -/
inductive StepCount where
  /-- By the second argument, one if there is none. -/
  | asked
  /-- By the distance to the position that the arguments give. -/
  | distance
deriving DecidableEq

/-- The number of steps that a call will take; none if its arguments are bad. -/
def StepCount.steps (s : StepCount) (a : Actor) (args : Arguments) : Nat :=
  match s with
  | asked =>
    match args[1]? with
    | some v => (v.toInt?.bind Integer.amount?).getD 0
    | none => 1
  | distance =>
    match args.target with
    | .ok p => a.position.stepsTo p
    | .error _ => 0

/-- The number of steps that a call will take, counted as an amount. -/
def StepCount.count (s : StepCount) (a : Actor) (args : Arguments) : Except Overflow Nat :=
  match s with
  | asked => .ok (asked.steps a args)
  | distance =>
    match args.target with
    | .ok p => a.position.countSteps p
    | .error _ => .ok 0

/-- What a call costs. -/
inductive EnergyCost where
  | free
  | fixed (amount : Nat)
  | perStep (amount : Nat) (steps : StepCount)
deriving DecidableEq

namespace EnergyCost

/-- The energy that a call needs, by the actor and the arguments. -/
def required (c : EnergyCost) (a : Actor) (args : Arguments) : Nat :=
  match c with
  | free => 0
  | fixed amount => amount
  | perStep amount steps => Min.min (amount * steps.steps a args) Integer.maxAmount

/-- The energy that is asked for before a call. Its steps are counted for that. -/
def demand (c : EnergyCost) (a : Actor) (args : Arguments) : Except Overflow Nat :=
  match c with
  | free => .ok 0
  | fixed amount => .ok amount
  | perStep amount steps =>
    (steps.count a args).map fun n => Min.min (amount * n) Integer.maxAmount

/-- A cost as listings show it. -/
def render : EnergyCost → String
  | free => "free"
  | fixed amount => s!"{amount} energy"
  | perStep amount _ => s!"{amount} energy per step"

/-- A cost by its class. -/
def describe : EnergyCost → String
  | free => "None"
  | fixed amount => s!"Fixed({amount})"
  | perStep amount _ => s!"PerStep({amount})"

end EnergyCost

/-- An operation with all that is declared about it. -/
structure Capability where
  name : String
  category : Category
  params : List Parameter
  description : String
  energy : EnergyCost
  operation : Operation

/-- The name and the parameters of a capability, optional ones with a question mark. -/
def Capability.signature (c : Capability) : String :=
  let params := c.params.map fun p =>
    p.name ++ (if p.required then "" else "?") ++ ": " ++ p.type
  c.name ++ "(" ++ ", ".intercalate params ++ ")"

end Farmhand
