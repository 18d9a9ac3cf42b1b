import Farmhand.Proofs.Interpreter.Composition
import Farmhand.Simulation

/-!
# A Machine for Scripts

A run as a sequence of small steps. The evaluator is defined by recursion on the program, so it has
no states between the beginning of a run and its waits; whatever is true at the instant at which a
call begins, or is done in so many steps, cannot be said of it. The machine of this module has these
states: what is to be done next, what is pending around it, and the interpreter. Every step is done
without looking into the future, and nothing in it recurses: loops count their turns, and calls are
counted by the frames of the interpreter, as a run counts them.

That the machine does what the evaluator does is proved elsewhere.

## Main definitions

* `Machine.Control`: What is to be done next.
* `Machine.Pending`, `Machine.Stack`: What is to be done with its result.
* `Machine`: A run under way.
* `Machine.Progress`: What a step comes to.
* `Machine.next`: A step.
* `Machine.Overflows`: A machine is about to break off.
-/

namespace Farmhand

open Script

namespace Machine

/-- The kinds of results: of expressions, of statements and of calls. -/
inductive Kind where
  | value | flow | success

/-- The results of a kind. -/
@[reducible]
def Kind.Result : Kind → Type
  | value => Value
  | flow => Flow
  | success => Success

/-- What is to be done next. -/
inductive Control : Kind → Type where
  | job (job : Job) : Control .success
  | evaluate (x : Expr) : Control .value
  | execute (s : Stmt) : Control .flow
  | block (body : Block) : Control .flow
  | branches (rest : List (Expr × Block)) (otherwise : Option Block) : Control .flow
  /-- A loop whose body has run some number of times. -/
  | whileLoop (condition : Expr) (body : Block) (turns : Nat) : Control .flow
  | forLoop (name : String) (body : Block) (values : List Value) : Control .flow
  | call (name : String) (args : List Value) : Control .success
  /-- A call that was announced, of what its name was found to stand for. -/
  | capability (c : Capability) (args : List Value) : Control .success
  | tileFunction (t : Tile) (name : String) : Control .success
  | subroutine (name : String) (s : Subroutine) (args : List Value) : Control .success
  /-- The rest of a walk of some steps. -/
  | visit (path : List Position) (steps : Nat) : Control .success
  /-- The end of a motion that began in some epoch of motion, and the rest of its walk. -/
  | arrive (epoch : Nat) (target : Position) (rest : List Position) (steps : Nat) :
      Control .success
  /-- What follows a call that succeeded. -/
  | settle (s : Success) : Control .success
  /-- Nothing: there is a result. -/
  | back {k : Kind} (result : Except Failure k.Result) : Control k

/-- What is to be done with a result of one kind, so that there is one of another kind. -/
inductive Pending : Kind → Kind → Type where
  | items (done : List Value) (rest : List Expr) : Pending .value .value
  | arguments (name : String) (done : List Value) (rest : List Expr) : Pending .value .value
  | container (position : Expr) : Pending .value .value
  | position (container : Value) : Pending .value .value
  | operand (op : UnaryOp) : Pending .value .value
  | left (op : BinaryOp) (right : Expr) : Pending .value .value
  | right (op : BinaryOp) (left : Value) : Pending .value .value
  | answer : Pending .success .value
  | assigned (name : String) (op : AssignOp) : Pending .value .flow
  | discarded : Pending .value .flow
  | branch (body : Block) (rest : List (Expr × Block)) (otherwise : Option Block) :
      Pending .value .flow
  | whileTest (condition : Expr) (body : Block) (turns : Nat) : Pending .value .flow
  | whileBody (condition : Expr) (body : Block) (turns : Nat) : Pending .flow .flow
  | iterated (name : String) (body : Block) : Pending .value .flow
  | forBody (name : String) (body : Block) (rest : List Value) : Pending .flow .flow
  | returned : Pending .value .flow
  | sequence (rest : Block) : Pending .flow .flow

/-- All that is to be done with a result of some kind. -/
inductive Stack : Kind → Type where
  | last : Stack .success
  /-- The end of a run of the entry script. -/
  | main (actor : String) (rest : Stack .success) : Stack .success
  | pend {k l : Kind} (p : Pending k l) (rest : Stack l) : Stack k
  /-- The end of a subroutine call. -/
  | body (name : String) (rest : Stack .success) : Stack .flow

end Machine

open Machine in
/-- A run under way. -/
structure Machine where
  kind : Kind
  control : Control kind
  stack : Stack kind
  interpreter : Interpreter

namespace Machine

/-- What a step comes to. -/
inductive Progress where
  | on (m : Machine) (e : Engine)
  /-- A wait of some milliseconds. -/
  | wait (time : Nat) (m : Machine) (e : Engine)
  | halt (outcome : Outcome) (i : Interpreter) (e : Engine)

/-- The engine after a step. -/
def Progress.engine : Progress → Engine
  | on _ e => e
  | wait _ _ e => e
  | halt _ _ e => e

/-- A machine at the start of a job. -/
def start (job : Job) (i : Interpreter) : Machine :=
  ⟨_, .job job, .last, i⟩

section

variable {k : Kind} (stack : Stack k) (i : Interpreter)

/-- A machine with a result. -/
abbrev ofResult (result : Except Failure k.Result) : Machine :=
  ⟨_, .back result, stack, i⟩

/-- A machine with the result of an operation on values. -/
def ofOperation (result : Except OperationError k.Result) : Machine :=
  match result with
  | .ok a => ofResult stack i (.ok a)
  | .error error => ofResult stack i (.error (.operation error))

end

/-! ## Expressions -/

section

variable (stack : Stack .value) (i : Interpreter)

/-- The values of a list, the first of which are done. -/
def ofItems (done : List Value) : List Expr → Machine
  | [] => ofResult stack i (.ok (.list done))
  | x :: rest => ⟨_, .evaluate x, .pend (.items done rest) stack, i⟩

/-- A call with the values of its arguments, the first of which are done. -/
def ofArguments (name : String) (done : List Value) : List Expr → Machine
  | [] => ⟨_, .call name done, .pend .answer stack, i⟩
  | x :: rest => ⟨_, .evaluate x, .pend (.arguments name done rest) stack, i⟩

/-- An expression. -/
def ofExpr : Expr → Machine
  | .lit value _ => ofResult stack i (.ok (Literal.toValue value))
  | .var name _ => ofResult stack i (.ok ((i.lookup? name).getD (.str name)))
  | .list items _ => ofItems stack i [] items
  | .index container position _ => ⟨_, .evaluate container, .pend (.container position) stack, i⟩
  | .unary op operand _ => ⟨_, .evaluate operand, .pend (.operand op) stack, i⟩
  | .binary op left right _ => ⟨_, .evaluate left, .pend (.left op right) stack, i⟩
  | .call name args _ => ofArguments stack i name [] args

/-- A unary operator with its operand. -/
def ofUnary (v : Value) : UnaryOp → Machine
  | .neg => ofOperation stack i v.negate
  | .not => ofResult stack i (.ok (.bool (!v.truthy)))

/-- A binary operator with its first operand. -/
def ofBinary (op : BinaryOp) (l : Value) (right : Expr) : Machine :=
  match op with
  | .and =>
    if l.truthy then ⟨_, .evaluate right, stack, i⟩ else ofResult stack i (.ok l)
  | .or =>
    if l.truthy then ofResult stack i (.ok l) else ⟨_, .evaluate right, stack, i⟩
  | op => ⟨_, .evaluate right, .pend (.right op l) stack, i⟩

end

/-! ## Statements -/

/-- The interpreter after a variable was combined with a value, if it has one. -/
def combinedWith (i : Interpreter) (name : String) (operator : BinaryOp) (v : Value) :
    Except Failure Interpreter :=
  match i.lookup? name with
  | some current =>
    match Value.binary operator current v with
    | .ok result => .ok (i.assign name result)
    | .error error => .error (.operation error)
  | none => .error (.undefinedVariable name)

/-- The interpreter after an assignment by a sign, if it can be done. -/
def assignedWith (i : Interpreter) (name : String) (op : AssignOp) (v : Value) :
    Except Failure Interpreter :=
  match op with
  | .set => .ok (i.assign name v)
  | .add => combinedWith i name .add v
  | .sub => combinedWith i name .sub v

/-- The message that a statement begins. -/
def announcement (i : Interpreter) (s : Stmt) : Event :=
  match i.frames with
  | frame :: _ =>
    .statement i.actor.id frame.name s.span.line ((frame.lines.line? s.span.line).getD "")
  | [] => .statement i.actor.id mainName s.span.line ""

section

variable (stack : Stack .flow) (i : Interpreter)

/-- A statement that was announced. -/
def ofStmt : Stmt → Machine
  | .assign name op value _ => ⟨_, .evaluate value, .pend (.assigned name op) stack, i⟩
  | .expr value _ => ⟨_, .evaluate value, .pend .discarded stack, i⟩
  | .cond branches otherwise _ => ⟨_, .branches branches otherwise, stack, i⟩
  | .whileLoop condition body _ => ⟨_, .whileLoop condition body 0, stack, i⟩
  | .forLoop name items body _ => ⟨_, .evaluate items, .pend (.iterated name body) stack, i⟩
  | .returnWith (some value) _ => ⟨_, .evaluate value, .pend .returned stack, i⟩
  | .returnWith none _ => ofResult stack i (.ok (.returned .none))
  | .breakLoop _ => ofResult stack i (.ok .broken)
  | .continueLoop _ => ofResult stack i (.ok .continued)
  | .pass _ => ofResult stack i (.ok .normal)
  | .skipped _ _ => ofResult stack i (.ok .normal)

/-- The branches of a conditional. -/
def ofBranches : List (Expr × Block) → Option Block → Machine
  | (condition, body) :: rest, otherwise =>
    ⟨_, .evaluate condition, .pend (.branch body rest otherwise) stack, i⟩
  | [], some body => ⟨_, .block body, stack, i⟩
  | [], none => ofResult stack i (.ok .normal)

/-- A block. -/
def ofBlock : Block → Machine
  | [] => ofResult stack i (.ok .normal)
  | s :: rest => ⟨_, .execute s, .pend (.sequence rest) stack, i⟩

/-- What a loop does after its body. -/
def ofAfterBody (flow : Flow) (goOn : Control .flow) : Machine :=
  match flow with
  | .broken => ofResult stack i (.ok .normal)
  | .returned v => ofResult stack i (.ok (.returned v))
  | .normal => ⟨_, goOn, stack, i⟩
  | .continued => ⟨_, goOn, stack, i⟩

end

/-- What is done with a result. -/
def Pending.resume {k l : Kind} (p : Pending k l) (a : k.Result) (stack : Stack l)
    (i : Interpreter) : Machine :=
  match p, a with
  | .items done rest, v => ofItems stack i (done ++ [v]) rest
  | .arguments name done rest, v => ofArguments stack i name (done ++ [v]) rest
  | .container x, v => ⟨_, .evaluate x, .pend (.position v) stack, i⟩
  | .position whole, v => ofOperation stack i (whole.index v)
  | .operand op, v => ofUnary stack i v op
  | .left op x, v => ofBinary stack i op v x
  | .right op l, v => ofOperation stack i (Value.binary op l v)
  | .answer, s => ofResult stack i (.ok (s.data.getD .none))
  | .assigned name op, v =>
    match assignedWith i name op v with
    | .ok i => ofResult stack i (.ok .normal)
    | .error f => ofResult stack i (.error f)
  | .discarded, _ => ofResult stack i (.ok .normal)
  | .branch body rest otherwise, v =>
    if v.truthy then ⟨_, .block body, stack, i⟩ else ⟨_, .branches rest otherwise, stack, i⟩
  | .whileTest condition body turns, v =>
    if v.truthy then
      if i.settings.maxLoopIterations ≤ turns then
        ofResult stack i (.error (.loopLimit i.settings.maxLoopIterations))
      else ⟨_, .block body, .pend (.whileBody condition body turns) stack, i⟩
    else ofResult stack i (.ok .normal)
  | .whileBody condition body turns, flow =>
    ofAfterBody stack i flow (.whileLoop condition body (turns + 1))
  | .iterated name body, v =>
    match v.iterate with
    | .ok values => ⟨_, .forLoop name body values, stack, i⟩
    | .error error => ofResult stack i (.error (.operation error))
  | .forBody name body rest, flow => ofAfterBody stack i flow (.forLoop name body rest)
  | .returned, v => ofResult stack i (.ok (.returned v))
  | .sequence rest, flow =>
    match flow with
    | .normal => ⟨_, .block rest, stack, i⟩
    | flow => ofResult stack i (.ok flow)

/-! ## Calls -/

/-- What a called name stands for. -/
inductive Callee where
  | capability (c : Capability)
  | tileFunction (t : Tile)
  | subroutine (s : Subroutine)

/-- Where it was found. -/
def Callee.source : Callee → CallSource
  | capability _ => .capability
  | tileFunction _ => .tileFunction
  | subroutine _ => .subroutine

/-- What is to be done for it. -/
def Callee.control (callee : Callee) (name : String) (args : List Value) : Control .success :=
  match callee with
  | capability c => .capability c args
  | tileFunction t => .tileFunction t name
  | subroutine s => .subroutine name s args

/-- What a name stands for, to an interpreter that has just seen its actor. -/
def callee? (i : Interpreter) (e : Engine) (name : String) : Option Callee :=
  match Catalog.builtin.get? name with
  | some c => some (.capability c)
  | none =>
    match Step.offering? i e name with
    | some t => some (.tileFunction t)
    | none => (i.subroutines.get? name).map .subroutine

/-- What a capability sets out to do. -/
inductive Course where
  | answer (outcome : Outcome)
  | print (text : String)
  | walk (path : List Position)
  | onTile (f : TileFunction)
  | pause (nanoseconds : Nat) (s : Success)

/-- An answer that depends on the arguments alone. -/
def Course.computed : Except ArgumentError Value → Course
  | .ok v => answer (.ok { data := some v })
  | .error error => answer (.error (.argument error))

/-- A course that is set out on if the arguments are good. -/
def Course.withArgument {α : Type} (r : Except ArgumentError α) (next : α → Course) : Course :=
  match r with
  | .ok a => next a
  | .error error => answer (.error (.argument error))

/-- A walk along a way, if its places fit. -/
def Course.along (laid : Except Overflow (List Position)) : Course :=
  match laid with
  | .ok path => walk path
  | .error overflow => answer (.error (.overflow overflow))

/-- A walk in a direction. -/
def Course.stride (i : Interpreter) (bounds : Bounds) (direction : Direction) (steps : Int) :
    Course :=
  along (i.actor.position.layLine direction.delta.1 direction.delta.2
    (Step.strideLength bounds steps))

/-- What an operation sets out to do. -/
def Course.of (o : Operation) (args : Arguments) (i : Interpreter) (bounds : Bounds) : Course :=
  match o with
  | .step direction => stride i bounds direction 1
  | .move => withArgument (Step.directionArgument args) fun direction =>
      withArgument (Step.stepsArgument args) (stride i bounds direction)
  | .moveTo => withArgument args.target fun goal => along (i.actor.position.layOut goal)
  | .plant => onTile .plant
  | .harvest => onTile .harvest
  | .eat => onTile .eat
  | .store => onTile .store
  | .wait => withArgument (Step.secondsArgument args) fun (seconds, nanoseconds) =>
      pause nanoseconds
        { message := some s!"Waited {Decimal.Layout.plain.render seconds}s" }
  | .getPosition => answer (.ok { data := some i.actor.position.toValue })
  | .getEnergy => answer (.ok { data := some (.int i.actor.energy) })
  | .getInventory => answer (.ok {
      data := some (.map (i.actor.inventory.entries.map fun (item, count) =>
        (item, .int count))) })
  | .print => print (" ".intercalate (args.map Value.render))
  | .range => computed args.range
  | .len => computed args.len
  | .min => computed args.least
  | .max => computed args.greatest
  | .sum => computed args.sum
  | .abs => computed args.abs

section

variable (stack : Stack .success) (i : Interpreter) (e : Engine)

/-- A call that came back with something: what follows it is still to be done if it succeeded. -/
def ofOutcome : Outcome → Machine
  | .ok s => ⟨_, .settle s, stack, i⟩
  | .error f => ofResult stack i (.error f)

/-- A wait of some nanoseconds before a machine goes on. No time is no wait. -/
def pausing (nanoseconds : Nat) (m : Machine) (e : Engine) : Progress :=
  if nanoseconds = 0 then .on m e else .wait (Duration.ticks nanoseconds) m e

/-- The interpreter after a look at its actor that may fail. -/
def seeing (i : Interpreter) (w : World) : Interpreter :=
  match w.actor i.actor.id with
  | .ok a => { i with actor := a }
  | .error _ => i

/-- A name that is called: the actor is seen and has to be idle, and the name to stand for
    something. -/
def ofCall (name : String) (args : List Value) : Progress :=
  match e.world.actor i.actor.id with
  | .error error => .on (ofResult stack i (.error (.world error))) e
  | .ok a =>
    let i := { i with actor := a }
    match e.actorTask? a.id with
    | some task =>
      .on (ofResult stack i (.error (.actorBusy a.id task.description
        (task.wholePercentAt e.now)))) e
    | none =>
      match callee? i e name with
      | some callee =>
        .on ⟨_, callee.control name args, stack, i⟩
          (e.emit (.call a.id i.frames.length name (args.map Value.render) callee.source))
      | none => .on (ofResult stack i (.error (.functionNotFound name))) e

/-- The beginning of a walk, if all of it lies in the world. -/
def ofWalk (path : List Position) : Machine :=
  match path.find? fun p => !e.world.bounds.contains p with
  | some outside => ofResult stack i (.error (.outsideWorld outside e.world.bounds))
  | none =>
    if path.isEmpty then
      ⟨_, .settle {
        message := some s!"Already at {i.actor.position.render}"
        data := some i.actor.position.toValue }, stack, i⟩
    else ⟨_, .visit path path.length, stack, i⟩

/-- A function of the tile under the actor, if it is a tile of the right kind. -/
def ofTile (f : TileFunction) : Progress :=
  let here := e.world.tileAt? i.actor.position
  let wrong := Failure.wrongTile f.name f.kind i.actor.id (here.map fun t => (t.id, t.kind))
    i.actor.position
  match here with
  | some t =>
    if t.kind = f.kind then
      let (outcome, e) := e.invoke true i.actor.id t.id f.name
      .on (ofOutcome stack i outcome) e
    else .on (ofResult stack i (.error wrong)) e
  | none => .on (ofResult stack i (.error wrong)) e

/-- What a capability sets out to do. -/
def ofCourse : Course → Progress
  | .answer outcome => .on (ofOutcome stack i outcome) e
  | .print text =>
    .on ⟨_, .settle { message := some text }, stack, i⟩ (e.emit (.log i.actor.id .info text))
  | .walk path => .on (ofWalk stack i e path) e
  | .onTile f => ofTile stack i e f
  | .pause nanoseconds s => pausing nanoseconds ⟨_, .settle s, stack, i⟩ e

/-- A capability, if the energy that it asks for can be told and is there. -/
def ofCapability (c : Capability) (args : List Value) : Progress :=
  match c.energy.demand i.actor args with
  | .error overflow => .on (ofResult stack i (.error (.overflow overflow))) e
  | .ok required =>
    if i.actor.energy < required then
      .on (ofResult stack i (.error (.energyRequired c.name required i.actor.energy))) e
    else ofCourse stack i e (.of c.operation args i e.world.bounds)

/-- A function of a tile. -/
def ofTileFunction (t : Tile) (name : String) : Progress :=
  let (outcome, e) := e.invoke true i.actor.id t.id name
  .on (ofOutcome stack i outcome) e

/-- A subroutine, if the calls under way leave room for one more. -/
def ofSubroutine (name : String) (s : Subroutine) (args : List Value) : Machine :=
  if i.settings.maxCallDepth ≤ i.frames.length then
    ofResult stack i (.error (.callDepth i.settings.maxCallDepth))
  else
    ⟨_, .block s.body, .body name stack,
      { i with frames := ⟨name, s.lines, Step.initialLocals name args⟩ :: i.frames }⟩

/-- A motion that did not arrive. -/
def interrupted (target : Position) (e : Engine) : Progress :=
  .on (ofResult stack (seeing i e.world)
    (.error (.interrupted target (e.isRunning i.handle)))) e

/-- The beginning of a motion to a position, and what follows it in a walk. -/
def ofMotion (target : Position) (rest : List Position) (steps : Nat) : Progress :=
  let e := { e with moveRequests := e.moveRequests + 1 }
  match e.world.actor i.actor.id with
  | .error _ => interrupted stack i target e
  | .ok a =>
    if e.world.bounds.contains target then
      match Duration.stepAt e.stepTime a.speed with
      | .error overflow => .on (ofResult stack i (.error (.overflow overflow))) e
      | .ok none => interrupted stack i target e
      | .ok (some time) => pausing time ⟨_, .arrive e.motionEpoch target rest steps, stack, i⟩ e
    else interrupted stack i target e

/-- What a walk of some steps comes back with. -/
def arrival (a : Actor) (steps : Nat) : Success where
  message := some s!"Moved to {a.position.render}"
  data := some a.position.toValue
  energyCost := some (min (stepEnergy * steps) Integer.maxAmount)

/-- The rest of a walk. -/
def ofVisit (path : List Position) (steps : Nat) : Progress :=
  match path with
  | [] =>
    match e.world.actor i.actor.id with
    | .error error => .on (ofResult stack i (.error (.world error))) e
    | .ok a => .on ⟨_, .settle (arrival a steps), stack, { i with actor := a }⟩ e
  | target :: rest =>
    if e.isRunning i.handle then ofMotion stack i e target rest steps
    else .on (ofResult stack i (.error .stopped)) e

/-- The end of a motion: the actor is at its target, unless all motion was stopped. -/
def ofArrive (epoch : Nat) (target : Position) (rest : List Position) (steps : Nat) : Progress :=
  if e.motionEpoch = epoch then
    match e.world.updateActor i.actor.id { position := some target } with
    | .ok world => .on ⟨_, .visit rest steps, stack, i⟩ { e with world }
    | .error _ => interrupted stack i target e
  else interrupted stack i target e

/-- The pause after a call that succeeded. -/
def ofPace (s : Success) : Progress :=
  match s.duration with
  | some duration =>
    pausing (pacingPause duration i.settings.pacingCap * 1000000) (ofResult stack i (.ok s)) e
  | none => .on (ofResult stack i (.ok s)) e

/-- What follows a call that succeeded: its cost, and a pause. -/
def ofSettle (s : Success) : Progress :=
  match s.energyCost with
  | some cost =>
    if 0 < cost then
      match e.world.updateActor i.actor.id { energy := some (.debit cost) } with
      | .error error => .on (ofResult stack i (.error (.ofWorldError error))) e
      | .ok world => ofPace stack (seeing i world) { e with world } s
    else ofPace stack i e s
  | none => ofPace stack i e s

/-- A job. -/
def ofJob : Job → Progress
  | .call _ name args =>
    .on ⟨_, .call name args, stack, i⟩
      (if i.frames.isEmpty then e.setRunning i.handle true else e)
  | .main actor =>
    if i.subroutines.contains mainName then
      .on ⟨_, .job (.call actor mainName []), .main i.actor.id stack, i⟩
        ((e.setRunning i.handle true).emit (.started i.actor.id))
    else
      .on (ofResult stack i (.error .noEntryScript))
        (e.emitAll (Event.ofFailure i.actor.id .noEntryScript))

end

/-- What becomes of a result. -/
def ofBack {k : Kind} (result : Except Failure k.Result) (stack : Stack k) (i : Interpreter)
    (e : Engine) : Progress :=
  match stack, result with
  | .last, r => .halt r i e
  | .main actor rest, r => .on (ofResult rest i r) (endRun actor i.handle r e)
  | .pend p rest, .ok a => .on (p.resume a rest i) e
  | .pend _ rest, .error f => .on (ofResult rest i (.error f)) e
  | .body name rest, .ok flow => .on (ofResult rest (Step.leave i) (Step.ofFlow name flow)) e
  | .body _ rest, .error f => .on (ofResult rest (Step.leave i) (.error f)) e

/-- A step. -/
def next (m : Machine) (e : Engine) : Progress :=
  match m with
  | ⟨_, .job job, stack, i⟩ => ofJob stack i e job
  | ⟨_, .evaluate x, stack, i⟩ => .on (ofExpr stack i x) e
  | ⟨_, .execute s, stack, i⟩ =>
    if e.isRunning i.handle then .on (ofStmt stack i s) (e.emit (announcement i s))
    else .on (ofResult stack i (.error .stopped)) e
  | ⟨_, .block body, stack, i⟩ => .on (ofBlock stack i body) e
  | ⟨_, .branches rest otherwise, stack, i⟩ => .on (ofBranches stack i rest otherwise) e
  | ⟨_, .whileLoop condition body turns, stack, i⟩ =>
    if e.isRunning i.handle then
      .on ⟨_, .evaluate condition, .pend (.whileTest condition body turns) stack, i⟩ e
    else .on (ofResult stack i (.error .stopped)) e
  | ⟨_, .forLoop _ _ [], stack, i⟩ => .on (ofResult stack i (.ok .normal)) e
  | ⟨_, .forLoop name body (v :: rest), stack, i⟩ =>
    if e.isRunning i.handle then
      .on ⟨_, .block body, .pend (.forBody name body rest) stack, i.assign name v⟩ e
    else .on (ofResult stack i (.error .stopped)) e
  | ⟨_, .call name args, stack, i⟩ => ofCall stack i e name args
  | ⟨_, .capability c args, stack, i⟩ => ofCapability stack i e c args
  | ⟨_, .tileFunction t name, stack, i⟩ => ofTileFunction stack i e t name
  | ⟨_, .subroutine name s args, stack, i⟩ => .on (ofSubroutine stack i name s args) e
  | ⟨_, .visit path steps, stack, i⟩ => ofVisit stack i e path steps
  | ⟨_, .arrive epoch target rest steps, stack, i⟩ => ofArrive stack i e epoch target rest steps
  | ⟨_, .settle s, stack, i⟩ => ofSettle stack i e s
  | ⟨_, .back result, stack, i⟩ => ofBack result stack i e

/-! ## Where the program breaks off -/

/-- A machine is about to break off at a number that does not fit. -/
inductive Overflows (e : Engine) : Machine → Overflow → Prop
  /-- The steps of a call cannot be counted, for which energy is to be asked for. -/
  | demand {c : Capability} {args : List Value} {stack : Stack .success} {i : Interpreter}
      {o : Overflow} (h : c.energy.demand i.actor args = .error o) :
      Overflows e ⟨_, .capability c args, stack, i⟩ o
  /-- A walk cannot be laid out. -/
  | way {c : Capability} {args : List Value} {stack : Stack .success} {i : Interpreter}
      {o : Overflow} {required : Nat} (hasked : c.energy.demand i.actor args = .ok required)
      (henergy : required ≤ i.actor.energy)
      (h : Course.of c.operation args i e.world.bounds = .answer (.error (.overflow o))) :
      Overflows e ⟨_, .capability c args, stack, i⟩ o
  /-- A step of a walk cannot be timed. -/
  | step {target : Position} {rest : List Position} {steps : Nat} {stack : Stack .success}
      {i : Interpreter} {a : Actor} {o : Overflow} (hrunning : e.isRunning i.handle = true)
      (ha : e.world.actor i.actor.id = .ok a) (hinside : e.world.bounds.contains target = true)
      (h : Duration.stepAt e.stepTime a.speed = .error o) :
      Overflows e ⟨_, .visit (target :: rest) steps, stack, i⟩ o

end Machine

end Farmhand
