import Farmhand.Interpreter.Call

/-!
# What Scripts Are Composed Of

Whatever a script does, it does in a few ways: steps of the interpreter alone, looks at whether it
may go on, announcements of statements, and calls. Everything else puts such steps one after
another. A property of steps that these have, and that one step after another keeps, is therefore a
property of every call and every block, whatever the script is. This module goes through the
language once for all such properties.

A call looks at the interpreter and the engine before it decides what to do. Its equations here have
the looks resolved, so that a proof about calls splits on what was seen.

## Main definitions

* `Step.dispatch`: What a call does after its checks.
* `Step.charge`, `Step.pace`: What follows a call that succeeded, in its two parts.
* `Process.arrival`: The end of a motion.
* `Step.walkAlong`, `Step.arrive`: A walk whose places have to fit, and what it comes back with.
* `Interpreter.Kin`: A state of the same interpreter that saw its actor at the same time.
* `Interpreter.Assigned`: A state of the interpreter after at most one assignment.
* `Step.Simple`, `Step.Composed`, `Step.Closed`: A property of steps that what expressions are
  composed of has, what statements are, and what calls are.
* `Step.CallsHave`: The calls of some names have a property.

## Theorems

* `Process.arrival_cases`, `Process.move_begins`: How a motion ends and how it begins.
* `Step.callWith_eq`, `Step.callCapability_eq`, `Step.callTile_eq`, `Step.walk_eq`: Calls with
  their looks resolved.
* `Step.Simple.evaluate`, `Step.Composed.runBlock`: Such a property holds of expressions and
  blocks if it holds of the calls in them.
* `Step.Closed.callAt`: It holds of every call.
-/

namespace Farmhand

open Script

/-- A state of the same interpreter, with the same subroutines, that saw its actor at the same
    time. -/
structure Interpreter.Kin (i j : Interpreter) : Prop where
  handle : j.handle = i.handle
  settings : j.settings = i.settings
  actor : j.actor = i.actor
  subroutines : j.subroutines = i.subroutines

namespace Interpreter

-- A state is one of the same interpreter.
theorem kin_self (i : Interpreter) : i.Kin i :=
  ⟨rfl, rfl, rfl, rfl⟩

-- An assignment changes a variable only.
theorem kin_assign (i : Interpreter) (name : String) (value : Value) :
    i.Kin (i.assign name value) := by
  unfold assign
  cases i.frames with
  | nil => exact ⟨rfl, rfl, rfl, rfl⟩
  | cons frame rest =>
      cases hlocals : frame.locals with
      | none => simp only [hlocals]; exact ⟨rfl, rfl, rfl, rfl⟩
      | some locals => simp only [hlocals]; exact ⟨rfl, rfl, rfl, rfl⟩

/-- A state of an interpreter after at most one assignment. -/
inductive Assigned (i : Interpreter) : Interpreter → Prop
  | still : Assigned i i
  | assign (name : String) (value : Value) : Assigned i (i.assign name value)

-- So a state after an assignment, or after none, is one of the same interpreter.
theorem Assigned.kin {i j : Interpreter} (h : i.Assigned j) : i.Kin j := by
  cases h with
  | still => exact i.kin_self
  | assign name value => exact i.kin_assign name value

end Interpreter

/-! ## Motion -/

namespace Process

/-- The end of a motion that began in some epoch. -/
def arrival (id : String) (target : Position) (epoch : Nat) (e : Engine) :
    Process (Except Overflow Bool) :=
  if e.motionEpoch = epoch then
    match e.world.updateActor id { position := some target } with
    | .ok world => .done (.ok true) { e with world }
    | .error _ => .done (.ok false) e
  else .done (.ok false) e

-- At its end a motion brings its actor to its target, or it leaves everything as it is.
theorem arrival_cases (id : String) (target : Position) (epoch : Nat) (e : Engine) :
    (∃ w, arrival id target epoch e = .done (.ok true) { e with world := w } ∧
      e.motionEpoch = epoch ∧ e.world.updateActor id { position := some target } = .ok w) ∨
    (arrival id target epoch e = .done (.ok false) e ∧ (e.motionEpoch = epoch →
      ∀ w, e.world.updateActor id { position := some target } ≠ .ok w)) := by
  unfold arrival
  split
  · next hepoch =>
    split
    · next w hw => exact .inl ⟨w, rfl, hepoch, hw⟩
    · next hrefused => exact .inr ⟨rfl, fun _ w hw => by rw [hw] at hrefused; cases hrefused⟩
  · next hstopped => exact .inr ⟨rfl, fun hepoch => absurd hepoch hstopped⟩

/-- A motion that cannot begin is over at once and has not arrived. One that begins sleeps as long
    as its step takes, and then comes to its end. -/
theorem move_begins (id : String) (target : Position) (e : Engine) :
    let asked := { e with moveRequests := e.moveRequests + 1 }
    (∃ r, r ≠ .ok true ∧ move id target e = .done r asked) ∨
    ∃ a time, e.world.actor id = .ok a ∧ e.world.bounds.contains target = true ∧
      Duration.stepAt e.stepTime a.speed = .ok (some time) ∧
      move id target e = (sleep time asked).bind fun _ => arrival id target e.motionEpoch := by
  unfold move
  simp only
  split
  · exact .inl ⟨.ok false, nofun, rfl⟩
  · next a ha =>
    split
    · next hinside =>
      split
      · next overflow _ => exact .inl ⟨.error overflow, nofun, rfl⟩
      · exact .inl ⟨.ok false, nofun, rfl⟩
      · next time htime => exact .inr ⟨a, time, ha, hinside, htime, rfl⟩
    · exact .inl ⟨.ok false, nofun, rfl⟩

end Process

namespace Step

/-! ## Calls with their looks resolved -/

/-- What a call does once the actor was seen to have no task: it announces and does what its name
    stands for. -/
def dispatch (subroutine : String → Subroutine → List Value → Step Success) : Caller :=
  fun name args i e =>
    match Catalog.builtin.get? name with
    | some c =>
      Step.bind (announceCall name args .capability) (fun _ => callCapability c args) i e
    | none =>
      match offering? i e name with
      | some t =>
        Step.bind (announceCall name args .tileFunction) (fun _ => callTile t name) i e
      | none =>
        match i.subroutines.get? name with
        | some s =>
          Step.bind (announceCall name args .subroutine) (fun _ => subroutine name s args) i e
        | none => Step.fail (.functionNotFound name) i e

theorem callWith_eq (subroutine : String → Subroutine → List Value → Step Success) (name : String)
    (args : List Value) :
    callWith subroutine name args =
      Step.bind resync fun _ => Step.bind checkIdle fun _ => dispatch subroutine name args := by
  -- A name that is no capability is looked up on the tile and then in the script.
  have hother : (Step.bind Step.interpreter fun i => Step.bind Step.engine fun e =>
      match offering? i e name with
      | some t => Step.bind (announceCall name args .tileFunction) fun _ => callTile t name
      | none => Step.bind Step.interpreter fun i =>
        match i.subroutines.get? name with
        | some s => Step.bind (announceCall name args .subroutine) fun _ => subroutine name s args
        | none => Step.fail (.functionNotFound name)) = fun i e =>
      match offering? i e name with
      | some t => Step.bind (announceCall name args .tileFunction) (fun _ => callTile t name) i e
      | none =>
        match i.subroutines.get? name with
        | some s =>
          Step.bind (announceCall name args .subroutine) (fun _ => subroutine name s args) i e
        | none => Step.fail (.functionNotFound name) i e := by
    funext i e
    simp only [Step.bind, Step.interpreter, Step.engine, Process.andThen]
    cases offering? i e name with
    | some t => rfl
    | none =>
        cases hget : i.subroutines.get? name with
        | some s => simp only [Step.bind, Step.interpreter, Process.andThen, hget]
        | none => simp only [Step.bind, Step.interpreter, Process.andThen, hget]
  unfold callWith dispatch
  generalize Catalog.builtin.get? name = found
  cases found with
  | some c => rfl
  | none =>
      exact congrArg (fun rest => Step.bind resync fun _ => Step.bind checkIdle fun _ => rest)
        hother

/-- The part of what follows a call that takes its cost. -/
def charge (s : Success) : Step Unit :=
  match s.energyCost with
  | some cost => if 0 < cost then debit cost else Step.pure ()
  | none => Step.pure ()

/-- The part of what follows a call that pauses. -/
def pace (s : Success) : Step Unit :=
  match s.duration with
  | some duration => fun i =>
    ofProcess (Process.sleep (pacingPause duration i.settings.pacingCap * 1000000)) i
  | none => Step.pure ()

-- A look at the interpreter belongs to the step that it is for.
theorem interpreter_bind {α β : Type} (s : Interpreter → Step α) (next : α → Step β) :
    (Step.bind Step.interpreter fun i => Step.bind (s i) next) =
      Step.bind (fun i => s i i) next :=
  rfl

/-- What follows a call that succeeded is its cost, then its pace, and then what it came back with.
    -/
theorem settle_eq (s : Success) :
    settle s = Step.bind (charge s) fun _ => Step.bind (pace s) fun _ => Step.pure s := by
  have hpace : (match s.duration with
      | some duration => Step.bind Step.interpreter fun i =>
        Step.bind (ofProcess (Process.sleep (pacingPause duration i.settings.pacingCap * 1000000)))
          fun _ => Step.pure s
      | none => Step.pure s) = Step.bind (pace s) fun _ => Step.pure s := by
    unfold pace
    cases s.duration with
    | none => rfl
    | some duration =>
        exact interpreter_bind (fun i => ofProcess
          (Process.sleep (pacingPause duration i.settings.pacingCap * 1000000))) _
  rw [← hpace]
  unfold settle charge
  cases s.energyCost with
  | none => rfl
  | some cost =>
      simp only
      split <;> rfl

-- A number that fits is the answer of its step.
theorem counted_ok {α : Type} (a : α) : counted (.ok a) = Step.pure a :=
  rfl

/-- A capability first counts what it needs. If that cannot be counted, the call breaks off; if it
    is more than there is, the call fails; else the capability runs. -/
theorem callCapability_eq (c : Capability) (args : List Value) (i : Interpreter) (e : Engine) :
    callCapability c args i e =
      match c.energy.demand i.actor args with
      | .error overflow => Step.fail (.overflow overflow) i e
      | .ok required =>
        if i.actor.energy < required then
          Step.fail (.energyRequired c.name required i.actor.energy) i e
        else Step.bind (c.operation.run args) settle i e := by
  unfold callCapability
  simp only [Bind.bind, Step.bind, Step.interpreter, Process.andThen]
  cases c.energy.demand i.actor args with
  | error overflow => rfl
  | ok required =>
      simp only [counted_ok, Step.pure]
      split <;> rfl

/-- A function of a tile is called in one step, and what it comes back with is settled. -/
theorem callTile_eq (t : Tile) (name : String) (i : Interpreter) (e : Engine) :
    callTile t name i e =
      Step.bind (Step.ofExcept (e.invoke true i.actor.id t.id name).1) settle i
        (e.invoke true i.actor.id t.id name).2 :=
  rfl

/-- A motion is a process of the engine. The interpreter is the same after it. -/
theorem motion_eq (target : Position) (i : Interpreter) (e : Engine) :
    motion target i e = (Process.move i.actor.id target e).bind fun r e =>
      .done (r.mapError .overflow, i) e := by
  unfold motion
  simp only [Bind.bind, Step.bind, Step.interpreter, Process.andThen_eq_bind, Process.bind,
    Step.ofProcess, counted, Step.ofExcept]
  induction Process.move i.actor.id target e with
  | done r e => rfl
  | wait time e resume ih => exact congrArg (Process.wait time e) (funext ih)

/-- Before each tile of a walk the flag is read, and behind it whether the motion arrived. -/
theorem visit_cons (target : Position) (rest : List Position) :
    visit (target :: rest) =
      Step.bind checkRunning fun _ => Step.bind (motion target) fun arrived =>
        if arrived then visit rest else interruptedAt target :=
  rfl

/-- What a walk of some steps comes back with when it has arrived. -/
def arrive (steps : Nat) : Step Success :=
  fun i e => .done (.ok {
    message := some s!"Moved to {i.actor.position.render}"
    data := some i.actor.position.toValue
    energyCost := some (min (stepEnergy * steps) Integer.maxAmount) }, i) e

/-- A walk that leaves the world fails, one of no tiles is over, and any other is visited, after
    which the actor is looked at. -/
theorem walk_eq (path : List Position) (i : Interpreter) (e : Engine) :
    walk path i e =
      match path.find? fun p => !e.world.bounds.contains p with
      | some outside => Step.fail (.outsideWorld outside e.world.bounds) i e
      | none =>
        if path.isEmpty then
          Step.pure {
            message := some s!"Already at {i.actor.position.render}"
            data := some i.actor.position.toValue } i e
        else
          Step.bind (visit path) (fun _ => Step.bind resync fun _ => arrive path.length) i e := by
  unfold walk
  simp only [Bind.bind, Step.bind, Step.interpreter, Step.engine, Process.andThen]
  cases path.find? fun p => !e.world.bounds.contains p with
  | some outside => rfl
  | none =>
      simp only
      split <;> rfl

/-- The number of steps that a walk in a direction lays out. -/
def strideLength (bounds : Bounds) (steps : Int) : Nat :=
  let asked := min steps (max bounds.width bounds.height + 1)
  if Integer.isCoordinate asked then asked.toNat else 0

/-- A walk along a way, if its places fit. -/
def walkAlong (laid : Except Overflow (List Position)) : Step Success :=
  match laid with
  | .ok path => walk path
  | .error overflow => Step.fail (.overflow overflow)

/-- A walk in a direction is one along a line of as many steps as are laid out. -/
theorem stride_eq (direction : Direction) (steps : Int) (i : Interpreter) (e : Engine) :
    stride direction steps i e =
      walkAlong (i.actor.position.layLine direction.delta.1 direction.delta.2
        (strideLength e.world.bounds steps)) i e := by
  unfold stride strideLength
  simp only [Bind.bind, Step.bind, Step.interpreter, Step.engine, Process.andThen]
  generalize i.actor.position.layLine _ _ _ = laid
  cases laid with
  | ok path => rfl
  | error overflow => rfl

/-- A walk to a goal is one along the way that is laid out from where the actor was seen. -/
theorem walkTo_eq (goal : Position) (i : Interpreter) (e : Engine) :
    walkTo goal i e = walkAlong (i.actor.position.layOut goal) i e := by
  unfold walkTo
  simp only [Bind.bind, Step.bind, Step.interpreter, Process.andThen]
  cases i.actor.position.layOut goal with
  | ok path => rfl
  | error overflow => rfl

/-! ## Closed properties -/

/-- A property of steps that holds of what expressions are composed of besides their calls. -/
structure Simple (P : (α : Type) → Step α → Prop) : Prop where
  /-- Steps of the interpreter alone, without a look at the engine. They assign at most. Whether
      something of a name can be called is not seen without such a look. -/
  quiet {α : Type} (f : Interpreter → Except Failure α × Interpreter)
    (hassigned : ∀ i : Interpreter, i.Assigned (f i).2)
    (hfound : ∀ (i : Interpreter) (name : String), (f i).1 ≠ .error (.functionNotFound name)) :
    P α fun i e => .done (f i) e
  bind {α β : Type} {s : Step α} {next : α → Step β} (hs : P α s) (hnext : ∀ a, P β (next a)) :
    P β (Step.bind s next)

/-- A property of steps that holds of what statements are composed of besides their calls. -/
structure Composed (P : (α : Type) → Step α → Prop) : Prop extends Simple P where
  checkRunning : P Unit Step.checkRunning
  begins (s : Stmt) : P Unit (Step.bind Step.checkRunning fun _ => Step.announce s)

/-- A property of steps that holds of all that scripts are composed of. -/
structure Closed (P : (α : Type) → Step α → Prop) : Prop extends Composed P where
  call {subroutine : String → Subroutine → List Value → Step Success}
    (hsub : ∀ name s args, P Success (subroutine name s args)) (name : String)
    (args : List Value) : P Success (callWith subroutine name args)
  enter {body : Step Flow} (hbody : P Flow body) (name : String) (s : Subroutine)
    (args : List Value) : P Success (Step.enter name s args body)
  /-- Steps that depend on the interpreter. -/
  depending {α : Type} {s : Interpreter → Step α} (hs : ∀ i, P α (s i)) :
    P α fun i e => s i i e

/-- The calls of some names have a property. -/
def CallsHave (P : (α : Type) → Step α → Prop) (call : Caller) (names : List String) : Prop :=
  ∀ name ∈ names, ∀ args, P Success (call name args)

section

variable {P : (α : Type) → Step α → Prop} {call : Caller}

-- What holds of all calls holds of the first ones.
theorem CallsHave.left {first rest : List String} (h : CallsHave P call (first ++ rest)) :
    CallsHave P call first :=
  fun name hname => h name (List.mem_append_left _ hname)

-- It holds of those behind them as well.
theorem CallsHave.right {first rest : List String} (h : CallsHave P call (first ++ rest)) :
    CallsHave P call rest :=
  fun name hname => h name (List.mem_append_right _ hname)

-- Calls with the lines on which they stand.
theorem CallsHave.leftOf {first rest : List (Nat × String)}
    (h : CallsHave P call ((first ++ rest).map Prod.snd)) :
    CallsHave P call (first.map Prod.snd) := by
  rw [List.map_append] at h
  exact h.left

-- What holds of all calls holds of the last ones, also where they are listed with their lines.
theorem CallsHave.rightOf {first rest : List (Nat × String)}
    (h : CallsHave P call ((first ++ rest).map Prod.snd)) :
    CallsHave P call (rest.map Prod.snd) := by
  rw [List.map_append] at h
  exact h.right

-- All calls of an expression are listed with one line.
theorem CallsHave.onLine {line : Nat} {names : List String}
    (h : CallsHave P call ((names.map (line, ·)).map Prod.snd)) : CallsHave P call names := by
  rw [List.map_map] at h
  exact fun name hname => h name (List.mem_map_of_mem hname)

end

namespace Simple

variable {P : (α : Type) → Step α → Prop} {α β : Type}

-- The steps that scripts are written with, one after another.
private theorem andThen (hP : Simple P) {s : Step α} {next : α → Step β} (hs : P α s)
    (hnext : ∀ a, P β (next a)) : P β (s >>= next) :=
  hP.bind hs hnext

-- A value has every such property.
theorem pure (hP : Simple P) (a : α) : P α (Step.pure a) :=
  hP.quiet (fun i => (.ok a, i)) (fun _ => .still) fun _ _ => nofun

-- A failure has the property unless it says that a name was not found.
theorem fail (hP : Simple P) {f : Failure} (hfound : ∀ name, f ≠ .functionNotFound name) :
    P α (Step.fail f) :=
  hP.quiet (fun i => (.error f, i)) (fun _ => .still) fun _ name h =>
    hfound name (Except.error.inj h)

-- Operations on values fail in other ways.
theorem operation (hP : Simple P) (r : Except OperationError α) : P α (Step.operation r) := by
  cases r with
  | ok a => exact hP.pure a
  | error error => exact hP.fail fun _ => nofun

-- A name that is no variable stands for itself.
theorem readVariable (hP : Simple P) (name : String) : P Value (Step.readVariable name) :=
  hP.quiet (fun i => (.ok ((i.lookup? name).getD (.str name)), i)) (fun _ => .still)
    fun _ _ => nofun

-- A variable is written.
theorem assign (hP : Simple P) (name : String) (value : Value) :
    P Unit (Step.assign name value) :=
  hP.quiet (fun i => (.ok (), i.assign name value)) (fun _ => .assign name value)
    fun _ _ => nofun

-- The interpreter is looked at.
theorem interpreter (hP : Simple P) : P Interpreter Step.interpreter :=
  hP.quiet (fun i => (.ok i, i)) (fun _ => .still) fun _ _ => nofun

/-- An assignment by a sign reads the variable before, if the sign combines. -/
theorem assignWith (hP : Simple P) (name : String) (op : AssignOp) (value : Value) :
    P Unit (Step.assignWith name op value) := by
  cases op with
  | set => exact hP.assign name value
  | _ =>
      refine hP.andThen hP.interpreter fun i => ?_
      split
      · exact hP.andThen (hP.operation _) fun result => hP.assign name result
      · exact hP.fail fun _ => nofun

/-! ## Expressions -/

-- What an operator does with its operands.
theorem binary (hP : Simple P) (op : BinaryOp) (l : Value) {right : Step Value}
    (hright : P Value right) :
    P Value (match op with
      | .and => if l.truthy then right else Step.pure l
      | .or => if l.truthy then Step.pure l else right
      | op => Step.bind right fun r => Step.operation (Value.binary op l r)) := by
  have hoperation : ∀ op',
      P Value (Step.bind right fun r => Step.operation (Value.binary op' l r)) :=
    fun op' => hP.bind hright fun r => hP.operation _
  split
  · split
    · exact hright
    · exact hP.pure l
  · split
    · exact hP.pure l
    · exact hright
  · exact hoperation _

variable {call : Caller}

mutual

/-- Expressions have what their calls have. -/
theorem evaluate (hP : Simple P) :
    ∀ x : Expr, CallsHave P call x.calls → P Value (Farmhand.evaluate call x)
  | .lit value _, _ => hP.pure _
  | .var name _, _ => hP.readVariable name
  | .list items _, hcall => hP.andThen (evaluateAll hP items hcall) fun _ => hP.pure _
  | .index container position _, hcall =>
      hP.andThen (evaluate hP container hcall.left) fun _ =>
        hP.andThen (evaluate hP position hcall.right) fun _ => hP.operation _
  | .unary op operand _, hcall => hP.andThen (evaluate hP operand hcall) fun v => by
      cases op with
      | neg => exact hP.operation _
      | not => exact hP.pure _
  | .binary op left right _, hcall =>
      hP.andThen (evaluate hP left hcall.left) fun l =>
        hP.binary op l (evaluate hP right hcall.right)
  | .call name args _, hcall => hP.andThen (evaluateAll hP args hcall.left) fun values =>
      hP.andThen (hcall.right name (List.mem_singleton.mpr rfl) values) fun _ => hP.pure _

/-- Expressions one after the other have it. -/
theorem evaluateAll (hP : Simple P) : ∀ xs : List Expr, CallsHave P call (Expr.callsAll xs) →
    P (List Value) (Farmhand.evaluateAll call xs)
  | [], _ => hP.pure []
  | x :: rest, hcall => hP.andThen (evaluate hP x hcall.left) fun _ =>
      hP.andThen (evaluateAll hP rest hcall.right) fun _ => hP.pure _

end

end Simple

namespace Composed

variable {P : (α : Type) → Step α → Prop} {α : Type} {call : Caller}

/-! ## Loops -/

-- Behind its body a loop is over or goes on.
theorem afterBody (hP : Composed P) (flow : Flow) {goOn : Step Flow} (hgoOn : P Flow goOn) :
    P Flow (Step.afterBody flow goOn) := by
  cases flow with
  | normal => exact hgoOn
  | continued => exact hgoOn
  | broken => exact hP.pure _
  | returned v => exact hP.pure _

/-- A `while` loop has it if its condition and its body do. By induction on the turns that are left.
    -/
theorem whileLoop (hP : Composed P) (limit : Nat) {condition : Step Value} {body : Step Flow}
    (hcondition : P Value condition) (hbody : P Flow body) (left : Nat) :
    P Flow (Farmhand.whileLoop limit condition body left) := by
  induction left with
  | zero =>
      refine hP.bind hP.checkRunning fun _ => hP.bind hcondition fun v => ?_
      split
      · exact hP.fail fun _ => nofun
      · exact hP.pure _
  | succ left ih =>
      refine hP.bind hP.checkRunning fun _ => hP.bind hcondition fun v => ?_
      split
      · exact hP.bind hbody fun flow => hP.afterBody flow ih
      · exact hP.pure _

/-- A `for` loop has it if its body does. By induction on the values that are left. -/
theorem forLoop (hP : Composed P) (name : String) {body : Step Flow} (hbody : P Flow body)
    (values : List Value) : P Flow (Farmhand.forLoop name body values) := by
  induction values with
  | nil => exact hP.pure Flow.normal
  | cons v rest ih =>
      exact hP.bind hP.checkRunning fun _ => hP.bind (hP.assign name v) fun _ =>
        hP.bind hbody fun flow => hP.afterBody flow ih

/-! ## Statements -/

-- The look at whether it may go on and the announcement are one step in front of the others.
theorem begin_bind (s : Stmt) (next : Step α) :
    (Step.bind (Step.bind Step.checkRunning fun _ => Step.announce s) fun _ => next) =
      Step.bind Step.checkRunning fun _ => Step.bind (Step.announce s) fun _ => next := by
  funext i e
  by_cases hrunning : e.isRunning i.handle = true
  · simp only [Step.bind, Step.checkRunning, Process.andThen, hrunning, if_true]
  · simp only [Step.bind, Step.checkRunning, Process.andThen, hrunning]
    rfl

-- A statement begins, and goes on with what it does.
theorem statement (hP : Composed P) (s : Stmt) {next : Step α} (hnext : P α next) :
    P α (Step.bind Step.checkRunning fun _ => Step.bind (Step.announce s) fun _ => next) := by
  rw [← begin_bind]
  exact hP.bind (hP.begins s) fun _ => hnext

mutual

/-- Statements have it, by the recursion over them. -/
theorem runStmt (hP : Composed P) (limit : Nat) :
    ∀ s : Stmt, CallsHave P call (s.calls.map Prod.snd) → P Flow (Farmhand.runStmt call limit s)
  | .assign name op value span, hcall => hP.statement _ <|
      hP.andThen (hP.evaluate value hcall.onLine) fun v =>
        hP.andThen (hP.assignWith name op v) fun _ => hP.pure _
  | .expr value span, hcall => hP.statement _ <|
      hP.andThen (hP.evaluate value hcall.onLine) fun _ => hP.pure _
  | .cond branches otherwise span, hcall => by
      cases otherwise with
      | none => exact hP.statement _ (runBranches hP limit branches _ hcall.leftOf (hP.pure _))
      | some body =>
          exact hP.statement _ (runBranches hP limit branches _ hcall.leftOf
            (runBlock hP limit body hcall.rightOf))
  | .whileLoop condition body span, hcall => hP.statement _ <|
      hP.whileLoop limit (hP.evaluate condition hcall.leftOf.onLine)
        (runBlock hP limit body hcall.rightOf) limit
  | .forLoop name items body span, hcall => hP.statement _ <|
      hP.andThen (hP.evaluate items hcall.leftOf.onLine) fun v =>
        hP.andThen (hP.operation v.iterate) fun values =>
          hP.forLoop name (runBlock hP limit body hcall.rightOf) values
  | .returnWith none span, _ => hP.statement _ (hP.pure _)
  | .returnWith (some value) span, hcall => hP.statement _ <|
      hP.andThen (hP.evaluate value hcall.onLine) fun _ => hP.pure _
  | .breakLoop span, _ => hP.statement _ (hP.pure _)
  | .continueLoop span, _ => hP.statement _ (hP.pure _)
  | .pass span, _ => hP.statement _ (hP.pure _)
  | .skipped text span, _ => hP.statement _ (hP.pure _)

/-- So have branches: a condition, and then a body or the other branches. -/
theorem runBranches (hP : Composed P) (limit : Nat) {line : Nat} :
    ∀ (branches : List (Expr × List Stmt)) (otherwise : Step Flow),
      CallsHave P call ((Stmt.callsOfBranches line branches).map Prod.snd) → P Flow otherwise →
        P Flow (Farmhand.runBranches call limit branches otherwise)
  | [], _, _, hotherwise => hotherwise
  | (condition, body) :: rest, otherwise, hcall, hotherwise =>
      hP.andThen (hP.evaluate condition hcall.leftOf.leftOf.onLine) fun v => by
        have hbody := runBlock hP limit body hcall.leftOf.rightOf
        have hrest := runBranches hP limit rest otherwise hcall.rightOf hotherwise
        split
        · exact hbody
        · exact hrest

/-- Blocks have what their calls have. -/
theorem runBlock (hP : Composed P) (limit : Nat) :
    ∀ body : List Stmt, CallsHave P call ((Stmt.callsOfBlock body).map Prod.snd) →
      P Flow (Farmhand.runBlock call limit body)
  | [], _ => hP.pure _
  | s :: rest, hcall => hP.andThen (runStmt hP limit s hcall.leftOf) fun flow => by
      have hrest := runBlock hP limit rest hcall.rightOf
      cases flow with
      | normal => exact hrest
      | _ => exact hP.pure _

end

end Composed

/-! ## Calls -/

/-- Every call has a closed property. -/
theorem Closed.callAt {P : (α : Type) → Step α → Prop} (hP : Closed P) (depth : Nat)
    (name : String) (args : List Value) : P Success (Farmhand.callAt depth name args) := by
  -- By induction on the calls that may still begin inside each other.
  induction depth generalizing name args with
  | zero =>
      exact hP.call (fun _ _ _ =>
        hP.quiet (fun i => (.error (.callDepth i.settings.maxCallDepth), i)) (fun _ => .still)
          fun _ _ => nofun) name args
  | succ depth ih =>
      exact hP.call (fun name s args => hP.depending fun i =>
        hP.enter (hP.runBlock i.settings.maxLoopIterations s.body fun called _ => ih called)
          name s args) name args

end Step

end Farmhand
