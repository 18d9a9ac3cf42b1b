import Farmhand.Proofs.Machine.State

/-!
# What a Machine Stands For

Every state of the machine stands for a process: what is to be done next is a step of the evaluator,
and what is pending is what the evaluator would do with its result. A step of the machine does not
change what the state stands for, it only does the beginning of it. This module says so of the steps
that the interpreter takes by itself, in expressions and statements; calls follow in another one.

The calls that may still begin inside each other are not written in the state. The evaluator counts
them down, and the machine counts up the calls under way, so that a limit less the frames of the
interpreter is the evaluator's count.

## Main definitions

* `Machine.Control.step`, `Machine.Pending.step`: The steps of the evaluator that they stand for.
* `Machine.Stack.plug`: What becomes of a result.
* `Machine.process`: What a machine stands for.
* `Machine.Progress.process`: What is left of it after a step.

## Theorems

* `Process.bind_bind`, `Step.bind_bind`: One piece of work after another, twice.
* `Machine.process_ofExpr`, `Machine.process_ofStmt`: Expressions and statements.
* `Machine.process_resume`: What is pending, with the result that it waited for.
-/

namespace Farmhand

open Script

namespace Process

variable {α β γ : Type}

/-- One process after another, twice. -/
theorem bind_bind (p : Process α) (f : α → Engine → Process β) (g : β → Engine → Process γ) :
    (p.bind f).bind g = p.bind fun a e => (f a e).bind g := by
  induction p with
  | done a e => rfl
  | wait time e resume ih =>
      simp only [bind]
      exact congrArg (wait time e) (funext ih)

theorem bind_done (p : Process α) : p.bind done = p := by
  induction p with
  | done a e => rfl
  | wait time e resume ih =>
      simp only [bind]
      exact congrArg (wait time e) (funext ih)

end Process

namespace Step

variable {α β γ : Type}

-- One step after another, for one interpreter and one engine.
theorem bind_apply (s : Step α) (next : α → Step β) (i : Interpreter) (e : Engine) :
    Step.bind s next i e = (s i e).bind fun r e =>
      match r.1 with
      | .ok a => next a r.2 e
      | .error f => .done (.error f, r.2) e := by
  unfold Step.bind
  exact Process.andThen_eq_bind _ _

/-- One step after another, twice. -/
theorem bind_bind (s : Step α) (f : α → Step β) (g : β → Step γ) :
    Step.bind (Step.bind s f) g = Step.bind s fun a => Step.bind (f a) g := by
  funext i e
  rw [bind_apply, bind_apply, bind_apply, Process.bind_bind]
  refine congrArg (s i e).bind (funext fun r => funext fun e => ?_)
  rcases r with ⟨f | a, j⟩
  · rfl
  · exact (bind_apply (f a) g j e).symm

theorem pure_bind (a : α) (next : α → Step β) : Step.bind (Step.pure a) next = next a :=
  rfl

end Step

/-- What is done for a subroutine, with the number of calls that may still begin inside each
    other. -/
def subroutineAt : Nat → String → Subroutine → List Value → Step Success
  | 0 => fun _ _ _ => Step.tooDeep
  | depth + 1 => fun name s args i e =>
    Step.enter name s args (runBlock (callAt depth) i.settings.maxLoopIterations s.body) i e

-- The count of calls is used up by subroutines only.
theorem callAt_eq (depth : Nat) : callAt depth = Step.callWith (subroutineAt depth) := by
  cases depth with
  | zero => rfl
  | succ depth => rfl

namespace Machine

variable (S : Settings) (n : Nat)

/-- Calls with some calls under way. -/
def calls : Caller :=
  callAt (S.maxCallDepth - n)

/-- The block of a conditional for the case that no condition holds. -/
def otherwiseStep (otherwise : Option Block) : Step Flow :=
  match otherwise with
  | some body => runBlock (calls S n) S.maxLoopIterations body
  | none => Step.pure .normal

/-- A unary operator with its operand. -/
def unaryStep (op : UnaryOp) (v : Value) : Step Value :=
  match op with
  | .neg => Step.operation v.negate
  | .not => Step.pure (.bool (!v.truthy))

/-- A binary operator with its first operand. -/
def binaryStep (op : BinaryOp) (l : Value) (right : Expr) : Step Value :=
  match op with
  | .and => if l.truthy then evaluate (calls S n) right else Step.pure l
  | .or => if l.truthy then Step.pure l else evaluate (calls S n) right
  | op => Step.bind (evaluate (calls S n) right) fun r => Step.operation (Value.binary op l r)

/-- A loop whose body has run some number of times. -/
def whileStep (condition : Expr) (body : Block) (turns : Nat) : Step Flow :=
  whileLoop S.maxLoopIterations (evaluate (calls S n) condition)
    (runBlock (calls S n) S.maxLoopIterations body) (S.maxLoopIterations - turns)

/-- A loop whose body has run some number of times, with the value of its condition. -/
def turnStep (condition : Expr) (body : Block) (turns : Nat) (v : Value) : Step Flow :=
  if v.truthy then
    if S.maxLoopIterations ≤ turns then Step.fail (.loopLimit S.maxLoopIterations)
    else Step.bind (runBlock (calls S n) S.maxLoopIterations body) fun flow =>
      Step.afterBody flow (whileStep S n condition body (turns + 1))
  else Step.pure .normal

/-- A loop over the rest of its values. -/
def forStep (name : String) (body : Block) (values : List Value) : Step Flow :=
  forLoop name (runBlock (calls S n) S.maxLoopIterations body) values

/-- The rest of a walk, and what follows it. -/
def visitStep (path : List Position) (steps : Nat) : Step Success :=
  Step.bind (Step.visit path) fun _ => Step.bind Step.resync fun _ =>
    Step.bind (Step.arrive steps) Step.settle

/-- The end of a motion that began in some epoch of motion. -/
def landing (epoch : Nat) (target : Position) : Step Bool :=
  fun i e =>
    if e.motionEpoch = epoch then
      match e.world.updateActor i.actor.id { position := some target } with
      | .ok world => .done (.ok true, i) { e with world }
      | .error _ => .done (.ok false, i) e
    else .done (.ok false, i) e

/-- The rest of a walk after a motion, whether it arrived or not. -/
def walkOn (target : Position) (rest : List Position) (steps : Nat) (arrived : Bool) :
    Step Success :=
  if arrived then visitStep rest steps
  else Step.bind (Step.interruptedAt target) fun _ => Step.bind Step.resync fun _ =>
    Step.bind (Step.arrive steps) Step.settle

/-- The step of the evaluator for what is to be done next. -/
def Control.step {k : Kind} : Control k → Step k.Result
  | .job j => j.step
  | .evaluate x => Farmhand.evaluate (calls S n) x
  | .execute s => runStmt (calls S n) S.maxLoopIterations s
  | .block body => runBlock (calls S n) S.maxLoopIterations body
  | .branches rest otherwise =>
    runBranches (calls S n) S.maxLoopIterations rest (otherwiseStep S n otherwise)
  | .whileLoop condition body turns => whileStep S n condition body turns
  | .forLoop name body values => forStep S n name body values
  | .call name args => calls S n name args
  | .capability c args => Step.callCapability c args
  | .tileFunction t name => Step.callTile t name
  | .subroutine name s args => subroutineAt (S.maxCallDepth - n) name s args
  | .visit path steps => visitStep path steps
  | .arrive epoch target rest steps =>
    Step.bind (landing epoch target) (walkOn target rest steps)
  | .settle s => Step.settle s
  | .back result => Step.ofExcept result

/-- The step of the evaluator with the result that was waited for. -/
def Pending.step {k l : Kind} (p : Pending k l) (a : k.Result) : Step l.Result :=
  match p, a with
  | .items done rest, v => Step.bind (evaluateAll (calls S n) rest) fun values =>
      Step.pure (.list (done ++ v :: values))
  | .arguments name done rest, v => Step.bind (evaluateAll (calls S n) rest) fun values =>
      Step.bind (calls S n name (done ++ v :: values)) fun s => Step.pure (s.data.getD .none)
  | .container x, whole => Step.bind (Farmhand.evaluate (calls S n) x) fun v =>
      Step.operation (whole.index v)
  | .position whole, v => Step.operation (whole.index v)
  | .operand op, v => unaryStep op v
  | .left op x, l => binaryStep S n op l x
  | .right op l, r => Step.operation (Value.binary op l r)
  | .answer, s => Step.pure (s.data.getD .none)
  | .assigned name op, v => Step.bind (Step.assignWith name op v) fun _ => Step.pure .normal
  | .discarded, _ => Step.pure .normal
  | .branch body rest otherwise, v =>
    if v.truthy then runBlock (calls S n) S.maxLoopIterations body
    else runBranches (calls S n) S.maxLoopIterations rest (otherwiseStep S n otherwise)
  | .whileTest condition body turns, v => turnStep S n condition body turns v
  | .whileBody condition body turns, flow =>
    Step.afterBody flow (whileStep S n condition body (turns + 1))
  | .iterated name body, v => Step.bind (Step.operation v.iterate) (forStep S n name body)
  | .forBody name body rest, flow => Step.afterBody flow (forStep S n name body rest)
  | .returned, v => Step.pure (.returned v)
  | .sequence rest, flow =>
    match flow with
    | .normal => runBlock (calls S n) S.maxLoopIterations rest
    | flow => Step.pure flow

/-- What becomes of a result with some calls under way. -/
def Stack.plug {k : Kind} (n : Nat) (stack : Stack k) (r : Except Failure k.Result × Interpreter)
    (e : Engine) : Process (Outcome × Interpreter) :=
  match stack, r with
  | .last, r => .done r e
  | .main actor rest, (outcome, i) =>
    Stack.plug n rest (outcome, i) (endRun actor i.handle outcome e)
  | .pend p rest, (.ok a, i) => (p.step S n a i e).bind (Stack.plug n rest)
  | .pend _ rest, (.error f, i) => Stack.plug n rest (.error f, i) e
  | .body name rest, (.ok flow, i) =>
    Stack.plug (n - 1) rest (Step.ofFlow name flow, Step.leave i) e
  | .body _ rest, (.error f, i) => Stack.plug (n - 1) rest (.error f, Step.leave i) e

/-- A step of the evaluator with all that is pending around it. -/
def Stack.around {k : Kind} (stack : Stack k) (s : Step k.Result) : Step Success :=
  fun i e => (s i e).bind (stack.plug i.settings i.frames.length)

/-- What a machine stands for. -/
def process (m : Machine) (e : Engine) : Process (Outcome × Interpreter) :=
  m.stack.around (m.control.step m.interpreter.settings m.interpreter.frames.length)
    m.interpreter e

/-- What is left of a machine after a step. -/
def Progress.process : Progress → Process (Outcome × Interpreter)
  | on m e => m.process e
  | wait time m e => .wait time e m.process
  | halt outcome i e => .done (outcome, i) e

/-! ## What is pending -/

-- A result in an interpreter of the same limits and calls goes to the same.
theorem process_ofResult {k : Kind} {r : Except Failure k.Result} {stack : Stack k}
    {i j : Interpreter} (hsettings : j.settings = i.settings)
    (hframes : j.frames.length = i.frames.length) (e : Engine) :
    (ofResult stack j r).process e = stack.plug i.settings i.frames.length (r, j) e := by
  rw [← hsettings, ← hframes]
  rfl

/-- What is set aside is done with the result: the machine stands for one step after the other. -/
theorem process_pend {k l : Kind} (c : Control k) (p : Pending k l) (stack : Stack l)
    (i : Interpreter) (e : Engine) :
    process ⟨k, c, .pend p stack, i⟩ e =
      stack.around (Step.bind (c.step i.settings i.frames.length)
        (p.step i.settings i.frames.length)) i e := by
  unfold process Stack.around
  rw [Step.bind_apply, Process.bind_bind]
  refine congrArg (Process.bind _) (funext fun r => funext fun e => ?_)
  rcases r with ⟨f | a, j⟩ <;> rfl

section

variable {k : Kind} (stack : Stack k) (i : Interpreter) (e : Engine)

-- An operation on values leaves the interpreter alone.
theorem process_ofOperation (r : Except OperationError k.Result) :
    (ofOperation stack i r).process e = stack.around (Step.operation r) i e := by
  cases r with
  | ok a => rfl
  | error error => rfl

end

/-! ## Expressions -/

section

variable (stack : Stack .value) (i : Interpreter) (e : Engine)

/-- The items that are done stand in front of those that are still to be evaluated. -/
theorem process_ofItems (done : List Value) (xs : List Expr) :
    (ofItems stack i done xs).process e =
      stack.around (Step.bind (evaluateAll (calls i.settings i.frames.length) xs) fun values =>
        Step.pure (.list (done ++ values))) i e := by
  cases xs with
  | nil =>
      rw [evaluateAll, Step.pure_bind, List.append_nil]
      rfl
  | cons x rest =>
      rw [evaluateAll]
      simp only [Bind.bind, Pure.pure, Step.bind_bind, Step.pure_bind]
      exact process_pend _ _ _ _ _

/-- The arguments that are done stand in front of the others, and behind the last one the call
    begins. -/
theorem process_ofArguments (name : String) (done : List Value) (xs : List Expr) :
    (ofArguments stack i name done xs).process e =
      stack.around (Step.bind (evaluateAll (calls i.settings i.frames.length) xs) fun values =>
        Step.bind (calls i.settings i.frames.length name (done ++ values)) fun s =>
          Step.pure (s.data.getD .none)) i e := by
  cases xs with
  | nil =>
      rw [evaluateAll, Step.pure_bind, List.append_nil]
      exact process_pend _ _ _ _ _
  | cons x rest =>
      rw [evaluateAll]
      simp only [Bind.bind, Pure.pure, Step.bind_bind, Step.pure_bind]
      exact process_pend _ _ _ _ _

/-- An expression, by its kind. What it sets aside is what the evaluator does with the first result.
    -/
theorem process_ofExpr (x : Expr) :
    (ofExpr stack i x).process e =
      stack.around (evaluate (calls i.settings i.frames.length) x) i e := by
  cases x with
  | lit value span => rfl
  | var name span => rfl
  | list items span => exact process_ofItems stack i e [] items
  | index container position span => exact process_pend _ _ _ _ _
  | unary op operand span => exact process_pend _ _ _ _ _
  | binary op left right span => exact process_pend _ _ _ _ _
  | call name args span => exact process_ofArguments stack i e name [] args

theorem process_ofUnary (op : UnaryOp) (v : Value) :
    (ofUnary stack i v op).process e = stack.around (unaryStep op v) i e := by
  cases op with
  | neg => exact process_ofOperation stack i e v.negate
  | not => rfl

-- A word between two conditions does not always look at the second one.
theorem process_ofBinary (op : BinaryOp) (l : Value) (right : Expr) :
    (ofBinary stack i op l right).process e =
      stack.around (binaryStep i.settings i.frames.length op l right) i e := by
  cases op with
  | and =>
      simp only [ofBinary, binaryStep]
      split <;> rfl
  | or =>
      simp only [ofBinary, binaryStep]
      split <;> rfl
  | _ => exact process_pend _ _ _ _ _

end

/-! ## Statements -/

-- An assignment opens no frame, so no more calls are under way than before.
theorem frames_length_assign (i : Interpreter) (name : String) (v : Value) :
    (i.assign name v).frames.length = i.frames.length := by
  unfold Interpreter.assign
  cases hframes : i.frames with
  | nil => simp only [List.length_nil]
  | cons frame rest =>
      cases hlocals : frame.locals with
      | none => simp only [hlocals]
      | some locals => simp only [hlocals, List.length_cons]

-- Combining with what a name has is an assignment in the end.
theorem combinedWith_eq_ok {i j : Interpreter} {name : String} {operator : BinaryOp} {v : Value}
    (h : combinedWith i name operator v = .ok j) : ∃ result, j = i.assign name result := by
  unfold combinedWith at h
  split at h
  · split at h
    · exact ⟨_, (Except.ok.inj h).symm⟩
    · cases h
  · cases h

-- An assignment by a sign assigns something.
theorem assignedWith_eq_ok {i j : Interpreter} {name : String} {op : AssignOp} {v : Value}
    (h : assignedWith i name op v = .ok j) : ∃ result, j = i.assign name result := by
  cases op with
  | set => exact ⟨v, (Except.ok.inj h).symm⟩
  | add => exact combinedWith_eq_ok h
  | sub => exact combinedWith_eq_ok h

/-- The interpreter after a step of its own, or the failure of that. -/
def changed (r : Except Failure Interpreter) : Step Unit :=
  fun i e =>
    match r with
    | .ok j => .done (.ok (), j) e
    | .error f => .done (.error f, i) e

/-- An assignment changes the interpreter only, or it fails. -/
theorem assignWith_eq (i : Interpreter) (name : String) (op : AssignOp) (v : Value) (e : Engine) :
    Step.assignWith name op v i e = changed (assignedWith i name op v) i e := by
  cases op with
  | set => rfl
  | _ =>
      simp only [Step.assignWith, bind, Step.bind, Step.interpreter, Process.andThen,
        assignedWith, combinedWith]
      cases i.lookup? name with
      | none => rfl
      | some current =>
          simp only
          generalize Value.binary _ current v = combined
          cases combined with
          | ok result => rfl
          | error error => rfl

section

variable (stack : Stack .flow) (i : Interpreter) (e : Engine)

-- What the body of a loop comes to decides whether the loop goes on.
theorem process_ofAfterBody (flow : Flow) (goOn : Control .flow) :
    (ofAfterBody stack i flow goOn).process e =
      stack.around (Step.afterBody flow (goOn.step i.settings i.frames.length)) i e := by
  cases flow with
  | _ => rfl

/-- A block stands for its statements, one after the other. -/
theorem process_ofBlock (body : Block) :
    (ofBlock stack i body).process e =
      stack.around (runBlock (calls i.settings i.frames.length) i.settings.maxLoopIterations
        body) i e := by
  cases body with
  | nil => rfl
  | cons s rest => exact process_pend _ _ _ _ _

/-- A conditional stands for its branches, one after the other. -/
theorem process_ofBranches (rest : List (Expr × Block)) (otherwise : Option Block) :
    (ofBranches stack i rest otherwise).process e =
      stack.around (runBranches (calls i.settings i.frames.length) i.settings.maxLoopIterations
        rest (otherwiseStep i.settings i.frames.length otherwise)) i e := by
  cases rest with
  | cons branch rest => exact process_pend _ _ _ _ _
  | nil =>
      cases otherwise with
      | some body => rfl
      | none => rfl

-- A statement begins only in an interpreter that may go on.
theorem bind_checkRunning {α : Type} {i : Interpreter} {e : Engine}
    (hrunning : e.isRunning i.handle = true) (next : Unit → Step α) :
    Step.bind Step.checkRunning next i e = next () i e := by
  simp only [Step.bind, Step.checkRunning, Process.andThen, hrunning, if_true]

-- An interpreter that was stopped fails here, and does nothing behind it.
theorem bind_checkRunning_of_not {α : Type} {i : Interpreter} {e : Engine}
    (hstopped : ¬ e.isRunning i.handle = true) (next : Unit → Step α) :
    Step.bind Step.checkRunning next i e = Step.fail .stopped i e := by
  simp only [Step.bind, Step.checkRunning, Process.andThen, hstopped]
  rfl

-- An announcement is one event, and the interpreter stays as it is.
theorem bind_announce {α : Type} (s : Stmt) (next : Unit → Step α) (i : Interpreter) (e : Engine) :
    Step.bind (Step.announce s) next i e = next () i (e.emit (announcement i s)) := by
  simp only [Step.bind, Step.announce, Process.andThen, announcement]
  cases i.frames with
  | nil => rfl
  | cons frame rest => rfl

-- A step that looks at the flag first, with all that is pending around it.
theorem around_checkRunning {k : Kind} (stack : Stack k) (i : Interpreter) (e : Engine)
    (next : Unit → Step k.Result) :
    stack.around (Step.bind Step.checkRunning next) i e =
      if e.isRunning i.handle then stack.around (next ()) i e
      else (ofResult stack i (.error .stopped)).process e := by
  unfold Stack.around
  split
  · next hrunning => rw [bind_checkRunning hrunning]
  · next hstopped =>
    rw [bind_checkRunning_of_not hstopped]
    rfl

-- An announcement is one event, also with all that is pending around it.
theorem around_announce {k : Kind} (stack : Stack k) (i : Interpreter) (e : Engine) (s : Stmt)
    (next : Unit → Step k.Result) :
    stack.around (Step.bind (Step.announce s) next) i e =
      stack.around (next ()) i (e.emit (announcement i s)) := by
  unfold Stack.around
  rw [bind_announce]

-- What is left of a statement that was announced.
theorem process_ofStmt (s : Stmt) :
    stack.around (runStmt (calls i.settings i.frames.length) i.settings.maxLoopIterations s) i e =
      if e.isRunning i.handle then (ofStmt stack i s).process (e.emit (announcement i s))
      else (ofResult stack i (.error .stopped)).process e := by
  -- Every statement looks at the flag and is announced in front of what it does.
  have hbegun : ∀ next : Step Flow,
      (ofStmt stack i s).process (e.emit (announcement i s)) =
        stack.around next i (e.emit (announcement i s)) →
      stack.around (Step.bind Step.checkRunning fun _ => Step.bind (Step.announce s) fun _ =>
          next) i e =
        if e.isRunning i.handle then (ofStmt stack i s).process (e.emit (announcement i s))
        else (ofResult stack i (.error .stopped)).process e := by
    intro next hnext
    rw [around_checkRunning, around_announce, hnext]
  cases s with
  | assign name op value span => exact hbegun _ (process_pend _ _ _ _ _)
  | expr value span => exact hbegun _ (process_pend _ _ _ _ _)
  | cond branches otherwise span =>
      cases otherwise with
      | some body => exact hbegun _ rfl
      | none => exact hbegun _ rfl
  | whileLoop condition body span => exact hbegun _ rfl
  | forLoop name items body span => exact hbegun _ (process_pend _ _ _ _ _)
  | returnWith value span =>
      cases value with
      | some x => exact hbegun _ (process_pend _ _ _ _ _)
      | none => exact hbegun _ rfl
  | breakLoop span => exact hbegun _ rfl
  | continueLoop span => exact hbegun _ rfl
  | pass span => exact hbegun _ rfl
  | skipped text span => exact hbegun _ rfl

-- One more turn of a loop, as far as its condition.
theorem whileStep_eq (S : Settings) (n : Nat) (condition : Expr) (body : Block) (turns : Nat) :
    whileStep S n condition body turns =
      Step.bind Step.checkRunning fun _ => Step.bind (evaluate (calls S n) condition)
        (turnStep S n condition body turns) := by
  unfold turnStep whileStep
  by_cases hlimit : S.maxLoopIterations ≤ turns
  · rw [Nat.sub_eq_zero_of_le hlimit]
    simp only [hlimit, if_true]
    rfl
  · have hleft : S.maxLoopIterations - turns = S.maxLoopIterations - (turns + 1) + 1 := by omega
    rw [hleft]
    simp only [hlimit, if_false]
    rfl

end

/-- What is done with a result that was waited for. -/
theorem process_resume {k l : Kind} (p : Pending k l) (a : k.Result) (stack : Stack l)
    (i : Interpreter) (e : Engine) :
    (p.resume a stack i).process e =
      stack.around (p.step i.settings i.frames.length a) i e := by
  cases p with
  | items done rest =>
      have h := process_ofItems stack i e (done ++ [a]) rest
      simp only [List.append_assoc, List.singleton_append] at h
      exact h
  | arguments name done rest =>
      have h := process_ofArguments stack i e name (done ++ [a]) rest
      simp only [List.append_assoc, List.singleton_append] at h
      exact h
  | container x => exact process_pend _ _ _ _ _
  | position whole => exact process_ofOperation stack i e (Value.index whole a)
  | operand op => exact process_ofUnary stack i e op a
  | left op x => exact process_ofBinary stack i e op a x
  | right op l => exact process_ofOperation stack i e (Value.binary op l a)
  | answer => rfl
  | discarded => rfl
  | returned => rfl
  -- An assignment may refuse the value, and no call is opened or left by it.
  | assigned name op =>
      have hstep : stack.around (Step.bind (Step.assignWith name op a) fun _ =>
          Step.pure .normal) i e =
          stack.around (Step.bind (changed (assignedWith i name op a)) fun _ =>
            Step.pure .normal) i e := by
        unfold Stack.around
        rw [Step.bind_apply, Step.bind_apply, assignWith_eq]
      refine Eq.trans ?_ hstep.symm
      simp only [Pending.resume]
      split
      · next j hj =>
        rcases assignedWith_eq_ok hj with ⟨result, rfl⟩
        rw [hj]
        exact process_ofResult (i.kin_assign name result).settings
          (frames_length_assign i name result) e
      · next f hf =>
        rw [hf]
        rfl
  | branch body rest otherwise =>
      simp only [Pending.resume, Pending.step]
      split <;> rfl
  | whileTest condition body turns =>
      simp only [Pending.resume, Pending.step, turnStep]
      split
      · split
        · rfl
        · exact process_pend _ _ _ _ _
      · rfl
  | whileBody condition body turns =>
      exact process_ofAfterBody stack i e a (.whileLoop condition body (turns + 1))
  | iterated name body =>
      simp only [Pending.resume, Pending.step]
      split
      · next values hvalues =>
        rw [hvalues]
        rfl
      · next error herror =>
        rw [herror]
        rfl
  | forBody name body rest => exact process_ofAfterBody stack i e a (.forLoop name body rest)
  | sequence rest =>
      cases a with
      | _ => rfl

end Machine

end Farmhand
