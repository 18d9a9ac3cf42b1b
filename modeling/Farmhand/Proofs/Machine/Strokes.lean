import Farmhand.Proofs.Interpreter.Missing
import Farmhand.Proofs.Machine.Ending

/-!
# Steps over the Stack

What a step of the machine does to the stack and to the calls under way. Most steps leave both
as they are, or put something more on the stack: what they do next is for the sake of what was
pending before. Only a result takes something off, and only one thing at a time. The calls under way
change where a subroutine is entered and where it is left, and nowhere else.

So while something is done, all that was pending when it began stays below it on the stack, until
its result is there. And a failure by a limit arises in two kinds of steps only, the call of a
subroutine and the test of a loop; every other failure by a limit was one before the step. The same
holds of the end of the program at a number that does not fit: it arises where such a number is to
be computed.

## Main definitions

* `Failure.IsSingular`: A failure by a limit, or at a number that does not fit.
* `Machine.Stack.Below`: A stack is what was pending below another one.
* `Machine.Fails`, `Machine.Raises`: A failure is there, and it arises in a step.
* `Machine.Tops`: A machine with nothing taken off a stack, and as many calls under way.
* `Machine.Stroke`: What a step may be.

## Theorems

* `Machine.tops_resume`: A result takes off the stack what was waiting for it, and not more.
* `Machine.stroke_next`: Every step is a stroke.
* `Machine.Stroke.below`: What is pending below stays there until its result is there.
* `Machine.Stroke.raises`: Where such a failure arises.
-/

namespace Farmhand

open Script

/-- A failure that arises in steps of few kinds: by a limit of the interpreter, or at a number that
    does not fit. -/
def Failure.IsSingular : Failure → Prop
  | loopLimit _ => True
  | callDepth _ => True
  | overflow _ => True
  | _ => False

-- Functions of tiles know no limits, and do not move anybody.
theorem Failure.OfTile.spares {f : Failure} (h : f.OfTile) : ¬ f.IsSingular := by
  cases f with
  | loopLimit limit => exact fun _ => h
  | callDepth limit => exact fun _ => h
  | overflow overflow => exact fun _ => h
  | _ => exact id

namespace Machine

/-- What was pending below a stack. -/
inductive Stack.Below {l : Kind} (base : Stack l) : {k : Kind} → Stack k → Prop
  | same : Below base base
  | main (actor : String) {rest : Stack .success} (h : Below base rest) :
      Below base (.main actor rest)
  | pend {k k' : Kind} (p : Pending k k') {rest : Stack k'} (h : Below base rest) :
      Below base (.pend p rest)
  | body (name : String) {rest : Stack .success} (h : Below base rest) :
      Below base (.body name rest)

/-- The number of things that are pending. -/
def Stack.height {k : Kind} : Stack k → Nat
  | .last => 0
  | .main _ rest => rest.height + 1
  | .pend _ rest => rest.height + 1
  | .body _ rest => rest.height + 1

/-- Whether there is a result and nothing to be done. -/
def Control.isBack {k : Kind} : Control k → Bool
  | .back _ => true
  | _ => false

/-- A failure has come back. -/
def Fails (f : Failure) (m : Machine) : Prop :=
  m.control = .back (.error f)

/-- A failure is there after a step, and before the step there was none. -/
structure Raises (m : Machine) (f : Failure) (m' : Machine) : Prop where
  before : ∀ g, ¬ m.Fails g
  after : m'.Fails f

/-- A machine that has taken nothing off a stack, with some limits and some number of calls under
    way, where no limit has been reached and every number fits. -/
structure Tops (S : Settings) (n : Nat) {k : Kind} (stack : Stack k) (m : Machine) : Prop where
  below : stack.Below m.stack
  within : Within S n m.interpreter
  spares : ∀ f, m.Fails f → ¬ f.IsSingular

variable {S : Settings} {n : Nat} {k l : Kind}

-- What is pending below what is pending below.
theorem Stack.Below.trans {k' : Kind} {base : Stack l} {middle : Stack k'} {stack : Stack k}
    (h : base.Below middle) (h' : middle.Below stack) : base.Below stack := by
  induction h' with
  | same => exact h
  | main actor _ ih => exact .main actor ih
  | pend p _ ih => exact .pend p ih
  | body name _ ih => exact .body name ih

-- A stack is no higher than one that it is below.
theorem Stack.Below.height_le {base : Stack l} {stack : Stack k} (h : base.Below stack) :
    base.height ≤ stack.height := by
  induction h with
  | same => exact Nat.le_refl _
  | main actor _ ih => exact Nat.le_succ_of_le ih
  | pend p _ ih => exact Nat.le_succ_of_le ih
  | body name _ ih => exact Nat.le_succ_of_le ih

-- What has more pending is not below.
theorem Stack.not_below {base : Stack l} {stack : Stack k} (h : stack.height < base.height) :
    ¬ base.Below stack :=
  fun hbelow => absurd hbelow.height_le (Nat.not_le_of_lt h)

section

variable {stack : Stack k} {i : Interpreter}

-- Something else to be done is no failure.
theorem tops_control (hi : Within S n i) (c : Control k) (hc : c.isBack = false) :
    Tops S n stack ⟨k, c, stack, i⟩ := by
  refine ⟨.same, hi, fun f hf => ?_⟩
  rw [show c = .back (.error f) from hf] at hc
  cases hc

-- A result that is no failure reaches no limit.
theorem tops_ofOk (hi : Within S n i) (a : k.Result) :
    Tops S n stack (ofResult stack i (.ok a)) :=
  ⟨.same, hi, fun _ hf => by cases Control.back.inj hf⟩

-- Any failure may come back here but those that one kind of step alone can make.
theorem tops_ofError (hi : Within S n i) {f : Failure} (hf : ¬ f.IsSingular) :
    Tops S n stack (ofResult stack i (.error f)) :=
  ⟨.same, hi, fun _ h => Except.error.inj (Control.back.inj h) ▸ hf⟩

-- Operations on values fail in other ways.
theorem tops_ofOperation (hi : Within S n i) (r : Except OperationError k.Result) :
    Tops S n stack (ofOperation stack i r) := by
  cases r with
  | ok a => exact tops_ofOk hi a
  | error error => exact tops_ofError hi id

-- What takes nothing off a higher stack takes nothing off the lower one.
theorem Tops.above {stack' : Stack l} {m : Machine} (h : Tops S n stack' m)
    (hbelow : stack.Below stack') : Tops S n stack m :=
  ⟨hbelow.trans h.below, h.within, h.spares⟩

-- In particular if one thing more was put on the stack.
theorem Tops.pend {p : Pending l k} {m : Machine} (h : Tops S n (Stack.pend p stack) m) :
    Tops S n stack m :=
  h.above (.pend p .same)

end

/-! ## Expressions -/

section

variable {stack : Stack .value} {i : Interpreter} (hi : Within S n i)

include hi

-- An expression is evaluated on top of what is pending.
theorem tops_evaluate (x : Expr) : Tops S n stack ⟨_, .evaluate x, stack, i⟩ :=
  tops_control hi (.evaluate x) rfl

-- Items are evaluated on top of the list that waits for them.
theorem tops_ofItems (done : List Value) (xs : List Expr) :
    Tops S n stack (ofItems stack i done xs) := by
  cases xs with
  | nil => exact tops_ofOk hi _
  | cons x rest => exact (tops_evaluate hi x).pend

-- Arguments are evaluated on top of the call that waits for them.
theorem tops_ofArguments (name : String) (done : List Value) (xs : List Expr) :
    Tops S n stack (ofArguments stack i name done xs) := by
  cases xs with
  | nil => exact (tops_control hi (.call name done) rfl).pend
  | cons x rest => exact (tops_evaluate hi x).pend

/-- An expression puts on the stack what waits for its parts. -/
theorem tops_ofExpr (x : Expr) : Tops S n stack (ofExpr stack i x) := by
  cases x with
  | lit value span => exact tops_ofOk hi _
  | var name span => exact tops_ofOk hi _
  | list items span => exact tops_ofItems hi [] items
  | index container position span => exact (tops_evaluate hi container).pend
  | unary op operand span => exact (tops_evaluate hi operand).pend
  | binary op left right span => exact (tops_evaluate hi left).pend
  | call name args span => exact tops_ofArguments hi name [] args

-- Between its operands an operator waits for the second, or has its result.
theorem tops_ofBinary (op : BinaryOp) (l : Value) (right : Expr) :
    Tops S n stack (ofBinary stack i op l right) := by
  unfold ofBinary
  split
  · split
    · exact tops_evaluate hi right
    · exact tops_ofOk hi _
  · split
    · exact tops_ofOk hi _
    · exact tops_evaluate hi right
  · exact (tops_evaluate hi right).pend

end

/-! ## Statements -/

section

variable {stack : Stack .flow} {i : Interpreter} (hi : Within S n i)

include hi

-- A block is done on top of what is pending.
theorem tops_block (body : Block) : Tops S n stack ⟨_, .block body, stack, i⟩ :=
  tops_control hi (.block body) rfl

/-- A statement puts on the stack what waits for its value. -/
theorem tops_ofStmt (s : Stmt) : Tops S n stack (ofStmt stack i s) := by
  cases s with
  | assign name op value span => exact (tops_evaluate hi value).pend
  | expr value span => exact (tops_evaluate hi value).pend
  | cond branches otherwise span => exact tops_control hi (.branches branches otherwise) rfl
  | whileLoop condition body span => exact tops_control hi (.whileLoop condition body 0) rfl
  | forLoop name items body span => exact (tops_evaluate hi items).pend
  | returnWith value span =>
      cases value with
      | some x => exact (tops_evaluate hi x).pend
      | none => exact tops_ofOk hi _
  | _ => exact tops_ofOk hi _

-- A branch waits for its condition.
theorem tops_ofBranches (rest : List (Expr × Block)) (otherwise : Option Block) :
    Tops S n stack (ofBranches stack i rest otherwise) := by
  cases rest with
  | cons branch rest => exact (tops_evaluate hi branch.1).pend
  | nil =>
      cases otherwise with
      | some body => exact tops_block hi body
      | none => exact tops_ofOk hi _

-- The rest of a block waits for its first statement.
theorem tops_ofBlock (body : Block) : Tops S n stack (ofBlock stack i body) := by
  cases body with
  | nil => exact tops_ofOk hi _
  | cons s rest => exact (tops_control hi (.execute s) rfl).pend

-- Behind its body a loop is done or goes on, and its stack is as it was.
theorem tops_ofAfterBody (flow : Flow) {goOn : Control .flow} (hgoOn : goOn.isBack = false) :
    Tops S n stack (ofAfterBody stack i flow goOn) := by
  cases flow with
  | normal => exact tops_control hi goOn hgoOn
  | continued => exact tops_control hi goOn hgoOn
  | broken => exact tops_ofOk hi _
  | returned v => exact tops_ofOk hi _

end

-- What an assignment fails by.
theorem assignedWith_spares {i : Interpreter} {name : String} {op : AssignOp} {v : Value}
    {f : Failure} (h : assignedWith i name op v = .error f) : ¬ f.IsSingular := by
  have hcombined : ∀ operator, combinedWith i name operator v = .error f → ¬ f.IsSingular := by
    intro operator hcombined
    unfold combinedWith at hcombined
    split at hcombined
    · split at hcombined
      · cases hcombined
      · rw [← Except.error.inj hcombined]; exact id
    · rw [← Except.error.inj hcombined]; exact id
  cases op with
  | set => cases h
  | add => exact hcombined _ h
  | sub => exact hcombined _ h

/-- The test of a loop that comes out true when the body has run as often as it may. -/
def Pending.Exceeds (S : Settings) : {k l : Kind} → Pending k l → k.Result → Prop
  | _, _, .whileTest _ _ turns, v => Value.truthy v = true ∧ S.maxLoopIterations ≤ turns
  | _, _, _, _ => False

/-- A result takes off the stack what was waiting for it, and not more. -/
theorem tops_resume {p : Pending k l} {a : k.Result} {stack : Stack l} {i : Interpreter}
    (hi : Within S n i) (hp : ¬ p.Exceeds S a) : Tops S n stack (p.resume a stack i) := by
  cases p with
  | items done rest => exact tops_ofItems hi (done ++ [a]) rest
  | arguments name done rest => exact tops_ofArguments hi name (done ++ [a]) rest
  | container x => exact (tops_evaluate hi x).pend
  | position whole => exact tops_ofOperation hi _
  | operand op =>
      cases op with
      | neg => exact tops_ofOperation hi _
      | not => exact tops_ofOk hi _
  | left op x => exact tops_ofBinary hi op a x
  | right op l => exact tops_ofOperation hi _
  | answer => exact tops_ofOk hi _
  | assigned name op =>
      simp only [Pending.resume]
      split
      · next j hj =>
        rcases assignedWith_eq_ok hj with ⟨result, rfl⟩
        exact tops_ofOk (hi.assign name result) _
      · next f hf => exact tops_ofError hi (assignedWith_spares hf)
  | discarded => exact tops_ofOk hi _
  | branch body rest otherwise =>
      simp only [Pending.resume]
      split
      · exact tops_block hi body
      · exact tops_control hi (.branches rest otherwise) rfl
  | whileTest condition body turns =>
      simp only [Pending.resume]
      split
      · next hv =>
        split
        · next hlimit => exact absurd ⟨hv, hi.settings ▸ hlimit⟩ hp
        · exact (tops_block hi body).pend
      · exact tops_ofOk hi _
  | whileBody condition body turns => exact tops_ofAfterBody hi a rfl
  | iterated name body =>
      simp only [Pending.resume]
      split
      · next values _ => exact tops_control hi (.forLoop name body values) rfl
      · exact tops_ofError hi id
  | forBody name body rest => exact tops_ofAfterBody hi a rfl
  | returned => exact tops_ofOk hi _
  | sequence rest =>
      cases a with
      | normal => exact tops_block hi rest
      | _ => exact tops_ofOk hi _

/-! ## Calls -/

/-- The machine that goes on after a step, if there is one, has taken nothing off a stack. -/
def Progress.Tops (S : Settings) (n : Nat) (stack : Stack k) (p : Progress) : Prop :=
  ∀ m, p.machine? = some m → Machine.Tops S n stack m

-- A step to a machine that took nothing off.
theorem tops_on {stack : Stack k} {m : Machine} (h : Tops S n stack m) (e : Engine) :
    (Progress.on m e).Tops S n stack :=
  fun _ hm => Option.some.inj hm ▸ h

-- A wait takes nothing off.
theorem tops_pausing {stack : Stack k} {m : Machine} (h : Tops S n stack m) (nanoseconds : Nat)
    (e : Engine) : (pausing nanoseconds m e).Tops S n stack := by
  unfold pausing
  split
  · exact tops_on h e
  · exact fun _ hm => Option.some.inj hm ▸ h

section

variable {stack : Stack .success} {i : Interpreter} (hi : Within S n i) (e : Engine)

include hi

-- A call that succeeded is settled on the same stack.
theorem tops_settle (s : Success) : Tops S n stack ⟨_, .settle s, stack, i⟩ :=
  tops_control hi (.settle s) rfl

-- It came back to the same stack in any case.
theorem tops_ofOutcome {r : Outcome} (hr : ∀ f, r = .error f → ¬ f.IsSingular) :
    Tops S n stack (ofOutcome stack i r) := by
  cases r with
  | ok s => exact tops_settle hi s
  | error f => exact tops_ofError hi (hr f rfl)

-- The pace of a call leaves the stack alone.
theorem tops_ofPace (s : Success) : (ofPace stack i e s).Tops S n stack := by
  have hover : Tops S n stack (ofResult stack i (.ok s)) := tops_ofOk (k := .success) hi s
  unfold ofPace
  split
  · exact tops_pausing hover _ e
  · exact tops_on hover e

-- The cost of a call may not be there to be paid, which is no limit.
theorem tops_ofSettle (s : Success) : (ofSettle stack i e s).Tops S n stack := by
  unfold ofSettle
  split
  · split
    · split
      · next error _ => exact tops_on (tops_ofError hi (Failure.ofWorldError_ofTile error).spares) e
      · exact tops_ofPace (hi.seeing _) _ s
    · exact tops_ofPace hi e s
  · exact tops_ofPace hi e s

-- A walk that is interrupted is another failure.
theorem tops_interrupted (target : Position) : (interrupted stack i target e).Tops S n stack :=
  tops_on (tops_ofError (hi.seeing e.world) id) e

-- An arrival goes on with the walk, or was interrupted.
theorem tops_ofArrive (epoch : Nat) (target : Position) (rest : List Position) (steps : Nat) :
    (ofArrive stack i e epoch target rest steps).Tops S n stack := by
  unfold ofArrive
  split
  · split
    · exact tops_on (tops_control hi (.visit rest steps) rfl) _
    · exact tops_interrupted hi e target
  · exact tops_interrupted hi e target

/-- A motion does the same, as long as the time of its step fits. -/
theorem tops_ofMotion (target : Position) (rest : List Position) (steps : Nat)
    (hrunning : e.isRunning i.handle = true)
    (hfits : ∀ o, ¬ Overflows e ⟨_, .visit (target :: rest) steps, stack, i⟩ o) :
    (ofMotion stack i e target rest steps).Tops S n stack := by
  simp only [ofMotion]
  split
  · exact tops_interrupted hi _ target
  · next a ha =>
    split
    · next hinside =>
      split
      · next o htime => exact absurd (.step hrunning ha hinside htime) (hfits o)
      · exact tops_interrupted hi _ target
      · exact tops_pausing (tops_control hi (.arrive _ target rest steps) rfl) _ _
    · exact tops_interrupted hi _ target

/-- The tiles of a walk are visited on top of the stack. -/
theorem tops_ofVisit (path : List Position) (steps : Nat)
    (hfits : ∀ o, ¬ Overflows e ⟨_, .visit path steps, stack, i⟩ o) :
    (ofVisit stack i e path steps).Tops S n stack := by
  cases path with
  | nil =>
      simp only [ofVisit]
      split
      · exact tops_on (tops_ofError hi id) e
      · next a _ =>
        have hseen : Within S n { i with actor := a } := ⟨hi.settings, hi.calls⟩
        exact tops_on (tops_settle hseen _) e
  | cons target rest =>
      simp only [ofVisit]
      split
      · next hrunning => exact tops_ofMotion hi e target rest steps hrunning hfits
      · exact tops_on (tops_ofError hi id) e

-- A walk that leaves the world is another failure.
theorem tops_ofWalk (path : List Position) : Tops S n stack (ofWalk stack i e path) := by
  unfold ofWalk
  split
  · exact tops_ofError hi id
  · split
    · exact tops_settle hi _
    · exact tops_control hi (.visit path path.length) rfl

-- A function of a tile comes back at once.
theorem tops_ofTileFunction (t : Tile) (name : String) :
    (ofTileFunction stack i e t name).Tops S n stack :=
  tops_on (tops_ofOutcome hi fun _ hf => (e.invoke_ofTile hf).spares) _

-- A function of a tile that a capability calls is done on top of the stack.
theorem tops_ofTile (f : TileFunction) : (ofTile stack i e f).Tops S n stack := by
  simp only [ofTile]
  split
  · split
    · exact tops_on (tops_ofOutcome hi fun _ hf => (e.invoke_ofTile hf).spares) _
    · exact tops_on (tops_ofError hi id) e
  · exact tops_on (tops_ofError hi id) e

end

-- What a capability answers by itself, if it does not break off.
theorem Course.of_spares {o : Operation} {args : Arguments} {i : Interpreter} {bounds : Bounds}
    {f : Failure} (h : Course.of o args i bounds = .answer (.error f)) :
    f.overflow? = none → ¬ f.IsSingular := by
  have hcomputed : ∀ r, Course.computed r = .answer (.error f) → ¬ f.IsSingular := by
    intro r hr
    cases r with
    | ok v => cases hr
    | error error => rw [← Except.error.inj (Course.answer.inj hr)]; exact id
  have hargument : ∀ {α : Type} (r : Except ArgumentError α) {course : α → Course},
      (∀ a, course a = .answer (.error f) → f.overflow? = none → ¬ f.IsSingular) →
        Course.withArgument r course = .answer (.error f) →
          f.overflow? = none → ¬ f.IsSingular := by
    intro α r course hcourse hr
    cases r with
    | ok a => exact hcourse a hr
    | error error => rw [← Except.error.inj (Course.answer.inj hr)]; exact fun _ => id
  have halong : ∀ laid, Course.along laid = .answer (.error f) →
      f.overflow? = none → ¬ f.IsSingular := by
    intro laid hlaid hreturns
    cases laid with
    | ok path => cases hlaid
    | error overflow =>
        rw [← Except.error.inj (Course.answer.inj hlaid)] at hreturns
        cases hreturns
  cases o with
  | step direction => exact halong _ h
  | move => exact hargument _ (fun _ => hargument _ fun _ => halong _) h
  | moveTo => exact hargument _ (fun _ => halong _) h
  | wait => exact hargument _ nofun h
  | range => exact fun _ => hcomputed _ h
  | len => exact fun _ => hcomputed _ h
  | min => exact fun _ => hcomputed _ h
  | max => exact fun _ => hcomputed _ h
  | sum => exact fun _ => hcomputed _ h
  | abs => exact fun _ => hcomputed _ h
  | _ => cases h

section

variable {stack : Stack .success} {i : Interpreter} (hi : Within S n i) (e : Engine)

include hi

/-- A capability takes nothing off the stack, as long as what it computes at first fits. -/
theorem tops_ofCapability (c : Capability) (args : List Value)
    (hfits : ∀ o, ¬ Overflows e ⟨_, .capability c args, stack, i⟩ o) :
    (ofCapability stack i e c args).Tops S n stack := by
  unfold ofCapability
  split
  · next o hdemand => exact absurd (.demand hdemand) (hfits o)
  · next required hasked =>
    split
    · exact tops_on (tops_ofError hi id) e
    · next henergy =>
      cases hcourse : Course.of c.operation args i e.world.bounds with
      | answer outcome =>
          refine tops_on (tops_ofOutcome hi fun f hf => Course.of_spares (hf ▸ hcourse) ?_) e
          cases f with
          | overflow o =>
              exact absurd (.way hasked (Nat.le_of_not_lt henergy) (hf ▸ hcourse)) (hfits o)
          | _ => rfl
      | print text => exact tops_on (tops_settle hi _) _
      | walk path => exact tops_on (tops_ofWalk hi e path) e
      | onTile f => exact tops_ofTile hi e f
      | pause nanoseconds s => exact tops_pausing (tops_settle hi s) nanoseconds e

-- A name is looked up, or the call fails before.
theorem tops_ofCall (name : String) (args : List Value) :
    (ofCall stack i e name args).Tops S n stack := by
  simp only [ofCall]
  split
  · exact tops_on (tops_ofError hi id) e
  · next a _ =>
    have hseen : Within S n { i with actor := a } := ⟨hi.settings, hi.calls⟩
    split
    · exact tops_on (tops_ofError hseen id) e
    · split
      · next callee _ =>
        refine tops_on (tops_control hseen (callee.control name args) ?_) _
        cases callee <;> rfl
      · exact tops_on (tops_ofError hseen id) e

-- A job begins on the stack that it is given.
theorem tops_ofJob (job : Job) : (ofJob stack i e job).Tops S n stack := by
  cases job with
  | call actor name args => exact tops_on (tops_control hi (.call name args) rfl) _
  | main actor =>
      simp only [ofJob]
      split
      · have hcalled : Tops S n (.main i.actor.id stack)
            ⟨_, .job (.call actor mainName []), .main i.actor.id stack, i⟩ :=
          tops_control hi _ rfl
        exact tops_on (hcalled.above (.main i.actor.id .same)) _
      · exact tops_on (tops_ofError hi id) _

end

/-! ## Strokes -/

/-- What a step from an engine may be. -/
inductive Stroke (e : Engine) : Machine → Machine → Prop
  | goes {k : Kind} {c : Control k} {stack : Stack k} {i : Interpreter} {m' : Machine}
      (hc : c.isBack = false) (h : Tops i.settings i.frames.length stack m') :
      Stroke e ⟨k, c, stack, i⟩ m'
  | enters {name : String} {s : Subroutine} {args : List Value} {stack : Stack .success}
      {i : Interpreter} (hroom : i.frames.length < i.settings.maxCallDepth) :
      Stroke e ⟨_, .subroutine name s args, stack, i⟩ ⟨_, .block s.body, .body name stack,
        { i with frames := ⟨name, s.lines, Step.initialLocals name args⟩ :: i.frames }⟩
  /-- There is no room for one more call. -/
  | tooDeep {name : String} {s : Subroutine} {args : List Value} {stack : Stack .success}
      {i : Interpreter} (hfull : i.settings.maxCallDepth ≤ i.frames.length) :
      Stroke e ⟨_, .subroutine name s args, stack, i⟩
        (ofResult stack i (.error (.callDepth i.settings.maxCallDepth)))
  | resumes {k l : Kind} {p : Pending k l} {a : k.Result} {rest : Stack l} {i : Interpreter}
      {m' : Machine} (h : Tops i.settings i.frames.length rest m') :
      Stroke e (ofResult (.pend p rest) i (.ok a)) m'
  /-- There is no turn left. -/
  | tooLong {condition : Expr} {body : Block} {turns : Nat} {v : Value} {rest : Stack .flow}
      {i : Interpreter} (hv : v.truthy = true) (hover : i.settings.maxLoopIterations ≤ turns) :
      Stroke e (ofResult (.pend (.whileTest condition body turns) rest) i (.ok v))
        (ofResult rest i (.error (.loopLimit i.settings.maxLoopIterations)))
  /-- A number does not fit. -/
  | breaks {k : Kind} {c : Control k} {stack : Stack k} {i : Interpreter} {o : Overflow}
      (h : Overflows e ⟨k, c, stack, i⟩ o) :
      Stroke e ⟨k, c, stack, i⟩ (ofResult stack i (.error (.overflow o)))
  | fails {k l : Kind} {p : Pending k l} {f : Failure} {rest : Stack l} {i : Interpreter} :
      Stroke e (ofResult (.pend p rest) i (.error f)) (ofResult rest i (.error f))
  | ends {actor : String} {r : Outcome} {rest : Stack .success} {i : Interpreter} :
      Stroke e (ofResult (.main actor rest) i r) (ofResult rest i r)
  | leaves {name : String} {r : Except Failure Flow} {r' : Outcome} {rest : Stack .success}
      {i : Interpreter} (hr : ∀ f, r' = .error f → r = .error f ∨ ¬ f.IsSingular) :
      Stroke e (ofResult (k := .flow) (.body name rest) i r) (ofResult rest (Step.leave i) r')

variable {m m' : Machine} {e : Engine}

-- What becomes of a result.
theorem stroke_ofBack {r : Except Failure k.Result} {stack : Stack k} {i : Interpreter}
    (h : (ofBack r stack i e).machine? = some m') : Stroke e (ofResult stack i r) m' := by
  cases stack with
  | last => cases h
  | main actor rest =>
      rw [← Option.some.inj h]
      exact .ends
  | pend p rest =>
      cases r with
      | error f =>
          rw [← Option.some.inj h]
          exact .fails
      | ok a =>
          rw [← Option.some.inj h]
          by_cases hp : p.Exceeds i.settings a
          · cases p with
            | whileTest condition body turns =>
                rcases hp with ⟨hv, hover⟩
                simp only [Pending.resume]
                rw [if_pos hv, if_pos hover]
                exact .tooLong hv hover
            | _ => exact hp.elim
          · exact .resumes (tops_resume ⟨rfl, rfl⟩ hp)
  | body name rest =>
      cases r with
      | error f =>
          rw [← Option.some.inj h]
          exact .leaves fun g hg => .inl (congrArg _ (Except.error.inj hg))
      | ok flow =>
          rw [← Option.some.inj h]
          refine .leaves fun f hf => .inr ?_
          cases flow with
          | broken => rw [← Except.error.inj hf]; exact id
          | continued => rw [← Except.error.inj hf]; exact id
          | normal => cases hf
          | returned v => cases hf

-- Where a machine is about to break off, it does.
theorem next_of_overflows {o : Overflow} (h : Overflows e m o) :
    (m.next e).machine? = some (ofResult m.stack m.interpreter (.error (.overflow o))) := by
  cases h with
  | demand h => simp only [next, ofCapability, h, Progress.machine?]
  | way hasked henergy h =>
      simp only [next, ofCapability, hasked, Nat.not_lt_of_le henergy, if_false, h, ofCourse,
        ofOutcome, Progress.machine?]
  | step hrunning ha hinside h =>
      simp only [next, ofVisit, hrunning, if_true, ofMotion, ha, hinside, h, Progress.machine?]

/-- Every step is a stroke. -/
theorem stroke_next (hm : (m.next e).machine? = some m') : Stroke e m m' := by
  by_cases hbreaks : ∃ o, Overflows e m o
  -- Where the machine is about to break off, its next step is known.
  · rcases hbreaks with ⟨o, ho⟩
    rw [next_of_overflows ho] at hm
    rw [← Option.some.inj hm]
    exact .breaks ho
  have hfits : ∀ o, ¬ Overflows e m o := fun o ho => hbreaks ⟨o, ho⟩
  rcases m with ⟨k, c, stack, i⟩
  have hi : Within i.settings i.frames.length i := ⟨rfl, rfl⟩
  cases c with
  | job job => exact .goes rfl (tops_ofJob hi e job m' hm)
  | evaluate x => exact .goes rfl (tops_on (tops_ofExpr hi x) e m' hm)
  | execute s =>
      refine .goes rfl ?_
      simp only [next] at hm
      split at hm
      · exact tops_on (tops_ofStmt hi s) _ m' hm
      · exact tops_on (tops_ofError hi id) e m' hm
  | block body => exact .goes rfl (tops_on (tops_ofBlock hi body) e m' hm)
  | branches rest otherwise =>
      exact .goes rfl (tops_on (tops_ofBranches hi rest otherwise) e m' hm)
  | whileLoop condition body turns =>
      refine .goes rfl ?_
      simp only [next] at hm
      split at hm
      · exact tops_on (tops_evaluate hi condition).pend e m' hm
      · exact tops_on (tops_ofError hi id) e m' hm
  | forLoop name body values =>
      refine .goes rfl ?_
      cases values with
      | nil => exact tops_on (tops_ofOk hi _) e m' hm
      | cons v rest =>
          simp only [next] at hm
          split at hm
          · exact tops_on (tops_block (hi.assign name v) body).pend e m' hm
          · exact tops_on (tops_ofError hi id) e m' hm
  | call name args => exact .goes rfl (tops_ofCall hi e name args m' hm)
  | capability c args => exact .goes rfl (tops_ofCapability hi e c args hfits m' hm)
  | tileFunction t name => exact .goes rfl (tops_ofTileFunction hi e t name m' hm)
  -- The one step that opens a frame.
  | subroutine name s args =>
      rw [← Option.some.inj hm]
      unfold ofSubroutine
      split
      · next hfull => exact .tooDeep hfull
      · next hroom => exact .enters (Nat.lt_of_not_le hroom)
  | visit path steps => exact .goes rfl (tops_ofVisit hi e path steps hfits m' hm)
  | arrive epoch target rest steps =>
      exact .goes rfl (tops_ofArrive hi e epoch target rest steps m' hm)
  | settle s => exact .goes rfl (tops_ofSettle hi e s m' hm)
  | back r => exact stroke_ofBack hm

-- A machine that follows another one does so by a stroke.
theorem Follows.stroke (h : Follows m' m) : ∃ e, Stroke e m m' :=
  h.imp fun _ => stroke_next

/-! ## What strokes keep -/

-- The limits are those of the interpreter, and no step changes them.
theorem Stroke.settings (h : Stroke e m m') : m'.interpreter.settings = m.interpreter.settings := by
  cases h with
  | goes hc h => exact h.within.settings
  | resumes h => exact h.within.settings
  | _ => rfl

/-- The calls under way never exceed the limit. -/
theorem Stroke.calls_le (h : Stroke e m m')
    (hm : m.interpreter.frames.length ≤ m.interpreter.settings.maxCallDepth) :
    m'.interpreter.frames.length ≤ m'.interpreter.settings.maxCallDepth := by
  rw [h.settings]
  cases h with
  | goes hc h => exact Nat.le_trans (Nat.le_of_eq h.within.calls) hm
  | enters hroom => exact hroom
  | resumes h => exact Nat.le_trans (Nat.le_of_eq h.within.calls) hm
  | leaves hr =>
      refine Nat.le_trans ?_ hm
      rw [Step.leave, List.length_tail]
      exact Nat.sub_le _ _
  | _ => exact hm

/-- What is pending below stays there until its result is there. -/
theorem Stroke.below {base : Stack l} (h : Stroke e m m') (hbelow : base.Below m.stack) :
    base.Below m'.stack ∨ ∃ r i, m = ofResult base i r := by
  cases h with
  | goes hc h => exact .inl (hbelow.trans h.below)
  | enters hroom => exact .inl (.body _ hbelow)
  | tooDeep hfull => exact .inl hbelow
  | breaks h => exact .inl hbelow
  | resumes h =>
      cases hbelow with
      | same => exact .inr ⟨_, _, rfl⟩
      | pend p hrest => exact .inl (hrest.trans h.below)
  | tooLong hv hover =>
      cases hbelow with
      | same => exact .inr ⟨_, _, rfl⟩
      | pend p hrest => exact .inl hrest
  | fails =>
      cases hbelow with
      | same => exact .inr ⟨_, _, rfl⟩
      | pend p hrest => exact .inl hrest
  | ends =>
      cases hbelow with
      | same => exact .inr ⟨_, _, rfl⟩
      | main actor hrest => exact .inl hrest
  | leaves hr =>
      cases hbelow with
      | same => exact .inr ⟨_, _, rfl⟩
      | body name hrest => exact .inl hrest

/-- A failure by a limit arises where a subroutine is called with no room for one more call, or
    where the test of a loop comes out true with no turn left, and the program breaks off where it
    is about to. -/
theorem Stroke.raises {f : Failure} (h : Stroke e m m') (hr : m.Raises f m')
    (hf : f.IsSingular) :
    (∃ name s args stack i, m = ⟨_, .subroutine name s args, stack, i⟩ ∧
      i.settings.maxCallDepth ≤ i.frames.length ∧ f = .callDepth i.settings.maxCallDepth) ∨
    (∃ condition body turns v stack i,
      m = ofResult (.pend (.whileTest condition body turns) stack) i (.ok v) ∧
      m' = ofResult stack i (.error f) ∧ v.truthy = true ∧ i.settings.maxLoopIterations ≤ turns ∧
      f = .loopLimit i.settings.maxLoopIterations) ∨
    ∃ o, Overflows e m o ∧ f = .overflow o := by
  rcases hr with ⟨hbefore, hafter⟩
  cases h with
  | goes hc h => exact absurd hf (h.spares f hafter)
  | enters hroom => exact nomatch hafter
  | tooDeep hfull =>
      have heq := Except.error.inj (Control.back.inj hafter)
      exact .inl ⟨_, _, _, _, _, rfl, hfull, heq.symm⟩
  | resumes h => exact absurd hf (h.spares f hafter)
  | tooLong hv hover =>
      have heq := Except.error.inj (Control.back.inj hafter)
      exact .inr (.inl ⟨_, _, _, _, _, _, rfl, heq ▸ rfl, hv, hover, heq.symm⟩)
  | breaks h =>
      have heq := Except.error.inj (Control.back.inj hafter)
      exact .inr (.inr ⟨_, h, heq.symm⟩)
  | fails => exact absurd rfl (hbefore _)
  | ends => exact absurd hafter (hbefore f)
  | leaves hr =>
      rcases hr f (Control.back.inj hafter) with hinside | hno
      · exact absurd (congrArg Control.back hinside) (hbefore f)
      · exact absurd hf hno

end Machine

end Farmhand
