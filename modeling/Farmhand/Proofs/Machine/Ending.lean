import Farmhand.Proofs.Machine.Agreement

/-!
# Every Machine Ends

The machine has no recursion that could be trusted to end by itself: it takes one step after
another, and calls, loops, arguments and walks nest in each other as the script has them. What makes
it end is that the calls under way are counted against a limit, that so are the turns of a `while`
loop, and that all else is taken from lists and from the script, of which less and less is left.

To end is said of a machine with all that is pending. That something to be done ends is therefore
said for any stack around it: the machine ends if it ends with every result that there could be.
In this form one thing after another is put together by putting it on the stack. The statements
hold whatever the others do to the engine between any two steps, not only in the waits.

## Main definitions

* `Machine.Follows`, `Machine.Ends`: One step of a machine, and that no run of them is endless.
* `Machine.Control.Ends`, `Machine.Pending.Ends`: The same of what is to be done.
* `Machine.run`: A number of steps.
* `Process.through`: What a process comes to, by what happens in its waits.

## Theorems

* `Machine.evaluate_ends`, `Machine.execute_ends`: Expressions and statements end if calls do.
* `Machine.call_ends`: Calls end.
* `Machine.ends`: Every machine ends.
* `Machine.run_eq_through`: With enough steps, a machine comes to what it stands for.
-/

namespace Farmhand

open Script

namespace Machine

/-- The machine that goes on after a step. -/
def Progress.machine? : Progress → Option Machine
  | on m _ => some m
  | wait _ m _ => some m
  | halt _ _ _ => none

/-- A machine comes after another by one step, in some engine. -/
def Follows (m' m : Machine) : Prop :=
  ∃ e, (m.next e).machine? = some m'

/-- A machine comes to an end, whatever happens to the engine between its steps. -/
def Ends (m : Machine) : Prop :=
  Acc Follows m

/-- A machine ends if all machines end that may come after it. -/
theorem ends_of_next {m : Machine}
    (h : ∀ e m', (m.next e).machine? = some m' → Ends m') : Ends m :=
  Acc.intro m fun m' ⟨e, he⟩ => h e m' he

-- A step that leads to the same machine in every engine.
theorem ends_of_on {m m' : Machine} (h : ∀ e, (m.next e).machine? = some m') (hends : Ends m') :
    Ends m := by
  refine ends_of_next fun e m'' hnext => ?_
  rw [h e, Option.some.injEq] at hnext
  exact hnext ▸ hends

/-- An interpreter of some limits with some calls under way. -/
structure Within (S : Settings) (n : Nat) (i : Interpreter) : Prop where
  settings : i.settings = S
  calls : i.frames.length = n

variable {S : Settings} {n : Nat} {k l : Kind}

-- An assignment changes neither the limits nor the calls under way.
theorem Within.assign {i : Interpreter} (h : Within S n i) (name : String) (v : Value) :
    Within S n (i.assign name v) :=
  ⟨(i.kin_assign name v).settings.trans h.settings,
    (frames_length_assign i name v).trans h.calls⟩

-- A look at the actor changes neither the settings nor the frames.
theorem Within.seeing {i : Interpreter} (h : Within S n i) (w : World) :
    Within S n (seeing i w) :=
  ⟨(seeing_settings i w).trans h.settings,
    (congrArg List.length (seeing_frames i w)).trans h.calls⟩

/-- A stack on which every result ends. -/
def Stack.Ends (S : Settings) (n : Nat) (stack : Stack k) : Prop :=
  ∀ r i, Within S n i → Machine.Ends (ofResult stack i r)

/-- Something to be done that ends on every stack on which its results end. -/
def Control.Ends (S : Settings) (n : Nat) (c : Control k) : Prop :=
  ∀ (stack : Stack k) i, Within S n i → stack.Ends S n → Machine.Ends ⟨k, c, stack, i⟩

/-- Something pending that ends, with every result that it waits for. -/
def Pending.Ends (S : Settings) (n : Nat) (p : Pending k l) : Prop :=
  ∀ a (stack : Stack l) i, Within S n i → stack.Ends S n → Machine.Ends (p.resume a stack i)

-- What is pending may be put on a stack.
theorem Pending.Ends.stack {p : Pending k l} (hp : p.Ends S n) {stack : Stack l}
    (hstack : stack.Ends S n) : (Stack.pend p stack).Ends S n := by
  intro r i hi
  cases r with
  | ok a => exact ends_of_on (fun _ => rfl) (hp a stack i hi hstack)
  | error f => exact ends_of_on (fun _ => rfl) (hstack _ i hi)

/-- What ends with every result ends with something pending on it that does. -/
theorem Control.Ends.pend {c : Control k} (hc : c.Ends S n) {p : Pending k l} (hp : p.Ends S n)
    {stack : Stack l} (hstack : stack.Ends S n) {i : Interpreter} (hi : Within S n i) :
    Machine.Ends ⟨k, c, .pend p stack, i⟩ :=
  hc _ i hi (hp.stack hstack)

-- An operation has a result or a failure at once.
theorem ends_ofOperation {stack : Stack k} (hstack : stack.Ends S n) {i : Interpreter}
    (hi : Within S n i) (r : Except OperationError k.Result) : Ends (ofOperation stack i r) := by
  cases r with
  | ok a => exact hstack _ i hi
  | error error => exact hstack _ i hi

/-! ## Expressions -/

-- An index is looked up at once.
theorem ends_position (whole : Value) : (Pending.position whole).Ends S n :=
  fun _ _ _ hi hstack => ends_ofOperation hstack hi _

-- With the container there, the index is left to evaluate.
theorem ends_container {x : Expr} (hx : (Control.evaluate x).Ends S n) :
    (Pending.container x).Ends S n :=
  fun v _ _ hi hstack => hx.pend (ends_position v) hstack hi

-- A sign is applied at once.
theorem ends_operand (op : UnaryOp) : (Pending.operand op).Ends S n := by
  intro v stack i hi hstack
  cases op with
  | neg => exact ends_ofOperation hstack hi _
  | not => exact hstack _ i hi

-- With both operands there, the operator is applied.
theorem ends_right (op : BinaryOp) (left : Value) : (Pending.right op left).Ends S n :=
  fun _ _ _ hi hstack => ends_ofOperation hstack hi _

-- With the first operand there, `and` and `or` may be done; else the second is evaluated.
theorem ends_left (op : BinaryOp) {x : Expr} (hx : (Control.evaluate x).Ends S n) :
    (Pending.left op x).Ends S n := by
  intro v stack i hi hstack
  have hoperation : ∀ op', Ends ⟨_, .evaluate x, .pend (.right op' v) stack, i⟩ :=
    fun op' => hx.pend (ends_right op' v) hstack hi
  simp only [Pending.resume, ofBinary]
  split
  · split
    · exact hx stack i hi hstack
    · exact hstack _ i hi
  · split
    · exact hstack _ i hi
    · exact hx stack i hi hstack
  · exact hoperation _

/-- The items of a list end one after the other. By induction on those that are left. -/
theorem ends_ofItems {rest : List Expr} (hrest : ∀ x ∈ rest, (Control.evaluate x).Ends S n)
    (done : List Value) {stack : Stack .value} (hstack : stack.Ends S n) {i : Interpreter}
    (hi : Within S n i) : Ends (ofItems stack i done rest) := by
  induction rest generalizing done stack i with
  | nil => exact hstack _ i hi
  | cons x rest ih =>
      have hitems : (Pending.items done rest).Ends S n := fun v _ _ hj hstack' =>
        ih (fun y hy => hrest y (List.mem_cons_of_mem x hy)) (done ++ [v]) hstack' hj
      exact (hrest x List.mem_cons_self).pend hitems hstack hi

-- What a call comes back with is its value.
theorem ends_answer : Pending.answer.Ends S n :=
  fun _ _ i hi hstack => hstack _ i hi

/-- The arguments of a call end one after the other, and the call behind them. By induction on those
    that are left. -/
theorem ends_ofArguments {name : String}
    (hcall : ∀ args, (Control.call name args).Ends S n) {rest : List Expr}
    (hrest : ∀ x ∈ rest, (Control.evaluate x).Ends S n) (done : List Value)
    {stack : Stack .value} (hstack : stack.Ends S n) {i : Interpreter} (hi : Within S n i) :
    Ends (ofArguments stack i name done rest) := by
  induction rest generalizing done stack i with
  | nil => exact (hcall done).pend ends_answer hstack hi
  | cons x rest ih =>
      have harguments : (Pending.arguments name done rest).Ends S n := fun v _ _ hj hstack' =>
        ih (fun y hy => hrest y (List.mem_cons_of_mem x hy)) (done ++ [v]) hstack' hj
      exact (hrest x List.mem_cons_self).pend harguments hstack hi

mutual

/-- Expressions end if calls do. -/
theorem evaluate_ends (hcall : ∀ name args, (Control.call name args).Ends S n) :
    ∀ x : Expr, (Control.evaluate x).Ends S n
  | .lit _ _, _, i, hi, hstack => ends_of_on (fun _ => rfl) (hstack _ i hi)
  | .var _ _, _, i, hi, hstack => ends_of_on (fun _ => rfl) (hstack _ i hi)
  | .list items _, _, _, hi, hstack =>
      ends_of_on (fun _ => rfl) (ends_ofItems (evaluateAll_ends hcall items) [] hstack hi)
  | .index container position _, _, _, hi, hstack =>
      have hposition := evaluate_ends hcall position
      ends_of_on (fun _ => rfl)
        ((evaluate_ends hcall container).pend (ends_container hposition) hstack hi)
  | .unary op operand _, _, _, hi, hstack =>
      ends_of_on (fun _ => rfl) ((evaluate_ends hcall operand).pend (ends_operand op) hstack hi)
  | .binary op left right _, _, _, hi, hstack =>
      have hright := evaluate_ends hcall right
      ends_of_on (fun _ => rfl) ((evaluate_ends hcall left).pend (ends_left op hright) hstack hi)
  | .call name args _, _, _, hi, hstack =>
      ends_of_on (fun _ => rfl)
        (ends_ofArguments (hcall name) (evaluateAll_ends hcall args) [] hstack hi)

-- If calls end, each of some expressions does.
theorem evaluateAll_ends (hcall : ∀ name args, (Control.call name args).Ends S n) :
    ∀ xs : List Expr, ∀ x ∈ xs, (Control.evaluate x).Ends S n
  | [] => List.forall_mem_nil _
  | x :: rest =>
      List.forall_mem_cons.mpr ⟨evaluate_ends hcall x, evaluateAll_ends hcall rest⟩

end

/-! ## Loops -/

-- The value of an expression that is a statement is let go.
theorem ends_discarded : Pending.discarded.Ends S n :=
  fun _ _ i hi hstack => hstack _ i hi

-- A value that is returned is the result.
theorem ends_returned : Pending.returned.Ends S n :=
  fun _ _ i hi hstack => hstack _ i hi

-- An assignment is made, or cannot be.
theorem ends_assigned (name : String) (op : AssignOp) : (Pending.assigned name op).Ends S n := by
  intro v stack i hi hstack
  simp only [Pending.resume]
  split
  · next j hj =>
    rcases assignedWith_eq_ok hj with ⟨result, rfl⟩
    exact hstack _ _ (hi.assign name result)
  · exact hstack _ i hi

/-- Behind its body a loop is over, or goes on as is still to be shown to end. -/
theorem ends_ofAfterBody {goOn : Control .flow} (hgoOn : goOn.Ends S n) (flow : Flow)
    {stack : Stack .flow} (hstack : stack.Ends S n) {i : Interpreter} (hi : Within S n i) :
    Ends (ofAfterBody stack i flow goOn) := by
  cases flow with
  | normal => exact hgoOn stack i hi hstack
  | continued => exact hgoOn stack i hi hstack
  | broken => exact hstack _ i hi
  | returned v => exact hstack _ i hi

-- A step that looks at the flag first.
theorem ends_guarded {m m' : Machine} (hi : Within S n m.interpreter)
    (hstack : m.stack.Ends S n) (hends : Ends m')
    (h : ∀ e, (m.next e).machine? = some m' ∨
      (m.next e).machine? = some (ofResult m.stack m.interpreter (.error .stopped))) :
    Ends m := by
  refine ends_of_next fun e m'' hnext => ?_
  rcases h e with hon | hstopped
  · rw [hon, Option.some.injEq] at hnext
    exact hnext ▸ hends
  · rw [hstopped, Option.some.injEq] at hnext
    exact hnext ▸ hstack _ _ hi

-- A condition that was evaluated ends if the next turn does, unless the limit is reached.
theorem ends_turn {condition : Expr} {body : Block} {turns : Nat}
    (hbody : (Control.block body).Ends S n)
    (hagain : turns < S.maxLoopIterations →
      (Control.whileLoop condition body (turns + 1)).Ends S n) :
    (Pending.whileTest condition body turns).Ends S n := by
  intro v stack i hi hstack
  simp only [Pending.resume, hi.settings]
  split
  · split
    · exact hstack _ i hi
    · next hlimit =>
      have hafter : (Pending.whileBody condition body turns).Ends S n := fun flow _ _ hj hstack' =>
        ends_ofAfterBody (hagain (Nat.lt_of_not_le hlimit)) flow hstack' hj
      exact hbody.pend hafter hstack hi
  · exact hstack _ i hi

/-- A loop ends after the turns that its limit leaves. -/
theorem whileLoop_ends {condition : Expr} {body : Block}
    (hcondition : (Control.evaluate condition).Ends S n) (hbody : (Control.block body).Ends S n)
    (turns : Nat) : (Control.whileLoop condition body turns).Ends S n := by
  -- By induction on the turns that are left.
  induction hleft : S.maxLoopIterations - turns using Nat.strongRecOn generalizing turns with
  | ind left ih =>
      have htest : (Pending.whileTest condition body turns).Ends S n :=
        ends_turn hbody fun hlimit =>
          ih (S.maxLoopIterations - (turns + 1)) (by omega) (turns + 1) rfl
      intro stack i hi hstack
      refine ends_guarded hi hstack (hcondition.pend htest hstack hi) fun e => ?_
      simp only [next]
      split
      · exact .inl rfl
      · exact .inr rfl

/-- A loop over values ends after the last of them. -/
theorem forLoop_ends (name : String) {body : Block} (hbody : (Control.block body).Ends S n)
    (values : List Value) : (Control.forLoop name body values).Ends S n := by
  induction values with
  | nil =>
      intro stack i hi hstack
      exact ends_of_on (fun _ => rfl) (hstack (.ok .normal) i hi)
  | cons v rest ih =>
      have hafter : (Pending.forBody name body rest).Ends S n :=
        fun flow _ _ hj hstack' => ends_ofAfterBody ih flow hstack' hj
      intro stack i hi hstack
      refine ends_guarded hi hstack (hbody.pend hafter hstack (hi.assign name v)) fun e => ?_
      simp only [next]
      split
      · exact .inl rfl
      · exact .inr rfl

-- A value that can be gone through is a list, and the turns are over it.
theorem ends_iterated (name : String) {body : Block} (hbody : (Control.block body).Ends S n) :
    (Pending.iterated name body).Ends S n := by
  intro v stack i hi hstack
  simp only [Pending.resume]
  split
  · next values hvalues => exact forLoop_ends name hbody values stack i hi hstack
  · exact hstack _ i hi

/-! ## Statements -/

-- With the condition known, the body or the other branches are left.
theorem ends_branch {body : Block} {rest : List (Expr × Block)} {otherwise : Option Block}
    (hbody : (Control.block body).Ends S n) (hrest : (Control.branches rest otherwise).Ends S n) :
    (Pending.branch body rest otherwise).Ends S n := by
  intro v stack i hi hstack
  simp only [Pending.resume]
  split
  · exact hbody stack i hi hstack
  · exact hrest stack i hi hstack

-- Behind a statement the rest of the block is left, or nothing.
theorem ends_sequence {rest : Block} (hrest : (Control.block rest).Ends S n) :
    (Pending.sequence rest).Ends S n := by
  intro flow stack i hi hstack
  cases flow with
  | normal => exact hrest stack i hi hstack
  | _ => exact hstack _ i hi

-- A conditional without a branch that holds has nothing to do.
theorem ends_noBlock : (Control.branches [] none).Ends S n :=
  fun _ i hi hstack => ends_of_on (fun _ => rfl) (hstack _ i hi)

-- Or it has the last of its blocks to do.
theorem ends_someBlock {body : Block} (hbody : (Control.block body).Ends S n) :
    (Control.branches [] (some body)).Ends S n :=
  fun stack i hi hstack => ends_of_on (fun _ => rfl) (hbody stack i hi hstack)

-- A statement ends if what follows its announcement does.
theorem ends_execute {s : Stmt}
    (h : ∀ (stack : Stack .flow) i, Within S n i → stack.Ends S n → Ends (ofStmt stack i s)) :
    (Control.execute s).Ends S n := by
  intro stack i hi hstack
  refine ends_guarded hi hstack (h stack i hi hstack) fun e => ?_
  simp only [next]
  split
  · exact .inl rfl
  · exact .inr rfl

mutual

/-- Statements end if calls do. -/
theorem execute_ends (hcall : ∀ name args, (Control.call name args).Ends S n) :
    ∀ s : Stmt, (Control.execute s).Ends S n
  | .assign name op value _ => ends_execute fun _ _ hi hstack =>
      (evaluate_ends hcall value).pend (ends_assigned name op) hstack hi
  | .expr value _ => ends_execute fun _ _ hi hstack =>
      (evaluate_ends hcall value).pend ends_discarded hstack hi
  | .cond branches none _ => ends_execute (branches_ends hcall branches ends_noBlock)
  | .cond branches (some body) _ =>
      ends_execute (branches_ends hcall branches (ends_someBlock (block_ends hcall body)))
  | .whileLoop condition body _ =>
      ends_execute (whileLoop_ends (evaluate_ends hcall condition) (block_ends hcall body) 0)
  | .forLoop name items body _ => ends_execute fun _ _ hi hstack =>
      (evaluate_ends hcall items).pend (ends_iterated name (block_ends hcall body)) hstack hi
  | .returnWith (some value) _ => ends_execute fun _ _ hi hstack =>
      (evaluate_ends hcall value).pend ends_returned hstack hi
  | .returnWith none _ => ends_execute fun _ i hi hstack => hstack _ i hi
  | .breakLoop _ => ends_execute fun _ i hi hstack => hstack _ i hi
  | .continueLoop _ => ends_execute fun _ i hi hstack => hstack _ i hi
  | .pass _ => ends_execute fun _ i hi hstack => hstack _ i hi
  | .skipped _ _ => ends_execute fun _ i hi hstack => hstack _ i hi

/-- Branches end. Each has a condition and a body, and the others behind it. -/
theorem branches_ends (hcall : ∀ name args, (Control.call name args).Ends S n) :
    ∀ (rest : List (Expr × List Stmt)) {otherwise : Option Block},
      (Control.branches [] otherwise).Ends S n → (Control.branches rest otherwise).Ends S n
  | [], _, hotherwise => hotherwise
  | (condition, body) :: rest, _, hotherwise => fun _ _ hi hstack =>
      have hrest := branches_ends hcall rest hotherwise
      ends_of_on (fun _ => rfl) ((evaluate_ends hcall condition).pend
        (ends_branch (block_ends hcall body) hrest) hstack hi)

/-- Blocks end. Each has a statement, and the others behind it. -/
theorem block_ends (hcall : ∀ name args, (Control.call name args).Ends S n) :
    ∀ body : List Stmt, (Control.block body).Ends S n
  | [], _, i, hi, hstack => ends_of_on (fun _ => rfl) (hstack _ i hi)
  | s :: rest, _, _, hi, hstack =>
      have hrest := block_ends hcall rest
      ends_of_on (fun _ => rfl) ((execute_ends hcall s).pend (ends_sequence hrest) hstack hi)

end

/-! ## Capabilities and tile functions -/

/-- The machine that goes on after a step ends, if there is one. -/
def Progress.Ends (p : Progress) : Prop :=
  ∀ m, p.machine? = some m → m.Ends

-- A machine ends if all that its steps come to does.
theorem ends_of_progress {m : Machine} (h : ∀ e, (m.next e).Ends) : Ends m :=
  ends_of_next h

-- A step without a wait.
theorem ends_on {m : Machine} (h : m.Ends) (e : Engine) : (Progress.on m e).Ends :=
  fun _ hm => Option.some.inj hm ▸ h

-- A wait changes nothing about what comes after it.
theorem ends_pausing (nanoseconds : Nat) {m : Machine} (h : m.Ends) (e : Engine) :
    (pausing nanoseconds m e).Ends := by
  unfold pausing
  split
  · exact ends_on h e
  · exact fun _ hm => Option.some.inj hm ▸ h

section

variable {stack : Stack .success} (hstack : stack.Ends S n)
variable {i : Interpreter} (hi : Within S n i) (e : Engine)

include hstack hi

-- Behind a call there may be a pause, and then there is its result.
theorem ends_ofPace (s : Success) : (ofPace stack i e s).Ends := by
  have hover := hstack (.ok s) i hi
  unfold ofPace
  split
  · exact ends_pausing _ hover e
  · exact ends_on hover e

-- What a call costs is paid or cannot be, and the rest is its pace.
theorem ends_ofSettle (s : Success) : (ofSettle stack i e s).Ends := by
  have hfree := ends_ofPace hstack hi e s
  unfold ofSettle
  split
  · split
    · split
      · exact ends_on (hstack _ i hi) e
      · next world hworld => exact ends_ofPace hstack (hi.seeing world) { e with world } s
    · exact hfree
  · exact hfree

-- A walk that cannot go on fails.
theorem ends_interrupted (target : Position) : (interrupted stack i target e).Ends :=
  ends_on (hstack _ _ (hi.seeing e.world)) e

end

-- What follows a call that succeeded ends.
theorem settle_ends (s : Success) : (Control.settle s).Ends S n :=
  fun _ _ hi hstack => ends_of_progress fun e => ends_ofSettle hstack hi e s

-- A call that came back failed, or is still to be settled.
theorem ends_ofOutcome {stack : Stack .success} (hstack : stack.Ends S n) {i : Interpreter}
    (hi : Within S n i) (r : Outcome) : Ends (ofOutcome stack i r) := by
  cases r with
  | ok s => exact settle_ends s stack i hi hstack
  | error f => exact hstack _ i hi

/-- An arrival ends if the rest of the walk does. -/
theorem arrive_ends (epoch : Nat) (target : Position) {rest : List Position} (steps : Nat)
    (hrest : (Control.visit rest steps).Ends S n) :
    (Control.arrive epoch target rest steps).Ends S n := by
  intro stack i hi hstack
  refine ends_of_progress fun e => ?_
  simp only [next, ofArrive]
  split
  · split
    · exact ends_on (hrest stack i hi hstack) _
    · exact ends_interrupted hstack hi e target
  · exact ends_interrupted hstack hi e target

/-- A motion fails, or there is an arrival after some time. -/
theorem ends_ofMotion {stack : Stack .success} (hstack : stack.Ends S n) {i : Interpreter}
    (hi : Within S n i) (e : Engine) (target : Position) {rest : List Position} (steps : Nat)
    (hrest : (Control.visit rest steps).Ends S n) :
    (ofMotion stack i e target rest steps).Ends := by
  have hmissed := ends_interrupted hstack hi { e with moveRequests := e.moveRequests + 1 } target
  simp only [ofMotion]
  split
  · exact hmissed
  · split
    · split
      · exact ends_on (hstack _ i hi) _
      · exact hmissed
      · exact ends_pausing _ (arrive_ends _ target steps hrest stack i hi hstack) _
    · exact hmissed

/-- A walk ends after the last of its positions. -/
theorem visit_ends (path : List Position) (steps : Nat) : (Control.visit path steps).Ends S n := by
  induction path with
  | nil =>
      intro stack i hi hstack
      refine ends_of_progress fun e => ?_
      simp only [next, ofVisit]
      split
      · exact ends_on (hstack _ i hi) e
      · next a _ =>
        exact ends_on (settle_ends _ stack { i with actor := a } ⟨hi.settings, hi.calls⟩ hstack) e
  | cons target rest ih =>
      intro stack i hi hstack
      refine ends_of_progress fun e => ?_
      simp only [next, ofVisit]
      split
      · exact ends_ofMotion hstack hi e target steps ih
      · exact ends_on (hstack _ i hi) e

-- A walk fails or is over at once, or its tiles are visited.
theorem ends_ofWalk {stack : Stack .success} (hstack : stack.Ends S n) {i : Interpreter}
    (hi : Within S n i) (e : Engine) (path : List Position) : Ends (ofWalk stack i e path) := by
  unfold ofWalk
  split
  · exact hstack _ i hi
  · split
    · exact settle_ends _ stack i hi hstack
    · exact visit_ends path _ stack i hi hstack

-- A function of a tile is asked for once.
theorem ends_ofTile {stack : Stack .success} (hstack : stack.Ends S n) {i : Interpreter}
    (hi : Within S n i) (e : Engine) (f : TileFunction) : (ofTile stack i e f).Ends := by
  simp only [ofTile]
  split
  · split
    · exact ends_on (ends_ofOutcome hstack hi _) _
    · exact ends_on (hstack _ i hi) e
  · exact ends_on (hstack _ i hi) e

/-- Whatever a capability sets out to do ends. -/
theorem ends_ofCourse {stack : Stack .success} (hstack : stack.Ends S n) {i : Interpreter}
    (hi : Within S n i) (e : Engine) (course : Course) : (ofCourse stack i e course).Ends := by
  cases course with
  | answer outcome => exact ends_on (ends_ofOutcome hstack hi outcome) e
  | print text => exact ends_on (settle_ends _ stack i hi hstack) _
  | walk path => exact ends_on (ends_ofWalk hstack hi e path) e
  | onTile f => exact ends_ofTile hstack hi e f
  | pause nanoseconds s => exact ends_pausing _ (settle_ends s stack i hi hstack) e

/-- Capabilities end: what they ask for is compared with what is there, and then they set out. -/
theorem capability_ends (c : Capability) (args : List Value) :
    (Control.capability c args).Ends S n := by
  intro stack i hi hstack
  refine ends_of_progress fun e => ?_
  simp only [next, ofCapability]
  split
  · exact ends_on (hstack _ i hi) e
  · split
    · exact ends_on (hstack _ i hi) e
    · exact ends_ofCourse hstack hi e _

-- A call of a function of a tile ends.
theorem tileFunction_ends (t : Tile) (name : String) : (Control.tileFunction t name).Ends S n :=
  fun _ _ hi hstack => ends_of_progress fun _ => ends_on (ends_ofOutcome hstack hi _) _

/-! ## Calls -/

-- The end of a subroutine call, outside of which there is one call less under way.
theorem ends_body (name : String) {stack : Stack .success} (hstack : stack.Ends S (n - 1)) :
    (Stack.body name stack).Ends S n := by
  intro r i hi
  have hleave : Within S (n - 1) (Step.leave i) :=
    ⟨hi.settings, List.length_tail.trans (congrArg (· - 1) hi.calls)⟩
  cases r with
  | ok flow => exact ends_of_on (fun _ => rfl) (hstack _ _ hleave)
  | error f => exact ends_of_on (fun _ => rfl) (hstack _ _ hleave)

-- A subroutine call ends if there is no room for it, or if the calls in it end.
theorem subroutine_ends
    (hcall : n < S.maxCallDepth → ∀ name args, (Control.call name args).Ends S (n + 1))
    (name : String) (s : Subroutine) (args : List Value) :
    (Control.subroutine name s args).Ends S n := by
  intro stack i hi hstack
  refine ends_of_on (fun _ => rfl) ?_
  unfold ofSubroutine
  split
  · exact hstack _ i hi
  · next hroom =>
    rw [hi.settings, hi.calls, Nat.not_le] at hroom
    exact block_ends (hcall hroom) s.body _ _ ⟨hi.settings, congrArg (· + 1) hi.calls⟩
      (ends_body name hstack)

/-- Calls end. -/
theorem call_ends (n : Nat) (name : String) (args : List Value) :
    (Control.call name args).Ends S n := by
  -- By induction on the calls that may still begin inside each other.
  induction hleft : S.maxCallDepth - n using Nat.strongRecOn generalizing n name args with
  | ind left ih =>
      have hinside : n < S.maxCallDepth → ∀ name args, (Control.call name args).Ends S (n + 1) :=
        fun hroom name args => ih (S.maxCallDepth - (n + 1)) (by omega) (n + 1) name args rfl
      intro stack i hi hstack
      refine ends_of_progress fun e => ?_
      simp only [next, ofCall]
      split
      · exact ends_on (hstack _ i hi) e
      · next a _ =>
        have hseen : Within S n { i with actor := a } := ⟨hi.settings, hi.calls⟩
        split
        · exact ends_on (hstack _ _ hseen) e
        · split
          · next callee _ =>
            refine ends_on ?_ _
            cases callee with
            | capability c => exact capability_ends c args stack _ hseen hstack
            | tileFunction t => exact tileFunction_ends t name stack _ hseen hstack
            | subroutine s => exact subroutine_ends hinside name s args stack _ hseen hstack
          · exact ends_on (hstack _ _ hseen) e

/-! ## Jobs -/

-- The end of a run is told, and what is around it is left.
theorem ends_main (actor : String) {stack : Stack .success} (hstack : stack.Ends S n) :
    (Stack.main actor stack).Ends S n :=
  fun r i hi => ends_of_on (fun _ => rfl) (hstack r i hi)

-- A call by name that is asked for from outside ends.
theorem callJob_ends (actor name : String) (args : List Value) :
    (Control.job (.call actor name args)).Ends S n :=
  fun stack i hi hstack => ends_of_on (fun _ => rfl) (call_ends n name args stack i hi hstack)

/-- Jobs end. The entry script is a call with its end on the stack. -/
theorem job_ends (job : Job) : (Control.job job).Ends S n := by
  cases job with
  | call actor name args => exact callJob_ends actor name args
  | main actor =>
      intro stack i hi hstack
      refine ends_of_progress fun e => ?_
      simp only [next, ofJob]
      split
      · exact ends_on (callJob_ends actor mainName [] _ i hi (ends_main i.actor.id hstack)) _
      · exact ends_on (hstack _ i hi) _

/-! ## Machines -/

/-- Whatever is to be done ends, if what is pending does. -/
theorem control_ends (c : Control k) : c.Ends S n := by
  have hcall : ∀ name args, (Control.call name args).Ends S n := call_ends n
  cases c with
  | job job => exact job_ends job
  | evaluate x => exact evaluate_ends hcall x
  | execute s => exact execute_ends hcall s
  | block body => exact block_ends hcall body
  | branches rest otherwise =>
      cases otherwise with
      | none => exact branches_ends hcall rest ends_noBlock
      | some body => exact branches_ends hcall rest (ends_someBlock (block_ends hcall body))
  | whileLoop condition body turns =>
      exact whileLoop_ends (evaluate_ends hcall condition) (block_ends hcall body) turns
  | forLoop name body values => exact forLoop_ends name (block_ends hcall body) values
  | call name args => exact hcall name args
  | capability c args => exact capability_ends c args
  | tileFunction t name => exact tileFunction_ends t name
  | subroutine name s args =>
      exact subroutine_ends (fun _ => call_ends (n + 1)) name s args
  | visit path steps => exact visit_ends path steps
  | arrive epoch target rest steps =>
      exact arrive_ends epoch target steps (visit_ends rest steps)
  | settle s => exact settle_ends s
  | back r => exact fun _ i hi hstack => hstack r i hi

/-- Whatever is pending ends, by what it waits for. -/
theorem pending_ends (p : Pending k l) : p.Ends S n := by
  cases p with
  | items done rest =>
      exact fun v _ _ hi hstack => ends_ofItems (fun x _ => control_ends _) (done ++ [v]) hstack hi
  | arguments name done rest =>
      exact fun v _ _ hi hstack => ends_ofArguments (fun args => control_ends _)
        (fun x _ => control_ends _) (done ++ [v]) hstack hi
  | container x => exact ends_container (control_ends _)
  | position whole => exact ends_position whole
  | operand op => exact ends_operand op
  | left op x => exact ends_left op (control_ends _)
  | right op l => exact ends_right op l
  | answer => exact ends_answer
  | assigned name op => exact ends_assigned name op
  | discarded => exact ends_discarded
  | branch body rest otherwise => exact ends_branch (control_ends _) (control_ends _)
  | whileTest condition body turns =>
      exact ends_turn (control_ends _) fun _ => control_ends _
  | whileBody condition body turns =>
      exact fun flow _ _ hi hstack => ends_ofAfterBody (control_ends _) flow hstack hi
  | iterated name body => exact ends_iterated name (control_ends _)
  | forBody name body rest =>
      exact fun flow _ _ hi hstack => ends_ofAfterBody (control_ends _) flow hstack hi
  | returned => exact ends_returned
  | sequence rest => exact ends_sequence (control_ends _)

/-- Stacks end. By induction on what is pending in them. -/
theorem stack_ends (stack : Stack k) : stack.Ends S n := by
  induction stack generalizing n with
  | last => exact fun r i _ => ends_of_progress fun e m hm => by cases hm
  | main actor rest ih => exact ends_main actor ih
  | pend p rest ih => exact (pending_ends p).stack ih
  | body name rest ih => exact ends_body name ih

/-- Every machine comes to an end, in whatever state it is and whatever happens to the engine
    between its steps. -/
theorem ends (m : Machine) : m.Ends :=
  control_ends m.control m.stack m.interpreter ⟨rfl, rfl⟩ (stack_ends m.stack)

/-! ## Runs -/

/-- What a machine comes to in at most some number of steps. Whatever others do to the engine in
    its waits is a parameter: it may depend on the number of the wait, on its length, and on the
    engine as it is then. -/
def run (meanwhile : Nat → Nat → Engine → Engine) (waits : Nat) :
    Nat → Machine → Engine → Option ((Outcome × Interpreter) × Engine)
  | 0, _, _ => none
  | fuel + 1, m, e =>
    match m.next e with
    | .on m e => run meanwhile waits fuel m e
    | .wait time m e => run meanwhile (waits + 1) fuel m (meanwhile waits time e)
    | .halt outcome i e => some ((outcome, i), e)

end Machine

/-- What a process comes to, by what others do to the engine in its waits. -/
def Process.through {α : Type} (meanwhile : Nat → Nat → Engine → Engine) (waits : Nat) :
    Process α → α × Engine
  | done a e => (a, e)
  | wait time e resume => through meanwhile (waits + 1) (resume (meanwhile waits time e))

namespace Machine

-- With enough steps a machine comes to what it stands for.
theorem run_eq_through {m : Machine} (h : m.Ends) (meanwhile : Nat → Nat → Engine → Engine)
    (waits : Nat) (e : Engine) :
    ∃ fuel, ∀ more, fuel ≤ more →
      run meanwhile waits more m e = some ((m.process e).through meanwhile waits) := by
  -- By induction on the steps that the machine can take.
  induction h generalizing waits e with
  | intro m _ ih =>
      have hprocess := process_next m e
      cases hnext : m.next e with
      | on m' e' =>
          rw [hnext] at hprocess
          rcases ih m' ⟨e, by rw [hnext]; rfl⟩ waits e' with ⟨fuel, hfuel⟩
          refine ⟨fuel + 1, fun more hmore => ?_⟩
          obtain ⟨more, rfl⟩ : ∃ less, more = less + 1 := ⟨more - 1, by omega⟩
          rw [run, hnext, ← hprocess]
          exact hfuel more (by omega)
      | wait time m' e' =>
          rw [hnext] at hprocess
          rcases ih m' ⟨e, by rw [hnext]; rfl⟩ (waits + 1) (meanwhile waits time e') with
            ⟨fuel, hfuel⟩
          refine ⟨fuel + 1, fun more hmore => ?_⟩
          obtain ⟨more, rfl⟩ : ∃ less, more = less + 1 := ⟨more - 1, by omega⟩
          rw [run, hnext, ← hprocess]
          exact hfuel more (by omega)
      | halt outcome i e' =>
          rw [hnext] at hprocess
          refine ⟨1, fun more hmore => ?_⟩
          obtain ⟨more, rfl⟩ : ∃ less, more = less + 1 := ⟨more - 1, by omega⟩
          rw [run, hnext, ← hprocess]
          rfl

end Machine

end Farmhand
