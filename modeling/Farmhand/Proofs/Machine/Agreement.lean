import Farmhand.Proofs.Machine.Meaning

/-!
# The Machine and the Evaluator

Calls are where the machine meets the engine: it looks for what the name stands for, walks from wait
to wait, calls functions of tiles, and pays. Each of these steps leaves the machine standing for the
same process, as those of expressions and statements do. So the machine, from the start of a job on,
does what the evaluator does.

## Main definitions

* `Machine.Course.step`: The step of the evaluator for what a capability sets out to do.

## Theorems

* `Machine.run_eq`: An operation does what it sets out to do.
* `Machine.process_ofVisit`, `Machine.process_ofArrive`: The steps of a walk.
* `Machine.process_next`: A step leaves a machine standing for the same.
* `Machine.process_start`: At the start, a machine stands for its job.
-/

namespace Farmhand

open Script

namespace Machine

/-! ## Calls -/

section

variable (stack : Stack .success) (i : Interpreter) (e : Engine)

/-- The outcome of a capability or of a tile function is settled: paid for, or turned into a
    failure. -/
theorem process_ofOutcome (r : Outcome) :
    (ofOutcome stack i r).process e =
      stack.around (Step.bind (Step.ofExcept r) Step.settle) i e := by
  cases r with
  | ok s => rfl
  | error f => rfl

-- A machine that pauses sleeps, and then is what it was.
theorem process_pausing (nanoseconds : Nat) (m : Machine) :
    (pausing nanoseconds m e).process = (Process.sleep nanoseconds e).bind fun _ => m.process := by
  unfold pausing Process.sleep
  split <;> rfl

theorem seeing_settings (w : World) : (seeing i w).settings = i.settings := by
  unfold seeing
  split <;> rfl

theorem seeing_frames (w : World) : (seeing i w).frames = i.frames := by
  unfold seeing
  split <;> rfl

-- The pause after a success is looked up in the settings, and is left out if it is zero.
theorem process_ofPace (s : Success) :
    (ofPace stack i e s).process =
      stack.around (Step.bind (Step.pace s) fun _ => Step.pure s) i e := by
  unfold ofPace Step.pace Stack.around
  rw [Step.bind_apply]
  cases s.duration with
  | none => rfl
  | some duration =>
      simp only [Step.ofProcess]
      rw [process_pausing, Process.andThen_eq_bind, Process.bind_bind, Process.bind_bind]
      rfl

/-- What follows a success: the energy, the look at the actor as it is now, and the pause. -/
theorem process_ofSettle (s : Success) :
    (ofSettle stack i e s).process = stack.around (Step.settle s) i e := by
  have hfree : (ofPace stack i e s).process =
      stack.around (Step.bind (Step.pure ()) fun _ => Step.bind (Step.pace s) fun _ =>
        Step.pure s) i e :=
    process_ofPace stack i e s
  rw [Step.settle_eq]
  unfold ofSettle Step.charge
  cases s.energyCost with
  | none => exact hfree
  | some cost =>
      simp only
      split
      · unfold Stack.around
        rw [Step.bind_apply]
        unfold Step.debit
        cases e.world.updateActor i.actor.id { energy := some (.debit cost) } with
        | error error => rfl
        | ok world =>
            simp only
            rw [process_ofPace]
            unfold Stack.around
            rw [seeing_settings, seeing_frames]
            rfl
      · exact hfree

/-- A walk is charged before it begins, so the two sides part at the charge and at the bounds. -/
theorem process_ofWalk (path : List Position) :
    (ofWalk stack i e path).process e =
      stack.around (Step.bind (Step.walk path) Step.settle) i e := by
  unfold ofWalk Stack.around
  rw [Step.bind_apply, Step.walk_eq]
  cases path.find? fun p => !e.world.bounds.contains p with
  | some outside => rfl
  | none =>
      simp only
      cases path.isEmpty with
      | true => rfl
      | false =>
          have hvisit : visitStep path path.length =
              Step.bind (Step.bind (Step.visit path) fun _ => Step.bind Step.resync fun _ =>
                Step.arrive path.length) Step.settle := by
            unfold visitStep
            simp only [Step.bind_bind]
          simp only [Bool.false_eq_true, if_false]
          unfold process Stack.around
          simp only [Control.step]
          rw [hvisit, Step.bind_apply]

-- The tile is the one that the actor stands on, if there is one.
theorem process_ofTile (f : TileFunction) :
    (ofTile stack i e f).process =
      stack.around (Step.bind (Step.onTile f) Step.settle) i e := by
  unfold ofTile Stack.around
  rw [Step.bind_apply]
  unfold Step.onTile
  cases e.world.tileAt? i.actor.position with
  | none => rfl
  | some t =>
      simp only
      by_cases hkind : t.kind = f.kind
      · simp only [hkind, if_true]
        exact process_ofOutcome stack i _ _
      · simp only [hkind, if_false]
        rfl

/-- The step of the evaluator for what a capability sets out to do. -/
def Course.step : Course → Step Success
  | .answer outcome => Step.ofExcept outcome
  | .print text => fun i e =>
    .done (.ok { message := some text }, i) (e.emit (.log i.actor.id .info text))
  | .walk path => Step.walk path
  | .onTile f => Step.onTile f
  | .pause nanoseconds s => Step.bind (Step.ofProcess (Process.sleep nanoseconds)) fun _ =>
      Step.pure s

/-- What a capability sets out to do is what it does, one kind of arguments after the other. -/
theorem computed_eq (r : Except ArgumentError Value) :
    Step.computed r i e = (Course.computed r).step i e := by
  cases r with
  | ok v => rfl
  | error error => rfl

theorem withArgument_eq {α : Type} (r : Except ArgumentError α) {next : α → Step Success}
    {course : α → Course} (h : ∀ a, next a i e = (course a).step i e) :
    Step.withArgument r next i e = (Course.withArgument r course).step i e := by
  cases r with
  | ok a => exact h a
  | error error => rfl

-- A way that does not fit into the numbers of the program is no course.
theorem along_eq (laid : Except Overflow (List Position)) :
    Step.walkAlong laid = (Course.along laid).step := by
  cases laid with
  | ok path => rfl
  | error overflow => rfl

/-- An operation does what it sets out to do. -/
theorem run_eq (o : Operation) (args : Arguments) :
    o.run args i e = (Course.of o args i e.world.bounds).step i e := by
  have hstride : ∀ direction steps, Step.stride direction steps i e =
      (Course.stride i e.world.bounds direction steps).step i e := by
    intro direction steps
    rw [Step.stride_eq, along_eq, Course.stride]
  have hwalkTo : ∀ goal, Step.walkTo goal i e =
      (Course.along (i.actor.position.layOut goal)).step i e := by
    intro goal
    rw [Step.walkTo_eq, along_eq]
  cases o with
  | step direction => exact hstride direction 1
  | move =>
      exact withArgument_eq i e _ fun direction => withArgument_eq i e _ fun steps =>
        hstride direction steps
  | moveTo => exact withArgument_eq i e _ hwalkTo
  | wait => exact withArgument_eq i e _ fun _ => rfl
  | range => exact computed_eq i e _
  | len => exact computed_eq i e _
  | min => exact computed_eq i e _
  | max => exact computed_eq i e _
  | sum => exact computed_eq i e _
  | abs => exact computed_eq i e _
  | _ => rfl

-- The three courses: something computed, a walk, and a function of a tile.
theorem process_ofCourse (course : Course) :
    (ofCourse stack i e course).process =
      stack.around (Step.bind course.step Step.settle) i e := by
  cases course with
  | answer outcome => exact process_ofOutcome stack i e outcome
  | print text => rfl
  | walk path => exact process_ofWalk stack i e path
  | onTile f => exact process_ofTile stack i e f
  | pause nanoseconds s =>
      unfold Stack.around Course.step
      rw [Step.bind_bind, Step.bind_apply, Step.ofProcess, Process.andThen_eq_bind,
        Process.bind_bind, Process.bind_bind]
      exact process_pausing e nanoseconds _

-- A capability looks at the actor first, and at its tasks if it acts.
theorem process_ofCapability (c : Capability) (args : List Value) :
    (ofCapability stack i e c args).process =
      stack.around (Step.callCapability c args) i e := by
  unfold ofCapability
  simp only [Stack.around]
  rw [Step.callCapability_eq]
  cases c.energy.demand i.actor args with
  | error overflow => rfl
  | ok required =>
      simp only
      split
      · rfl
      · rw [Step.bind_apply, run_eq, ← Step.bind_apply]
        exact process_ofCourse stack i e _

theorem process_ofTileFunction (t : Tile) (name : String) :
    (ofTileFunction stack i e t name).process = stack.around (Step.callTile t name) i e := by
  unfold ofTileFunction Stack.around
  rw [Step.callTile_eq]
  exact process_ofOutcome stack i _ _

theorem process_ofSubroutine (name : String) (s : Subroutine) (args : List Value) :
    (ofSubroutine stack i name s args).process e =
      stack.around (subroutineAt (i.settings.maxCallDepth - i.frames.length) name s args) i e := by
  unfold ofSubroutine
  split
  · next hfull =>
    rw [Nat.sub_eq_zero_of_le hfull]
    rfl
  · next hroom =>
    -- The frame of the call is one of the calls under way in its body.
    have hleft : i.settings.maxCallDepth - i.frames.length =
        i.settings.maxCallDepth - (i.frames.length + 1) + 1 := by omega
    rw [hleft]
    unfold Stack.around
    simp only [subroutineAt, Step.enter]
    rw [Process.andThen_eq_bind, Process.bind_bind]
    unfold process Stack.around
    refine congrArg (Process.bind _) (funext fun r => funext fun e => ?_)
    rcases r with ⟨f | flow, j⟩ <;> rfl

/-! ### Walks -/

-- A walk without further tiles has arrived.
theorem visitStep_nil (steps : Nat) :
    visitStep [] steps = Step.bind Step.resync fun _ => Step.bind (Step.arrive steps) Step.settle :=
  rfl

-- One tile of a walk: a look at whether to go on, the motion, and the rest.
theorem visitStep_cons (target : Position) (rest : List Position) (steps : Nat) :
    visitStep (target :: rest) steps =
      Step.bind Step.checkRunning fun _ =>
        Step.bind (Step.motion target) (walkOn target rest steps) := by
  unfold visitStep
  rw [Step.visit_cons]
  simp only [Step.bind_bind]
  refine congrArg (Step.bind Step.checkRunning) (funext fun _ => ?_)
  refine congrArg (Step.bind (Step.motion target)) (funext fun arrived => ?_)
  cases arrived with
  | true => rfl
  | false => rfl

-- A motion that did not arrive says where it was headed.
theorem process_interrupted (target : Position) (rest : List Position) (steps : Nat) :
    (interrupted stack i target e).process =
      stack.around (walkOn target rest steps false) i e := by
  simp only [interrupted, Progress.process]
  rw [process_ofResult (seeing_settings i e.world) (congrArg List.length (seeing_frames i e.world))]
  rfl

/-- The end of a motion compares the epochs, and the tile is reached only if they agree. -/
theorem process_ofArrive (epoch : Nat) (target : Position) (rest : List Position) (steps : Nat) :
    (ofArrive stack i e epoch target rest steps).process =
      stack.around (Step.bind (landing epoch target) (walkOn target rest steps)) i e := by
  have hmissed := process_interrupted stack i e target rest steps
  unfold ofArrive Stack.around
  rw [Step.bind_apply]
  unfold landing
  by_cases hepoch : e.motionEpoch = epoch
  · simp only [hepoch, if_true]
    cases e.world.updateActor i.actor.id { position := some target } with
    | ok world => rfl
    | error error => exact hmissed
  · simp only [hepoch, if_false]
    exact hmissed

/-- A motion may begin, or be refused: for an actor that is not there, for a tile out of the world,
    and for a time that is too long. -/
theorem process_ofMotion (target : Position) (rest : List Position) (steps : Nat) :
    (ofMotion stack i e target rest steps).process =
      stack.around (Step.bind (Step.motion target) (walkOn target rest steps)) i e := by
  have hmissed := process_interrupted stack i
    { e with moveRequests := e.moveRequests + 1 } target rest steps
  unfold ofMotion Stack.around
  rw [Step.bind_apply, Step.motion_eq, Process.bind_bind, Process.bind_bind]
  unfold Process.move
  simp only
  cases e.world.actor i.actor.id with
  | error error => exact hmissed
  | ok a =>
      simp only
      cases e.world.bounds.contains target with
      | false => exact hmissed
      | true =>
          simp only [if_true]
          cases Duration.stepAt e.stepTime a.speed with
          | error overflow => rfl
          | ok time =>
              cases time with
              | none => exact hmissed
              | some time =>
                  simp only
                  rw [process_pausing, Process.bind_bind]
                  refine congrArg (Process.bind _) (funext fun _ => funext fun e' => ?_)
                  unfold process Stack.around
                  simp only [Control.step]
                  rw [Step.bind_apply, Process.bind_bind]
                  unfold landing
                  by_cases hepoch : e'.motionEpoch = e.motionEpoch
                  · simp only [hepoch, if_true]
                    cases e'.world.updateActor i.actor.id { position := some target } with
                    | ok world => rfl
                    | error error => rfl
                  · simp only [hepoch, if_false]
                    rfl

/-- The rest of a walk, tile by tile. -/
theorem process_ofVisit (path : List Position) (steps : Nat) :
    (ofVisit stack i e path steps).process = stack.around (visitStep path steps) i e := by
  cases path with
  | nil =>
      rw [visitStep_nil]
      unfold ofVisit Stack.around
      rw [Step.bind_apply]
      unfold Step.resync
      cases ha : e.world.actor i.actor.id with
      | error error => rfl
      | ok a => rfl
  | cons target rest =>
      rw [visitStep_cons, around_checkRunning, ← process_ofMotion]
      simp only [ofVisit]
      split <;> rfl

/-! ### The beginnings of calls and jobs -/

/-- A name stands for a capability, a subroutine or a function of the tile, looked up in this order.
    -/
theorem process_ofCall (name : String) (args : List Value) :
    (ofCall stack i e name args).process =
      stack.around (calls i.settings i.frames.length name args) i e := by
  unfold ofCall calls Stack.around
  rw [callAt_eq, Step.callWith_eq, Step.bind_apply]
  unfold Step.resync
  cases ha : e.world.actor i.actor.id with
  | error error => rfl
  | ok a =>
      simp only [Process.bind]
      rw [Step.bind_apply]
      unfold Step.checkIdle
      simp only
      cases htask : e.actorTask? a.id with
      | some task => rfl
      | none =>
          simp only [Process.bind]
          unfold Step.dispatch callee?
          cases hfound : Catalog.builtin.get? name with
          | some c => rfl
          | none =>
              simp only
              cases hoffer : Step.offering? { i with actor := a } e name with
              | some t => rfl
              | none =>
                  simp only
                  cases hget : i.subroutines.get? name with
                  | some s => rfl
                  | none => rfl

-- A job is a program or a call, and both begin with what the interpreter notes of it.
theorem process_ofJob (job : Job) :
    (ofJob stack i e job).process = stack.around job.step i e := by
  cases job with
  | call actor name args => rfl
  | main actor =>
      unfold ofJob Stack.around
      simp only [Job.step, runMain]
      split
      · rw [Process.andThen_eq_bind, Process.bind_bind]
        rfl
      · rfl

end

/-! ## Steps -/

/-- A step leaves a machine standing for the same. -/
theorem process_next (m : Machine) (e : Engine) : (m.next e).process = m.process e := by
  rcases m with ⟨k, control, stack, i⟩
  cases control with
  | job job => exact process_ofJob stack i e job
  | evaluate x => exact process_ofExpr stack i e x
  | execute s =>
      refine Eq.trans ?_ (process_ofStmt stack i e s).symm
      simp only [next]
      split <;> rfl
  | block body => exact process_ofBlock stack i e body
  | branches rest otherwise => exact process_ofBranches stack i e rest otherwise
  | whileLoop condition body turns =>
      have hturn := around_checkRunning stack i e fun _ =>
        Step.bind (evaluate (calls i.settings i.frames.length) condition)
          (turnStep i.settings i.frames.length condition body turns)
      rw [← whileStep_eq] at hturn
      refine Eq.trans ?_ hturn.symm
      simp only [next]
      split
      · exact process_pend _ _ _ _ _
      · rfl
  | forLoop name body values =>
      cases values with
      | nil => rfl
      | cons v rest =>
          refine Eq.trans ?_ (around_checkRunning stack i e fun _ =>
            Step.bind (Step.assign name v) fun _ =>
              Step.bind (runBlock (calls i.settings i.frames.length) i.settings.maxLoopIterations
                body) fun flow => Step.afterBody flow
                  (forStep i.settings i.frames.length name body rest)).symm
          simp only [next]
          split
          · simp only [Progress.process]
            rw [process_pend]
            unfold Stack.around
            rw [(i.kin_assign name v).settings, frames_length_assign]
            rfl
          · rfl
  | call name args => exact process_ofCall stack i e name args
  | capability c args => exact process_ofCapability stack i e c args
  | tileFunction t name => exact process_ofTileFunction stack i e t name
  | subroutine name s args => exact process_ofSubroutine stack i e name s args
  | visit path steps => exact process_ofVisit stack i e path steps
  | arrive epoch target rest steps => exact process_ofArrive stack i e epoch target rest steps
  | settle s => exact process_ofSettle stack i e s
  | back r =>
      cases stack with
      | last => rfl
      | main actor rest => rfl
      | pend p rest =>
          cases r with
          | ok a => exact process_resume p a rest i e
          | error f => rfl
      | body name rest =>
          -- Its frame is the first of those under way.
          have hleave : (Step.leave i).frames.length = i.frames.length - 1 := List.length_tail
          cases r with
          | ok flow => exact congrArg (fun n => rest.plug i.settings n _ e) hleave
          | error f => exact congrArg (fun n => rest.plug i.settings n _ e) hleave

/-- At the start, a machine stands for its job. -/
theorem process_start (job : Job) (i : Interpreter) (e : Engine) :
    (start job i).process e = job.step i e :=
  Process.bind_done (job.step i e)

end Machine

end Farmhand
