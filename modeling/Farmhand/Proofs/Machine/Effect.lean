import Farmhand.Proofs.Engine.Interaction
import Farmhand.Proofs.Interpreter.Keeping
import Farmhand.Proofs.Machine.Ending
import Farmhand.Proofs.World.Transact

/-!
# What One Step Does

A machine has many steps, but what they do to the engine is of few kinds: they tell something, count
a request for motion, write the place or the energy of the actor, call a function of a tile, or say
whether the interpreter may go on. This module says so once for all steps, with what was seen in the
step by which a call begins. What a run keeps, it keeps because these few things do.

A call acts from the step in which it was announced until it came back. Nothing else leads to a call
that acts, and the one step that does looks for a task of the actor first.

## Main definitions

* `Machine.Control.Acts`: A call that was announced and has not come back.
* `Machine.Effect`: What a step does to the engine.
* `Machine.Passage`: All that is known of a step.

## Theorems

* `Machine.Effect.touches`, `Machine.Effect.follows`: What a step does to the world and to tasks.
* `Machine.calm_resume`: What is pending is no call that acts.
* `Machine.passage_next`: All of this holds of every step.
-/

namespace Farmhand

open Script

-- Telling is all that happens.
theorem Engine.emitAll_eq (e : Engine) (events : List Event) :
    e.emitAll events = { e with log := events.reverse ++ e.log } := by
  unfold emitAll
  induction events generalizing e with
  | nil => rfl
  | cons event rest ih =>
      rw [List.foldl_cons, ih, List.reverse_cons, List.append_assoc]
      rfl

namespace Machine

-- Only a name of a capability stands for one.
theorem get?_of_callee?_capability {i : Interpreter} {e : Engine} {name : String} {c : Capability}
    (h : callee? i e name = some (.capability c)) : Catalog.builtin.get? name = some c := by
  unfold callee? at h
  split at h
  · next c' hc => rw [hc, Callee.capability.inj (Option.some.inj h)]
  · split at h
    · simp only [Option.some.injEq, reduceCtorEq] at h
    · rcases Option.map_eq_some_iff.mp h with ⟨s, _, heq⟩
      cases heq

-- Only a name of a subroutine stands for one.
theorem get?_of_callee? {i : Interpreter} {e : Engine} {name : String} {s : Subroutine}
    (h : callee? i e name = some (.subroutine s)) : i.subroutines.get? name = some s := by
  unfold callee? at h
  split at h
  · simp only [Option.some.injEq, reduceCtorEq] at h
  · split at h
    · simp only [Option.some.injEq, reduceCtorEq] at h
    · rcases Option.map_eq_some_iff.mp h with ⟨s', hs', heq⟩
      rw [hs', Callee.subroutine.inj heq]

/-- A call that was announced and has not come back: it may still move the actor or call a function
    of a tile. -/
def Control.Acts {k : Kind} : Control k → Prop
  | .capability _ _ => True
  | .tileFunction _ _ => True
  | .subroutine _ _ _ => True
  | .visit _ _ => True
  | .arrive _ _ _ _ => True
  | _ => False

/-- The name of a call that is about to begin. -/
def Control.called? {k : Kind} : Control k → Option String
  | .call name _ => some name
  | _ => none

/-- What a step does to the engine. -/
inductive Effect (m : Machine) (e : Engine) : Engine → Prop where
  | told (events : List Event) (hcalls : ∀ event ∈ events, ¬ event.IsCall) :
      Effect m e (e.emitAll events)
  /-- The beginning or the end of a run. -/
  | flagged (value : Bool) (events : List Event) (hcalls : ∀ event ∈ events, ¬ event.IsCall) :
      Effect m e ((e.setRunning m.interpreter.handle value).emitAll events)
  /-- The beginning of a call, of an actor that was seen to have no task. It is told with where the
      name was found. -/
  | called {a : Actor} (ha : e.world.actor m.interpreter.actor.id = .ok a)
      (hidle : e.actorTask? a.id = none) (depth : Nat) {name : String} (args : List String)
      (hname : m.control.called? = some name) {callee : Callee}
      (hcallee : callee? { m.interpreter with actor := a } e name = some callee) :
      Effect m e (e.emit (.call a.id depth name args callee.source))
  | asked (hacts : m.control.Acts) : Effect m e { e with moveRequests := e.moveRequests + 1 }
  | moved (hacts : m.control.Acts) {target : Position} {world : World}
      (hworld : e.world.updateActor m.interpreter.actor.id { position := some target } =
        .ok world) : Effect m e { e with world }
  | charged {cost : Nat} {world : World}
      (hworld : e.world.updateActor m.interpreter.actor.id { energy := some (.debit cost) } =
        .ok world) : Effect m e { e with world }
  | used (hacts : m.control.Acts) (tile name : String) :
      Effect m e (e.invoke true m.interpreter.actor.id tile name).2

/-- All that is known of a step: what it does, when it leads to a call that acts, and that the
    interpreter goes on driving the same actor. -/
structure Passage (m : Machine) (e : Engine) (p : Progress) : Prop where
  effect : Effect m e p.engine
  acts : ∀ m', p.machine? = some m' → m'.control.Acts → p.engine.slots = e.slots ∧
    (m.control.Acts ∨ e.actorTask? m'.interpreter.actor.id = none)
  actor : e.world.Keyed → ∀ m', p.machine? = some m' →
    m'.interpreter.actor.id = m.interpreter.actor.id

variable {m m' : Machine} {e e' : Engine}

-- A step that does nothing tells no events.
theorem effect_none (m : Machine) (e : Engine) : Effect m e e :=
  .told [] (List.forall_mem_nil _)

/-- What a step does to the world and to tasks: it leaves them, changes the actor, whose place only
    a call that acts changes, or calls a function of a tile. -/
theorem Effect.touches (h : Effect m e e') :
    (e'.world = e.world ∧ e'.slots = e.slots) ∨
      (∃ patch, e.world.updateActor m.interpreter.actor.id patch = .ok e'.world ∧
        e'.slots = e.slots ∧ (patch.position = none ∨ m.control.Acts)) ∨
      ∃ tile name, e' = (e.invoke true m.interpreter.actor.id tile name).2 := by
  cases h with
  | told events _ =>
      rw [Engine.emitAll_eq]
      exact .inl ⟨rfl, rfl⟩
  | flagged value events _ =>
      rw [Engine.emitAll_eq]
      exact .inl ⟨rfl, rfl⟩
  | called _ _ depth args _ _ => exact .inl ⟨rfl, rfl⟩
  | asked _ => exact .inl ⟨rfl, rfl⟩
  | moved hacts hworld => exact .inr (.inl ⟨_, hworld, rfl, .inr hacts⟩)
  | charged hworld => exact .inr (.inl ⟨_, hworld, rfl, .inl rfl⟩)
  | used _ tile name => exact .inr (.inr ⟨tile, name, rfl⟩)

/-- What tile functions and tasks follow, and changes of an actor, is followed by a step. -/
theorem Effect.follows {R : World → World → Prop} (hR : World.Followed R)
    (hactor : ∀ {w w' id patch}, w.updateActor id patch = .ok w' → R w w') (h : Effect m e e') :
    R e.world e'.world := by
  rcases h.touches with ⟨hworld, _⟩ | ⟨patch, hworld, _⟩ | ⟨tile, name, rfl⟩
  · rw [hworld]
    exact hR.self _
  · exact hactor hworld
  · exact hR.invoke e true _ tile name

/-! ## Steps of the interpreter alone -/

/-- A machine that has the same view of its actor as an interpreter, and whose call, if it is in
    one, does not act. -/
structure Calm (i : Interpreter) (m : Machine) : Prop where
  actor : m.interpreter.actor = i.actor
  rests : ¬ m.control.Acts

-- A step to something that is no call that acts.
theorem passage_rests (heffect : Effect m e e') (hrests : ¬ m'.control.Acts)
    (hactor : e.world.Keyed → m'.interpreter.actor.id = m.interpreter.actor.id) :
    Passage m e (.on m' e') where
  effect := heffect
  acts := fun _ hm hacts => absurd (Option.some.inj hm ▸ hacts) hrests
  actor := fun h _ hm => Option.some.inj hm ▸ hactor h

-- A step to a calm machine is known by what it does.
theorem Calm.passage (h : Calm m.interpreter m') (heffect : Effect m e e') :
    Passage m e (.on m' e') :=
  passage_rests heffect h.rests fun _ => congrArg Actor.id h.actor

-- A wait changes nothing about that.
theorem Passage.pausing (h : Passage m e (.on m' e')) (nanoseconds : Nat) :
    Passage m e (pausing nanoseconds m' e') := by
  unfold Machine.pausing
  split
  · exact h
  · exact ⟨h.effect, h.acts, h.actor⟩

section

variable {k l : Kind} {stack : Stack k} {i : Interpreter}

-- A result is no call that acts.
theorem calm_ofResult (r : Except Failure k.Result) : Calm i (ofResult stack i r) :=
  ⟨rfl, id⟩

-- The result of an operation is no call that acts.
theorem calm_ofOperation (r : Except OperationError k.Result) :
    Calm i (ofOperation stack i r) := by
  cases r with
  | ok a => exact ⟨rfl, id⟩
  | error error => exact ⟨rfl, id⟩

end

section

variable {stack : Stack .value} {i : Interpreter}

-- The items of a list are no call that acts.
theorem calm_ofItems (done : List Value) (xs : List Expr) : Calm i (ofItems stack i done xs) := by
  cases xs with
  | nil => exact ⟨rfl, id⟩
  | cons x rest => exact ⟨rfl, id⟩

-- While its arguments are evaluated, a call is not announced yet.
theorem calm_ofArguments (name : String) (done : List Value) (xs : List Expr) :
    Calm i (ofArguments stack i name done xs) := by
  cases xs with
  | nil => exact ⟨rfl, id⟩
  | cons x rest => exact ⟨rfl, id⟩

/-- No expression is a call that acts, since a call is announced only behind its arguments. -/
theorem calm_ofExpr (x : Expr) : Calm i (ofExpr stack i x) := by
  cases x with
  | list items span => exact calm_ofItems [] items
  | call name args span => exact calm_ofArguments name [] args
  | _ => exact ⟨rfl, id⟩

-- Behind an operator stands another expression.
theorem calm_ofBinary (op : BinaryOp) (l : Value) (right : Expr) :
    Calm i (ofBinary stack i op l right) := by
  unfold ofBinary
  split
  · split <;> exact ⟨rfl, id⟩
  · split <;> exact ⟨rfl, id⟩
  · exact ⟨rfl, id⟩

end

section

variable {stack : Stack .flow} {i : Interpreter}

/-- No statement is a call that acts. -/
theorem calm_ofStmt (s : Stmt) : Calm i (ofStmt stack i s) := by
  cases s with
  | returnWith value span =>
      cases value with
      | some x => exact ⟨rfl, id⟩
      | none => exact ⟨rfl, id⟩
  | _ => exact ⟨rfl, id⟩

-- A branch begins with its condition or its block.
theorem calm_ofBranches (rest : List (Expr × Block)) (otherwise : Option Block) :
    Calm i (ofBranches stack i rest otherwise) := by
  unfold ofBranches
  split <;> exact ⟨rfl, id⟩

-- A block begins with its first statement.
theorem calm_ofBlock (body : Block) : Calm i (ofBlock stack i body) := by
  cases body with
  | nil => exact ⟨rfl, id⟩
  | cons s rest => exact ⟨rfl, id⟩

-- Behind its body a loop goes on or ends.
theorem calm_ofAfterBody (flow : Flow) {goOn : Control .flow} (hgoOn : ¬ goOn.Acts) :
    Calm i (ofAfterBody stack i flow goOn) := by
  cases flow with
  | normal => exact ⟨rfl, hgoOn⟩
  | continued => exact ⟨rfl, hgoOn⟩
  | broken => exact ⟨rfl, id⟩
  | returned v => exact ⟨rfl, id⟩

end

/-- What is pending is no call that acts. -/
theorem calm_resume {k l : Kind} (p : Pending k l) (a : k.Result) (stack : Stack l)
    (i : Interpreter) : Calm i (p.resume a stack i) := by
  cases p with
  | items done rest => exact calm_ofItems (done ++ [a]) rest
  | arguments name done rest => exact calm_ofArguments name (done ++ [a]) rest
  | position whole => exact calm_ofOperation _
  | operand op =>
      cases op with
      | neg => exact calm_ofOperation _
      | not => exact ⟨rfl, id⟩
  | left op x => exact calm_ofBinary op a x
  | right op l => exact calm_ofOperation _
  | assigned name op =>
      simp only [Pending.resume]
      split
      · next j hj =>
        rcases assignedWith_eq_ok hj with ⟨result, rfl⟩
        exact ⟨(i.kin_assign name result).actor, id⟩
      · exact ⟨rfl, id⟩
  | branch body rest otherwise =>
      simp only [Pending.resume]
      split <;> exact ⟨rfl, id⟩
  | whileTest condition body turns =>
      simp only [Pending.resume]
      split
      · split <;> exact ⟨rfl, id⟩
      · exact ⟨rfl, id⟩
  | whileBody condition body turns => exact calm_ofAfterBody a id
  | iterated name body =>
      simp only [Pending.resume]
      split <;> exact ⟨rfl, id⟩
  | forBody name body rest => exact calm_ofAfterBody a id
  | sequence rest =>
      cases a with
      | _ => exact ⟨rfl, id⟩
  | _ => exact ⟨rfl, id⟩

/-! ## Calls -/

section

variable {stack : Stack .success} {i : Interpreter}

-- A call that came back acts no more.
theorem calm_ofOutcome (r : Outcome) : Calm i (ofOutcome stack i r) := by
  cases r with
  | ok s => exact ⟨rfl, id⟩
  | error f => exact ⟨rfl, id⟩

end

-- A look at the actor finds the actor of the same id.
theorem id_of_keyed {w : World} (h : w.Keyed) {id : String} {a : Actor}
    (ha : w.actor id = .ok a) : a.id = id :=
  h.actors id a ((World.actor_eq_ok_iff w id a).mp ha)

-- An actor that is seen anew is the same actor.
theorem seeing_id {w : World} (h : w.Keyed) (i : Interpreter) :
    (seeing i w).actor.id = i.actor.id := by
  unfold seeing
  split
  · next a ha => exact id_of_keyed h ha
  · rfl

-- What a call that acts does next as long as it acts leaves the tasks alone.
theorem passage_acts (heffect : Effect m e e') (hslots : e'.slots = e.slots)
    (hacts : m.control.Acts) (hactor : m'.interpreter = m.interpreter) :
    Passage m e (.on m' e') where
  effect := heffect
  acts := fun _ _ _ => ⟨hslots, .inl hacts⟩
  actor := fun _ _ hm => Option.some.inj hm ▸ congrArg (fun i => i.actor.id) hactor

section

variable (stack : Stack .success) (i : Interpreter) (e : Engine)

-- The pace of a call does nothing to the engine.
theorem passage_ofPace {j : Interpreter} (heffect : Effect m e e')
    (hactor : e.world.Keyed → j.actor.id = m.interpreter.actor.id) (s : Success) :
    Passage m e (ofPace stack j e' s) := by
  have hover : Passage m e (.on (ofResult stack j (.ok s)) e') := passage_rests heffect id hactor
  unfold ofPace
  split
  · exact hover.pausing _
  · exact hover

/-- What a call costs is written to its actor. -/
theorem passage_ofSettle (s : Success) :
    Passage ⟨_, .settle s, stack, i⟩ e (ofSettle stack i e s) := by
  have hfree := passage_ofPace stack e (effect_none ⟨_, .settle s, stack, i⟩ e) (fun _ => rfl) s
  unfold ofSettle
  split
  · split
    · split
      · exact (calm_ofResult _).passage (effect_none _ e)
      · next world hworld =>
        have hkeyed := (World.updateActor_eq_ok hworld).2.2
        have hcharged : Effect ⟨_, .settle s, stack, i⟩ e { e with world } := .charged hworld
        exact passage_ofPace stack e hcharged (fun h => seeing_id (hkeyed h) i) s
    · exact hfree
  · exact hfree

-- A walk that is interrupted has come back.
theorem passage_interrupted (heffect : Effect m e e') (hworld : e'.world = e.world)
    (target : Position) : Passage m e (interrupted stack m.interpreter target e') :=
  passage_rests heffect id fun h => seeing_id (hworld ▸ h) m.interpreter

/-- An arrival writes the place of the actor, or does nothing. -/
theorem passage_ofArrive (epoch : Nat) (target : Position) (rest : List Position) (steps : Nat) :
    Passage ⟨_, .arrive epoch target rest steps, stack, i⟩ e
      (ofArrive stack i e epoch target rest steps) := by
  have hmissed := passage_interrupted stack e
    (effect_none ⟨_, .arrive epoch target rest steps, stack, i⟩ e) rfl target
  unfold ofArrive
  split
  · split
    · next world hworld =>
      have hmoved := Effect.moved (m := ⟨_, .arrive epoch target rest steps, stack, i⟩) trivial
        hworld
      exact passage_acts hmoved rfl trivial rfl
    · exact hmissed
  · exact hmissed

/-- A motion counts a request. -/
theorem passage_ofMotion (target : Position) (rest : List Position) (steps : Nat) :
    Passage ⟨_, .visit (target :: rest) steps, stack, i⟩ e
      (ofMotion stack i e target rest steps) := by
  have hasked : Effect ⟨_, .visit (target :: rest) steps, stack, i⟩ e
      { e with moveRequests := e.moveRequests + 1 } := .asked trivial
  have hmissed := passage_interrupted stack e hasked rfl target
  simp only [ofMotion]
  split
  · exact hmissed
  · split
    · split
      · exact (calm_ofResult _).passage hasked
      · exact hmissed
      · refine Passage.pausing ?_ _
        exact passage_acts hasked rfl trivial rfl
    · exact hmissed

/-- Before each tile of a walk and behind the last one nothing is done. -/
theorem passage_ofVisit (path : List Position) (steps : Nat) :
    Passage ⟨_, .visit path steps, stack, i⟩ e (ofVisit stack i e path steps) := by
  cases path with
  | nil =>
      unfold ofVisit
      simp only
      split
      · exact (calm_ofResult _).passage (effect_none _ e)
      · next a ha => exact passage_rests (effect_none _ e) id fun h => id_of_keyed h ha
  | cons target rest =>
      simp only [ofVisit]
      split
      · exact passage_ofMotion stack i e target rest steps
      · exact (calm_ofResult _).passage (effect_none _ e)

/-! ## Capabilities and tile functions -/

-- A walk begins with nothing.
theorem passage_ofWalk (c : Capability) (args : List Value) (path : List Position) :
    Passage ⟨_, .capability c args, stack, i⟩ e (.on (ofWalk stack i e path) e) := by
  unfold ofWalk
  split
  · exact (calm_ofResult _).passage (effect_none _ e)
  · split
    · exact passage_rests (effect_none _ e) id fun _ => rfl
    · exact passage_acts (effect_none _ e) rfl trivial rfl

/-- A capability on a tile calls the function of the tile, if there is a tile. -/
theorem passage_ofTile (c : Capability) (args : List Value) (f : TileFunction) :
    Passage ⟨_, .capability c args, stack, i⟩ e (ofTile stack i e f) := by
  have hwrong : ∀ f, Passage ⟨_, .capability c args, stack, i⟩ e
      (.on (ofResult stack i (.error f)) e) :=
    fun f => (calm_ofResult _).passage (effect_none _ e)
  have hused : ∀ tile name, Effect ⟨_, .capability c args, stack, i⟩ e
      (e.invoke true i.actor.id tile name).2 :=
    fun tile name => .used (m := ⟨_, .capability c args, stack, i⟩) trivial tile name
  simp only [ofTile]
  split
  · split
    · exact (calm_ofOutcome _).passage (hused _ _)
    · exact hwrong _
  · exact hwrong _

/-- Any other capability tells something or does nothing. -/
theorem passage_ofCapability (c : Capability) (args : List Value) :
    Passage ⟨_, .capability c args, stack, i⟩ e (ofCapability stack i e c args) := by
  have hfails : ∀ f, Passage ⟨_, .capability c args, stack, i⟩ e
      (.on (ofResult stack i (.error f)) e) :=
    fun f => (calm_ofResult _).passage (effect_none _ e)
  unfold ofCapability
  split
  · exact hfails _
  · split
    · exact hfails _
    · generalize Course.of c.operation args i e.world.bounds = course
      cases course with
      | answer outcome => exact (calm_ofOutcome outcome).passage (effect_none _ e)
      | print text =>
          have hlog : ∀ event ∈ [Event.log i.actor.id .info text], ¬ event.IsCall :=
            List.forall_mem_singleton.mpr id
          exact passage_rests (.told _ hlog) id fun _ => rfl
      | walk path => exact passage_ofWalk stack i e c args path
      | onTile f => exact passage_ofTile stack i e c args f
      | pause nanoseconds s =>
          have hon : Passage ⟨_, .capability c args, stack, i⟩ e
              (.on ⟨_, .settle s, stack, i⟩ e) :=
            passage_rests (effect_none _ e) id fun _ => rfl
          exact hon.pausing nanoseconds

-- A subroutine that was entered is at its body.
theorem calm_ofSubroutine (name : String) (s : Subroutine) (args : List Value) :
    Calm i (ofSubroutine stack i name s args) := by
  unfold ofSubroutine
  split <;> exact ⟨rfl, id⟩

/-! ## Calls and jobs -/

theorem passage_ofCall (name : String) (args : List Value) :
    Passage ⟨_, .call name args, stack, i⟩ e (ofCall stack i e name args) := by
  simp only [ofCall]
  split
  · exact (calm_ofResult _).passage (effect_none _ e)
  · next a ha =>
    have hfails : ∀ f, Passage ⟨_, .call name args, stack, i⟩ e
        (.on (ofResult stack { i with actor := a } (.error f)) e) :=
      fun f => passage_rests (effect_none _ e) id fun h => id_of_keyed h ha
    split
    · exact hfails _
    · next hidle =>
      split
      · next callee hcallee =>
        -- The look at the tasks is what the call may rely on.
        exact ⟨.called ha hidle _ _ rfl hcallee,
          fun _ hm _ => ⟨rfl, .inr (Option.some.inj hm ▸ hidle)⟩,
          fun h _ hm => Option.some.inj hm ▸ id_of_keyed h ha⟩
      · exact hfails _

-- How a failure is told begins no call.
theorem not_isCall_ofFailure (actor : String) (f : Failure) :
    ∀ event ∈ Event.ofFailure actor f, ¬ event.IsCall := by
  unfold Event.ofFailure
  split
  · exact List.forall_mem_singleton.mpr id
  · exact List.forall_mem_cons.mpr ⟨id, List.forall_mem_singleton.mpr id⟩

-- The end of a run takes the flag down and tells how it ended, or does nothing.
theorem effect_endRun (m : Machine) (actor : String) (outcome : Outcome) :
    Effect m e (endRun actor m.interpreter.handle outcome e) := by
  unfold endRun
  split
  · exact effect_none m e
  · cases outcome with
    | ok s =>
        exact .flagged false [.completed actor (s.message.getD "completed")]
          (List.forall_mem_singleton.mpr id)
    | error f => exact .flagged false _ (not_isCall_ofFailure actor f)

/-- A job raises the flag, and a run of the entry script tells that it started. -/
theorem passage_ofJob (job : Job) : Passage ⟨_, .job job, stack, i⟩ e (ofJob stack i e job) := by
  cases job with
  | call actor name args =>
      refine passage_rests ?_ id fun _ => rfl
      split
      · exact .flagged true [] (List.forall_mem_nil _)
      · exact effect_none _ e
  | main actor =>
      simp only [ofJob]
      split
      · exact passage_rests (.flagged true [.started i.actor.id]
          (List.forall_mem_singleton.mpr id)) id fun _ => rfl
      · exact (calm_ofResult _).passage (.told _ (not_isCall_ofFailure i.actor.id .noEntryScript))

/-- A result does nothing, except at the end of a run. -/
theorem passage_ofBack {k : Kind} (r : Except Failure k.Result) (stack : Stack k) :
    Passage ⟨_, .back r, stack, i⟩ e (ofBack r stack i e) := by
  cases stack with
  | last => exact ⟨effect_none _ e, fun _ hm => (by cases hm), fun _ _ hm => (by cases hm)⟩
  | main actor rest =>
      have hended : Effect ⟨_, .back r, .main actor rest, i⟩ e (endRun actor i.handle r e) :=
        effect_endRun e ⟨_, .back r, .main actor rest, i⟩ actor r
      exact (calm_ofResult r).passage hended
  | pend p rest =>
      cases r with
      | ok a => exact (calm_resume p a rest i).passage (effect_none _ e)
      | error f => exact (calm_ofResult _).passage (effect_none _ e)
  | body name rest =>
      cases r with
      | ok flow => exact passage_rests (effect_none _ e) id fun _ => rfl
      | error f => exact passage_rests (effect_none _ e) id fun _ => rfl

end

/-- All that is known of a step holds of every step. -/
theorem passage_next (m : Machine) (e : Engine) : Passage m e (m.next e) := by
  rcases m with ⟨k, control, stack, i⟩
  cases control with
  | job job => exact passage_ofJob stack i e job
  | evaluate x => exact (calm_ofExpr x).passage (effect_none _ e)
  | execute s =>
      simp only [next]
      split
      · refine (calm_ofStmt s).passage (.told [announcement i s] ?_)
        refine List.forall_mem_singleton.mpr ?_
        unfold announcement
        split <;> exact id
      · exact (calm_ofResult _).passage (effect_none _ e)
  | block body => exact (calm_ofBlock body).passage (effect_none _ e)
  | branches rest otherwise => exact (calm_ofBranches rest otherwise).passage (effect_none _ e)
  | whileLoop condition body turns =>
      simp only [next]
      split
      · exact passage_rests (effect_none _ e) id fun _ => rfl
      · exact (calm_ofResult _).passage (effect_none _ e)
  | forLoop name body values =>
      cases values with
      | nil => exact (calm_ofResult _).passage (effect_none _ e)
      | cons v rest =>
          simp only [next]
          split
          · exact passage_rests (effect_none _ e) id fun _ =>
              congrArg Actor.id (i.kin_assign name v).actor
          · exact (calm_ofResult _).passage (effect_none _ e)
  | call name args => exact passage_ofCall stack i e name args
  | capability c args => exact passage_ofCapability stack i e c args
  | tileFunction t name =>
      have hused :=
        Effect.used (m := ⟨_, .tileFunction t name, stack, i⟩) (e := e) trivial t.id name
      exact (calm_ofOutcome _).passage hused
  | subroutine name s args =>
      exact (calm_ofSubroutine stack i name s args).passage (effect_none _ e)
  | visit path steps => exact passage_ofVisit stack i e path steps
  | arrive epoch target rest steps => exact passage_ofArrive stack i e epoch target rest steps
  | settle s => exact passage_ofSettle stack i e s
  | back r => exact passage_ofBack i e r stack

end Machine

end Farmhand
