import Farmhand.Proofs.Interpreter.Composition
import Farmhand.Simulation

/-!
# What Runs Keep

A process goes through the engine in stretches, each from the start or the end of a wait to the
next wait or the end. A relation between engines that every stretch of a run follows is how this
library says what a run does, or does not do, to what it shares with others: in the waits others
may do as they please, within what they keep in turn. A run does few kinds of things to the engine
by itself, and this module says once that a relation which these follow is followed by every run.

## Main definitions

* `Process.Keeps`: Every stretch of a process leads from a good engine to a good one, and follows a
  relation.
* `Step.Keeps`: The same of a step, for every good interpreter.
* `Step.Bears`: What capabilities and tile functions do to the engine keeps to a relation.
* `Step.Allows`, `Step.Permits`: So does all that a run does to it, but for the messages that calls
  begin, or with them.
* `Step.Hosts`: So does what happens at the beginning of a run.

## Theorems

* `Process.Keeps.bind`: One process after another.
* `Step.Permits.closed`: Relations that permit what runs do are kept by what scripts are composed
  of.
* `Step.Permits.step_resumes`: They are kept by every job from its first wait on.
* `Step.Hosts.step_keeps`: They are kept by every job from its beginning.
-/

namespace Farmhand

open Script

/-- The announcement of a statement. -/
def Event.IsStatement : Event → Prop
  | statement _ _ _ _ => True
  | _ => False

/-- The message that a call begins. -/
def Event.IsCall : Event → Prop
  | call _ _ _ _ _ => True
  | _ => False

namespace Process

/-- The engine after the first stretch of a process. -/
def after {α : Type} : Process α → Engine
  | done _ e => e
  | wait _ e _ => e

/-- Every stretch of a process that starts in a good engine ends in a good one and follows a
    relation, and the result is as wanted. -/
def Keeps {α : Type} (J : Engine → Prop) (R : Engine → Engine → Prop) (Q : α → Prop) :
    Process α → Engine → Prop
  | done a e', e => R e e' ∧ J e' ∧ Q a
  | wait _ e' resume, e => R e e' ∧ J e' ∧ ∀ e'', J e'' → Keeps J R Q (resume e'') e''

section

variable {α β : Type} {J : Engine → Prop} {R : Engine → Engine → Prop} {Q : α → Prop}
variable {p : Process α} {e e' : Engine}

-- A stretch may be followed by the first stretch of a process.
theorem Keeps.after (htrans : ∀ e₁ e₂ e₃, R e₁ e₂ → R e₂ e₃ → R e₁ e₃) (hstretch : R e e')
    (h : p.Keeps J R Q e') : p.Keeps J R Q e := by
  cases p with
  | done a e₁ => exact ⟨htrans _ _ _ hstretch h.1, h.2⟩
  | wait time e₁ resume => exact ⟨htrans _ _ _ hstretch h.1, h.2⟩

/-- One process after another keeps what both keep, if the relation can be put together. -/
theorem Keeps.bind {Q' : β → Prop} {next : α → Engine → Process β}
    (htrans : ∀ e₁ e₂ e₃, R e₁ e₂ → R e₂ e₃ → R e₁ e₃) (h : p.Keeps J R Q e)
    (hnext : ∀ a e', J e' → Q a → (next a e').Keeps J R Q' e') :
    (p.bind next).Keeps J R Q' e := by
  induction p generalizing e with
  | done a e₁ => exact (hnext a e₁ h.2.1 h.2.2).after htrans h.1
  | wait time e₁ resume ih => exact ⟨h.1, h.2.1, fun e₂ he₂ => ih e₂ (h.2.2 e₂ he₂)⟩

-- Less may be said of the stretches, and of the result.
theorem Keeps.mono {R' : Engine → Engine → Prop} {Q' : α → Prop} (h : p.Keeps J R Q e)
    (hR : ∀ e e', R e e' → R' e e') (hQ : ∀ a, Q a → Q' a) : p.Keeps J R' Q' e := by
  induction p generalizing e with
  | done a e₁ => exact ⟨hR _ _ h.1, h.2.1, hQ a h.2.2⟩
  | wait time e₁ resume ih => exact ⟨hR _ _ h.1, h.2.1, fun e₂ he₂ => ih e₂ (h.2.2 e₂ he₂)⟩

-- A wait by itself does nothing.
theorem keeps_sleep {Q : Unit → Prop} (nanoseconds : Nat) (hrefl : ∀ e, R e e) (he : J e)
    (hQ : Q ()) : (sleep nanoseconds e).Keeps J R Q e := by
  unfold sleep
  split
  · exact ⟨hrefl e, he, hQ⟩
  · exact ⟨hrefl e, he, fun e' he' => ⟨hrefl e', he', hQ⟩⟩

end

end Process

namespace Step

/-- Whatever the engine and the interpreter, as long as they are good, a step keeps to a relation
    and leaves them good. -/
def Keeps {α : Type} (J : Engine → Prop) (R : Engine → Engine → Prop) (I : Interpreter → Prop)
    (s : Step α) : Prop :=
  ∀ i e, J e → I i → (s i e).Keeps J R (fun r => I r.2) e

/-- A relation bears what calls of capabilities and of tile functions do to the engine, and what a
    run does around them without a change of its variables. -/
structure Bears (J : Engine → Prop) (R : Engine → Engine → Prop) (I : Interpreter → Prop) :
    Prop where
  refl (e : Engine) : R e e
  trans (e₁ e₂ e₃ : Engine) : R e₁ e₂ → R e₂ e₃ → R e₁ e₃
  /-- A look at the actor. -/
  sees {i : Interpreter} {e : Engine} {a : Actor} :
    J e → I i → e.world.actor i.actor.id = .ok a → I { i with actor := a }
  /-- What a run tells. A statement begins only in an interpreter that may go on. -/
  tells {i : Interpreter} {e : Engine} {event : Event} : J e → I i → event.actor = i.actor.id →
    ¬ event.IsCall → (event.IsStatement → e.isRunning i.handle = true) →
      J (e.emit event) ∧ R e (e.emit event)
  requests {e : Engine} (n : Nat) :
    J e → J { e with moveRequests := n } ∧ R e { e with moveRequests := n }
  /-- A new place or a cost of the actor. -/
  writes {i : Interpreter} {e : Engine} {position : Option Position} {energy : Option EnergyChange}
    {world : World} : J e → I i → e.world.updateActor i.actor.id { position, energy } = .ok world →
    J { e with world } ∧ R e { e with world }
  invokes {i : Interpreter} {e : Engine} (tile name : String) : J e → I i →
    J (e.invoke true i.actor.id tile name).2 ∧ R e (e.invoke true i.actor.id tile name).2

/-- A relation allows what a run does to the engine by itself, but for the message that a call
    begins. -/
structure Allows (J : Engine → Prop) (R : Engine → Engine → Prop) (I : Interpreter → Prop) : Prop
    extends Bears J R I where
  kin {i j : Interpreter} : I i → i.Kin j → I j
  /-- The end of a run. -/
  rests {i : Interpreter} {e : Engine} : J e → I i →
    J (e.setRunning i.handle false) ∧ R e (e.setRunning i.handle false)

/-- A relation permits what a run does to the engine by itself. -/
structure Permits (J : Engine → Prop) (R : Engine → Engine → Prop) (I : Interpreter → Prop) :
    Prop extends Allows J R I where
  calls {i : Interpreter} {e : Engine} (depth : Nat) (name : String) (args : List String)
    (source : CallSource) : J e → I i →
    J (e.emit (.call i.actor.id depth name args source)) ∧
      R e (e.emit (.call i.actor.id depth name args source))

/-- A relation permits what a run does by itself, and what happens at its beginning. -/
structure Hosts (J : Engine → Prop) (R : Engine → Engine → Prop) (I : Interpreter → Prop) : Prop
    extends Permits J R I where
  starts {i : Interpreter} {e : Engine} : J e → I i →
    J (e.setRunning i.handle true) ∧ R e (e.setRunning i.handle true)

variable {J : Engine → Prop} {R : Engine → Engine → Prop} {I : Interpreter → Prop}
variable {α β : Type}

namespace Bears

variable (h : Bears J R I) {i : Interpreter} {e : Engine}

include h

-- One step after another, for one interpreter and one engine.
theorem bind_at {s : Step α} {next : α → Step β}
    (hs : (s i e).Keeps J R (fun r => I r.2) e)
    (hnext : ∀ a j e', J e' → I j → (next a j e').Keeps J R (fun r => I r.2) e') :
    (Step.bind s next i e).Keeps J R (fun r => I r.2) e := by
  unfold Step.bind
  rw [Process.andThen_eq_bind]
  refine hs.bind h.trans fun r e' he' hi' => ?_
  rcases r with ⟨a | f, j⟩
  · exact ⟨h.refl e', he', hi'⟩
  · exact hnext _ j e' he' hi'

/-- One step after another. -/
theorem bind {s : Step α} {next : α → Step β} (hs : s.Keeps J R I)
    (hnext : ∀ a, (next a).Keeps J R I) : (Step.bind s next).Keeps J R I :=
  fun i e he hi => h.bind_at (hs i e he hi) fun a j e' he' hj => hnext a j e' he' hj

-- A step that leaves the engine alone.
theorem quiet {f : Interpreter → Except Failure α × Interpreter}
    (hf : ∀ i, I i → I (f i).2) : Step.Keeps J R I fun i e => .done (f i) e :=
  fun i e he hi => ⟨h.refl e, he, hf i hi⟩

-- A value leaves all alone.
theorem pure (a : α) : (Step.pure a).Keeps J R I :=
  h.quiet fun _ hi => hi

-- A failure keeps everything.
theorem fail (f : Failure) : (Step.fail f : Step α).Keeps J R I :=
  h.quiet fun _ hi => hi

/-! ## What calls are made of -/

-- The actor is seen anew, or is not there.
theorem resync : Step.resync.Keeps J R I := by
  intro i e he hi
  unfold Step.resync
  cases ha : e.world.actor i.actor.id with
  | error error => exact ⟨h.refl e, he, hi⟩
  | ok a => exact ⟨h.refl e, he, h.sees he hi ha⟩

-- The flag of the interpreter is read.
theorem checkRunning : Step.checkRunning.Keeps J R I :=
  fun _ e he hi => ⟨h.refl e, he, hi⟩

-- The task of the actor is read.
theorem checkIdle : Step.checkIdle.Keeps J R I := by
  intro i e he hi
  unfold Step.checkIdle
  split <;> exact ⟨h.refl e, he, hi⟩

/-- A statement begins: it is told if the interpreter may go on. -/
theorem begins (s : Stmt) :
    (Step.bind Step.checkRunning fun _ => Step.announce s).Keeps J R I := by
  intro i e he hi
  by_cases hrunning : e.isRunning i.handle = true
  · simp only [Step.bind, Step.checkRunning, Process.andThen, hrunning, if_true]
    have htold : ∀ name text,
        J (e.emit (.statement i.actor.id name s.span.line text)) ∧
          R e (e.emit (.statement i.actor.id name s.span.line text)) :=
      fun _ _ => h.tells he hi rfl id fun _ => hrunning
    exact ⟨(htold _ _).2, (htold _ _).1, hi⟩
  · simp only [Step.bind, Step.checkRunning, Process.andThen, hrunning]
    exact ⟨h.refl e, he, hi⟩

-- The cost of a call is written to the actor.
theorem debit (amount : Nat) : (Step.debit amount).Keeps J R I := by
  intro i e he hi
  unfold Step.debit
  cases hw : e.world.updateActor i.actor.id { energy := some (.debit amount) } with
  | error error => exact ⟨h.refl e, he, hi⟩
  | ok world =>
      have hwritten := h.writes he hi hw
      refine ⟨hwritten.2, hwritten.1, ?_⟩
      simp only
      split
      · next a ha => exact h.sees hwritten.1 hi ha
      · exact hi

-- A wait is one stretch of nothing, and then another.
theorem sleep (nanoseconds : Nat) :
    (Step.ofProcess (Process.sleep nanoseconds)).Keeps J R I := by
  intro i e he hi
  unfold Step.ofProcess
  rw [Process.andThen_eq_bind]
  refine (Process.keeps_sleep (Q := fun _ => True) nanoseconds h.refl he trivial).bind h.trans ?_
  exact fun _ e' he' _ => ⟨h.refl e', he', hi⟩

/-- What follows a call that succeeded: its cost, and its pace. -/
theorem settle (s : Success) : (Step.settle s).Keeps J R I := by
  have hcharge : (Step.charge s).Keeps J R I := by
    unfold Step.charge
    split
    · split
      · exact h.debit _
      · exact h.pure ()
    · exact h.pure ()
  have hpace : (Step.pace s).Keeps J R I := by
    unfold Step.pace
    split
    · exact fun i e he hi => h.sleep _ i e he hi
    · exact h.pure ()
  rw [Step.settle_eq]
  exact h.bind hcharge fun _ => h.bind hpace fun _ => h.pure s

/-! ## Capabilities -/

theorem motion (target : Position) : (Step.motion target).Keeps J R I := by
  intro i e he hi
  have hrequested := h.requests (e.moveRequests + 1) he
  have hmove : (Process.move i.actor.id target e).Keeps J R (fun _ => True) e := by
    refine Process.Keeps.after h.trans hrequested.2 ?_
    rcases Process.move_begins i.actor.id target e with ⟨r, _, heq⟩ | ⟨a, time, _, _, _, heq⟩
    · rw [heq]
      exact ⟨h.refl _, hrequested.1, trivial⟩
    · rw [heq]
      -- What was asked for happens at the end of the wait, if the motion still goes on.
      refine (Process.keeps_sleep (Q := fun _ => True) _ h.refl hrequested.1 trivial).bind
        h.trans fun _ e' he' _ => ?_
      rcases Process.arrival_cases i.actor.id target e.motionEpoch e' with
        ⟨world, hend, _, hw⟩ | ⟨hend, _⟩
      · rw [hend]
        have hwritten := h.writes he' hi hw
        exact ⟨hwritten.2, hwritten.1, trivial⟩
      · rw [hend]
        exact ⟨h.refl e', he', trivial⟩
  rw [Step.motion_eq]
  exact hmove.bind h.trans fun r e' he' _ => ⟨h.refl e', he', hi⟩

-- An interruption looks at the actor once more.
theorem interruptedAt (target : Position) : (Step.interruptedAt target).Keeps J R I := by
  intro i e he hi
  refine ⟨h.refl e, he, ?_⟩
  simp only
  split
  · next a ha => exact h.sees he hi ha
  · exact hi

/-- The tiles of a walk are visited one after the other. By induction on those that are left. -/
theorem visit (path : List Position) : (Step.visit path).Keeps J R I := by
  induction path with
  | nil => exact h.pure ()
  | cons target rest ih =>
      rw [Step.visit_cons]
      refine h.bind h.checkRunning fun _ => h.bind (h.motion target) fun arrived => ?_
      split
      · exact ih
      · exact h.interruptedAt target

-- A walk is visited if it lies in the world, and is none otherwise.
theorem walk (path : List Position) : (Step.walk path).Keeps J R I := by
  intro i e he hi
  rw [Step.walk_eq]
  split
  · exact h.fail _ i e he hi
  · split
    · exact h.pure _ i e he hi
    · exact h.bind (h.visit path) (fun _ => h.bind h.resync fun _ => h.quiet fun _ hi => hi)
        i e he hi

-- A way that does not fit is no walk.
theorem walkAlong (laid : Except Overflow (List Position)) :
    (Step.walkAlong laid).Keeps J R I := by
  cases laid with
  | ok path => exact h.walk path
  | error overflow => exact h.fail _

-- A walk in a direction is one along a line.
theorem stride (direction : Direction) (steps : Int) :
    (Step.stride direction steps).Keeps J R I := by
  intro i e he hi
  rw [Step.stride_eq]
  exact h.walkAlong _ i e he hi

-- A walk to a goal is one along the way there.
theorem walkTo (goal : Position) : (Step.walkTo goal).Keeps J R I := by
  intro i e he hi
  rw [Step.walkTo_eq]
  exact h.walkAlong _ i e he hi

-- An argument that is not good ends the call.
theorem withArgument {r : Except ArgumentError α} {next : α → Step β}
    (hnext : ∀ a, (next a).Keeps J R I) : (Step.withArgument r next).Keeps J R I := by
  cases r with
  | ok a => exact hnext a
  | error error => exact h.fail _

-- What depends on the arguments alone touches nothing.
theorem computed (r : Except ArgumentError Value) : (Step.computed r).Keeps J R I := by
  cases r with
  | ok v => exact h.pure _
  | error error => exact h.fail _

-- A function of the tile under the actor is called, if there is a tile.
theorem onTile (f : TileFunction) : (Step.onTile f).Keeps J R I := by
  intro i e he hi
  unfold Step.onTile
  simp only
  split
  · next t _ =>
    split
    · have hinvoked := h.invokes t.id f.name he hi
      exact ⟨hinvoked.2, hinvoked.1, hi⟩
    · exact ⟨h.refl e, he, hi⟩
  · exact ⟨h.refl e, he, hi⟩

-- What is printed is told.
theorem print (args : Arguments) : (Step.print args).Keeps J R I := by
  intro i e he hi
  have htold : ∀ text, J (e.emit (.log i.actor.id .info text)) ∧
      R e (e.emit (.log i.actor.id .info text)) := fun _ => h.tells he hi rfl id False.elim
  exact ⟨(htold _).2, (htold _).1, hi⟩

/-- Every operation keeps to what a run may do. -/
theorem run (o : Operation) (args : Arguments) : (o.run args).Keeps J R I := by
  cases o with
  | step direction => exact h.stride direction 1
  | move => exact h.withArgument fun direction => h.withArgument fun n => h.stride direction n
  | moveTo => exact h.withArgument h.walkTo
  | plant => exact h.onTile .plant
  | harvest => exact h.onTile .harvest
  | eat => exact h.onTile .eat
  | store => exact h.onTile .store
  | wait => exact h.withArgument fun _ => h.bind (h.sleep _) fun _ => h.pure _
  | getPosition => exact fun i e he hi => ⟨h.refl e, he, hi⟩
  | getEnergy => exact fun i e he hi => ⟨h.refl e, he, hi⟩
  | getInventory => exact fun i e he hi => ⟨h.refl e, he, hi⟩
  | print => exact h.print args
  | range => exact h.computed _
  | len => exact h.computed _
  | min => exact h.computed _
  | max => exact h.computed _
  | sum => exact h.computed _
  | abs => exact h.computed _

/-! ## Calls -/

/-- A capability: enough energy is there or not, and what it does is settled. -/
theorem callCapability (c : Capability) (args : List Value) :
    (Step.callCapability c args).Keeps J R I := by
  intro i e he hi
  rw [Step.callCapability_eq]
  split
  · exact h.fail _ i e he hi
  · split
    · exact h.fail _ i e he hi
    · exact h.bind (h.run c.operation args) h.settle i e he hi

/-- A function of a tile is called, and settled. -/
theorem callTile (t : Tile) (name : String) : (Step.callTile t name).Keeps J R I := by
  intro i e he hi
  have hinvoked := h.invokes t.id name he hi
  rw [Step.callTile_eq]
  exact (h.bind (h.quiet fun _ hi => hi) h.settle i _ hinvoked.1 hi).after h.trans hinvoked.2

end Bears

namespace Allows

variable (h : Allows J R I) {i : Interpreter} {e : Engine}

include h

/-- A subroutine: it is entered, and left whatever came of it. -/
theorem enter {body : Step Flow} (hbody : body.Keeps J R I) (name : String) (s : Subroutine)
    (args : List Value) : (Step.enter name s args body).Keeps J R I := by
  intro i e he hi
  unfold Step.enter
  rw [Process.andThen_eq_bind]
  refine (hbody { i with frames := _ :: i.frames } e he (h.kin hi ⟨rfl, rfl, rfl, rfl⟩)).bind
    h.trans fun r e' he' hi' => ?_
  have hleft : I (Step.leave r.2) := h.kin hi' ⟨rfl, rfl, rfl, rfl⟩
  rcases r with ⟨f | flow, j⟩
  · exact ⟨h.refl e', he', hleft⟩
  · exact ⟨h.refl e', he', hleft⟩

/-- What scripts are composed of besides calls keeps to a relation that allows what runs do. -/
theorem composed : Composed fun _ s => Step.Keeps J R I s where
  quiet _ hassigned _ := h.quiet fun i hi => h.kin hi (hassigned i).kin
  bind := h.bind
  checkRunning := h.checkRunning
  begins := h.begins

/-! ## The end of a run -/

-- Several things that a run tells at its end.
theorem emitAll {events : List Event} (he : J e) (hi : I i)
    (hevents : ∀ event ∈ events,
      event.actor = i.actor.id ∧ ¬ event.IsCall ∧ ¬ event.IsStatement) :
    J (e.emitAll events) ∧ R e (e.emitAll events) := by
  induction events generalizing e with
  | nil => exact ⟨he, h.refl e⟩
  | cons event rest ih =>
      have hevent := hevents event List.mem_cons_self
      have htold := h.tells he hi hevent.1 hevent.2.1 fun hs => absurd hs hevent.2.2
      have hrest := ih htold.1 fun other hother => hevents other (List.mem_cons_of_mem _ hother)
      exact ⟨hrest.1, h.trans _ _ _ htold.2 hrest.2⟩

-- How a failure is told is a message or two.
theorem ofFailure (he : J e) (hi : I i) (f : Failure) :
    J (e.emitAll (Event.ofFailure i.actor.id f)) ∧
      R e (e.emitAll (Event.ofFailure i.actor.id f)) := by
  refine h.emitAll he hi fun event hevent => ?_
  unfold Event.ofFailure at hevent
  split at hevent
  · rw [List.mem_singleton.mp hevent]
    exact ⟨rfl, id, id⟩
  · simp only [List.mem_cons, List.not_mem_nil, or_false] at hevent
    rcases hevent with heq | heq
    · rw [heq]
      exact ⟨rfl, id, id⟩
    · rw [heq]
      exact ⟨rfl, id, id⟩

-- The end of a run tells how it ended, and takes the flag down.
theorem endRun {j : Interpreter} (he : J e) (hi : I i) (hj : I j) (outcome : Outcome) :
    J (Farmhand.endRun i.actor.id j.handle outcome e) ∧
      R e (Farmhand.endRun i.actor.id j.handle outcome e) := by
  have hset := h.rests he hj
  unfold Farmhand.endRun
  split
  · exact ⟨he, h.refl e⟩
  · cases outcome with
    | ok s =>
        have htold := h.tells hset.1 hi (show (Event.completed i.actor.id
          (s.message.getD "completed")).actor = i.actor.id from rfl) id False.elim
        exact ⟨htold.1, h.trans _ _ _ hset.2 htold.2⟩
    | error f =>
        have htold := h.ofFailure hset.1 hi f
        exact ⟨htold.1, h.trans _ _ _ hset.2 htold.2⟩

-- A run of the entry script, from where its call begins.
theorem main_keeps {p : Process (Outcome × Interpreter)}
    (hp : p.Keeps J R (fun r => I r.2) e) (hi : I i) :
    (p.andThen fun (outcome, j) e =>
      .done (outcome, j) (Farmhand.endRun i.actor.id j.handle outcome e)).Keeps J R
        (fun r => I r.2) e := by
  rw [Process.andThen_eq_bind]
  refine hp.bind h.trans fun r e' he' hj => ?_
  have hended := h.endRun he' hi hj r.1
  exact ⟨hended.2, hended.1, hj⟩

end Allows

/-! ## Calls -/

namespace Permits

variable (h : Permits J R I) {i : Interpreter} {e : Engine}

include h

-- A call is told by its name.
theorem announceCall (name : String) (args : List Value) (source : CallSource) :
    (Step.announceCall name args source).Keeps J R I := by
  intro i e he hi
  have htold : J (e.emit (.call i.actor.id i.frames.length name (args.map Value.render) source)) ∧
      R e (e.emit (.call i.actor.id i.frames.length name (args.map Value.render) source)) :=
    h.calls i.frames.length name (args.map Value.render) source he hi
  exact ⟨htold.2, htold.1, hi⟩

/-- A call does what its name stands for. -/
theorem dispatch {subroutine : String → Subroutine → List Value → Step Success}
    (hsub : ∀ name s args, (subroutine name s args).Keeps J R I) (name : String)
    (args : List Value) : (Step.dispatch subroutine name args).Keeps J R I := by
  intro i e he hi
  unfold Step.dispatch
  split
  · exact h.bind (h.announceCall _ _ _) (fun _ => h.callCapability _ args) i e he hi
  · split
    · exact h.bind (h.announceCall _ _ _) (fun _ => h.callTile _ name) i e he hi
    · split
      · exact h.bind (h.announceCall _ _ _) (fun _ => hsub name _ args) i e he hi
      · exact h.fail _ i e he hi

-- A call looks for its actor first, and for a task of it.
theorem callWith {subroutine : String → Subroutine → List Value → Step Success}
    (hsub : ∀ name s args, (subroutine name s args).Keeps J R I) (name : String)
    (args : List Value) : (Step.callWith subroutine name args).Keeps J R I := by
  rw [Step.callWith_eq]
  exact h.bind h.resync fun _ => h.bind h.checkIdle fun _ => h.dispatch hsub name args

/-- What scripts are composed of keeps to a relation that permits what runs do. -/
theorem closed : Closed fun _ s => Step.Keeps J R I s where
  toComposed := h.composed
  call := h.callWith
  enter := h.enter
  depending hs i e he hi := hs i i e he hi

/-- However a job begins, from its first wait on it keeps to a relation that permits what runs
    do. -/
theorem step_resumes (hJ : ∀ e, J e) (job : Job) (hi : I i) (e : Engine) :
    ∃ e₀, (job.step i e).Keeps J R (fun r => I r.2) e₀ := by
  have hcall : ∀ name args e, ∃ e₀,
      (Farmhand.callFunction name args i e).Keeps J R (fun r => I r.2) e₀ :=
    fun name args e => ⟨_, h.closed.callAt _ name args i _ (hJ _) hi⟩
  cases job with
  | call actor name args => exact hcall name args e
  | main actor =>
      show ∃ e₀, Process.Keeps J R _ (Farmhand.runMain i e) e₀
      unfold Farmhand.runMain
      simp only
      split
      · rcases hcall mainName [] ((e.setRunning i.handle true).emit (.started i.actor.id))
          with ⟨e₀, hcall⟩
        exact ⟨e₀, h.main_keeps hcall hi⟩
      · exact ⟨_, h.refl _, hJ _, hi⟩

end Permits

/-! ## Jobs -/

namespace Hosts

variable (h : Hosts J R I) {i : Interpreter} {e : Engine}

include h

/-- A call from outside raises the flag if nothing else is under way. -/
theorem callFunction (name : String) (args : List Value) :
    (Farmhand.callFunction name args).Keeps J R I := by
  intro i e he hi
  have hcall := h.closed.callAt (i.settings.maxCallDepth - i.frames.length) name args
  unfold Farmhand.callFunction
  simp only
  split
  · have hset := h.starts he hi
    exact (hcall i _ hset.1 hi).after h.trans hset.2
  · exact hcall i e he hi

/-- A run of the entry script: its start is told, the script is called, and its end is told. -/
theorem runMain : Farmhand.runMain.Keeps J R I := by
  intro i e he hi
  unfold Farmhand.runMain
  simp only
  split
  · have hset := h.starts he hi
    have htold := h.tells hset.1 hi
      (show (Event.started i.actor.id).actor = i.actor.id from rfl) id False.elim
    exact (h.main_keeps (h.callFunction mainName [] i _ htold.1 hi) hi).after h.trans
      (h.trans _ _ _ hset.2 htold.2)
  · have htold := h.ofFailure he hi .noEntryScript
    exact ⟨htold.2, htold.1, hi⟩

/-- Every job keeps to a relation that permits what runs do. -/
theorem step_keeps (job : Job) : job.step.Keeps J R I := by
  cases job with
  | main actor => exact h.runMain
  | call actor name args => exact h.callFunction name args

end Hosts

end Step

end Farmhand
