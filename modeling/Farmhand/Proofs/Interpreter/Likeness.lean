import Farmhand.Proofs.Engine.Sight
import Farmhand.Proofs.Interpreter.Keeping

/-!
# The Same Run among Others and Alone

Two runs of one interpreter side by side: one among others, one alone. As long as the two engines
are the same for its actor, both runs do the same: they wait for the same time, and the same is left
of them; at the end of a wait they go on alike from whatever two engines are the same again. The one
thing that could tell them apart is a call of a function of a tile, which may depend on what others
did to the tile, and may give the actor a task. So the runs are alike as long as the one that is
alone makes no such call. This is what the log says: every call is told before it is made.

## Main definitions

* `Event.IsSolitary`: An event that is no call of a function of a tile.
* `Engine.Strayed`: A call of a function of a tile was told.
* `Engine.Paired`: Two engines that are the same for an actor at the same time.
* `Process.Alike`: Two processes that do the same from paired engines on, unless the second strays.
* `Step.Similar`: A step that does the same from paired engines.

## Theorems

* `Step.similar_dispatch`: A call is made alike, or strays.
* `Step.closed_similar`: Everything that scripts are composed of does the same.
* `Step.similar_step`: So does every job.
-/

namespace Farmhand

open Script

/-- An event that is no call of a function of a tile: what is called is a subroutine, or a
    capability of movement, of time or of computing. -/
def Event.IsSolitary : Event → Prop
  | call _ _ name _ .capability =>
    ∃ c, Catalog.builtin.get? name = some c ∧ c.category ∈ [.movement, .system, .utility]
  | call _ _ _ _ .tileFunction => False
  | _ => True

/-- An interpreter with a number drives an actor. -/
structure Interpreter.Drives (a : String) (h : Nat) (i : Interpreter) : Prop where
  actor : i.actor.id = a
  handle : i.handle = h

namespace Engine

/-- Since some beginning of the log, a run of an actor has called a function of a tile. -/
def Strayed (a : String) (before : List Event) (e : Engine) : Prop :=
  ∃ events, e.log = events ++ before ∧ ∃ event ∈ events, event.actor = a ∧ ¬ event.IsSolitary

/-- Two engines that are the same for an actor that has no task, the second with no timers. -/
structure Matched (a : String) (h : Nat) (before : List Event) (e e' : Engine) : Prop where
  same : e.SameFor a h e'
  clear : e.Clear a
  alone : e'.Clear a
  still : e'.timers = []
  told : ∃ events, e'.log = events ++ before

/-- Two such engines at the same time. -/
structure Paired (a : String) (h : Nat) (before : List Event) (e e' : Engine) : Prop
    extends Matched a h before e e' where
  now : e'.now = e.now

variable {a : String} {h : Nat} {before : List Event} {e e' : Engine}

/-! ## What a run does to both engines -/

-- What was told stays told.
theorem Strayed.emit (hs : e.Strayed a before) (event : Event) :
    (e.emit event).Strayed a before := by
  rcases hs with ⟨events, hlog, bad, hbad, hstray⟩
  exact ⟨event :: events, by rw [Engine.emit, hlog, List.cons_append], bad,
    List.mem_cons_of_mem _ hbad, hstray⟩

-- What was told is not taken back.
theorem Strayed.of_log (hs : e.Strayed a before) (hlog : e'.log = e.log) :
    e'.Strayed a before := by
  unfold Strayed
  rw [hlog]
  exact hs

/-- The same message is told in both. -/
theorem Paired.emit (hp : e.Paired a h before e') (event : Event) :
    (e.emit event).Paired a h before (e'.emit event) := by
  refine ⟨⟨⟨hp.same.world, hp.same.stepTime, hp.same.motionEpoch, hp.same.flag, ?_⟩,
    ⟨hp.clear.keyed, hp.clear.slots⟩, ⟨hp.alone.keyed, hp.alone.slots⟩, hp.still, ?_⟩, hp.now⟩
  · have htold := hp.same.told
    unfold toldBy at htold ⊢
    simp only [Engine.emit, List.filter_cons, htold]
  · rcases hp.told with ⟨events, hlog⟩
    exact ⟨event :: events, by rw [Engine.emit, hlog, List.cons_append]⟩

-- Several messages are told in both.
theorem Paired.emitAll (hp : e.Paired a h before e') (events : List Event) :
    (e.emitAll events).Paired a h before (e'.emitAll events) := by
  induction events generalizing e e' with
  | nil => exact hp
  | cons event rest ih => exact ih (hp.emit event)

-- The flag of the interpreter is set in both.
theorem Paired.setRunning (hp : e.Paired a h before e') (value : Bool) :
    (e.setRunning h value).Paired a h before (e'.setRunning h value) := by
  refine ⟨⟨⟨hp.same.world, hp.same.stepTime, hp.same.motionEpoch, ?_, hp.same.told⟩,
    ⟨hp.clear.keyed, hp.clear.slots⟩, ⟨hp.alone.keyed, hp.alone.slots⟩, hp.still, hp.told⟩, hp.now⟩
  simp only [Engine.setRunning, List.getElem?_set_self', hp.same.flag]

-- Requests for motion may be counted differently: others make them as well.
theorem Paired.withRequests (hp : e.Paired a h before e') (n n' : Nat) :
    { e with moveRequests := n }.Paired a h before { e' with moveRequests := n' } :=
  ⟨⟨⟨hp.same.world, hp.same.stepTime, hp.same.motionEpoch, hp.same.flag, hp.same.told⟩,
    ⟨hp.clear.keyed, hp.clear.slots⟩, ⟨hp.alone.keyed, hp.alone.slots⟩, hp.still, hp.told⟩, hp.now⟩

-- A change of the actor happens to both, or to neither for the same reason.
theorem Paired.updateActor (hp : e.Paired a h before e') (patch : ActorPatch) :
    (∃ error, e.world.updateActor a patch = .error error ∧
      e'.world.updateActor a patch = .error error) ∨
    ∃ w w', e.world.updateActor a patch = .ok w ∧ e'.world.updateActor a patch = .ok w' ∧
      { e with world := w }.Paired a h before { e' with world := w' } := by
  have hpatch : ∀ x, e'.world.patchActor x patch = e.world.patchActor x patch := by
    intro x
    unfold World.patchActor
    rw [hp.same.world.bounds]
  cases hx : e.world.actor a with
  | error error =>
      refine .inl ⟨error, ?_, ?_⟩
      · unfold World.updateActor
        rw [hx]
      · unfold World.updateActor
        rw [hp.same.world.actor_eq, hx]
  | ok x =>
      cases hy : e.world.patchActor x patch with
      | error error =>
          refine .inl ⟨error, ?_, ?_⟩
          · unfold World.updateActor
            simp only [hx, hy]
          · unfold World.updateActor
            simp only [hp.same.world.actor_eq, hx, hpatch, hy]
      | ok y =>
          have hw : e.world.updateActor a patch =
              .ok { e.world with actors := e.world.actors.insert a y } := by
            unfold World.updateActor
            simp only [hx, hy]
          have hw' : e'.world.updateActor a patch =
              .ok { e'.world with actors := e'.world.actors.insert a y } := by
            unfold World.updateActor
            simp only [hp.same.world.actor_eq, hx, hpatch, hy]
          have hkeyed := (World.updateActor_eq_ok hw).2.2 hp.clear.keyed
          have hkeyed' := (World.updateActor_eq_ok hw').2.2 hp.alone.keyed
          refine .inr ⟨_, _, hw, hw', ⟨⟨⟨?_, hp.same.world.bounds, hp.same.world.places,
            hp.same.world.services⟩, hp.same.stepTime, hp.same.motionEpoch, hp.same.flag,
            hp.same.told⟩, ⟨hkeyed, hp.clear.slots⟩, ⟨hkeyed', hp.alone.slots⟩, hp.still,
            hp.told⟩, hp.now⟩
          rw [Table.get?_insert_self, Table.get?_insert_self]

end Engine

/-! ## Processes -/

namespace Process

/-- Two processes that wait and end alike, with the same left of them, in engines that are paired,
    and that are so again whenever they go on from paired engines. All of this holds up to the
    first stretch of the second process that strays. -/
inductive Alike {α : Type} (W : Engine → Engine → Prop) (B : Engine → Prop) (Q : α → Prop) :
    Process α → Process α → Prop
  | done {a : α} {e e' : Engine} (hpaired : W e e') (hresult : Q a) :
      Alike W B Q (.done a e) (.done a e')
  | wait {time : Nat} {e e' : Engine} {resume : Engine → Process α} (hpaired : W e e')
      (hnext : ∀ e₁ e₂, W e₁ e₂ → Alike W B Q (resume e₁) (resume e₂)) :
      Alike W B Q (.wait time e resume) (.wait time e' resume)
  | strayed {p q : Process α} (hstrayed : B q.after) : Alike W B Q p q

section

variable {α β : Type} {W : Engine → Engine → Prop} {B : Engine → Prop} {Q : α → Prop}
variable {p q : Process α}

-- The first stretch of a process that keeps to a relation.
theorem Keeps.first {J : Engine → Prop} {R : Engine → Engine → Prop} {e : Engine}
    (h : p.Keeps J R Q e) : R e p.after := by
  cases p with
  | done a e' => exact h.1
  | wait time e' resume => exact h.1

/-- What comes after two processes that are alike is alike if it is from paired engines. -/
theorem Alike.bind {Q' : β → Prop} {next : α → Engine → Process β} (h : p.Alike W B Q q)
    (hnext : ∀ a e e', Q a → W e e' → (next a e).Alike W B Q' (next a e'))
    (hstays : ∀ a e, B e → B (next a e).after) : (p.bind next).Alike W B Q' (q.bind next) := by
  induction h with
  | done hpaired hresult => exact hnext _ _ _ hresult hpaired
  | wait hpaired _ ih => exact .wait hpaired ih
  | @strayed p q hstrayed =>
      refine .strayed ?_
      cases q with
      | done a e => exact hstays a e hstrayed
      | wait time e resume => exact hstrayed

-- Less may be said of the result.
theorem Alike.mono {Q' : α → Prop} (h : p.Alike W B Q q) (hQ : ∀ a, Q a → Q' a) :
    p.Alike W B Q' q := by
  induction h with
  | done hpaired hresult => exact .done hpaired (hQ _ hresult)
  | wait hpaired _ ih => exact .wait hpaired ih
  | strayed hstrayed => exact .strayed hstrayed

-- The same time is waited in both.
theorem alike_sleep {Q : Unit → Prop} (nanoseconds : Nat) {e e' : Engine} (hpaired : W e e')
    (hQ : Q ()) : (sleep nanoseconds e).Alike W B Q (sleep nanoseconds e') := by
  unfold sleep
  split
  · exact .done hpaired hQ
  · exact .wait hpaired fun _ _ hpaired' => .done hpaired' hQ

end

end Process

/-! ## Steps -/

namespace Step

section

variable (a : String) (h : Nat) (before : List Event)

-- A run that has strayed has done so for good.
theorem hosts_strayed : Hosts (fun _ => True)
    (fun e e' => e.Strayed a before → e'.Strayed a before) fun _ => True where
  refl _ := id
  trans _ _ _ h₁ h₂ hs := h₂ (h₁ hs)
  kin hi _ := hi
  sees _ _ _ := trivial
  tells _ _ _ _ _ := ⟨trivial, fun hs => hs.emit _⟩
  calls _ _ _ _ _ _ := ⟨trivial, fun hs => hs.emit _⟩
  requests _ _ := ⟨trivial, id⟩
  writes _ _ _ := ⟨trivial, id⟩
  invokes tile name _ _ :=
    ⟨trivial, fun hs => hs.of_log (Engine.aside_invoke _ true _ tile name).log⟩
  rests _ _ := ⟨trivial, id⟩
  starts _ _ := ⟨trivial, id⟩

/-- A step that does the same from paired engines. -/
structure Similar {α : Type} (s : Step α) : Prop where
  alike : ∀ (i : Interpreter) (e e' : Engine), i.Drives a h → e.Paired a h before e' →
    (s i e).Alike (Engine.Paired a h before) (Engine.Strayed a before) (fun r => r.2.Drives a h)
      (s i e')
  stays : s.Keeps (fun _ => True) (fun e e' => e.Strayed a before → e'.Strayed a before)
    fun _ => True

end

variable {a : String} {h : Nat} {before : List Event} {α β : Type}

-- What has strayed has strayed for good.
theorem Similar.strayed {s : Step α} (hs : Similar a h before s) (i : Interpreter) {e : Engine}
    (he : e.Strayed a before) : (s i e).after.Strayed a before :=
  (hs.stays i e trivial trivial).first he

/-- One step after another. -/
theorem similar_bind {s : Step α} {next : α → Step β} (hs : Similar a h before s)
    (hnext : ∀ a', Similar a h before (next a')) : Similar a h before (Step.bind s next) := by
  refine ⟨fun i e e' hi hp => ?_, (hosts_strayed a before).bind hs.stays fun a' =>
    (hnext a').stays⟩
  unfold Step.bind
  rw [Process.andThen_eq_bind, Process.andThen_eq_bind]
  refine (hs.alike i e e' hi hp).bind (fun r e₁ e₂ hr hp' => ?_) fun r e₁ hstrayed => ?_
  · rcases r with ⟨f | a', j⟩
    · exact .done hp' hr
    · exact (hnext a').alike j e₁ e₂ hr hp'
  · rcases r with ⟨f | a', j⟩
    · exact hstrayed
    · exact (hnext a').strayed j hstrayed

-- Steps of the interpreter alone.
theorem similar_quiet {f : Interpreter → Except Failure α × Interpreter}
    (hf : ∀ i : Interpreter, i.Drives a h → (f i).2.Drives a h) :
    Similar a h before fun i e => .done (f i) e :=
  ⟨fun i _ _ hi hp => .done hp (hf i hi), (hosts_strayed a before).quiet fun _ _ => trivial⟩

-- A value is the same in both.
theorem similar_pure (a' : α) : Similar a h before (Step.pure a') :=
  similar_quiet fun _ hi => hi

-- A failure is the same in both.
theorem similar_fail (f : Failure) : Similar a h before (Step.fail f : Step α) :=
  similar_quiet fun _ hi => hi

/-! ### What calls are made of -/

-- A look at the actor shows the same in both engines.
theorem drives_seen {i : Interpreter} {e : Engine} {x : Actor} (hi : i.Drives a h)
    (hclear : e.Clear a) (hx : e.world.actor a = .ok x) : { i with actor := x }.Drives a h :=
  ⟨hclear.keyed.actors a x ((World.actor_eq_ok_iff e.world a x).mp hx), hi.handle⟩

-- The actor is the same in both, and so is what is seen of it.
theorem similar_resync : Similar a h before Step.resync := by
  refine ⟨fun i e e' hi hp => ?_, (hosts_strayed a before).resync⟩
  unfold Step.resync
  rw [hi.actor, hp.same.world.actor_eq]
  cases hx : e.world.actor a with
  | error error => exact .done hp hi
  | ok x => exact .done hp (drives_seen hi hp.clear hx)

-- The flag of the interpreter is the same in both.
theorem similar_checkRunning : Similar a h before Step.checkRunning := by
  refine ⟨fun i e e' hi hp => ?_, (hosts_strayed a before).checkRunning⟩
  unfold Step.checkRunning
  rw [hi.handle, hp.same.isRunning]
  exact .done hp hi

-- The actor has no task in either.
theorem similar_checkIdle : Similar a h before Step.checkIdle := by
  refine ⟨fun i e e' hi hp => ?_, (hosts_strayed a before).checkIdle⟩
  unfold Step.checkIdle
  simp only [hi.actor, hp.clear.idle, hp.alone.idle]
  exact .done hp hi

-- A statement is told in both.
theorem similar_announce (s : Stmt) : Similar a h before (Step.announce s) :=
  ⟨fun _ _ _ hi hp => .done (hp.emit _) hi, fun _ _ _ _ => ⟨fun hs => hs.emit _, trivial, trivial⟩⟩

-- A call is announced in both.
theorem similar_announceCall (name : String) (args : List Value) (source : CallSource) :
    Similar a h before (Step.announceCall name args source) :=
  ⟨fun _ _ _ hi hp => .done (hp.emit _) hi, (hosts_strayed a before).announceCall name args source⟩

-- The actor has the same energy, and the cost is taken from it in both.
theorem similar_debit (amount : Nat) : Similar a h before (Step.debit amount) := by
  refine ⟨fun i e e' hi hp => ?_, (hosts_strayed a before).debit amount⟩
  unfold Step.debit
  rw [hi.actor]
  rcases hp.updateActor { energy := some (.debit amount) } with
    ⟨error, hw, hw'⟩ | ⟨w, w', hw, hw', hp'⟩
  · rw [hw, hw']
    exact .done hp hi
  · have hsame : w'.actor a = w.actor a := hp'.same.world.actor_eq
    simp only [hw, hw', hsame]
    cases hx : w.actor a with
    | error error => exact .done hp' hi
    | ok x => exact .done hp' (drives_seen hi hp'.clear hx)

-- A wait in both.
theorem similar_sleep (nanoseconds : Nat) :
    Similar a h before (Step.ofProcess (Process.sleep nanoseconds)) := by
  refine ⟨fun i e e' hi hp => ?_, (hosts_strayed a before).sleep nanoseconds⟩
  unfold Step.ofProcess
  rw [Process.andThen_eq_bind, Process.andThen_eq_bind]
  exact (Process.alike_sleep (Q := fun _ => True) nanoseconds hp trivial).bind
    (fun _ _ _ _ hp' => .done hp' hi) fun _ _ hstrayed => hstrayed

/-- What follows a call that succeeded is the same in both. -/
theorem similar_settle (s : Success) : Similar a h before (Step.settle s) := by
  have hcharge : Similar a h before (Step.charge s) := by
    unfold Step.charge
    split
    · split
      · exact similar_debit _
      · exact similar_pure ()
    · exact similar_pure ()
  have hpace : Similar a h before (Step.pace s) := by
    unfold Step.pace
    split
    · exact ⟨fun i e e' hi hp => (similar_sleep _).alike i e e' hi hp, fun i e he hi =>
        (similar_sleep (a := a) (h := h) _).stays i e he hi⟩
    · exact similar_pure ()
  rw [Step.settle_eq]
  exact similar_bind hcharge fun _ => similar_bind hpace fun _ => similar_pure s

/-! ### Walks -/

theorem similar_motion (target : Position) : Similar a h before (Step.motion target) := by
  refine ⟨fun i e e' hi hp => ?_, (hosts_strayed a before).motion target⟩
  have hmove : (Process.move a target e).Alike (Engine.Paired a h before)
      (Engine.Strayed a before) (fun _ => True) (Process.move a target e') := by
    have hrequested := hp.withRequests (e.moveRequests + 1) (e'.moveRequests + 1)
    unfold Process.move
    simp only [hp.same.world.actor_eq, hp.same.world.bounds, hp.same.stepTime,
      hp.same.motionEpoch] at hrequested ⊢
    split
    · exact .done hrequested trivial
    · split
      · split
        · exact .done hrequested trivial
        · exact .done hrequested trivial
        · -- The same motion is under way in both, and what stops it is the same.
          refine (Process.alike_sleep (Q := fun _ => True) _ hrequested trivial).bind
            (fun _ e₁ e₂ _ hp' => ?_) fun _ e₁ hstrayed => ?_
          · by_cases hepoch : e₁.motionEpoch = e.motionEpoch
            · rw [if_pos hepoch, if_pos (hp'.same.motionEpoch.trans hepoch)]
              rcases hp'.updateActor { position := some target } with
                ⟨error, hw, hw'⟩ | ⟨w, w', hw, hw', hp''⟩
              · rw [hw, hw']
                exact .done hp' trivial
              · rw [hw, hw']
                exact .done hp'' trivial
            · rw [if_neg hepoch, if_neg fun heq => hepoch (hp'.same.motionEpoch.symm.trans heq)]
              exact .done hp' trivial
          · split
            · split
              · exact hstrayed.of_log rfl
              · exact hstrayed
            · exact hstrayed
      · exact .done hrequested trivial
  rw [Step.motion_eq, Step.motion_eq, hi.actor]
  exact hmove.bind (fun _ _ _ _ hp' => .done hp' hi) fun _ _ hstrayed => hstrayed

-- An interruption sees the same actor.
theorem similar_interruptedAt (target : Position) :
    Similar a h before (Step.interruptedAt target) := by
  refine ⟨fun i e e' hi hp => ?_, (hosts_strayed a before).interruptedAt target⟩
  have hrunning : e'.isRunning i.handle = e.isRunning i.handle := by
    rw [hi.handle]
    exact hp.same.isRunning
  unfold Step.interruptedAt
  simp only [hi.actor, hrunning, hp.same.world.actor_eq]
  cases hx : e.world.actor a with
  | error error => exact .done hp hi
  | ok x => exact .done hp (drives_seen hi hp.clear hx)

/-- The tiles of a walk are visited in both. By induction on those that are left. -/
theorem similar_visit (path : List Position) : Similar a h before (Step.visit path) := by
  induction path with
  | nil => exact similar_pure ()
  | cons target rest ih =>
      rw [Step.visit_cons]
      refine similar_bind similar_checkRunning fun _ =>
        similar_bind (similar_motion target) fun arrived => ?_
      split
      · exact ih
      · exact similar_interruptedAt target

-- The world is as large in both, so a walk leaves both or none.
theorem similar_walk (path : List Position) : Similar a h before (Step.walk path) := by
  refine ⟨fun i e e' hi hp => ?_, (hosts_strayed a before).walk path⟩
  have harrive : Similar a h before (Step.bind (Step.visit path) fun _ =>
      Step.bind Step.resync fun _ => Step.arrive path.length) :=
    similar_bind (similar_visit path) fun _ =>
      similar_bind similar_resync fun _ => similar_quiet fun _ hi => hi
  rw [Step.walk_eq, Step.walk_eq, hp.same.world.bounds]
  split
  · exact .done hp hi
  · split
    · exact .done hp hi
    · exact harrive.alike i e e' hi hp

-- Whether a way fits is told without the engine.
theorem similar_walkAlong (laid : Except Overflow (List Position)) :
    Similar a h before (Step.walkAlong laid) := by
  cases laid with
  | ok path => exact similar_walk path
  | error overflow => exact similar_fail _

-- The line of a walk is told by the actor and the size of the world.
theorem similar_stride (direction : Direction) (steps : Int) :
    Similar a h before (Step.stride direction steps) := by
  refine ⟨fun i e e' hi hp => ?_, (hosts_strayed a before).stride direction steps⟩
  rw [Step.stride_eq, Step.stride_eq, hp.same.world.bounds]
  exact (similar_walkAlong _).alike i e e' hi hp

-- The way to a goal is told by the actor.
theorem similar_walkTo (goal : Position) : Similar a h before (Step.walkTo goal) := by
  refine ⟨fun i e e' hi hp => ?_, (hosts_strayed a before).walkTo goal⟩
  rw [Step.walkTo_eq, Step.walkTo_eq]
  exact (similar_walkAlong _).alike i e e' hi hp

/-! ### Capabilities -/

-- Arguments are the same in both.
theorem similar_withArgument {r : Except ArgumentError α} {next : α → Step β}
    (hnext : ∀ a', Similar a h before (next a')) :
    Similar a h before (Step.withArgument r next) := by
  cases r with
  | ok a' => exact hnext a'
  | error error => exact similar_fail _

-- What depends on the arguments alone is the same in both.
theorem similar_computed (r : Except ArgumentError Value) :
    Similar a h before (Step.computed r) := by
  cases r with
  | ok v => exact similar_pure _
  | error error => exact similar_fail _

-- What is printed is told in both.
theorem similar_print (args : Arguments) : Similar a h before (Step.print args) :=
  ⟨fun _ _ _ hi hp => .done (hp.emit _) hi, (hosts_strayed a before).print args⟩

end Step

/-- Whether an operation calls a function of a tile. -/
def Operation.isOnTile (o : Operation) : Bool :=
  o ∈ [.plant, .harvest, .eat, .store]

-- The capabilities of the other groups call no functions of tiles.
theorem isOnTile_of_category {name : String} {c : Capability}
    (hc : Catalog.builtin.get? name = some c)
    (hcategory : c.category ∈ [.movement, .system, .utility]) : c.operation.isOnTile = false := by
  have hall : ∀ entry ∈ Catalog.builtin.entries,
      entry.2.category ∈ [.movement, .system, .utility] → entry.2.operation.isOnTile = false := by
    decide +kernel
  exact hall (name, c) (Entries.mem_of_get? hc) hcategory

namespace Step

variable {a : String} {h : Nat} {before : List Event}

/-- Operations are the same in both, but for those on tiles. -/
theorem similar_run {o : Operation} (ho : o.isOnTile = false) (args : Arguments) :
    Similar a h before (o.run args) := by
  cases o with
  | step direction => exact similar_stride direction 1
  | move =>
      exact similar_withArgument fun direction =>
        similar_withArgument fun n => similar_stride direction n
  | moveTo => exact similar_withArgument similar_walkTo
  | plant => exact absurd ho (by decide)
  | harvest => exact absurd ho (by decide)
  | eat => exact absurd ho (by decide)
  | store => exact absurd ho (by decide)
  | wait =>
      exact similar_withArgument fun _ => similar_bind (similar_sleep _) fun _ => similar_pure _
  | getPosition => exact similar_quiet fun _ hi => hi
  | getEnergy => exact similar_quiet fun _ hi => hi
  | getInventory => exact similar_quiet fun _ hi => hi
  | print => exact similar_print args
  | range => exact similar_computed _
  | len => exact similar_computed _
  | min => exact similar_computed _
  | max => exact similar_computed _
  | sum => exact similar_computed _
  | abs => exact similar_computed _

/-- A call of a capability is alike in both: its cost is counted from the same actor. -/
theorem similar_callCapability {c : Capability} (hc : c.operation.isOnTile = false)
    (args : List Value) : Similar a h before (Step.callCapability c args) := by
  refine ⟨fun i e e' hi hp => ?_, (hosts_strayed a before).callCapability c args⟩
  rw [Step.callCapability_eq, Step.callCapability_eq]
  split
  · exact .done hp hi
  · split
    · exact .done hp hi
    · exact (similar_bind (similar_run hc args) similar_settle).alike i e e' hi hp

/-! ### Calls -/

-- A call that is told and is one of a function of a tile strays.
theorem strayed_of_announceCall {name : String} {args : List Value} {source : CallSource}
    {next : Unit → Step Success} (hnext : ∀ i e, e.Strayed a before →
      (next () i e).after.Strayed a before) {i : Interpreter} {e : Engine} (hi : i.Drives a h)
    (htold : ∃ events, e.log = events ++ before)
    (hbad : ¬ (Event.call i.actor.id i.frames.length name (args.map Value.render)
      source).IsSolitary) :
    (Step.bind (Step.announceCall name args source) next i e).after.Strayed a before := by
  refine hnext i _ ?_
  rcases htold with ⟨events, hlog⟩
  exact ⟨_ :: events, by rw [Engine.emit, hlog, List.cons_append],
    .call i.actor.id i.frames.length name (args.map Value.render) source, List.mem_cons_self,
    hi.actor, hbad⟩

/-- A call is made alike, or strays. -/
theorem similar_dispatch {subroutine : String → Subroutine → List Value → Step Success}
    (hsub : ∀ name s args, Similar a h before (subroutine name s args)) (name : String)
    (args : List Value) : Similar a h before (Step.dispatch subroutine name args) := by
  have hosts := hosts_strayed a before
  refine ⟨fun i e e' hi hp => ?_, hosts.dispatch (fun name s args => (hsub name s args).stays)
    name args⟩
  unfold Step.dispatch
  cases hfound : Catalog.builtin.get? name with
  | some c =>
      by_cases hcategory : c.category ∈ [.movement, .system, .utility]
      · exact (similar_bind (similar_announceCall name args .capability) fun _ =>
          similar_callCapability (isOnTile_of_category hfound hcategory) args).alike i e e' hi hp
      · refine .strayed (strayed_of_announceCall (fun j e₁ =>
          (hosts.callCapability c args j e₁ trivial trivial).first) hi hp.told ?_)
        rintro ⟨c', hc', hmem⟩
        rw [hfound, Option.some.injEq] at hc'
        exact hcategory (hc' ▸ hmem)
  | none =>
      have hoffers := hp.same.world.offers i.actor.position name
      simp only
      cases hoffer' : offering? i e' name with
      | some t =>
          exact .strayed (strayed_of_announceCall (fun j e₁ =>
            (hosts.callTile t name j e₁ trivial trivial).first) hi hp.told id)
      | none =>
          cases hoffer : offering? i e name with
          | some t =>
              unfold offering? at hoffer hoffer'
              simp only [hoffer, hoffer', Option.isSome_none, Option.isSome_some,
                reduceCtorEq] at hoffers
          | none =>
              cases i.subroutines.get? name with
              | some s =>
                  exact (similar_bind (similar_announceCall name args .subroutine) fun _ =>
                    hsub name s args).alike i e e' hi hp
              | none => exact .done hp hi

/-- A subroutine is entered and left alike. -/
theorem similar_enter {body : Step Flow} (hbody : Similar a h before body) (name : String)
    (s : Subroutine) (args : List Value) : Similar a h before (Step.enter name s args body) := by
  refine ⟨fun i e e' hi hp => ?_, (hosts_strayed a before).enter hbody.stays name s args⟩
  unfold Step.enter
  rw [Process.andThen_eq_bind, Process.andThen_eq_bind]
  refine (hbody.alike { i with frames := _ :: i.frames } e e' ⟨hi.actor, hi.handle⟩ hp).bind
    (fun r e₁ e₂ hr hp' => ?_) fun r e₁ hstrayed => ?_
  · have hleft : (Step.leave r.2).Drives a h := ⟨hr.actor, hr.handle⟩
    rcases r with ⟨f | flow, j⟩
    · exact .done hp' hleft
    · exact .done hp' hleft
  · rcases r with ⟨f | flow, j⟩
    · exact hstrayed
    · exact hstrayed

/-- What scripts are composed of does the same from paired engines. -/
theorem closed_similar (a : String) (h : Nat) (before : List Event) :
    Closed fun _ s => Similar a h before s where
  quiet _ hassigned _ := similar_quiet fun i hi =>
    ⟨(congrArg Actor.id (hassigned i).kin.actor).trans hi.actor,
      (hassigned i).kin.handle.trans hi.handle⟩
  bind := similar_bind
  checkRunning := similar_checkRunning
  begins s := similar_bind similar_checkRunning fun _ => similar_announce s
  call hsub name args := by
    rw [Step.callWith_eq]
    exact similar_bind similar_resync fun _ => similar_bind similar_checkIdle fun _ =>
      similar_dispatch hsub name args
  enter := similar_enter
  depending hs :=
    ⟨fun i e e' hi hp => (hs i).alike i e e' hi hp, fun i e he hi => (hs i).stays i e he hi⟩

/-! ### Jobs -/

/-- A call from outside does the same. -/
theorem similar_callFunction (name : String) (args : List Value) :
    Similar a h before (Farmhand.callFunction name args) := by
  refine ⟨fun i e e' hi hp => ?_, (hosts_strayed a before).callFunction name args⟩
  have hcall := (closed_similar a h before).callAt (i.settings.maxCallDepth - i.frames.length)
    name args
  unfold Farmhand.callFunction
  simp only [hi.handle]
  split
  · exact hcall.alike i _ _ hi (hp.setRunning true)
  · exact hcall.alike i e e' hi hp

-- The end of a run is told to both engines.
theorem paired_endRun {e e' : Engine} (hp : e.Paired a h before e') (outcome : Outcome) :
    (endRun a h outcome e).Paired a h before (endRun a h outcome e') := by
  unfold endRun
  split
  · exact hp
  · cases outcome with
    | ok s => exact (hp.setRunning false).emit _
    | error f => exact (hp.setRunning false).emitAll _

/-- A run of the entry script is alike in both, from its start to its end. -/
theorem similar_runMain : Similar a h before Farmhand.runMain := by
  refine ⟨fun i e e' hi hp => ?_, (hosts_strayed a before).runMain⟩
  unfold Farmhand.runMain
  simp only [hi.actor, hi.handle]
  split
  · rw [Process.andThen_eq_bind, Process.andThen_eq_bind]
    refine ((similar_callFunction mainName []).alike i _ _ hi
      ((hp.setRunning true).emit _)).bind (fun r e₁ e₂ hr hp' => ?_) fun r e₁ hstrayed => ?_
    · rw [hr.handle]
      exact .done (paired_endRun hp' r.1) hr
    · have hended := ((hosts_strayed a before).endRun (i := i) (j := r.2) trivial trivial trivial
        r.1).2 hstrayed
      rw [hi.actor] at hended
      exact hended
  · exact .done (hp.emitAll _) hi

/-- Every job does the same from paired engines. -/
theorem similar_step (job : Job) : Similar a h before job.step := by
  cases job with
  | main actor => exact similar_runMain
  | call actor name args => exact similar_callFunction name args

end Step

end Farmhand
