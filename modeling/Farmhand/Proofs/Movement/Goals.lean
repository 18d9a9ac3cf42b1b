import Farmhand.Proofs.Interpreter.Alone
import Farmhand.Proofs.Movement.Motion
import Farmhand.Proofs.Movement.Ways

/-!
# Walks Reach Their Goals

A call that moves an actor has a goal, which its arguments tell in the one way or the other. If the
goal lies out of the world, nothing happens at all. If it lies in the world, the actor is moved from
place to place along a way to it, and as long as motion is not stopped it gets there, whatever else
happens in the waits.

What a walk asks for is part of what it is as a process: it asks for a motion, waits for its end,
and then asks for the next one. So the places that it asks for are told by its shape, before it is
known what will happen in its waits, and what it comes to is told for everything that may.

## Main definitions

* `Process.Returns`: What a process comes to has a property, whatever a relation allows in its
  waits.
* `Process.Visits`: A process asks for motions to some places, one after the other, and arrives.
* `Engine.StaysClear`: What may happen in the waits of a walk.
* `Operation.HeadsFor`: The goal of a call.
* `Process.Reached`: What a walk comes back with that has reached its goal.

## Theorems

* `Process.Visits.alone`: What comes of such a process if it runs alone.
* `Step.visits_walk`: A walk through places of the world visits them.
* `Operation.HeadsFor.run_eq`: A call walks the way to its goal, or a way that leaves the world.
* `Operation.HeadsFor.required`: What is asked for a call is what the steps to its goal cost.
* `Capability.reaches_goal`: A call reaches its goal, or does nothing.
-/

namespace Farmhand

namespace Process

variable {α β : Type} {id : String} {target : Position} {e : Engine}

/-- What a process comes to has a property, whatever happens in its waits that a relation allows
    from the engine at the beginning of a wait to that at its end. -/
def Returns (R : Engine → Engine → Prop) (P : α → Engine → Prop) : Process α → Prop
  | done a e => P a e
  | wait _ e resume => ∀ e', R e e' → (resume e').Returns R P

/-- A process asks for motions of an actor to some places, one after the other and nothing else,
    arrives at each of them, and comes to something that is as wanted. -/
def Visits (id : String) (R : Engine → Engine → Prop) (Q : α → Engine → Prop) :
    List Position → Engine → Process α → Prop
  | [], e, p => ∃ a, p = .done a e ∧ Q a e
  | target :: rest, e, p => ∃ next, p = (move id target e).bind next ∧
    (move id target e).Returns R fun landing e' =>
      landing = .ok true ∧ e'.world.place? id = some target ∧
        Visits id R Q rest e' (next landing e')

/-! ## Processes that run alone -/

theorem Returns.alone {R : Engine → Engine → Prop} {P : α → Engine → Prop} {p : Process α}
    (htime : ∀ e time, R e (e.advanceTo time)) (h : p.Returns R P) : P p.alone.1 p.alone.2 := by
  induction p with
  | done a e => exact h
  | wait time e resume ih => exact ih _ (h _ (htime e _))

-- Time asks for no motion.
theorem moveRequests_advanceTo (e : Engine) (time : Nat) :
    (e.advanceTo time).moveRequests = e.moveRequests :=
  Engine.fireDue_induction (P := fun e' => e'.moveRequests = e.moveRequests)
    (fun e' t he _ => (Engine.aside_fire (e'.atDue t) t).moveRequests.trans he) time e.pending e rfl

-- A motion is asked for once.
theorem moveRequests_move (id : String) (target : Position) (e : Engine) :
    (move id target e).alone.2.moveRequests = e.moveRequests + 1 := by
  have hend : ∀ e',
      (arrival id target e.motionEpoch e').alone.2.moveRequests = e'.moveRequests := by
    intro e'
    rcases arrival_cases id target e.motionEpoch e' with ⟨w, heq, _⟩ | ⟨heq, _⟩
    · rw [heq]
      rfl
    · rw [heq]
      rfl
  rcases move_cases id target e with ⟨_, heq⟩ | ⟨_, heq⟩ | ⟨_, heq⟩ | ⟨time, _, _, heq⟩
  · rw [heq]
    rfl
  · rw [heq]
    rfl
  · rw [heq, hend]
  · rw [heq, Process.alone, hend, moveRequests_advanceTo]

/-- Alone, a process that visits some places comes to what is wanted, and has asked for as many
    motions. -/
theorem Visits.alone {R : Engine → Engine → Prop} {Q : α → Engine → Prop} {path : List Position}
    {p : Process α} (htime : ∀ e time, R e (e.advanceTo time)) (h : Visits id R Q path e p) :
    Q p.alone.1 p.alone.2 ∧ p.alone.2.moveRequests = e.moveRequests + path.length := by
  induction path generalizing e p with
  | nil =>
      rcases h with ⟨a, rfl, ha⟩
      exact ⟨ha, rfl⟩
  | cons target rest ih =>
      rcases h with ⟨next, rfl, hnext⟩
      rcases ih (hnext.alone htime).2.2 with ⟨hwanted, hasked⟩
      rw [alone_bind]
      refine ⟨hwanted, ?_⟩
      rw [hasked, moveRequests_move, List.length_cons]
      omega

end Process

/-! ## Waits that leave the way clear -/

/-- What may happen in the waits of a walk so that nothing stops it: motion goes on, the world is as
    large as before, the interpreter may go on and its actor can move. -/
structure Engine.StaysClear (id : String) (handle : Nat) (e e' : Engine) : Prop where
  motionEpoch : e'.motionEpoch = e.motionEpoch
  bounds : e'.world.bounds = e.world.bounds
  passable : e.Passable id handle → e'.Passable id handle

namespace Engine

variable {id : String} {handle : Nat} {e e' : Engine}

theorem staysClear_self (id : String) (handle : Nat) (e : Engine) : e.StaysClear id handle e :=
  ⟨rfl, rfl, fun h => h⟩

/-- Time alone leaves the way clear. -/
theorem staysClear_advanceTo (id : String) (handle : Nat) (e : Engine) (time : Nat) :
    e.StaysClear id handle (e.advanceTo time) := by
  have hfired := fireDue_induction
    (P := fun e' => e'.motionEpoch = e.motionEpoch ∧ e'.stepTime = e.stepTime ∧
      e'.running = e.running)
    (fun e' t he _ => by
      have haside := aside_fire (e'.atDue t) t
      exact ⟨haside.motionEpoch.trans he.1, haside.stepTime.trans he.2.1,
        haside.running.trans he.2.2⟩) time e.pending e ⟨rfl, rfl, rfl⟩
  refine ⟨hfired.1, (World.spares_advanceTo e time).bounds, fun hpassable => ?_⟩
  refine hpassable.congr (fun hrunning => ?_) hfired.2.1
    (World.attends_speeds.advanceTo e time id)
  have hflags : (e.advanceTo time).running = e.running := hfired.2.2
  rwa [isRunning, hflags]

-- Whoever can move is there.
theorem Passable.actor (h : e.Passable id handle) :
    ∃ x time, e.world.actors.get? id = some x ∧
      Duration.stepAt? e.stepTime x.speed = some time := by
  rcases Option.isSome_iff_exists.mp h.speed with ⟨time, htime⟩
  rcases Option.bind_eq_some_iff.mp htime with ⟨speed, hspeed, htime⟩
  rcases Option.map_eq_some_iff.mp hspeed with ⟨x, hx, rfl⟩
  exact ⟨x, time, hx, htime⟩

-- A place of the world can be taken, and leaves the way clear.
theorem Passable.placed (h : e.Passable id handle) {p : Position}
    (hp : e.world.bounds.contains p = true) :
    ∃ w, e.world.updateActor id { position := some p } = .ok w ∧ w.bounds = e.world.bounds ∧
      w.place? id = some p ∧ { e with world := w }.Passable id handle := by
  rcases h.actor with ⟨x, _, hx, _⟩
  rcases World.updateActor_position hx hp with ⟨w, hw⟩
  refine ⟨w, hw, World.bounds_updateActor hw, ?_,
    h.congr (fun hrunning => hrunning) rfl (World.speed?_updateActor hw id)⟩
  rcases (World.updateActor_position_iff.mp hw).2 with ⟨a, _, rfl⟩
  rw [World.place?, Table.get?_insert_self]
  rfl

end Engine

/-- A motion to a place of the world arrives there, if its way stays clear. -/
theorem Process.move_returns {id : String} {handle : Nat} {target : Position} {e : Engine}
    {P : Except Overflow Bool → Engine → Prop} (hpassable : e.Passable id handle)
    (hinside : e.world.bounds.contains target = true)
    (harrives : ∀ e' : Engine, e'.world.bounds = e.world.bounds → e'.Passable id handle →
      e'.world.place? id = some target → P (.ok true) e') :
    (move id target e).Returns (Engine.StaysClear id handle) P := by
  let asked := { e with moveRequests := e.moveRequests + 1 }
  have hend : ∀ e' : Engine, asked.StaysClear id handle e' →
      (arrival id target e.motionEpoch e').Returns (Engine.StaysClear id handle) P := by
    intro e' hclear
    have hpassable' : e'.Passable id handle :=
      hclear.passable (hpassable.congr (fun hrunning => hrunning) rfl rfl)
    have hbounds : e'.world.bounds = e.world.bounds := hclear.bounds
    rcases hpassable'.placed (hbounds.symm ▸ hinside) with ⟨w, hw, hsize, hplace, hmoved⟩
    rcases arrival_cases id target e.motionEpoch e' with ⟨w', heq, _, hw'⟩ | ⟨_, hrefused⟩
    · rw [heq, Except.ok.inj (hw'.symm.trans hw)]
      exact harrives _ (hsize.trans hbounds) hmoved hplace
    · exact absurd hw (hrefused hclear.motionEpoch w)
  rcases hpassable.actor with ⟨x, time, hx, htime⟩
  have hadmits : e.Admits id target time := ⟨hinside, x, hx, htime⟩
  rcases move_cases id target e with ⟨⟨hnone, _⟩, _⟩ | ⟨hslow, _⟩ | ⟨_, heq⟩ | ⟨_, _, _, heq⟩
  · exact absurd hadmits (hnone time)
  · exact absurd hslow hadmits.not_overtaxes
  · rw [heq]
    exact hend _ (Engine.staysClear_self id handle asked)
  · rw [heq]
    exact hend

/-! ## Walks -/

/-- What a walk comes back with that has reached its goal: its actor is there, and this is what it
    tells and what it reports as its cost. -/
def Process.Reached (id : String) (goal : Position) (cost : Option Nat)
    (r : Except Failure Success × Interpreter) (e : Engine) : Prop :=
  e.world.place? id = some goal ∧
    ∃ s : Success, r.1 = .ok s ∧ s.data = some goal.toValue ∧ s.energyCost = cost

namespace Step

variable {i : Interpreter} {e : Engine}

-- A walk of an interpreter that may go on begins with a motion.
theorem visit_cons_bind {α : Type} {next : Unit → Step α} (target : Position)
    (rest : List Position) (hrunning : e.isRunning i.handle = true) :
    Step.bind (visit (target :: rest)) next i e =
      (Process.move i.actor.id target e).bind fun landing e' =>
        Step.bind (counted landing) (fun arrived =>
          Step.bind (if arrived then visit rest else interruptedAt target) next) i e' := by
  rw [visit_cons]
  simp only [Step.bind, checkRunning, motion_eq, counted, ofExcept, Process.andThen_eq_bind,
    Process.bind, Process.bind_bind, hrunning, if_true]
  refine congrArg (Process.bind _) (funext fun landing => funext fun e' => ?_)
  cases landing with
  | ok arrived => rfl
  | error overflow => rfl

-- The end of a walk: the actor is looked at, and the cost is reported.
theorem visits_arrive {p : Position} (hplace : e.world.place? i.actor.id = some p) (steps : Nat) :
    Process.Visits i.actor.id (Engine.StaysClear i.actor.id i.handle)
      (Process.Reached i.actor.id p (some (fare steps))) [] e
      (Step.bind (visit []) (fun _ => Step.bind resync fun _ => arrive steps) i e) := by
  rcases Option.map_eq_some_iff.mp hplace with ⟨x, hx, rfl⟩
  have hactor := (World.actor_eq_ok_iff _ _ _).mpr hx
  have hseen : Step.bind (visit []) (fun _ => Step.bind resync fun _ => arrive steps) i e =
      arrive steps { i with actor := x } e := by
    show Step.bind resync (fun _ => arrive steps) i e = _
    simp only [Step.bind, resync, hactor, Process.andThen]
  exact ⟨_, hseen, hplace, _, rfl, rfl, rfl⟩

/-- A walk through places of the world visits them, and then looks at where it is. -/
theorem visits_visit {path : List Position}
    (hinside : ∀ q ∈ path, e.world.bounds.contains q = true)
    (hpassable : e.Passable i.actor.id i.handle) {p : Position}
    (hplace : e.world.place? i.actor.id = some p) (steps : Nat) :
    Process.Visits i.actor.id (Engine.StaysClear i.actor.id i.handle)
      (Process.Reached i.actor.id (path.getLastD p) (some (fare steps))) path e
      (Step.bind (visit path) (fun _ => Step.bind resync fun _ => arrive steps) i e) := by
  induction path generalizing e p with
  | nil => exact visits_arrive hplace steps
  | cons target rest ih =>
      refine ⟨_, visit_cons_bind target rest hpassable.running, ?_⟩
      refine Process.move_returns hpassable (hinside target List.mem_cons_self) ?_
      intro e' hbounds hpassable' hplace'
      refine ⟨rfl, hplace', ?_⟩
      rw [List.getLastD_cons]
      exact ih (fun q hq => hbounds.symm ▸ hinside q (List.mem_cons_of_mem _ hq)) hpassable' hplace'

/-- A walk through places of the world visits them. -/
theorem visits_walk {path : List Position}
    (hinside : ∀ q ∈ path, e.world.bounds.contains q = true)
    (hpassable : e.Passable i.actor.id i.handle)
    (hplace : e.world.place? i.actor.id = some i.actor.position) :
    Process.Visits i.actor.id (Engine.StaysClear i.actor.id i.handle)
      (Process.Reached i.actor.id (path.getLastD i.actor.position)
        (if path.length = 0 then none else some (fare path.length))) path e (walk path i e) := by
  have hnone : path.find? (fun p => !e.world.bounds.contains p) = none :=
    List.find?_eq_none.mpr fun q hq => by rw [hinside q hq]; decide
  rw [walk_eq, hnone]
  cases path with
  | nil => exact ⟨_, rfl, hplace, _, rfl, rfl, rfl⟩
  | cons target rest => exact visits_visit hinside hpassable hplace _

end Step

/-! ## Goals -/

/-- A world of moderate size, in which all distances can be counted. -/
structure Bounds.Moderate (b : Bounds) : Prop where
  width : 0 < b.width ∧ b.width < 2 ^ 30
  height : 0 < b.height ∧ b.height < 2 ^ 30

/-- The goal of a call that moves an actor, from the place of the actor. A goal that is asked for as
    such is near enough to be counted with. -/
inductive Operation.HeadsFor (p : Position) (args : Arguments) : Operation → Position → Prop
  | step (direction : Direction) :
    HeadsFor p args (.step direction) (p.offset direction.delta.1 direction.delta.2)
  | move {direction : Direction} {n : Int}
      (hdirection : Step.directionArgument args = .ok direction)
      (hn : Step.stepsArgument args = .ok n) :
    HeadsFor p args .move (p.offset (direction.delta.1 * n) (direction.delta.2 * n))
  | moveTo {goal : Position} (hgoal : args.target = .ok goal) (hx : goal.x.natAbs < 2 ^ 30)
      (hy : goal.y.natAbs < 2 ^ 30) : HeadsFor p args .moveTo goal

namespace Position

variable {p goal : Position} {b : Bounds} {direction : Direction} {n : Int}

-- More steps than the world is wide or high lead out of it.
theorem offset_outside (hp : b.contains p = true) (hn : max b.width b.height < n) :
    b.contains (p.offset (direction.delta.1 * n) (direction.delta.2 * n)) = false := by
  rw [Bounds.contains_iff] at hp
  rw [← Bool.not_eq_true, Bounds.contains_iff]
  cases direction <;> simp only [offset, Direction.delta] <;> omega

theorem le_of_offset_inside (hp : b.contains p = true)
    (hgoal : b.contains (p.offset (direction.delta.1 * n) (direction.delta.2 * n)) = true) :
    n ≤ max b.width b.height :=
  Int.not_lt.mp fun hlong =>
    Bool.false_ne_true ((offset_outside hp hlong).symm.trans hgoal)

/-- As many steps as are asked for, or as many as it takes to leave the world, are the way to where
    the steps lead, or leave the world if they do. -/
theorem line_strideLength (hb : b.Moderate) (hp : b.contains p = true) (direction : Direction)
    (hn : 0 ≤ n) :
    let goal := p.offset (direction.delta.1 * n) (direction.delta.2 * n)
    let path := p.line direction.delta.1 direction.delta.2 (Step.strideLength b n)
    (b.contains goal = true → path = p.pathTo goal) ∧
      (b.contains goal = false → ∃ q ∈ path, b.contains q = false) := by
  intro goal path
  rcases hb with ⟨hwidth, hheight⟩
  have hlaid : Integer.isCoordinate (min n (max b.width b.height + 1)) = true := by
    rw [Integer.isCoordinate_iff]
    omega
  have hlength : Step.strideLength b n = (min n (max b.width b.height + 1)).toNat := by
    rw [Step.strideLength, hlaid, if_pos rfl]
  by_cases hfits : n ≤ max b.width b.height
  · -- All steps are laid out.
    have hcount : (Step.strideLength b n : Int) = n := by omega
    have hpath : path = p.pathTo goal := by
      have hway := pathTo_offset p direction (Step.strideLength b n)
      rw [hcount] at hway
      exact hway.symm
    exact ⟨fun _ => hpath, fun hgoal => hpath ▸ exists_outside_pathTo hp hgoal⟩
  · have hgoal : b.contains goal = false := offset_outside hp (by omega)
    refine ⟨fun hinside => absurd (hgoal.symm.trans hinside) Bool.false_ne_true, fun _ => ?_⟩
    exact Step.exists_outside (by omega) p direction (by omega)

/-- The places that steps in a direction lead to fit, as no more of them are laid out than it takes
    to leave the world. -/
theorem layLine_strideLength (hb : b.Moderate) (hp : b.contains p = true) (direction : Direction)
    (n : Int) :
    p.layLine direction.delta.1 direction.delta.2 (Step.strideLength b n) =
      .ok (p.line direction.delta.1 direction.delta.2 (Step.strideLength b n)) := by
  rcases hb with ⟨hwidth, hheight⟩
  have hlength : (Step.strideLength b n : Int) ≤ max b.width b.height + 1 := by
    rw [Step.strideLength]
    split <;> omega
  refine layLine_eq_ok_iff.mpr ⟨rfl, fun q hq => ?_⟩
  rcases mem_line hq with ⟨i, hi, rfl⟩
  rw [Bounds.contains_iff] at hp
  rw [isCounted, Bool.and_eq_true, Integer.isCoordinate_iff, Integer.isCoordinate_iff]
  cases direction <;> simp only [offset, Direction.delta] <;> omega

/-- The way to a goal that is near enough fits. -/
theorem layOut_of_near (hb : b.Moderate) (hp : b.contains p = true) (hx : goal.x.natAbs < 2 ^ 30)
    (hy : goal.y.natAbs < 2 ^ 30) : p.layOut goal = .ok (p.pathTo goal) := by
  have hreach : p.Reachable goal := by
    rcases hb with ⟨hwidth, hheight⟩
    rw [Bounds.contains_iff] at hp
    simp only [Reachable, Integer.isCoordinate_iff]
    omega
  rw [layOut_eq, if_pos hreach]

-- So many steps in a direction are as many steps away.
theorem stepsTo_offset (p : Position) (direction : Direction) (n : Int) :
    p.stepsTo (p.offset (direction.delta.1 * n) (direction.delta.2 * n)) = n.natAbs := by
  cases direction <;> simp only [stepsTo, offset, Direction.delta] <;> omega

end Position

section

variable {o : Operation} {a : Actor} {args : Arguments} {goal : Position} {b : Bounds}

/-- A call walks the way to its goal, or a way that leaves the world. -/
theorem Operation.HeadsFor.run_eq {i : Interpreter} {e : Engine} (hb : e.world.bounds.Moderate)
    (hp : e.world.bounds.contains i.actor.position = true)
    (h : o.HeadsFor i.actor.position args goal) :
    ∃ path, o.run args i e = Step.walk path i e ∧
      (e.world.bounds.contains goal = true → path = i.actor.position.pathTo goal) ∧
      (e.world.bounds.contains goal = false → ∃ q ∈ path, e.world.bounds.contains q = false) := by
  cases h with
  | step direction =>
      have hway := Position.line_strideLength (n := 1) hb hp direction (by decide)
      rw [Int.mul_one, Int.mul_one] at hway
      refine ⟨_, ?_, hway⟩
      rw [Operation.run, Step.stride_eq, Position.layLine_strideLength hb hp, Step.walkAlong]
  | @move direction n hdirection hn =>
      refine ⟨_, ?_, Position.line_strideLength hb hp direction
        (Step.stepsArgument_eq_ok hn i.actor).1⟩
      rw [Operation.run, hdirection, Step.withArgument, hn, Step.withArgument, Step.stride_eq,
        Position.layLine_strideLength hb hp, Step.walkAlong]
  | moveTo hgoal hx hy =>
      refine ⟨_, ?_, fun _ => rfl, Position.exists_outside_pathTo hp⟩
      rw [Operation.run, hgoal, Step.withArgument, Step.walkTo_eq,
        Position.layOut_of_near hb hp hx hy, Step.walkAlong]

/-- What is asked for a call whose goal is in the world is what the steps to it cost. -/
theorem Operation.HeadsFor.required (hb : b.Moderate) (hp : b.contains a.position = true)
    (h : o.HeadsFor a.position args goal) (hgoal : b.contains goal = true) :
    o.tariff.required a args = fare (a.position.stepsTo goal) := by
  cases h with
  | step direction =>
      have hsteps := Position.stepsTo_offset a.position direction 1
      rw [Int.mul_one, Int.mul_one] at hsteps
      rw [hsteps]
      rfl
  | @move direction n hdirection hn =>
      rcases Step.stepsArgument_eq_ok hn a with ⟨hnonneg, hcounted⟩
      have hle : n ≤ (Integer.maxAmount : Int) := by
        have hfits := Position.le_of_offset_inside hp hgoal
        rcases hb with ⟨hwidth, hheight⟩
        simp only [Integer.maxAmount]
        omega
      have hamount : Integer.amount? n = some n.natAbs := by
        have hsame : n.toNat = n.natAbs := by omega
        simp only [Integer.amount?, hnonneg, hle, decide_true, Bool.and_self, if_true, hsame]
      rw [Operation.tariff, EnergyCost.required, hcounted, hamount, Position.stepsTo_offset, fare,
        Option.getD_some]
  | moveTo hargs _ _ =>
      simp only [Operation.tariff, EnergyCost.required, StepCount.steps, hargs, fare]

end

-- A walk that leaves the world is none.
theorem Step.walk_outside {path : List Position} {i : Interpreter} {e : Engine}
    (h : ∃ q ∈ path, e.world.bounds.contains q = false) :
    ∃ q, Step.walk path i e = .done (.error (.outsideWorld q e.world.bounds), i) e ∧
      e.world.bounds.contains q = false := by
  rcases h with ⟨q, hq, hout⟩
  have hsome : (path.find? fun q => !e.world.bounds.contains q).isSome = true :=
    List.find?_isSome.mpr ⟨q, hq, by rw [hout]; rfl⟩
  rcases Option.isSome_iff_exists.mp hsome with ⟨first, hfirst⟩
  have hwalk : Step.walk path i e = .done (.error (.outsideWorld first e.world.bounds), i) e := by
    rw [Step.walk_eq, hfirst]
    rfl
  refine ⟨first, hwalk, ?_⟩
  have hfound := List.find?_some hfirst
  rwa [Bool.not_eq_true'] at hfound

/-- A call that moves an actor reaches its goal or does nothing. In a world of moderate size, let an
    interpreter call it that may go on and that sees its actor as it is, in the world and able to
    move. If the goal lies out of the world, the call fails at once, and nothing was asked for. If
    it lies in the world, the call asks for motions along a way to it, as many as it is steps away,
    arrives at each of the places, whatever happens in the waits that leaves its way clear, and
    succeeds at the goal. What it reports as its cost is what was asked for before it, unless no
    step was to be made. -/
theorem Capability.reaches_goal {name : String} {c : Capability}
    (hc : Catalog.builtin.get? name = some c) {i : Interpreter} {e : Engine} {args : Arguments}
    {goal : Position} (hb : e.world.bounds.Moderate)
    (hseen : e.world.actors.get? i.actor.id = some i.actor)
    (hp : e.world.bounds.contains i.actor.position = true)
    (hpassable : e.Passable i.actor.id i.handle)
    (hgoal : c.operation.HeadsFor i.actor.position args goal) :
    let p := i.actor.position
    let steps := p.stepsTo goal
    let cost := if steps = 0 then none else some (c.energy.required i.actor args)
    let reached := Process.Reached i.actor.id goal cost
    let run := c.operation.run args i e
    (e.world.bounds.contains goal = false →
      ∃ failure, run = .done (.error failure, i) e ∧ failure.kind = .bounds) ∧
    (e.world.bounds.contains goal = true →
      (∃ path, p.Route e.world.bounds goal path ∧
        run.Visits i.actor.id (Engine.StaysClear i.actor.id i.handle) reached path e) ∧
      reached run.alone.1 run.alone.2 ∧ run.alone.2.moveRequests = e.moveRequests + steps) := by
  intro p steps cost reached run
  rcases hgoal.run_eq hb hp with ⟨path, hrun, hway, hleaves⟩
  refine ⟨fun hout => ?_, fun hin => ?_⟩
  · rcases Step.walk_outside (i := i) (hleaves hout) with ⟨q, hwalk, _⟩
    exact ⟨_, hrun.trans hwalk, rfl⟩
  · have hroute : p.Route e.world.bounds goal path := hway hin ▸ Position.route_pathTo hp hin
    have hplace : e.world.place? i.actor.id = some i.actor.position :=
      congrArg (Option.map Actor.position) hseen
    have hrequired : c.energy.required i.actor args = fare steps := by
      rw [(Catalog.builtin_declares hc).1]
      exact hgoal.required hb hp hin
    have hcost : (if path.length = 0 then none else some (fare path.length)) = cost := by
      simp only [cost, hroute.length, hrequired, steps]
    have hvisits := Step.visits_walk hroute.inside hpassable hplace
    rw [hroute.arrives, hcost, ← hrun] at hvisits
    have halone := hvisits.alone (Engine.staysClear_advanceTo i.actor.id i.handle)
    rw [hroute.length] at halone
    exact ⟨⟨path, hroute, hvisits⟩, halone⟩

/-- Someone walks from one corner of a small world to the other. -/
theorem Capability.reaches_goal_corner :
    let bot := Actor.new "bot" ⟨0, 0⟩
    let i := Interpreter.new 0 ⟨1000, 1000, 10⟩ bot
    let e :=
      { Engine.new ((World.empty ⟨3, 2⟩).insertActor bot) 300 with running := [true] }
    let args : Arguments := [.int 2, .int 1]
    ∃ c, Catalog.builtin.get? "move_to" = some c ∧ e.Passable "bot" 0 ∧
      c.operation.HeadsFor ⟨0, 0⟩ args ⟨2, 1⟩ ∧
      Process.Reached "bot" ⟨2, 1⟩ (some 15) (c.operation.run args i e).alone.1
        (c.operation.run args i e).alone.2 ∧
      (c.operation.run args i e).alone.2.moveRequests = 3 := by
  intro bot i e args
  have hpassable : e.Passable "bot" 0 := ⟨rfl, by decide +kernel⟩
  have hgoal : Operation.moveTo.HeadsFor ⟨0, 0⟩ args ⟨2, 1⟩ :=
    .moveTo rfl (by decide) (by decide)
  have hfound : Catalog.builtin.get? "move_to" = some Catalog.movement[5] := rfl
  have hreaches := Capability.reaches_goal (i := i) (e := e) hfound ⟨by decide, by decide⟩ rfl rfl
    hpassable hgoal
  have hcost : (if i.actor.position.stepsTo ⟨2, 1⟩ = 0 then none else
      some (Catalog.movement[5].energy.required i.actor args)) = some 15 := by decide
  have harrived := (hreaches.2 rfl).2
  rw [hcost] at harrived
  exact ⟨_, hfound, hpassable, hgoal, harrived⟩

end Farmhand
