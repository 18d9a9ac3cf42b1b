import Farmhand.Proofs.Concurrent.Paying

/-!
# Walks That Were Not Stopped

Much is asked before a walk begins, and again before every tile of it: whether all of it lies in the
world, whether the interpreter may go on, and how long the actor takes for a tile. Nothing of this
changes while the walk goes on, unless motion is stopped, which is counted. So a walk that took its
actor at least one tile comes to its end as long as nothing is stopped, and it is paid for.

Hence what is missing in the energy that was paid for the tiles that were moved is due to stops.

## Main definitions

* `Engine.Passable`: An interpreter may go on, and its actor moves in a known time.
* `Machine.Unhindered`: A walk that only a stop can cut short.
* `Machine.Proceeds`, `Machine.SetsOut`: What a step of a walk comes to, and any other step.
* `Engine.Permits`: What is asked before each tile is answered as before.
* `Scene.Smooth`: As long as nothing is stopped, no walk is cut short.
* `Scene.Strolls`: The runs of scripts that name no function of a tile.

## Theorems

* `Machine.unhindered_next`: A walk goes on, comes to its end, or has not moved its actor.
* `Machine.setsOut_next`: What begins is not hindered.
* `Scene.Roams.uncut`: No walk is cut short where nothing is stopped.
* `Scene.completed_walks_paid`: What is paid are the walks that were completed.
* `Scene.not_moved_tiles_paid`: What is paid are not the tiles that were moved.
-/

namespace Farmhand

/-! ## What is asked before each tile -/

namespace World

variable {w w' : World}

/-- The speed of an actor. -/
def speed? (w : World) (a : String) : Option Float :=
  (w.actors.get? a).map Actor.speed

/-- Tasks change nobody's speed. -/
theorem attends_speeds : Attends fun w w' => ∀ a, w'.speed? a = w.speed? a where
  self _ _ := rfl
  trans h h' a := (h' a).trans (h a)
  task := by
    intro w task key
    cases key with
    | actor id =>
        exact Table.map_get?_modify (f := fun x => { x with task }) (g := Actor.speed)
          (fun _ => rfl) w.actors id
    | tile id => exact fun _ => rfl
  state _ _ _ _ := rfl

-- A patch of the place of an actor leaves all speeds as they are.
theorem speed?_updateActor {id : String} {patch : ActorPatch} (h : w.updateActor id patch = .ok w')
    (a : String) : w'.speed? a = w.speed? a := by
  rcases (updateActor_eq_ok_iff w w' id patch).mp h with ⟨x, y, hx, hy, rfl⟩
  rcases patchActor_eq_ok hy with ⟨n, rfl, _⟩
  unfold speed?
  by_cases ha : a = id
  · rw [ha, Table.get?_insert_self, hx]
    rfl
  · exact congrArg (Option.map _) (Table.get?_insert_of_ne _ _ _ _ ha)

-- A place in the world can be taken.
theorem updateActor_position {id : String} {x : Actor} (hx : w.actors.get? id = some x)
    {p : Position} (hp : w.bounds.contains p = true) :
    ∃ w', w.updateActor id { position := some p } = .ok w' := by
  have hpatch : w.patchActor x { position := some p } =
      .ok (patchActor.rest { position := some p } { x with position := p }) := by
    simp only [patchActor, patchActor.energyPatched, hp, if_true, Except.map]
  exact ⟨_, (updateActor_eq_ok_iff _ _ _ _).mpr ⟨x, _, hx, hpatch, rfl⟩⟩

end World

/-- An interpreter may go on, and the actor that it drives moves in a known time. -/
structure Engine.Passable (a : String) (handle : Nat) (e : Engine) : Prop where
  running : e.isRunning handle = true
  speed : ((e.world.speed? a).bind (Duration.stepAt? e.stepTime)).isSome = true

-- Only the flag, the time of a step and the speed of the actor matter.
theorem Engine.Passable.congr {a : String} {handle : Nat} {e e' : Engine} (h : e.Passable a handle)
    (hrunning : e.isRunning handle = true → e'.isRunning handle = true)
    (hstepTime : e'.stepTime = e.stepTime) (hspeed : e'.world.speed? a = e.world.speed? a) :
    e'.Passable a handle := by
  refine ⟨hrunning h.running, ?_⟩
  rw [hspeed, hstepTime]
  exact h.speed

namespace Machine

/-- The tiles of a walk that are ahead. -/
def Control.ahead {k : Kind} : Control k → List Position
  | .visit path _ => path
  | .arrive _ target rest _ => target :: rest
  | _ => []

/-- The epoch in which the motion began that is under way. -/
def Control.epoch? {k : Kind} : Control k → Option Nat
  | .arrive epoch _ _ _ => some epoch
  | _ => none

/-- A walk that has taken its actor some tiles, and that only a stop can cut short: it stays in the
    world, its motion was not stopped, and it passed what is asked before each tile. -/
structure Unhindered (e : Engine) (tiles : Nat) (m : Machine) : Prop where
  inside : ∀ q ∈ m.control.ahead, e.world.bounds.contains q = true
  epoch : ∀ epoch, m.control.epoch? = some epoch → epoch = e.motionEpoch
  passable : m.control.epoch? ≠ none ∨ tiles ≠ 0 →
    e.Passable m.interpreter.actor.id m.interpreter.handle

variable {m : Machine} {e : Engine} {tiles : Nat}

-- No walk, and nothing in its way.
theorem unhindered_aside (hwalk : m.control.walk? = none) (e : Engine) : Unhindered e 0 m := by
  rcases m with ⟨k, control, stack, i⟩
  cases control with
  | visit path steps => cases hwalk
  | arrive epoch target rest steps => cases hwalk
  | _ => exact ⟨List.forall_mem_nil _, nofun, fun h => absurd h (by simp [Control.epoch?])⟩

/-- What a step of a walk comes to: a walk that goes on, its end, or nothing if the actor was not
    moved before. -/
inductive Proceeds (e : Engine) (tiles : Nat) (p : Progress) : Prop
  | goes {m' : Machine} (hnext : p.machine? = some m') (hwalk : m'.control.walk? ≠ none)
      (h : ∀ tiles, Unhindered p.engine tiles m') : Proceeds e tiles p
  | ends {m' : Machine} (hnext : p.machine? = some m') (hwalk : m'.control.walk? = none)
      (hsettles : m'.control.isSettle = true) : Proceeds e tiles p
  | fails {m' : Machine} (htiles : tiles = 0) (hnext : p.machine? = some m')
      (hwalk : m'.control.walk? = none) (hworld : p.engine.world = e.world) : Proceeds e tiles p

section

variable {stack : Stack .success} {i : Interpreter} {x : Actor}

theorem proceeds_ofMotion {target : Position} {rest : List Position} {steps : Nat}
    (hx : e.world.actors.get? i.actor.id = some x) (hrunning : e.isRunning i.handle = true)
    (h : Unhindered e tiles ⟨_, .visit (target :: rest) steps, stack, i⟩) :
    Proceeds e tiles (ofMotion stack i e target rest steps) := by
  have hactor := (World.actor_eq_ok_iff _ _ _).mpr hx
  have hspeed : e.world.speed? i.actor.id = some x.speed := by
    rw [World.speed?, hx, Option.map_some]
  have htarget : e.world.bounds.contains target = true := h.inside target List.mem_cons_self
  -- If the step takes no time, it is as it was before the tile before, if there was one.
  have hfirst : Duration.stepAt? e.stepTime x.speed = none → tiles = 0 := by
    refine fun hnone => Decidable.byContradiction fun hne => ?_
    have hpassed := (h.passable (.inr hne)).speed
    rw [hspeed, Option.bind_some, hnone] at hpassed
    cases hpassed
  simp only [ofMotion, hactor, htarget, if_true]
  cases htime : Duration.stepAt e.stepTime x.speed with
  | error overflow => exact .fails (hfirst (by rw [Duration.stepAt?, htime])) rfl rfl rfl
  | ok time =>
      have htime' : Duration.stepAt? e.stepTime x.speed = time := by rw [Duration.stepAt?, htime]
      cases time with
      | none => exact .fails (hfirst htime') rfl rfl rfl
      | some time =>
          dsimp only
          have hgoes : ∀ tiles, Unhindered { e with moveRequests := e.moveRequests + 1 } tiles
              ⟨_, .arrive e.motionEpoch target rest steps, stack, i⟩ := by
            refine fun tiles =>
              ⟨h.inside, fun _ hepoch => (Option.some.inj hepoch).symm, fun _ => ?_⟩
            refine ⟨hrunning, ?_⟩
            simp only [hspeed, Option.bind_some, htime', Option.isSome_some]
          unfold pausing
          split
          · exact .goes rfl (Option.some_ne_none _) hgoes
          · exact .goes rfl (Option.some_ne_none _) hgoes

/-- Before a tile: the look at the flag is answered as before, and so is the time of the step. -/
theorem proceeds_ofVisit {path : List Position} {steps : Nat}
    (hx : e.world.actors.get? i.actor.id = some x)
    (h : Unhindered e tiles ⟨_, .visit path steps, stack, i⟩) :
    Proceeds e tiles (ofVisit stack i e path steps) := by
  cases path with
  | nil =>
      simp only [ofVisit, (World.actor_eq_ok_iff _ _ _).mpr hx]
      exact .ends rfl rfl rfl
  | cons target rest =>
      simp only [ofVisit]
      split
      · next hrunning => exact proceeds_ofMotion hx hrunning h
      · next hstopped =>
        exact .fails (Decidable.byContradiction fun hne =>
          hstopped (h.passable (.inr hne)).running) rfl rfl rfl

/-- Behind a tile: no motion was stopped since this one began, so the actor is there. -/
theorem proceeds_ofArrive {epoch : Nat} {target : Position} {rest : List Position} {steps : Nat}
    (hx : e.world.actors.get? i.actor.id = some x)
    (h : Unhindered e tiles ⟨_, .arrive epoch target rest steps, stack, i⟩) :
    Proceeds e tiles (ofArrive stack i e epoch target rest steps) := by
  have hpassed := h.passable (.inl (Option.some_ne_none _))
  rcases World.updateActor_position hx (h.inside target List.mem_cons_self) with ⟨w, hw⟩
  simp only [ofArrive, if_pos (h.epoch epoch rfl).symm, hw]
  refine .goes rfl (Option.some_ne_none _) fun tiles =>
    ⟨fun q hq => ?_, fun _ hepoch => absurd hepoch.symm (Option.some_ne_none _), fun _ => ?_⟩
  · have hbounds : w.bounds = e.world.bounds := World.bounds_updateActor hw
    show w.bounds.contains q = true
    rw [hbounds]
    exact h.inside q (List.mem_cons_of_mem _ hq)
  · exact hpassed.congr id rfl (World.speed?_updateActor hw _)

-- A walk begins in the world.
theorem unhindered_ofWalk (path : List Position) : Unhindered e 0 (ofWalk stack i e path) := by
  rcases ofWalk_cases stack i e path with ⟨f, hwalk⟩ | ⟨s, _, hwalk⟩ | ⟨_, hinside, hwalk⟩
  · exact hwalk ▸ unhindered_aside rfl e
  · exact hwalk ▸ unhindered_aside rfl e
  · rw [hwalk]
    exact ⟨hinside, nofun, fun h => absurd h (by simp [Control.epoch?])⟩

end

/-- The walk of a machine goes on, comes to its end, or has not moved its actor. -/
theorem unhindered_next (h : Unhindered e tiles m) (hwalk : m.control.walk? ≠ none) {x : Actor}
    (hx : e.world.actors.get? m.interpreter.actor.id = some x) :
    Proceeds e tiles (m.next e) := by
  rcases m with ⟨k, control, stack, i⟩
  cases control with
  | visit path steps => exact proceeds_ofVisit hx h
  | arrive epoch target rest steps => exact proceeds_ofArrive hx h
  | _ => exact absurd rfl hwalk

/-! ## What begins -/

/-- A step to a machine in no walk, or in one that has just begun. -/
def SetsOut (p : Progress) : Prop :=
  ∀ m', p.machine? = some m' → Unhindered p.engine 0 m'

-- A machine that does something else is in no walk.
theorem setsOut_aside {m' : Machine} (hwalk : m'.control.walk? = none) (e : Engine) :
    SetsOut (.on m' e) :=
  fun _ hm => Option.some.inj hm ▸ unhindered_aside hwalk e

section

variable (stack : Stack .success) (i : Interpreter) (e : Engine)

theorem setsOut_ofOutcome (r : Outcome) : SetsOut (.on (ofOutcome stack i r) e) := by
  cases r with
  | _ => exact setsOut_aside rfl e

-- Among the courses only a walk can begin one, and at its beginning no tile is behind it.
theorem setsOut_ofCourse (course : Course) : SetsOut (ofCourse stack i e course) := by
  cases course with
  | answer outcome => exact setsOut_ofOutcome stack i e outcome
  | print text => exact setsOut_aside rfl _
  | walk path => exact fun _ hm => Option.some.inj hm ▸ unhindered_ofWalk path
  | onTile f =>
      simp only [ofCourse, ofTile]
      split
      · split
        · exact setsOut_ofOutcome stack i _ _
        · exact setsOut_aside rfl _
      · exact setsOut_aside rfl _
  | pause nanoseconds s =>
      simp only [ofCourse, pausing]
      split
      · exact setsOut_aside rfl e
      · exact fun _ hm => Option.some.inj hm ▸ unhindered_aside rfl _

-- What a name stands for makes no difference.
theorem setsOut_ofCall (name : String) (args : List Value) :
    SetsOut (ofCall stack i e name args) := by
  simp only [ofCall]
  split
  · exact setsOut_aside rfl _
  · split
    · exact setsOut_aside rfl _
    · split
      · next callee _ =>
        cases callee with
        | _ => exact setsOut_aside rfl _
      · exact setsOut_aside rfl _

end

/-- No step that is none of a walk leads to one that is hindered. -/
theorem setsOut_next (hwalk : m.control.walk? = none) (e : Engine) : SetsOut (m.next e) := by
  have hplain : ¬ m.control.Ventures → SetsOut (m.next e) := fun hventures _ hm =>
    unhindered_aside (plain_next hventures hm).aside.1 _
  rcases m with ⟨k, control, stack, i⟩
  cases control with
  | call name args => exact setsOut_ofCall stack i e name args
  | capability c args =>
      simp only [next, ofCapability]
      split
      · exact setsOut_aside rfl e
      · split
        · exact setsOut_aside rfl e
        · exact setsOut_ofCourse stack i e _
  | tileFunction t name => exact setsOut_ofOutcome stack i _ _
  | visit path steps => cases hwalk
  | arrive epoch target rest steps => cases hwalk
  | _ => exact hplain id

/-! ## What walks come to -/

variable {t : Tally} {p : Progress}

/-- A step in which no tile is cut off from its walk, and that leads to no walk that is hindered. -/
structure Uncut (t : Tally) (tiles : Nat) (m : Machine) (p : Progress) : Prop where
  cut : (t.after tiles (some m) p.machine?).cut = t.cut
  unhindered : ∀ m', p.machine? = some m' →
    Unhindered p.engine (t.after tiles (some m) p.machine?).under m'

-- A walk that does not go on has come to its end or taken its actor nowhere.
theorem Proceeds.uncut (h : Proceeds e t.under p) (hwalk : m.control.walk? ≠ none)
    (hstill : p.engine.world = e.world → tiles = 0) : Uncut t tiles m p := by
  rcases Option.ne_none_iff_exists'.mp hwalk with ⟨walk, hwalk⟩
  have hover : ∀ m', p.machine? = some m' → m'.control.walk? = none →
      (m'.control.isSettle = true ∨ t.under + tiles = 0) → Uncut t tiles m p := by
    intro m' hnext hwalk' hends
    have hafter : (t.after tiles (some m) p.machine?).cut = t.cut ∧
        (t.after tiles (some m) p.machine?).under = 0 := by
      simp only [hnext, Tally.after, walkOf?, Option.bind_some, hwalk, hwalk', settles,
        Option.any_some]
      split
      · exact ⟨rfl, rfl⟩
      · next hfails => exact ⟨congrArg (t.cut + ·) (hends.resolve_left hfails), rfl⟩
    refine ⟨hafter.1, fun m'' hm => ?_⟩
    rw [hafter.2, ← Option.some.inj (hnext.symm.trans hm)]
    exact unhindered_aside hwalk' _
  cases h with
  | @goes m' hnext hwalk' hgoes =>
      rcases Option.ne_none_iff_exists'.mp hwalk' with ⟨walk', hwalk'⟩
      refine ⟨?_, fun m'' hm => ?_⟩
      · simp only [hnext, Tally.after, walkOf?, Option.bind_some, hwalk, hwalk']
      · rw [← Option.some.inj (hnext.symm.trans hm)]
        exact hgoes _
  | @ends m' hnext hwalk' hsettles => exact hover m' hnext hwalk' (.inl hsettles)
  | @fails m' hunder hnext hwalk' hworld =>
      refine hover m' hnext hwalk' (.inr ?_)
      rw [hunder, hstill hworld]

-- A step in no walk cuts nothing off.
theorem SetsOut.uncut (h : SetsOut p) (hwalk : m.control.walk? = none) (hunder : t.under = 0) :
    Uncut t tiles m p := by
  have hafter : t.after tiles (some m) p.machine? = { t with moved := t.moved + tiles } := by
    simp only [Tally.after, walkOf?, Option.bind_some, hwalk]
  refine ⟨by rw [hafter], fun m' hm => ?_⟩
  rw [hafter, hunder]
  exact h m' hm

end Machine

/-! ## Engines -/

/-- What is asked before each tile is answered as before. -/
structure Engine.Permits (e e' : Engine) : Prop where
  motionEpoch : e'.motionEpoch = e.motionEpoch
  stepTime : e'.stepTime = e.stepTime
  running : ∀ handle, e.isRunning handle = true → e'.isRunning handle = true
  bounds : e'.world.bounds = e.world.bounds
  speeds : ∀ a, e'.world.speed? a = e.world.speed? a

-- What hinders no walk now hinders none where everything asked is answered as before.
theorem Machine.Unhindered.permits {m : Machine} {e e' : Engine} {tiles : Nat}
    (h : Unhindered e tiles m) (hpermits : e.Permits e') : Unhindered e' tiles m := by
  refine ⟨?_, ?_, fun hpassed => ?_⟩
  · rw [hpermits.bounds]
    exact h.inside
  · rw [hpermits.motionEpoch]
    exact h.epoch
  · exact (h.passable hpassed).congr (hpermits.running _) hpermits.stepTime (hpermits.speeds _)

-- Steps leave the epoch of motion alone.
theorem Machine.Effect.motionEpoch {m : Machine} {e e' : Engine} (h : Effect m e e') :
    e'.motionEpoch = e.motionEpoch := by
  cases h with
  | told events _ => rw [Engine.emitAll_eq]
  | flagged value events _ => rw [Engine.emitAll_eq, Engine.setRunning]
  | used _ tile name => exact (Engine.aside_invoke e true _ tile name).motionEpoch
  | _ => rfl

/-! ## Scenes -/

namespace Scene

open Machine Tally

variable {s s' : Scene} {a : String} {e : Engine} {energy epoch : Nat} {t : Tally}

/-- As long as nothing was stopped since some epoch of motion, no walk was cut short, and nothing
    hinders the one under way. -/
structure Smooth (epoch : Nat) (s : Scene) (t : Tally) : Prop where
  later : epoch ≤ s.engine.motionEpoch
  uncut : s.engine.motionEpoch = epoch → t.cut = 0
  unhindered : s.engine.motionEpoch = epoch →
    ∀ m, s.live? = some m → Unhindered s.engine t.under m

/-- The turn of a party. In a walk, the walk goes on, ends or has not moved; otherwise one may
    begin. -/
theorem Smooth.steps (h : Smooth epoch s t) (haccounts : Accounts a energy s t) {k : Nat}
    {m : Machine} (hworking : s.parties[k]? = some (.working m)) :
    Smooth epoch (s.stepped k m)
      (t.after (s.engine.world.tilesBetween (s.stepped k m).engine.world a) s.live?
        (s.stepped k m).live?) := by
  have hlive := haccounts.live (machineAt?_of_working hworking)
  have hactor := haccounts.drives m hlive
  have hepoch : (s.stepped k m).engine.motionEpoch = s.engine.motionEpoch :=
    (Machine.passage_next m s.engine).effect.motionEpoch
  rcases haccounts.balanced with ⟨p, n, hplace, _, hbalanced⟩
  rw [hlive] at hbalanced
  have huncut : s.engine.motionEpoch = epoch → Uncut t
      (s.engine.world.tilesBetween (s.stepped k m).engine.world a) m (m.next s.engine) := by
    intro hsame
    cases hwalk : m.control.walk? with
    | none =>
        exact (setsOut_next hwalk s.engine).uncut hwalk (hbalanced.rests hwalk)
    | some walk =>
        have hwalk : m.control.walk? ≠ none := by rw [hwalk]; nofun
        rcases Option.map_eq_some_iff.mp hplace with ⟨x, hx, _⟩
        rw [← hactor] at hx
        refine (unhindered_next (h.unhindered hsame m hlive) hwalk hx).uncut hwalk fun hworld => ?_
        exact World.tilesBetween_still (congrArg (World.place? · a) hworld)
  rw [hlive, haccounts.live?_stepped hworking]
  refine ⟨hepoch.symm ▸ h.later, fun hsame => ?_, fun hsame => ?_⟩
  · rw [hepoch] at hsame
    exact (huncut hsame).cut.trans (h.uncut hsame)
  · rw [hepoch] at hsame
    rw [haccounts.live?_stepped hworking]
    exact (huncut hsame).unhindered

-- Every other turn is a stop, or leaves what is asked before each tile.
theorem Turn.permits (hturn : Turn nobody s s') :
    (∃ k m, s.parties[k]? = some (.working m) ∧ s' = s.stepped k m) ∨
      s.engine.motionEpoch < s'.engine.motionEpoch ∨ s.engine.Permits s'.engine := by
  cases hturn with
  | @steps k m hworking => exact .inl ⟨k, m, hworking, rfl⟩
  | joins job hadmits => exact hadmits.elim
  | @expires t _ =>
      have haside := Engine.aside_fire (s.engine.atDue t) t
      refine .inr (.inr ⟨haside.motionEpoch, haside.stepTime, fun handle hrunning => ?_,
        (World.attends_spares.fire (s.engine.atDue t) t).bounds,
        World.attends_speeds.fire (s.engine.atDue t) t⟩)
      unfold Engine.isRunning
      rw [haside.running]
      exact hrunning
  | rings action =>
      refine .inr (.inl ?_)
      cases action with
      | stop handle =>
          simp only [Engine.ring, Engine.stop, Engine.cancelAll_eq, Engine.stopMotion,
            Engine.setRunning]
          exact Nat.lt_succ_self _
      | stopMotion => exact Nat.lt_succ_self _
  | enrols =>
      refine .inr (.inr ⟨rfl, rfl, fun handle hrunning => ?_, rfl, fun _ => rfl⟩)
      unfold Engine.isRunning at hrunning ⊢
      rw [List.getD_eq_getElem?_getD] at hrunning ⊢
      by_cases hlt : handle < s.engine.running.length
      · rw [List.getElem?_append_left hlt]
        exact hrunning
      · rw [List.getElem?_eq_none (Nat.le_of_not_lt hlt)] at hrunning
        cases hrunning
  | _ => exact .inr (.inr ⟨rfl, rfl, fun _ => id, rfl, fun _ => rfl⟩)

/-- A turn in which nobody moves: either motion is stopped in it, or what is asked stays as it is.
    -/
theorem Smooth.rests (h : Smooth epoch s t) (hlive : s'.live? = s.live?)
    (hstill : s.engine.world.Still s'.engine.world)
    (hpermits : s.engine.motionEpoch < s'.engine.motionEpoch ∨ s.engine.Permits s'.engine) :
    Smooth epoch s'
      (t.after (s.engine.world.tilesBetween s'.engine.world a) s.live? s'.live?) := by
  have hlater := h.later
  rw [after_rests t hstill hlive]
  rcases hpermits with hstops | hpermits
  · exact ⟨by omega, fun hsame => by omega, fun hsame => by omega⟩
  · refine ⟨hpermits.motionEpoch.symm ▸ hlater, fun hsame => ?_, fun hsame m hm => ?_⟩
    · exact h.uncut (hpermits.motionEpoch.symm.trans hsame)
    · have hwas := h.unhindered (hpermits.motionEpoch.symm.trans hsame) m (hlive ▸ hm)
      exact hwas.permits hpermits

/-- Every turn is one of the two. -/
theorem Smooth.turn (h : Smooth epoch s t) (haccounts : Accounts a energy s t)
    (hturn : Turn nobody s s') :
    Smooth epoch s'
      (t.after (s.engine.world.tilesBetween s'.engine.world a) s.live? s'.live?) := by
  rcases hturn.permits with ⟨k, m, hworking, rfl⟩ | hpermits
  · exact h.steps haccounts hworking
  · rcases hturn.steps_or_rests with ⟨k, m, hworking, rfl⟩ | ⟨hlength, hmachines⟩
    · exact h.steps haccounts hworking
    · rcases hturn.steps_or_attends with ⟨k, m, hworking, rfl⟩ | hattends
      · exact h.steps haccounts hworking
      · exact h.rests (live?_congr hlength hmachines) (hattends World.followed_still.attends)
          hpermits

variable {x : Actor}

/-- No walk is cut short where nothing is stopped. -/
theorem Roams.uncut (h : Roams a e s t) (hkeyed : e.world.Keyed)
    (hx : e.world.actors.get? a = some x) (hinside : e.world.bounds.contains x.position = true)
    (hunstopped : s.engine.motionEpoch = e.motionEpoch) : t.cut = 0 := by
  have hsmooth : Smooth e.motionEpoch s t := by
    clear hunstopped
    induction h with
    | start =>
        refine ⟨Nat.le_refl _, fun _ => rfl, fun _ m hm => ?_⟩
        exact absurd ((machineAt?_nil e _).symm.trans hm) nofun
    | @begins s t h hover job i hactor ih =>
        refine ⟨ih.later, ih.uncut, fun _ m hm => ?_⟩
        rcases (h.accounts hkeyed hx hinside).balanced with ⟨p, n, _, _, hbalanced⟩
        have hunder : t.under = 0 := by
          refine hbalanced.rests ?_
          rw [hover]
          rfl
        rw [hunder, ← Option.some.inj ((live?_begins s job i _ _).symm.trans hm)]
        exact unhindered_aside rfl _
    | turn h hturn _ ih => exact ih.turn (h.accounts hkeyed hx hinside) hturn
  exact hsmooth.uncut hunstopped

-- Walks that are not too long cost their tiles.
theorem sum_fare {completed : List Nat}
    (h : ∀ tiles ∈ completed, stepEnergy * tiles ≤ Integer.maxAmount) :
    (completed.map fare).sum = stepEnergy * completed.sum := by
  have hfares : completed.map fare = completed.map (stepEnergy * ·) :=
    List.map_congr_left fun tiles htiles => Nat.min_eq_left (h tiles htiles)
  rw [hfares, List.sum_map_mul_left, List.map_id']

/-- Completed walks are paid, and no others. Whenever no walk was begun that is not paid for, what
    the actor has lost is the price of the walks that were completed. The tiles that it moved are
    those of these walks and of the ones that were cut short, and there are none of these if nothing
    was stopped. So as long as no walk was too long for its price to be a number of the right size,
    the actor has lost the energy of a step for each tile that it moved, but for those of the walks
    that were cut short. -/
theorem completed_walks_paid (hkeyed : e.world.Keyed) (hx : e.world.actors.get? a = some x)
    (hinside : e.world.bounds.contains x.position = true) (h : Roams a e s t)
    (hrest : ¬ s.InWalk) :
    ∃ n, s.engine.world.energy? a = some n ∧ n + (t.completed.map fare).sum = x.energy ∧
      t.moved = t.completed.sum + t.cut ∧
      (s.engine.motionEpoch = e.motionEpoch → t.cut = 0) ∧
      ((∀ tiles ∈ t.completed, stepEnergy * tiles ≤ Integer.maxAmount) →
        n + stepEnergy * t.moved = x.energy + stepEnergy * t.cut) := by
  rcases (h.accounts hkeyed hx hinside).balanced with ⟨p, n, _, henergy, hbalanced⟩
  rw [InWalk, not_or, not_not, not_not] at hrest
  have hpaid := hbalanced.paid
  have hmoved := hbalanced.moved
  rw [hrest.2, Nat.add_zero] at hpaid
  rw [hbalanced.rests hrest.1, Nat.add_zero] at hmoved
  refine ⟨n, henergy, hpaid, hmoved, h.uncut hkeyed hx hinside, fun hfits => ?_⟩
  rw [sum_fare hfits] at hpaid
  rw [hmoved, Nat.mul_add, ← hpaid, Nat.add_assoc]

/-! ### Walks on a lane -/

/-- A turn to another scene, with what walks come to in it. -/
def counted (a : String) (s' : Scene) (c : Scene × Tally) : Scene × Tally :=
  (s', c.2.after (c.1.engine.world.tilesBetween s'.engine.world a) c.1.live? s'.live?)

/-- Some turns of one party. -/
def toured (a : String) (k : Nat) : Nat → Scene × Tally → Scene × Tally
  | 0, c => c
  | count + 1, c => toured a k count (counted a (c.1.played k 1) c)

/-- The runs of scripts that name no function of a tile. -/
structure Strolls (a : String) (e : Engine) (c : Scene × Tally) : Prop where
  roams : Roams a e c.1 c.2
  names : c.1.NamesNoTileFunction

variable {c : Scene × Tally}

-- A turn of the scene is one of the tour, with what walks come to in it.
theorem Strolls.turn (h : Strolls a e c) (hturn : Turn nobody c.1 s') :
    Strolls a e (counted a s' c) :=
  ⟨h.roams.turn hturn (h.names.turn hturn).1, (h.names.turn hturn).2⟩

-- A turn in which nobody moves and no machine goes on.
theorem Strolls.rests (h : Strolls a e c) (hturn : Turn nobody c.1 s')
    (hstill : c.1.engine.world.Still s'.engine.world) (hlive : s'.live? = c.1.live?) :
    Strolls a e (s', c.2) := by
  have hafter := h.turn hturn
  rwa [counted, after_rests c.2 hstill hlive] at hafter

theorem Strolls.played (h : Strolls a e c) (k : Nat) :
    Strolls a e (counted a (c.1.played k 1) c) := by
  unfold Scene.played
  split
  · next m hworking => exact h.turn (.steps hworking)
  · next wake m hasleep =>
    -- Time passes, and then it wakes; nothing of a walk happens in either.
    have hpassed := h.rests (.passes wake) (fun _ => rfl) rfl
    have hwoken := hpassed.turn (.wakes hasleep (Nat.le_max_right _ _))
    exact hwoken
  · have hrests : (counted a c.1 c).2 = c.2 := after_rests c.2 (fun _ => rfl) rfl
    exact ⟨hrests.symm ▸ h.roams, h.names⟩

-- The turns of one party, as many as it takes, are part of the tour.
theorem Strolls.toured (h : Strolls a e c) (k count : Nat) :
    Strolls a e (toured a k count c) := by
  induction count generalizing c with
  | zero => exact h
  | succ count ih => exact ih (h.played k)

/-- A stop. -/
def halted (a : String) (handle : Nat) (c : Scene × Tally) : Scene × Tally :=
  counted a { c.1 with engine := c.1.engine.ring (.stop handle) } c

-- A stop is one more turn.
theorem Strolls.halted (h : Strolls a e c) (handle : Nat) : Strolls a e (halted a handle c) :=
  h.turn (.rings (.stop handle))

/-- Someone at the beginning of a lane. -/
def lane : Engine :=
  { Engine.new ((World.empty ⟨5, 1⟩).insertActor (Actor.new "bot" ⟨0, 0⟩)) 300 with
    running := [false] }

/-- The interpreter of someone who is about to go two tiles along the lane. -/
def setOut (s : Scene) : Scene :=
  ⟨s.parties ++ [.asleep s.engine.now (Machine.start (.call "bot" "move" [.str "right", .int 2])
    (Interpreter.new 0 ⟨1000, 1000, 10⟩ (Actor.new "bot" ⟨0, 0⟩)))], s.engine⟩

-- The interpreter that sets out joins, since nobody is at work.
theorem Strolls.setOut (h : Strolls "bot" e (s, t)) (hover : s.live? = none) :
    Strolls "bot" e (s.setOut, t) := by
  have hjob : (Job.call "bot" "move" [.str "right", .int 2]).NamesNoTileFunction := by
    unfold Job.NamesNoTileFunction NoTileFunction
    decide
  have hscript : Interpreter.NamesNoTileFunction
      (Interpreter.new 0 ⟨1000, 1000, 10⟩ (Actor.new "bot" ⟨0, 0⟩)) := nofun
  exact ⟨h.roams.begins hover _ rfl, h.names.begins hjob hscript s.engine.now⟩

/-- Someone goes two tiles. -/
@[irreducible]
def walked : Scene × Tally :=
  toured "bot" 0 20 (setOut ⟨[], lane⟩, .zero)

/-- They set out again, and are on their way to the second tile. -/
@[irreducible]
def halfway : Scene × Tally :=
  toured "bot" 1 8 (walked.1.setOut, walked.2)

/-- There they are stopped. -/
@[irreducible]
def stroll : Scene × Tally :=
  toured "bot" 1 20 (halted "bot" 0 halfway)

-- The tour of this example, turn by turn.
theorem roams_stroll : Roams "bot" lane stroll.1 stroll.2 := by
  have hnobody : NamesNoTileFunction ⟨[], lane⟩ := fun k m hm =>
    absurd (hm.symm.trans (machineAt?_nil lane k)) (Option.some_ne_none m)
  have hstart : Strolls "bot" lane (⟨[], lane⟩, .zero) := ⟨.start, hnobody⟩
  have hwalked : Strolls "bot" lane walked := by
    unfold walked
    exact (hstart.setOut (machineAt?_nil lane _)).toured 0 20
  have hover : walked.1.live? = none := Option.isNone_iff_eq_none.mp (by decide +kernel)
  have hhalfway : Strolls "bot" lane halfway := by
    unfold halfway
    exact (hwalked.setOut hover).toured 1 8
  unfold stroll
  exact ((hhalfway.halted 0).toured 1 20).roams

theorem keyed_lane : lane.world.Keyed :=
  (World.keyed_empty _).insertActor _

/-- Of a walk of two tiles and another that was stopped after one, the first is paid. -/
theorem completed_walks_paid_stroll :
    Roams "bot" lane stroll.1 stroll.2 ∧ stroll.2 = ⟨3, [2], 0, 1⟩ ∧ ¬ stroll.1.InWalk ∧
      ∃ n, stroll.1.engine.world.energy? "bot" = some n ∧
        n + (stroll.2.completed.map fare).sum = 100 ∧
        stroll.2.moved = stroll.2.completed.sum + stroll.2.cut ∧
        (stroll.1.engine.motionEpoch = lane.motionEpoch → stroll.2.cut = 0) ∧
        ((∀ tiles ∈ stroll.2.completed, stepEnergy * tiles ≤ Integer.maxAmount) →
          n + stepEnergy * stroll.2.moved = 100 + stepEnergy * stroll.2.cut) := by
  have hrest : ¬ stroll.1.InWalk := by decide +kernel
  exact ⟨roams_stroll, by decide +kernel, hrest,
    completed_walks_paid (x := Actor.new "bot" ⟨0, 0⟩) keyed_lane rfl (by decide) roams_stroll
      hrest⟩

/-- It is not so that each tile that was moved is paid: one of a walk that was stopped is not. -/
theorem not_moved_tiles_paid :
    ¬ ∀ (e : Engine) (a : String) (x : Actor) (s : Scene) (t : Tally), e.world.Keyed →
      e.world.actors.get? a = some x → e.world.bounds.contains x.position = true →
      Roams a e s t → ¬ s.InWalk →
        ∃ n, s.engine.world.energy? a = some n ∧ n + stepEnergy * t.moved = x.energy := by
  intro h
  rcases h lane "bot" _ stroll.1 stroll.2 keyed_lane rfl (by decide) roams_stroll
    (by decide +kernel) with ⟨n, henergy, hpaid⟩
  have hleft : stroll.1.engine.world.energy? "bot" = some 90 := by decide +kernel
  have hmoved : stroll.2.moved = 3 := by decide +kernel
  rw [← Option.some.inj (hleft.symm.trans henergy), hmoved] at hpaid
  exact absurd hpaid (by decide)

end Scene

end Farmhand
