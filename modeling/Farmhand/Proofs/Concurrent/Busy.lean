import Farmhand.Proofs.Concurrent.Isolation
import Farmhand.Proofs.Concurrent.Scene
import Farmhand.Proofs.Engine.Sight

/-!
# Busy Actors

An actor that has a task stays where it is, and nothing that it could do begins. The look at its
tasks comes once, when a call begins, and a walk goes on for long after it, while other actors act,
timers run out and runs are stopped. What makes the one look enough is that nobody else can give the
actor a task: tile functions give tasks to the actor that calls them only, what happens at the end
of a task gives tasks to tiles only, and the actor itself is in its walk.

So this is a matter of interpreters that drive different actors. It is kept by every turn of a scene
in which an interpreter begins a job only when no other at work drives its actor.

## Main definitions

* `World.Still`: Everyone is where they were.
* `Engine.Tame`: Tasks end in tasks of tiles only.
* `Scene.vacant`: The condition that no two interpreters at work drive one actor.
* `Scene.Peaceful`: What keeps busy actors where they are.

## Theorems

* `World.followed_still`: Tile functions and tasks move nobody.
* `Machine.Effect.idle`: A step leaves other actors without a task if they have none.
* `Scene.Peaceful.turn`, `Scene.peaceful_run`: Scenes are peaceful from the start.
* `Scene.busy_rests`: No busy actor moves, and nothing of it begins.
-/

namespace Farmhand

/-! ## Places -/

namespace World

variable {w w' w'' : World}

/-- The place of an actor. -/
def place? (w : World) (a : String) : Option Position :=
  (w.actors.get? a).map Actor.position

/-- Everyone is where they were. -/
def Still (w w' : World) : Prop :=
  ∀ a, w'.place? a = w.place? a

-- A change of one actor is none of the place of another.
theorem place?_updateActor_of_ne {id a : String} {patch : ActorPatch} (hne : a ≠ id)
    (h : w.updateActor id patch = .ok w') : w'.place? a = w.place? a := by
  rcases (updateActor_eq_ok_iff w w' id patch).mp h with ⟨x, y, _, _, rfl⟩
  exact congrArg (Option.map _) (Table.get?_insert_of_ne _ _ _ _ hne)

-- A patch without a position moves nobody.
theorem still_updateActor {id : String} {patch : ActorPatch} (hpatch : patch.position = none)
    (h : w.updateActor id patch = .ok w') : w.Still w' := by
  intro a
  by_cases ha : a = id
  · rcases (updateActor_eq_ok_iff w w' id patch).mp h with ⟨x, y, hx, hy, rfl⟩
    rcases patchActor_eq_ok hy with ⟨n, rfl, _⟩
    unfold place?
    rw [ha, Table.get?_insert_self, hx, hpatch]
    rfl
  · exact place?_updateActor_of_ne ha h

/-- Tile functions and tasks move nobody. -/
theorem followed_still : Followed Still where
  self _ _ := rfl
  trans h h' a := (h' a).trans (h a)
  apply := by
    intro w w' actor op hop h
    cases op with
    | actor id patch => exact still_updateActor hop.2.1 h
    | tile id patch =>
        rcases (updateTile_eq_ok_iff w w' id patch).mp h with ⟨t, _, rfl⟩
        exact fun _ => rfl
    | resources change =>
        rw [updateResources_eq h]
        exact fun _ => rfl
    | guard id key expected =>
        rw [apply_guard_eq_ok h]
        exact fun _ => rfl
  task := by
    intro w task key
    cases key with
    | actor id =>
        exact Table.map_get?_modify (f := fun x => { x with task }) (g := Actor.position)
          (fun _ => rfl) w.actors id
    | tile id => exact fun _ => rfl
  state _ _ _ _ := rfl

end World

/-! ## Tasks -/

namespace Engine

variable {e e' : Engine} {a : String}

/-- What happens at the ends of the tasks under way is about tiles only. -/
def EndsOnTiles (e : Engine) : Prop :=
  ∀ key s, (key, s) ∈ e.slots → Action.AllOnTiles s.atEnd

-- Only the slots matter.
theorem EndsOnTiles.congr (h : e.EndsOnTiles) (hslots : e'.slots = e.slots) : e'.EndsOnTiles := by
  unfold EndsOnTiles
  rw [hslots]
  exact h

-- A task that is put has to end on tiles itself.
theorem EndsOnTiles.putSlot (h : e.EndsOnTiles) (key : TaskKey) {s : Slot}
    (hatEnd : Action.AllOnTiles s.atEnd) : (e.putSlot key s).EndsOnTiles := by
  intro other s' hmem
  rw [putSlot_slots] at hmem
  rcases List.mem_cons.mp hmem with heq | hrest
  · rw [(Prod.mk.inj heq).2]
    exact hatEnd
  · exact h other s' (List.mem_filter.mp hrest).1

theorem EndsOnTiles.started (h : e.EndsOnTiles) (key : TaskKey) (task : Task)
    {atEnd : List Action} (hatEnd : Action.AllOnTiles atEnd) :
    (e.started key task atEnd).EndsOnTiles := by
  have hput : (e.putSlot key ⟨task, e.nextGeneration, false, atEnd⟩).EndsOnTiles :=
    h.putSlot key hatEnd
  exact hput.congr (started_slots e key task atEnd)

-- What a task leaves behind at its end are tasks that it had named before.
theorem EndsOnTiles.finish (h : e.EndsOnTiles) (key : TaskKey) (generation : Nat) :
    (e.finish key generation).EndsOnTiles := by
  unfold Engine.finish
  split
  · split
    · rw [showTask_eq]
      exact fun other s' hmem => h other s' (List.mem_filter.mp hmem).1
    · exact h
  · exact h

-- Tile functions start tasks of tiles, and tasks of the actor that end on tiles.
theorem EndsOnTiles.invoke (h : e.EndsOnTiles) (timed : Bool) (actor tile name : String) :
    (e.invoke timed actor tile name).2.EndsOnTiles :=
  invoke_induction h timed actor tile name (fun _ _ _ _ _ he _ _ => he)
    fun _ _ _ task _ he _ _ hatEnd => EndsOnTiles.started he _ task hatEnd

/-- A timer that runs out does what its task does at its end, and that is about tiles only. -/
theorem EndsOnTiles.fire (h : e.EndsOnTiles) (t : Timer) : (e.fire t).EndsOnTiles := by
  have htended : Tended EndsOnTiles := by
    refine ⟨fun _ _ he => he, ?_, fun _ _ task _ he hatEnd => he.started _ task hatEnd⟩
    intro e tile status quantity he
    rw [setStatus_eq]
    exact he
  rw [fire_eq]
  split
  · next s hending =>
    have hatEnd := h _ s (mem_of_slot? ((ending?_eq_some_iff e t s).mp hending).1)
    have hclosing : (e.closing t s).EndsOnTiles := h.putSlot _ trivial
    exact (htended.performAll _ hclosing s.atEnd hatEnd).finish t.key t.generation
  · exact h

-- The tasks of actors are a matter of the slots.
theorem actorTask?_congr (h : e'.slots = e.slots) (a : String) :
    e'.actorTask? a = e.actorTask? a := by
  unfold actorTask? task? slot?
  rw [h]

-- An actor without a task, where tasks end in tasks of tiles only.
theorem clear_of_idle (hkeyed : e.world.Keyed) (hends : e.EndsOnTiles)
    (hidle : e.actorTask? a = none) : e.Clear a := by
  refine ⟨hkeyed, fun key s hmem => ⟨?_, hends key s hmem⟩⟩
  rintro rfl
  have hslot : e.slot? (.actor a) = none := Option.map_eq_none_iff.mp hidle
  have hfind := List.find?_eq_none.mp (Option.map_eq_none_iff.mp hslot) _ hmem
  exact hfind (decide_eq_true rfl)

end Engine

/-! ## Steps -/

namespace Machine

variable {m : Machine} {e e' : Engine} {a : String}

-- A step of a machine starts tasks through tile functions only.
theorem Effect.endsOnTiles (h : Effect m e e') (hends : e.EndsOnTiles) : e'.EndsOnTiles := by
  rcases h.touches with ⟨_, hslots⟩ | ⟨patch, _, hslots, _⟩ | ⟨tile, name, rfl⟩
  · exact hends.congr hslots
  · exact hends.congr hslots
  · exact hends.invoke true _ tile name

theorem Effect.keyed (h : Effect m e e') (hkeyed : e.world.Keyed) : e'.world.Keyed :=
  h.follows World.followed_keyed (fun hworld => (World.updateActor_eq_ok hworld).2.2) hkeyed

/-- A step leaves the actors that it is not about without a task if they have none. -/
theorem Effect.idle (h : Effect m e e') (hkeyed : e.world.Keyed) (hends : e.EndsOnTiles)
    (hne : m.interpreter.actor.id ≠ a) (hidle : e.actorTask? a = none) :
    e'.actorTask? a = none := by
  rcases h.touches with ⟨_, hslots⟩ | ⟨patch, _, hslots, _⟩ | ⟨tile, name, rfl⟩
  · exact (Engine.actorTask?_congr hslots a).trans hidle
  · exact (Engine.actorTask?_congr hslots a).trans hidle
  · have hclear := Engine.clear_of_idle hkeyed hends hidle
    exact (Engine.sameFor_invoke (h := 0) hclear hne true tile name).2.idle

/-- A step in which someone moves is one of a call that acts, and it is the actor that moves. -/
theorem Effect.moves (h : Effect m e e') (hmoved : e'.world.place? a ≠ e.world.place? a) :
    m.control.Acts ∧ a = m.interpreter.actor.id ∧ e'.slots = e.slots := by
  rcases h.touches with ⟨hworld, _⟩ | ⟨patch, hworld, hslots, hplace⟩ | ⟨tile, name, rfl⟩
  · exact absurd (congrArg (World.place? · a) hworld) hmoved
  · have hmover : a = m.interpreter.actor.id := Decidable.byContradiction fun hne =>
      hmoved (World.place?_updateActor_of_ne hne hworld)
    rcases hplace with hstays | hacts
    · exact absurd (World.still_updateActor hstays hworld a) hmoved
    · exact ⟨hacts, hmover, hslots⟩
  · exact absurd (World.followed_still.invoke e true _ tile name a) hmoved

/-- A step that begins a call tells just that, of an actor that has no task. -/
theorem Effect.tells (h : Effect m e e') : ∃ told, e'.log = told ++ e.log ∧
    ∀ event ∈ told, event.IsCall → e'.slots = e.slots ∧ e.actorTask? event.actor = none := by
  cases h with
  | told events hcalls =>
      refine ⟨events.reverse, by rw [Engine.emitAll_eq], fun event hevent hcall => ?_⟩
      exact absurd hcall (hcalls event (List.mem_reverse.mp hevent))
  | flagged value events hcalls =>
      refine ⟨events.reverse, by rw [Engine.emitAll_eq]; rfl, fun event hevent hcall => ?_⟩
      exact absurd hcall (hcalls event (List.mem_reverse.mp hevent))
  | @called x _ hidle depth name args _ callee _ =>
      refine ⟨[.call x.id depth name args callee.source], rfl, fun event hevent _ => ⟨rfl, ?_⟩⟩
      rw [List.mem_singleton.mp hevent]
      exact hidle
  | used _ tile name =>
      exact ⟨[], (Engine.aside_invoke e true _ tile name).log, fun _ h => absurd h List.not_mem_nil⟩
  | _ => exact ⟨[], rfl, fun _ h => absurd h List.not_mem_nil⟩

end Machine

/-! ## Scenes -/

namespace Scene

variable {s s' : Scene}

/-- The machine of a party that has not finished. -/
def machineAt? (s : Scene) (k : Nat) : Option Machine :=
  s.parties[k]?.bind Party.machine?

/-- An interpreter may begin a job as long as no other that has not finished drives its actor. -/
def vacant (s : Scene) (i : Interpreter) : Prop :=
  ∀ k m, s.machineAt? k = some m → m.interpreter.actor.id ≠ i.actor.id

/-- What keeps busy actors where they are: tasks end in tasks of tiles only, no two interpreters
    drive one actor, and an actor with a call that acts has no task. -/
structure Peaceful (s : Scene) : Prop where
  keyed : s.engine.world.Keyed
  ends : s.engine.EndsOnTiles
  apart : ∀ j k m m', s.machineAt? j = some m → s.machineAt? k = some m' →
    m.interpreter.actor.id = m'.interpreter.actor.id → j = k
  idle : ∀ k m, s.machineAt? k = some m → m.control.Acts →
    s.engine.actorTask? m.interpreter.actor.id = none

/-! ### What happens to parties -/

-- A turn changes one party.
theorem machineAt?_set_self {k : Nat} (hlt : k < s.parties.length) (p : Party) (e : Engine) :
    machineAt? ⟨s.parties.set k p, e⟩ k = p.machine? := by
  unfold machineAt?
  rw [List.getElem?_set_self hlt, Option.bind_some]

-- The machines of the others stay.
theorem machineAt?_set_ne {j k : Nat} (hne : k ≠ j) (p : Party) (e : Engine) :
    machineAt? ⟨s.parties.set k p, e⟩ j = s.machineAt? j := by
  unfold machineAt?
  rw [List.getElem?_set_ne hne]

theorem machineAt?_of_working {k : Nat} {m : Machine} (h : s.parties[k]? = some (.working m)) :
    s.machineAt? k = some m := by
  unfold machineAt?
  rw [h]
  rfl

-- A party that wakes up has the machine that it fell asleep with.
theorem machineAt?_wakes {k wake : Nat} {m : Machine}
    (hasleep : s.parties[k]? = some (.asleep wake m)) (e : Engine) (j : Nat) :
    machineAt? ⟨s.parties.set k (.working m), e⟩ j = s.machineAt? j := by
  by_cases hj : k = j
  · subst hj
    rw [machineAt?_set_self (List.getElem?_eq_some_iff.mp hasleep).1]
    unfold machineAt?
    rw [hasleep]
    rfl
  · exact machineAt?_set_ne hj _ e

-- The machine of a party, where another has just joined.
theorem machineAt?_append {k : Nat} {p : Party} {e : Engine} {m : Machine}
    (h : machineAt? ⟨s.parties ++ [p], e⟩ k = some m) :
    s.machineAt? k = some m ∨ k = s.parties.length ∧ p.machine? = some m := by
  unfold machineAt? at h ⊢
  by_cases hlt : k < s.parties.length
  · rw [List.getElem?_append_left hlt] at h
    exact .inl h
  · rw [List.getElem?_append_right (Nat.le_of_not_lt hlt)] at h
    cases hk : k - s.parties.length with
    | zero =>
        rw [hk] at h
        exact .inr ⟨by omega, h⟩
    | succ n =>
        rw [hk] at h
        simp only [List.getElem?_cons_succ, List.getElem?_nil, Option.bind_none, reduceCtorEq] at h

-- A party that joins has a machine at its first step.
theorem machineAt?_joins {k : Nat} {job : Job} {i : Interpreter} {m : Machine}
    (h : machineAt? ⟨s.parties ++ [.working (Machine.start job i)], s.engine⟩ k = some m) :
    s.machineAt? k = some m ∨ k = s.parties.length ∧ m = Machine.start job i :=
  (machineAt?_append h).imp_right fun ⟨hk, hm⟩ => ⟨hk, (Option.some.inj hm).symm⟩

/-! ### Turns -/

-- A change that is no step of a machine.
theorem Peaceful.elsewhere (h : s.Peaceful) (hparties : ∀ k, s'.machineAt? k = s.machineAt? k)
    (hkeyed : s'.engine.world.Keyed) (hends : s'.engine.EndsOnTiles)
    (hidle : ∀ a, s.engine.actorTask? a = none → s'.engine.actorTask? a = none) :
    s'.Peaceful := by
  refine ⟨hkeyed, hends, fun j k m m' hm hm' => ?_, fun k m hm hacts => ?_⟩
  · rw [hparties] at hm hm'
    exact h.apart j k m m' hm hm'
  · rw [hparties] at hm
    exact hidle _ (h.idle k m hm hacts)

theorem Peaceful.steps (h : s.Peaceful) {k : Nat} {m : Machine}
    (hworking : s.parties[k]? = some (.working m)) : (s.stepped k m).Peaceful := by
  have hpassage := Machine.passage_next m s.engine
  have hlt : k < s.parties.length := (List.getElem?_eq_some_iff.mp hworking).1
  have hm := machineAt?_of_working hworking
  have hself : (s.stepped k m).machineAt? k = (m.next s.engine).machine? := by
    rw [stepped, machineAt?_set_self hlt, Party.machine?_ofProgress]
  have hothers : ∀ j, k ≠ j → (s.stepped k m).machineAt? j = s.machineAt? j :=
    fun j hne => machineAt?_set_ne hne _ _
  -- The machine that took the step goes on driving the same actor.
  have hbefore : ∀ j m', (s.stepped k m).machineAt? j = some m' →
      ∃ m'', s.machineAt? j = some m'' ∧ m''.interpreter.actor.id = m'.interpreter.actor.id := by
    intro j m' hm'
    by_cases hj : k = j
    · subst hj
      exact ⟨m, hm, (hpassage.actor h.keyed m' (hself ▸ hm')).symm⟩
    · exact ⟨m', hothers j hj ▸ hm', rfl⟩
  refine ⟨hpassage.effect.keyed h.keyed, hpassage.effect.endsOnTiles h.ends, ?_, ?_⟩
  · intro j l m₁ m₂ hm₁ hm₂ heq
    rcases hbefore j m₁ hm₁ with ⟨m₁', hm₁', heq₁⟩
    rcases hbefore l m₂ hm₂ with ⟨m₂', hm₂', heq₂⟩
    exact h.apart j l m₁' m₂' hm₁' hm₂' (heq₁.trans (heq.trans heq₂.symm))
  · intro j m' hm' hacts
    by_cases hj : k = j
    · subst hj
      have hacted := hpassage.acts m' (hself ▸ hm') hacts
      rw [stepped, Engine.actorTask?_congr hacted.1]
      rcases hacted.2 with hacts | hidle
      · rw [hpassage.actor h.keyed m' (hself ▸ hm')]
        exact h.idle k m hm hacts
      · exact hidle
    · -- The actor of another party is another actor.
      have hm'' : s.machineAt? j = some m' := hothers j hj ▸ hm'
      have hne : m.interpreter.actor.id ≠ m'.interpreter.actor.id :=
        fun heq => hj (h.apart k j m m' hm hm'' heq)
      exact hpassage.effect.idle h.keyed h.ends hne (h.idle j m' hm'' hacts)

/-- The actor of an interpreter that joins is vacant, so no two at work drive one. -/
theorem Peaceful.joins (h : s.Peaceful) {job : Job} {i : Interpreter} (hvacant : vacant s i) :
    Peaceful ⟨s.parties ++ [.working (Machine.start job i)], s.engine⟩ := by
  refine ⟨h.keyed, h.ends, fun j k m m' hm hm' heq => ?_, fun k m hm hacts => ?_⟩
  · rcases machineAt?_joins hm with hm | ⟨hj, rfl⟩
    · rcases machineAt?_joins hm' with hm' | ⟨hk, rfl⟩
      · exact h.apart j k m m' hm hm' heq
      · exact absurd heq (hvacant j m hm)
    · rcases machineAt?_joins hm' with hm' | ⟨hk, rfl⟩
      · exact absurd heq.symm (hvacant k m' hm')
      · exact hj.trans hk.symm
  · rcases machineAt?_joins hm with hm | ⟨_, rfl⟩
    · exact h.idle k m hm hacts
    · exact absurd hacts id

-- Every turn keeps things filed under their own names.
theorem Turn.keyed {admits : Scene → Interpreter → Prop} (hturn : Turn admits s s')
    (hkeyed : s.engine.world.Keyed) : s'.engine.world.Keyed :=
  hturn.follows World.followed_keyed (fun hworld => (World.updateActor_eq_ok hworld).2.2) hkeyed

/-- Peace is kept by every turn. -/
theorem Peaceful.turn (h : s.Peaceful) (hturn : Turn vacant s s') : s'.Peaceful := by
  have hkeyed := hturn.keyed h.keyed
  cases hturn with
  | steps hworking => exact h.steps hworking
  | wakes hasleep _ =>
      exact h.elsewhere (machineAt?_wakes hasleep s.engine) hkeyed h.ends fun _ hidle => hidle
  | @expires t _ =>
      have hends : (s.engine.atDue t).EndsOnTiles := h.ends
      refine h.elsewhere (fun _ => rfl) hkeyed (hends.fire t) fun a hidle => ?_
      have hclear : (s.engine.atDue t).Clear a := Engine.clear_of_idle h.keyed h.ends hidle
      exact (Engine.sameFor_fire (h := 0) hclear t).2.idle
  | rings action =>
      cases action with
      | stop handle =>
          have hslots : (s.engine.ring (.stop handle)).slots = [] := by
            simp only [Engine.ring, Engine.stop, Engine.cancelAll_eq, Engine.stopMotion]
          refine h.elsewhere (fun _ => rfl) hkeyed ?_ fun a _ => ?_
          · intro key s hmem
            exact absurd (hslots ▸ hmem) List.not_mem_nil
          · simp only [Engine.actorTask?, Engine.task?, Engine.slot?, hslots]
            rfl
      | stopMotion => exact h.elsewhere (fun _ => rfl) hkeyed h.ends fun _ hidle => hidle
  | passes time => exact h.elsewhere (fun _ => rfl) hkeyed h.ends fun _ hidle => hidle
  | enrols => exact h.elsewhere (fun _ => rfl) hkeyed h.ends fun _ hidle => hidle
  | joins job hvacant => exact h.joins hvacant

/-! ### What a turn may do -/

-- Stops tell nothing.
theorem log_ring (e : Engine) (action : AlarmAction) : (e.ring action).log = e.log := by
  cases action with
  | stop handle =>
      simp only [Engine.ring, Engine.stop, Engine.cancelAll_eq, Engine.stopMotion,
        Engine.setRunning]
  | stopMotion => rfl

-- A turn that is no step moves nobody and tells nothing.
theorem Turn.still_or_steps {admits : Scene → Interpreter → Prop} (hturn : Turn admits s s') :
    (∃ k m, s.parties[k]? = some (.working m) ∧ s' = s.stepped k m) ∨
      s.engine.world.Still s'.engine.world ∧ s'.engine.log = s.engine.log := by
  rcases hturn.steps_or_attends with hsteps | hattends
  · exact .inl hsteps
  · cases hturn with
    | @steps k m hworking => exact .inl ⟨k, m, hworking, rfl⟩
    | @expires t _ =>
        exact .inr ⟨hattends World.followed_still.attends, (Engine.aside_fire _ t).log⟩
    | rings action =>
        exact .inr ⟨hattends World.followed_still.attends, log_ring s.engine action⟩
    | _ => exact .inr ⟨fun _ => rfl, rfl⟩

/-- In a peaceful scene only an actor without a task moves. -/
theorem Peaceful.moves (h : s.Peaceful) (hturn : Turn vacant s s') {a : String}
    (hmoved : s'.engine.world.place? a ≠ s.engine.world.place? a) :
    s.engine.actorTask? a = none ∧ s'.engine.actorTask? a = none := by
  rcases hturn.still_or_steps with ⟨k, m, hworking, rfl⟩ | ⟨hstill, _⟩
  · rcases (Machine.passage_next m s.engine).effect.moves hmoved with ⟨hacts, rfl, hslots⟩
    have hidle := h.idle k m (machineAt?_of_working hworking) hacts
    exact ⟨hidle, (Engine.actorTask?_congr hslots _).trans hidle⟩
  · exact absurd (hstill a) hmoved

/-- Only of an actor without a task something begins. -/
theorem Turn.tells {admits : Scene → Interpreter → Prop} (hturn : Turn admits s s') :
    ∃ told, s'.engine.log = told ++ s.engine.log ∧ ∀ event ∈ told, event.IsCall →
      s.engine.actorTask? event.actor = none ∧ s'.engine.actorTask? event.actor = none := by
  rcases hturn.still_or_steps with ⟨k, m, _, rfl⟩ | ⟨_, hlog⟩
  · rcases (Machine.passage_next m s.engine).effect.tells with ⟨told, hlog, hcalls⟩
    refine ⟨told, hlog, fun event hevent hcall => ?_⟩
    have hcalled := hcalls event hevent hcall
    exact ⟨hcalled.2, (Engine.actorTask?_congr hcalled.1 _).trans hcalled.2⟩
  · exact ⟨[], hlog, fun _ hevent => absurd hevent List.not_mem_nil⟩

/-! ### Runs -/

variable {e : Engine} {parties : List (Job × Interpreter)}

-- Before the first turn nothing has begun.
theorem machineAt?_ofParties {k : Nat} {m : Machine}
    (h : (ofParties e parties).machineAt? k = some m) :
    ∃ job i, parties[k]? = some (job, i) ∧ m = Machine.start job i := by
  simp only [machineAt?, ofParties, List.getElem?_map, Option.bind_map,
    Option.bind_eq_some_iff] at h
  rcases h with ⟨⟨job, i⟩, hparty, heq⟩
  exact ⟨job, i, hparty, (Option.some.inj heq).symm⟩

/-- At the start nobody has a task, and the actors are all different. -/
theorem peaceful_ofParties (hkeyed : e.world.Keyed) (hslots : e.slots = [])
    (hactors : (parties.map fun party => party.2.actor.id).Nodup) :
    (ofParties e parties).Peaceful := by
  refine ⟨hkeyed, fun key s hmem => ?_, fun j k m m' hm hm' heq => ?_, fun k m hm hacts => ?_⟩
  · exact absurd (hslots ▸ hmem) List.not_mem_nil
  · rcases machineAt?_ofParties hm with ⟨job, i, hj, rfl⟩
    rcases machineAt?_ofParties hm' with ⟨job', i', hk, rfl⟩
    exact Decidable.byContradiction fun hne => Joint.ne_of_nodup hactors hj hk hne heq
  · rcases machineAt?_ofParties hm with ⟨job, i, _, rfl⟩
    exact absurd hacts id

/-- Scenes that begin in peace stay in peace. -/
theorem peaceful_run (hkeyed : e.world.Keyed) (hslots : e.slots = [])
    (hactors : (parties.map fun party => party.2.actor.id).Nodup)
    (hrun : Run vacant (ofParties e parties) s) : s.Peaceful := by
  induction hrun with
  | rest => exact peaceful_ofParties hkeyed hslots hactors
  | turn _ hturn ih => exact ih.turn hturn

/-- Busy actors rest. However the steps of interpreters that drive different actors alternate with
    each other, with timers and with stops: whenever an actor moves it has no task, whenever a call
    is told its actor has no task, and as long as a call that was told may still move its actor or
    call a function of a tile, that actor has no task. -/
theorem busy_rests (hkeyed : e.world.Keyed) (hslots : e.slots = [])
    (hactors : (parties.map fun party => party.2.actor.id).Nodup)
    (hrun : Run vacant (ofParties e parties) s) (hturn : Turn vacant s s') :
    (∀ a, s'.engine.world.place? a ≠ s.engine.world.place? a →
      s.engine.actorTask? a = none ∧ s'.engine.actorTask? a = none) ∧
    (∃ told, s'.engine.log = told ++ s.engine.log ∧ ∀ event ∈ told, event.IsCall →
      s.engine.actorTask? event.actor = none ∧ s'.engine.actorTask? event.actor = none) ∧
    ∀ k m, s.machineAt? k = some m → m.control.Acts →
      s.engine.actorTask? m.interpreter.actor.id = none := by
  have hpeace := peaceful_run hkeyed hslots hactors hrun
  exact ⟨fun _ => hpeace.moves hturn, hturn.tells, hpeace.idle⟩

/-- One actor is at its meal, and another about to arrive at the end of its step. -/
def mealtime : Scene :=
  ((ofParties yard household).played 0 10).played 1 12

/-- While one actor eats, another walks away. -/
theorem busy_rests_mealtime :
    Run vacant (ofParties yard household) mealtime ∧ Turn vacant mealtime (mealtime.played 1 1) ∧
      (mealtime.engine.actorTask? "cook").isSome = true ∧
      (mealtime.played 1 1).engine.world.place? "walker" ≠
        mealtime.engine.world.place? "walker" ∧
      mealtime.engine.actorTask? "walker" = none ∧
      (mealtime.played 1 1).engine.actorTask? "walker" = none := by
  have hkeyed : yard.world.Keyed :=
    (((World.keyed_empty _).insertTile _).insertActor _).insertActor _
  have hrun : Run vacant (ofParties yard household) mealtime :=
    (run_played 0 10 _).trans (run_played 1 12 _)
  have hturn : Turn vacant mealtime (mealtime.played 1 1) :=
    turn_played (by decide +kernel)
  have hmoved : (mealtime.played 1 1).engine.world.place? "walker" ≠
      mealtime.engine.world.place? "walker" := by
    decide +kernel
  have hidle := (busy_rests hkeyed rfl (by decide) hrun hturn).1 "walker" hmoved
  exact ⟨hrun, hturn, by decide +kernel, hmoved, hidle⟩

end Scene

end Farmhand
