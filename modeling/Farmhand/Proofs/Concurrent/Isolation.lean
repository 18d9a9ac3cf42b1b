import Mathlib
import Farmhand.Proofs.Concurrent.Scheduling
import Farmhand.Proofs.Interpreter.Solitude

/-!
# Runs That Others Do Not Touch

Parties side by side, each with an actor of its own, and one among them that calls no function of a
tile. Whatever the others do and in whatever order the turns come, as long as nothing is stopped,
its run is the run that it has alone. The turns of the party, taken out of the run of all, are a
run of the party alone: at the same times it goes on, with the same left to do, and in the end it
has the same result and the same variables. Its actor is in the same state, and it has told the
same.

## Main definitions

* `Moment.alone?`: The turns of one party as turns of its run alone.
* `Joint.Solitary`: The run of a party alone calls no function of a tile.
* `Joint.Mirrors`: A run of all and a run of one party alone that have come equally far.

## Theorems

* `Step.hosts_sameFor`: Runs of other actors leave the engine the same for an actor.
* `Joint.Mirrors.turn`: One turn of all is one turn, or none, of the party alone.
* `runs_as_alone`: The run of such a party is the run that it has alone.
* `Engine.run_as_alone`: The scheduler comes to the result that the party comes to alone.
* `Joint.solitary_of_names`: A party that names no function of a tile is such a party.
-/

namespace Farmhand

/-- A turn of one party as a turn of its run alone. -/
def Moment.alone? (k : Nat) : Moment → Option Moment
  | woke party time => if party = k then some (woke 0 time) else none
  | _ => none

namespace Joint

/-- A party that runs alone, without a stop, calls no function of a tile: what it calls are its own
    subroutines, and capabilities of movement, of time and of computing. -/
def Solitary (e : Engine) (job : Job) (i : Interpreter) : Prop :=
  ∀ moments s, Run (ofParties e [(job, i)]) moments s → Unstopped moments →
    ∀ events, s.engine.log = events ++ e.log →
      ∀ event ∈ events, event.actor = i.actor.id → event.IsSolitary

end Joint

/-! ## Others -/

/-- An interpreter is none of an actor's. -/
structure Interpreter.Apart (a : String) (h : Nat) (i : Interpreter) : Prop where
  actor : i.actor.id ≠ a
  handle : i.handle ≠ h

namespace Engine

variable {a : String} {h : Nat} {e : Engine}

theorem sameFor_emit {event : Event} (hne : event.actor ≠ a) : e.SameFor a h (e.emit event) := by
  refine ⟨World.sameFor_self a _, rfl, rfl, rfl, ?_⟩
  unfold toldBy Engine.emit
  rw [List.filter_cons_of_neg (by simpa using hne)]

theorem sameFor_setRunning {k : Nat} (hne : k ≠ h) (value : Bool) :
    e.SameFor a h (e.setRunning k value) :=
  ⟨World.sameFor_self a _, rfl, rfl, List.getElem?_set_ne hne, rfl⟩

theorem Clear.frame {e' : Engine} (hclear : e.Clear a) (hworld : e'.world = e.world)
    (hslots : e'.slots = e.slots) : e'.Clear a :=
  ⟨hworld ▸ hclear.keyed, hslots ▸ hclear.slots⟩

end Engine

/-- Runs of other actors leave the engine the same for an actor that has no task. -/
theorem Step.hosts_sameFor (a : String) (h : Nat) :
    Step.Hosts (Engine.Clear a) (Engine.SameFor a h) (Interpreter.Apart a h) where
  refl e := e.sameFor_self a h
  trans _ _ _ h₁ h₂ := h₁.trans h₂
  kin hi hkin := ⟨hkin.actor ▸ hi.actor, hkin.handle ▸ hi.handle⟩
  sees {i} e x hclear hi hx := by
    have hid : x.id = i.actor.id :=
      hclear.keyed.actors _ x ((World.actor_eq_ok_iff e.world _ x).mp hx)
    exact ⟨hid ▸ hi.actor, hi.handle⟩
  tells hclear hi hactor _ _ :=
    ⟨hclear.frame rfl rfl, Engine.sameFor_emit (hactor ▸ hi.actor)⟩
  calls _ _ _ _ hclear hi := ⟨hclear.frame rfl rfl, Engine.sameFor_emit hi.actor⟩
  requests _ hclear := ⟨hclear.frame rfl rfl, ⟨World.sameFor_self a _, rfl, rfl, rfl, rfl⟩⟩
  writes hclear hi hw :=
    ⟨⟨(World.updateActor_eq_ok hw).2.2 hclear.keyed, hclear.slots⟩,
      World.sameFor_updateActor hi.actor hw, rfl, rfl, rfl, rfl⟩
  invokes tile name hclear hi :=
    have hinvoked := Engine.sameFor_invoke hclear hi.actor true tile name
    ⟨hinvoked.2, hinvoked.1⟩
  rests hclear hi := ⟨hclear.frame rfl rfl, Engine.sameFor_setRunning hi.handle false⟩
  starts hclear hi := ⟨hclear.frame rfl rfl, Engine.sameFor_setRunning hi.handle true⟩

/-! ## One party -/

/-- What is left of a process does the same from paired engines. -/
def Thread.Alike {α : Type} (W : Engine → Engine → Prop) (B : Engine → Prop) : Thread α → Prop
  | asleep _ resume => ∀ e e', W e e' →
    (resume e).Alike W B (fun _ => True) (resume e')
  | finished _ => True

namespace Joint

open Engine

variable {a : String} {h : Nat} {before : List Event}

-- Processes that are alike are the same thread after their first stretch, or the second strays.
theorem alike_ofProcess {p q : Process (Outcome × Interpreter)}
    (hpq : p.Alike (Paired a h before) (Strayed a before) (fun _ => True) q) :
    (Thread.ofProcess q).2.Strayed a before ∨
      (Paired a h before (Thread.ofProcess p).2 (Thread.ofProcess q).2 ∧
        (Thread.ofProcess p).1 = (Thread.ofProcess q).1 ∧
        (Thread.ofProcess p).1.Alike (Paired a h before) (Strayed a before)) := by
  cases hpq with
  | done hpaired _ => exact .inr ⟨hpaired, rfl, trivial⟩
  | @wait time e e' resume hpaired hnext =>
      refine .inr ⟨hpaired, ?_, hnext⟩
      simp only [Thread.ofProcess, hpaired.now]
  | strayed hstrayed =>
      cases q with
      | done result e => exact .inl hstrayed
      | wait time e resume => exact .inl hstrayed

/-- A run of all parties and a run of one of them alone that have come equally far. -/
structure Mirrors (a : String) (h : Nat) (before : List Event) (k : Nat)
    (c s : Joint (Outcome × Interpreter)) : Prop where
  engines : Matched a h before c.engine s.engine
  thread : ∃ t, c.threads[k]? = some t ∧ s.threads = [t] ∧
    t.Alike (Paired a h before) (Strayed a before)
  others : ∀ party t, party ≠ k → c.threads[party]? = some t →
    t.Keeps (Engine.Clear a) (Engine.SameFor a h)

variable {k : Nat} {c c' s : Joint (Outcome × Interpreter)} {m : Moment}

-- The engines still match when time has passed.
theorem matched_clockAt {e e' : Engine} (hm : Matched a h before e e') (time time' : Nat) :
    Matched a h before (e.clockAt time) (e'.clockAt time') :=
  ⟨⟨hm.same.world, hm.same.stepTime, hm.same.motionEpoch, hm.same.flag, hm.same.told⟩,
    ⟨hm.clear.keyed, hm.clear.slots⟩, ⟨hm.alone.keyed, hm.alone.slots⟩, hm.still, hm.told⟩

-- They still match when others have changed what is theirs.
theorem Mirrors.step_other (hm : c.Mirrors a h before k s) (hsame : c.engine.SameFor a h c'.engine)
    (hclear : c'.engine.Clear a) (hthread : c'.threads[k]? = c.threads[k]?)
    (hothers : ∀ party t, party ≠ k → c'.threads[party]? = some t →
      t.Keeps (Engine.Clear a) (Engine.SameFor a h)) : c'.Mirrors a h before k s :=
  ⟨⟨hsame.symm.trans hm.engines.same, hclear, hm.engines.alone, hm.engines.still,
    hm.engines.told⟩, hthread ▸ hm.thread, hothers⟩

/-- The turn of the party, in both runs. -/
theorem Mirrors.turn_own (hm : c.Mirrors a h before k s) (hc : c.Timely) (hs : s.Timely)
    {time : Nat} (hturn : Turn c (.woke k time) c') :
    ∃ s', Turn s (.woke 0 time) s' ∧ (s'.engine.Strayed a before ∨ c'.Mirrors a h before k s') := by
  have hothers : ∀ party t, party ≠ k → c'.threads[party]? = some t →
      t.Keeps (Engine.Clear a) (Engine.SameFor a h) := fun party t hne =>
    hturn.thread_keeps (fun time => (hm.engines.clear.frame rfl rfl))
      (fun t => hm.others party t hne) t
  cases hturn with
  | @woke _ _ resume hasleep hdue =>
  rcases hm.thread with ⟨t, ht, hthreads, halike⟩
  rw [hasleep, Option.some.injEq] at ht
  rw [← ht] at hthreads halike
  -- Alone, nothing else is due.
  have hturn' : Turn s (.woke 0 time) (s.resumed 0 (resume (s.engine.clockAt time))) := by
    refine .woke (by rw [hthreads]; rfl) ⟨fun wake resume' hmem => ?_, fun t ht => ?_⟩
    · rw [hthreads] at hmem
      exact Nat.le_of_eq (Thread.asleep.inj (List.mem_singleton.mp hmem)).1.symm
    · rw [hm.engines.still] at ht
      exact absurd ht List.not_mem_nil
  have hnow : (s.engine.clockAt time).now = (c.engine.clockAt time).now := by
    have hcle := hc time resume (List.mem_of_getElem? hasleep)
    have hsle := hs time resume (by rw [hthreads]; exact List.mem_singleton.mpr rfl)
    simp only [clockAt, Nat.max_eq_right hcle, Nat.max_eq_right hsle]
  refine ⟨_, hturn', ?_⟩
  rcases alike_ofProcess (halike _ _ ⟨matched_clockAt hm.engines time time, hnow⟩) with
    hstrayed | ⟨hpaired, hsame, halike'⟩
  · exact .inl hstrayed
  · refine .inr ⟨hpaired.toMatched, ⟨_, List.getElem?_set_self ?_, ?_, halike'⟩, hothers⟩
    · exact (List.getElem?_eq_some_iff.mp hasleep).1
    · simp only [resumed, hthreads, List.set_cons_zero, hsame]

/-- One turn of all is one turn of the party alone, or none. -/
theorem Mirrors.turn (hm : c.Mirrors a h before k s) (hc : c.Timely) (hs : s.Timely)
    (hturn : Turn c m c') (hfree : ¬ m.IsStop) :
    ∃ s', Run s (m.alone? k).toList s' ∧
      (s'.engine.Strayed a before ∨ c'.Mirrors a h before k s') := by
  have hclear : ∀ time, (c.engine.clockAt time).Clear a :=
    fun time => hm.engines.clear.frame rfl rfl
  cases m with
  | rang time action => exact absurd trivial hfree
  | expired t =>
      refine ⟨s, .rest, .inr ?_⟩
      cases hturn with
      | expired ht hdue =>
      have hfired := Engine.sameFor_fire (h := h)
        (show (c.engine.atDue t).Clear a from hm.engines.clear.frame rfl rfl) t
      have hsame : c.engine.SameFor a h (c.engine.atDue t) :=
        ⟨World.sameFor_self a _, rfl, rfl, rfl, rfl⟩
      exact hm.step_other (hsame.trans hfired.1) hfired.2 rfl hm.others
  | woke party time =>
      by_cases hk : party = k
      · rw [hk] at hturn ⊢
        rcases hm.turn_own hc hs hturn with ⟨s', hturn', hmirrors⟩
        rw [Moment.alone?, if_pos rfl]
        exact ⟨s', .turn .rest hturn', hmirrors⟩
      · rw [Moment.alone?, if_neg hk]
        refine ⟨s, .rest, .inr ?_⟩
        have hothers : ∀ other t, other ≠ k → c'.threads[other]? = some t →
            t.Keeps (Engine.Clear a) (Engine.SameFor a h) := fun other t hne =>
          hturn.thread_keeps hclear (fun t => hm.others other t hne) t
        cases hturn with
        | @woke _ _ resume hasleep hdue =>
        have hstretch := Thread.keeps_ofProcess
          (hm.others party _ hk hasleep (c.engine.clockAt time) (hclear time))
        have hsame : c.engine.SameFor a h (c.engine.clockAt time) :=
          ⟨World.sameFor_self a _, rfl, rfl, rfl, rfl⟩
        exact hm.step_other (hsame.trans hstretch.1) hstretch.2.1 (List.getElem?_set_ne hk) hothers

end Joint

/-! ## The run alone -/

section

open Joint

variable {e : Engine} {parties : List (Job × Interpreter)} {k : Nat} {job : Job}
variable {i : Interpreter} {c : Joint (Outcome × Interpreter)} {moments : List Moment}

-- Before the first turn nothing has happened in either run.
theorem mirrors_ofParties (hkeyed : e.world.Keyed) (hslots : e.slots = []) (htimers : e.timers = [])
    (hactors : (parties.map fun party => party.2.actor.id).Nodup)
    (hhandles : (parties.map fun party => party.2.handle).Nodup)
    (hparty : parties[k]? = some (job, i)) :
    (ofParties e parties).Mirrors i.actor.id i.handle e.log k (ofParties e [(job, i)]) := by
  have hclear : e.Clear i.actor.id :=
    ⟨hkeyed, fun key s hmem => absurd (hslots ▸ hmem) List.not_mem_nil⟩
  refine ⟨⟨e.sameFor_self _ _, hclear, hclear, htimers, [], rfl⟩,
    ⟨.asleep e.now (job.step i), ?_, rfl, ?_⟩, ?_⟩
  · simp only [ofParties, start, List.map_map, List.getElem?_map, hparty, Option.map_some,
      Function.comp_apply]
  · exact fun e₁ e₂ hpaired => ((Step.similar_step job).alike i e₁ e₂ ⟨rfl, rfl⟩ hpaired).mono
      fun _ _ => trivial
  · intro party t hne ht
    exact keeps_ofParties (Step.hosts_sameFor i.actor.id i.handle) ht fun job' j hj =>
      ⟨ne_of_nodup hactors hj hparty hne, ne_of_nodup hhandles hj hparty hne⟩

-- The turns of one party are no stops.
theorem unstopped_alone (k : Nat) (moments : List Moment) :
    Unstopped (moments.filterMap (Moment.alone? k)) := by
  intro m hm
  rcases List.mem_filterMap.mp hm with ⟨m', _, heq⟩
  cases m' with
  | woke party time =>
      simp only [Moment.alone?] at heq
      split at heq
      · rw [← Option.some.inj heq]
        exact id
      · exact absurd heq (by simp)
  | expired t => exact absurd heq (by simp [Moment.alone?])
  | rang time action => exact absurd heq (by simp [Moment.alone?])

theorem filterMap_alone_singleton (k : Nat) (m : Moment) :
    [m].filterMap (Moment.alone? k) = (m.alone? k).toList := by
  cases hm : m.alone? k with
  | none => rw [List.filterMap_cons_none hm, List.filterMap_nil, Option.toList_none]
  | some m' => rw [List.filterMap_cons_some hm, List.filterMap_nil, Option.toList_some]

/-- A party that names no function of a tile calls none. -/
theorem Joint.solitary_of_names (hjob : job.NamesNoTileFunction) (hi : i.NamesNoTileFunction) :
    Solitary e job i := by
  intro moments s hrun _ events hlog event hevent _
  have hring : ∀ (e' : Engine) action, e'.TellsSolitary (e'.ring action) := by
    intro e' action
    cases action with
    | stopMotion => exact Engine.tellsSolitary_of_log rfl
    | stop handle =>
        refine Engine.tellsSolitary_of_log ?_
        simp only [Engine.ring, Engine.stop, Engine.stopMotion, Engine.setRunning,
          Engine.cancelAll_eq]
  have htold : e.TellsSolitary s.engine := by
    refine hrun.keeps (fun _ => Engine.tellsSolitary_of_log rfl) (fun _ _ _ h₁ h₂ => h₁.trans h₂)
      (fun _ _ => Engine.tellsSolitary_of_log rfl)
      (fun e' t => Engine.tellsSolitary_of_log (Engine.aside_fire (e'.atDue t) t).log) hring ?_
    intro party t ht
    rcases getElem?_ofParties ht with ⟨job', j, hparty, rfl⟩
    have hmem := List.mem_singleton.mp (List.mem_of_getElem? hparty)
    rw [Prod.mk.injEq] at hmem
    rw [hmem.1, hmem.2]
    exact fun e' he' =>
      (Step.step_solitary hjob i e' he' hi).mono (fun _ _ => id) fun _ _ => trivial
  rcases htold with ⟨told, htold, hall⟩
  rw [hlog, List.append_left_inj] at htold
  exact hall event (htold ▸ hevent)

/-- After every run of all without a stop, there is a run of the party alone that has come equally
    far. -/
theorem Joint.Run.mirrors (hkeyed : e.world.Keyed) (hslots : e.slots = []) (htimers : e.timers = [])
    (hactors : (parties.map fun party => party.2.actor.id).Nodup)
    (hhandles : (parties.map fun party => party.2.handle).Nodup)
    (hparty : parties[k]? = some (job, i)) (hsolitary : Solitary e job i)
    (hrun : Run (ofParties e parties) moments c) (hfree : Unstopped moments) :
    ∃ s, Run (ofParties e [(job, i)]) (moments.filterMap (Moment.alone? k)) s ∧
      c.Mirrors i.actor.id i.handle e.log k s := by
  -- By induction on the turns of all.
  induction hrun with
  | rest => exact ⟨_, .rest, mirrors_ofParties hkeyed hslots htimers hactors hhandles hparty⟩
  | @turn moments c₁ c₂ m hrun hturn ih =>
      rcases ih fun m' hm' => hfree m' (List.mem_append_left _ hm') with ⟨s, hs, hm⟩
      have hstop := hfree m (List.mem_append_right _ List.mem_cons_self)
      rcases hm.turn hrun.timely hs.timely hturn hstop with ⟨s', hs', hnext⟩
      have halone : Run (ofParties e [(job, i)])
          ((moments ++ [m]).filterMap (Moment.alone? k)) s' := by
        rw [List.filterMap_append, filterMap_alone_singleton]
        exact hs.append hs'
      -- The party does not stray in its run alone.
      rcases hnext with ⟨events, hlog, event, hevent, hactor, hbad⟩ | hmirrors
      · exact absurd (hsolitary _ s' halone (unstopped_alone k _) events hlog event hevent hactor)
          hbad
      · exact ⟨s', halone, hmirrors⟩

/-- When the scheduler does several jobs side by side, such a party comes to the result that it
    comes to alone. -/
theorem Engine.run_as_alone (hkeyed : e.world.Keyed) (hslots : e.slots = [])
    (htimers : e.timers = []) (hactors : (parties.map fun party => party.2.actor.id).Nodup)
    (hhandles : (parties.map fun party => party.2.handle).Nodup)
    (hparty : parties[k]? = some (job, i)) (hsolitary : Solitary e job i) {count : Nat}
    {results : List (Outcome × Interpreter)} {e' : Engine}
    (h : e.run (parties.map fun (job, i) => job.step i) [] count = some (results, e')) :
    ∃ moments s result, Run (ofParties e [(job, i)]) moments s ∧
      s.threads = [.finished result] ∧ results[k]? = some result ∧
      s.engine.world.actor i.actor.id = e'.world.actor i.actor.id ∧
      s.engine.toldBy i.actor.id = e'.toldBy i.actor.id := by
  have hpunctual : e.Punctual := fun t ht => absurd (htimers ▸ ht) List.not_mem_nil
  rcases Engine.run_isRun hpunctual h with ⟨moments, c, hrun, hover, hresults, hengine, hfree⟩
  rcases hrun.mirrors hkeyed hslots htimers hactors hhandles hparty hsolitary (hfree rfl) with
    ⟨s, hs, hm⟩
  rcases hm.thread with ⟨t, ht, hthreads, _⟩
  cases t with
  | asleep wake resume => exact absurd (hover _ (List.mem_of_getElem? ht)) (by simp [Thread.wake?])
  | finished result =>
      have hresult := hresults ▸ Thread.getElem?_results hover ht
      exact ⟨_, s, result, hs, hthreads, hresult, hengine ▸ hm.engines.same.world.actor_eq,
        hengine ▸ hm.engines.same.told⟩

/-- In any interleaving without a stop, with whatever others, a party whose actor is no other's and
    that calls no function of a tile has the run that it has alone. Its turns come at the same
    times, and after each of them the same is left of it: the same wait and the same to do after it,
    or the same result, with the same variables. Its actor is in the same place with the same energy
    and the same items, and its messages are the same. -/
theorem runs_as_alone (hkeyed : e.world.Keyed) (hslots : e.slots = []) (htimers : e.timers = [])
    (hactors : (parties.map fun party => party.2.actor.id).Nodup)
    (hhandles : (parties.map fun party => party.2.handle).Nodup)
    (hparty : parties[k]? = some (job, i)) (hsolitary : Solitary e job i)
    (hrun : Run (ofParties e parties) moments c) (hfree : Unstopped moments) :
    ∃ s, Run (ofParties e [(job, i)]) (moments.filterMap (Moment.alone? k)) s ∧
      s.threads[0]? = c.threads[k]? ∧
      s.engine.world.actor i.actor.id = c.engine.world.actor i.actor.id ∧
      s.engine.toldBy i.actor.id = c.engine.toldBy i.actor.id := by
  rcases hrun.mirrors hkeyed hslots htimers hactors hhandles hparty hsolitary hfree with
    ⟨s, hs, hm⟩
  rcases hm.thread with ⟨t, ht, hthreads, _⟩
  exact ⟨s, hs, by rw [hthreads, ht]; rfl, hm.engines.same.world.actor_eq, hm.engines.same.told⟩

end

/-! ## A walker -/

section

open Joint Script

/-- Two actors on a food tile, with a place to go to beside it. -/
def yard : Engine :=
  { Engine.new ((((World.empty ⟨2, 1⟩).insertTile (Tile.new "kitchen" .food ⟨0, 0⟩)).insertActor
      (Actor.new "cook" ⟨0, 0⟩)).insertActor (Actor.new "walker" ⟨0, 0⟩)) 300 with
    running := [false, false] }

/-- The call of a meal, and that of a step. -/
def mealCall : Expr :=
  .call "eat" [] ⟨⟨1, 1⟩, ⟨1, 6⟩⟩

def stepCall : Expr :=
  .call "move_right" [] ⟨⟨1, 1⟩, ⟨1, 13⟩⟩

/-- An interpreter of one of the actors, with an entry script of one call. -/
def caller (handle : Nat) (actor source : String) (call : Expr) : Interpreter :=
  { Interpreter.new handle ⟨1000, 1000, 10⟩ (Actor.new actor ⟨0, 0⟩) with
    subroutines := .ofList [(mainName, ⟨[.expr call call.span], .ofString source⟩)] }

/-- One actor eats and the other walks away. -/
def household : List (Job × Interpreter) :=
  [(.main "cook", caller 0 "cook" "eat()" mealCall),
    (.main "walker", caller 1 "walker" "move_right()" stepCall)]

/-- The walk beside the meal is the walk alone. -/
theorem runs_as_alone_walker :
    (Script.compile "eat()").map Parsed.body = .ok [.expr mealCall mealCall.span] ∧
      (Script.compile "move_right()").map Parsed.body = .ok [.expr stepCall stepCall.span] ∧
      ∃ c s, Run (ofParties yard household) [.woke 0 0, .woke 1 0] c ∧
        Run (ofParties yard [(.main "walker", caller 1 "walker" "move_right()" stepCall)])
          [.woke 0 0] s ∧
        s.threads[0]? = c.threads[1]? ∧
        s.engine.world.actor "walker" = c.engine.world.actor "walker" ∧
        s.engine.toldBy "walker" = c.engine.toldBy "walker" := by
  have hnames : (caller 1 "walker" "move_right()" stepCall).NamesNoTileFunction := by
    intro name s hs called hcalled
    by_cases hname : name = mainName
    · rw [hname] at hs
      rw [← Option.some.inj (show some _ = some s from hs)] at hcalled
      rw [List.mem_singleton.mp (show called ∈ ["move_right"] from hcalled)]
      unfold NoTileFunction
      decide
    · exact absurd (show none = some s from (if_neg fun h => hname h.symm).symm.trans hs) (by simp)
  -- Both begin at once, the meal first.
  have hfirst : ∃ p, Turn (ofParties yard household) (.woke 0 0)
      ((ofParties yard household).resumed 0 p) :=
    ⟨_, .woke rfl ⟨fun _ _ _ => Nat.zero_le _, fun _ _ => Nat.zero_le _⟩⟩
  rcases hfirst with ⟨p, hfirst⟩
  have hsecond : ∃ c, Turn ((ofParties yard household).resumed 0 p) (.woke 1 0) c :=
    ⟨_, .woke rfl ⟨fun _ _ _ => Nat.zero_le _, fun _ _ => Nat.zero_le _⟩⟩
  rcases hsecond with ⟨c, hsecond⟩
  have hrun : Run (ofParties yard household) [.woke 0 0, .woke 1 0] c :=
    .turn (.turn .rest hfirst) hsecond
  have hfree : Unstopped [.woke 0 0, .woke 1 0] := by
    intro m hm
    simp only [List.mem_cons, List.not_mem_nil, or_false] at hm
    rcases hm with rfl | rfl
    · exact id
    · exact id
  have hkeyed : yard.world.Keyed :=
    (((World.keyed_empty _).insertTile _).insertActor _).insertActor _
  have hjob : (Job.main "walker").NamesNoTileFunction := trivial
  rcases runs_as_alone (k := 1) hkeyed rfl rfl (by decide) (by decide) rfl
    (solitary_of_names hjob hnames) hrun hfree with ⟨s, hs, hsame⟩
  exact ⟨by cbv, by cbv, c, s, hrun, hs, hsame⟩

end

end Farmhand
