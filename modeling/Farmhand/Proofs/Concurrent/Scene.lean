import Farmhand.Proofs.Concurrent.Turns
import Farmhand.Proofs.Machine.Effect

/-!
# Scenes

Any number of interpreters in the course of jobs, taking single steps in any order. Between any two
steps of one, others may take theirs, timers may run out, runs and motion may be stopped, time may
pass, and new jobs may begin. That is more than happens to processes side by side, which go on
undisturbed from one wait to the next, and more than a clock allows, since timers may be early here
and waits may last longer than they were to. So what holds in every scene that can be reached holds
at every instant of every run, and it can be said what is true at the instant of one step.

## Main definitions

* `Party`, `Scene`: Interpreters in the course of jobs on one engine.
* `Scene.Turn`: One thing that happens, where a condition says which jobs may begin.
* `Scene.Run`: Any number of turns.
* `Scene.free`: The condition that there is none.
* `Scene.played`: Turns of one party, one after the other.

## Theorems

* `Scene.Turn.steps_or_attends`, `Scene.Turn.follows`: What a turn does to the world.
* `Scene.run_stretch`: A machine goes on to its next wait as the process does that it stands for.
* `Scene.run_ofJoint`: What processes side by side come to is reached by turns of a scene.
* `Scene.run_played`: Turns of one party are a run.
-/

namespace Farmhand

/-- An interpreter in the course of a job. -/
inductive Party where
  | working (m : Machine)
  | asleep (wake : Nat) (m : Machine)
  | finished (outcome : Outcome) (i : Interpreter)

/-- Interpreters in the course of jobs on one engine. -/
structure Scene where
  parties : List Party
  engine : Engine

namespace Party

/-- An interpreter after a step. -/
def ofProgress : Machine.Progress → Party
  | .on m _ => working m
  | .wait time m e => asleep (e.now + time) m
  | .halt outcome i _ => finished outcome i

/-- The machine of an interpreter that has not finished. -/
def machine? : Party → Option Machine
  | working m => some m
  | asleep _ m => some m
  | finished _ _ => none

/-- Whether an interpreter is about to take a step. -/
def isWorking : Party → Bool
  | working _ => true
  | _ => false

theorem machine?_ofProgress (p : Machine.Progress) : (ofProgress p).machine? = p.machine? := by
  cases p with
  | _ => rfl

end Party

namespace Scene

/-- Jobs that are about to begin, each with its interpreter. -/
def ofParties (e : Engine) (parties : List (Job × Interpreter)) : Scene :=
  ⟨parties.map fun (job, i) => .asleep e.now (Machine.start job i), e⟩

/-- A scene after a step of one of its machines. -/
def stepped (s : Scene) (k : Nat) (m : Machine) : Scene :=
  ⟨s.parties.set k (.ofProgress (m.next s.engine)), (m.next s.engine).engine⟩

/-- One thing that happens. -/
inductive Turn (admits : Scene → Interpreter → Prop) : Scene → Scene → Prop
  | steps {s : Scene} {k : Nat} {m : Machine} (hworking : s.parties[k]? = some (.working m)) :
      Turn admits s (s.stepped k m)
  | wakes {s : Scene} {k wake : Nat} {m : Machine}
      (hasleep : s.parties[k]? = some (.asleep wake m)) (hdue : wake ≤ s.engine.now) :
      Turn admits s { s with parties := s.parties.set k (.working m) }
  | expires {s : Scene} {t : Timer} (ht : t ∈ s.engine.timers) :
      Turn admits s { s with engine := (s.engine.atDue t).fire t }
  | rings {s : Scene} (action : AlarmAction) :
      Turn admits s { s with engine := s.engine.ring action }
  | passes {s : Scene} (time : Nat) :
      Turn admits s { s with engine := s.engine.clockAt time }
  /-- A new interpreter gets its flag. -/
  | enrols {s : Scene} :
      Turn admits s { s with engine := { s.engine with running := s.engine.running ++ [false] } }
  /-- A job begins. -/
  | joins {s : Scene} (job : Job) {i : Interpreter} (hadmits : admits s i) :
      Turn admits s { s with parties := s.parties ++ [.working (Machine.start job i)] }

/-- Any number of turns. -/
inductive Run (admits : Scene → Interpreter → Prop) (s : Scene) : Scene → Prop
  | rest : Run admits s s
  | turn {s' s'' : Scene} (hrun : Run admits s s') (hturn : Turn admits s' s'') :
      Run admits s s''

/-- Any interpreter may begin a job at any time. -/
def free : Scene → Interpreter → Prop :=
  fun _ _ => True

variable {admits : Scene → Interpreter → Prop} {s s' s'' : Scene}

theorem Run.single (h : Turn admits s s') : Run admits s s' :=
  .turn .rest h

theorem Run.trans (h : Run admits s s') (h' : Run admits s' s'') : Run admits s s'' := by
  induction h' with
  | rest => exact h
  | turn _ hturn ih => exact .turn ih hturn

/-! ## What a turn does to the world -/

/-- What tasks follow is followed by every turn that is no step. -/
theorem Turn.steps_or_attends (h : Turn admits s s') :
    (∃ k m, s.parties[k]? = some (.working m) ∧ s' = s.stepped k m) ∨
      ∀ {R : World → World → Prop}, World.Attends R → R s.engine.world s'.engine.world := by
  cases h with
  | @steps k m hworking => exact .inl ⟨k, m, hworking, rfl⟩
  | @expires t _ => exact .inr fun hR => hR.fire (s.engine.atDue t) t
  | rings action =>
      cases action with
      | stop handle => exact .inr fun hR => hR.cancelAll (s.engine.setRunning handle false)
      | stopMotion => exact .inr fun hR => hR.self _
  | _ => exact .inr fun hR => hR.self _

/-- What is followed by tile functions, tasks and changes of an actor is followed by every turn. -/
theorem Turn.follows {R : World → World → Prop} (hR : World.Followed R)
    (hactor : ∀ {w w' id patch}, w.updateActor id patch = .ok w' → R w w')
    (h : Turn admits s s') : R s.engine.world s'.engine.world := by
  rcases h.steps_or_attends with ⟨k, m, _, rfl⟩ | hattends
  · exact (Machine.passage_next m s.engine).effect.follows hR hactor
  · exact hattends hR.attends

/-! ## Processes side by side -/

/-- A party stands for a process under way. -/
inductive StandsFor : Party → Thread (Outcome × Interpreter) → Prop
  | asleep (wake : Nat) (m : Machine) : StandsFor (.asleep wake m) (.asleep wake m.process)
  | finished (outcome : Outcome) (i : Interpreter) :
      StandsFor (.finished outcome i) (.finished (outcome, i))

/-- A machine goes on to its next wait, or to its end, as the process does that it stands for. -/
theorem run_stretch {m : Machine} (hends : m.Ends) {k : Nat}
    (hworking : s.parties[k]? = some (.working m)) :
    ∃ p, Run admits s ⟨s.parties.set k p, (Thread.ofProcess (m.process s.engine)).2⟩ ∧
      StandsFor p (Thread.ofProcess (m.process s.engine)).1 := by
  -- By induction on the steps that the machine can take.
  induction hends generalizing s with
  | intro m _ ih =>
      have hlt : k < s.parties.length := (List.getElem?_eq_some_iff.mp hworking).1
      have hstep : Turn admits s (s.stepped k m) := .steps hworking
      have hprocess := Machine.process_next m s.engine
      unfold stepped at hstep
      cases hnext : m.next s.engine with
      | on m' e' =>
          rw [hnext] at hstep hprocess
          have hagain : (s.parties.set k (.working m'))[k]? = some (.working m') :=
            List.getElem?_set_self hlt
          rcases ih m' ⟨s.engine, by rw [hnext]; rfl⟩ (s := ⟨_, e'⟩) hagain with ⟨p, hrun, hp⟩
          rw [List.set_set] at hrun
          rw [← hprocess]
          exact ⟨p, (Run.single hstep).trans hrun, hp⟩
      | wait time m' e' =>
          rw [hnext] at hstep hprocess
          rw [← hprocess]
          exact ⟨_, .single hstep, .asleep _ m'⟩
      | halt outcome i e' =>
          rw [hnext] at hstep hprocess
          rw [← hprocess]
          exact ⟨_, .single hstep, .finished outcome i⟩

/-- A scene whose parties stand for processes side by side. -/
structure Plays (s : Scene) (c : Joint (Outcome × Interpreter)) : Prop where
  parties : ∀ (k : Nat) t, c.threads[k]? = some t → ∃ p, s.parties[k]? = some p ∧ StandsFor p t
  engine : s.engine = c.engine

theorem plays_ofParties (e : Engine) (parties : List (Job × Interpreter)) :
    (ofParties e parties).Plays (Joint.ofParties e parties) := by
  refine ⟨fun k t ht => ?_, rfl⟩
  rcases Joint.getElem?_ofParties ht with ⟨job, i, hparty, rfl⟩
  refine ⟨.asleep e.now (Machine.start job i), ?_, ?_⟩
  · simp only [ofParties, List.getElem?_map, hparty, Option.map_some]
  · have hstart : (Machine.start job i).process = job.step i :=
      funext (Machine.process_start job i)
    rw [← hstart]
    exact .asleep e.now _

-- What processes side by side do in one turn is done in turns of a scene.
theorem Plays.turn {c c' : Joint (Outcome × Interpreter)} {moment : Moment} (h : s.Plays c)
    (hturn : Joint.Turn c moment c') : ∃ s', Run admits s s' ∧ s'.Plays c' := by
  cases hturn with
  | @expired t ht hdue =>
      rw [← h.engine] at ht ⊢
      exact ⟨_, .single (.expires ht), h.parties, rfl⟩
  | @rang time action hdue =>
      rw [← h.engine]
      have hpassed : Run admits s { s with engine := s.engine.clockAt time } :=
        .single (.passes time)
      exact ⟨_, hpassed.turn (.rings action), h.parties, rfl⟩
  | @woke k time resume hasleep hdue =>
      rcases h.parties k _ hasleep with ⟨p, hp, hstands⟩
      cases hstands with
      | asleep _ m =>
          have hlt : k < s.parties.length := (List.getElem?_eq_some_iff.mp hp).1
          have hpassed : Run admits s { s with engine := s.engine.clockAt time } :=
            .single (.passes time)
          have hwoken := hpassed.turn (.wakes hp (Nat.le_max_right _ _))
          rcases run_stretch (Machine.ends m)
            (s := ⟨s.parties.set k (.working m), s.engine.clockAt time⟩)
            (List.getElem?_set_self hlt) with ⟨p', hrun, hp'⟩
          refine ⟨_, hwoken.trans hrun, fun j t ht => ?_, ?_⟩
          · rw [h.engine] at hp'
            by_cases hj : k = j
            · subst hj
              have hlength : k < c.threads.length := (List.getElem?_eq_some_iff.mp hasleep).1
              simp only [Joint.resumed, List.getElem?_set_self hlength, Option.some.injEq] at ht
              rw [← ht]
              refine ⟨p', ?_, hp'⟩
              simp only [List.set_set, List.getElem?_set_self hlt]
            · simp only [Joint.resumed, List.getElem?_set_ne hj] at ht
              rcases h.parties j t ht with ⟨q, hq, hstands⟩
              refine ⟨q, ?_, hstands⟩
              simp only [List.set_set, List.getElem?_set_ne hj]
              exact hq
          · rw [h.engine]
            rfl

/-- Whatever processes side by side come to is reached by turns of a scene. -/
theorem run_ofJoint {e : Engine} {parties : List (Job × Interpreter)}
    {c : Joint (Outcome × Interpreter)} {moments : List Moment}
    (h : (Joint.ofParties e parties).Run moments c) :
    ∃ s, Run admits (ofParties e parties) s ∧ s.Plays c := by
  induction h with
  | rest => exact ⟨_, .rest, plays_ofParties e parties⟩
  | turn _ hturn ih =>
      rcases ih with ⟨s, hrun, hplays⟩
      rcases hplays.turn hturn with ⟨s', hlater, hplays'⟩
      exact ⟨s', hrun.trans hlater, hplays'⟩

/-! ## Turns of one party -/

/-- A scene in which one party takes some turns and the others none. When it waits, the time passes
    until it may go on. -/
def played (k : Nat) : Nat → Scene → Scene
  | 0, s => s
  | count + 1, s =>
    match s.parties[k]? with
    | some (.working m) => played k count (s.stepped k m)
    | some (.asleep wake m) =>
      played k count ⟨s.parties.set k (.working m), s.engine.clockAt wake⟩
    | _ => s

theorem run_played (k count : Nat) (s : Scene) : Run admits s (s.played k count) := by
  induction count generalizing s with
  | zero => exact .rest
  | succ count ih =>
      unfold played
      split
      · next m hworking => exact (Run.single (.steps hworking)).trans (ih _)
      · next wake m hasleep =>
        have hpassed : Run admits s { s with engine := s.engine.clockAt wake } :=
          .single (.passes wake)
        have hwoken := hpassed.turn (.wakes hasleep (Nat.le_max_right _ _))
        exact hwoken.trans (ih _)
      · exact .rest

theorem turn_played {k : Nat} (h : (s.parties[k]?.map Party.isWorking) = some true) :
    Turn admits s (s.played k 1) := by
  rcases Option.map_eq_some_iff.mp h with ⟨p, hp, hworking⟩
  cases p with
  | working m =>
      have hplayed : s.played k 1 = s.stepped k m := by simp only [played, hp]
      rw [hplayed]
      exact .steps hp
  | asleep wake m => simp only [Party.isWorking, Bool.false_eq_true] at hworking
  | finished outcome i => simp only [Party.isWorking, Bool.false_eq_true] at hworking

end Scene

end Farmhand
