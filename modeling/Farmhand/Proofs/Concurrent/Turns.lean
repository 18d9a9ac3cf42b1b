import Farmhand.Proofs.Engine.Interaction
import Farmhand.Proofs.Interpreter.Keeping

/-!
# Interleavings

Processes side by side in every order that time allows. Several things may be due at the same
moment, the ends of tasks, the ends of waits and stops; which of them comes first is open here,
and so is the order in which the processes begin. A turn is one of these things; a run is a
sequence of turns. What no turn of any process, no timer and no stop breaks holds after every run.

## Main definitions

* `Joint`: Processes side by side on one engine.
* `Moment`, `Joint.Turn`: What happens in one turn.
* `Joint.Run`: Any number of turns.
* `Joint.Unstopped`: Turns without a stop.
* `Joint.ofParties`: Jobs that are about to begin.
* `Thread.Keeps`: Every stretch of a process under way follows a relation.
* `Joint.Timely`: No process waits for a time that has gone by.

## Theorems

* `Joint.Run.thread_keeps`: A process under way keeps on following a relation that it follows.
* `Joint.Run.keeps`: A relation that all processes, timers and stops follow is followed by runs.
* `Joint.keeps_ofParties`, `Joint.Run.timely`: What jobs side by side keep to, and when they go on.
-/

namespace Farmhand

/-- Processes side by side on one engine. -/
structure Joint (α : Type) where
  threads : List (Thread α)
  engine : Engine

/-- What happens in one turn. -/
inductive Moment where
  /-- The wait of a process is over, by its place among the processes. -/
  | woke (party time : Nat)
  | expired (t : Timer)
  /-- A stop at some time. -/
  | rang (time : Nat) (action : AlarmAction)

/-- A stop. -/
def Moment.IsStop : Moment → Prop
  | rang _ _ => True
  | _ => False

/-- The engine when the clock has reached a time. -/
def Engine.clockAt (e : Engine) (time : Nat) : Engine :=
  { e with now := max e.now time }

namespace Joint

variable {α : Type}

/-- Processes that are about to begin, in any order. -/
def start (e : Engine) (processes : List (Engine → Process α)) : Joint α :=
  ⟨processes.map (.asleep e.now), e⟩

/-- Jobs that are about to begin, each with its interpreter. -/
def ofParties (e : Engine) (parties : List (Job × Interpreter)) :
    Joint (Outcome × Interpreter) :=
  start e (parties.map fun (job, i) => job.step i)

/-- Nothing is to happen before a time. -/
structure Due (c : Joint α) (time : Nat) : Prop where
  wakes : ∀ wake resume, .asleep wake resume ∈ c.threads → time ≤ wake
  timers : ∀ t ∈ c.engine.timers, time ≤ t.due

/-- The state after a stretch of one of the processes. -/
def resumed (c : Joint α) (party : Nat) (p : Process α) : Joint α :=
  ⟨c.threads.set party (Thread.ofProcess p).1, (Thread.ofProcess p).2⟩

/-- One turn. -/
inductive Turn : Joint α → Moment → Joint α → Prop
  | woke {c : Joint α} {party time : Nat} {resume : Engine → Process α}
      (hasleep : c.threads[party]? = some (.asleep time resume)) (hdue : c.Due time) :
      Turn c (.woke party time) (c.resumed party (resume (c.engine.clockAt time)))
  | expired {c : Joint α} {t : Timer} (ht : t ∈ c.engine.timers) (hdue : c.Due t.due) :
      Turn c (.expired t) { c with engine := (c.engine.atDue t).fire t }
  | rang {c : Joint α} {time : Nat} (action : AlarmAction) (hdue : c.Due time) :
      Turn c (.rang time action) { c with engine := (c.engine.clockAt time).ring action }

/-- Any number of turns. -/
inductive Run (c : Joint α) : List Moment → Joint α → Prop
  | rest : Run c [] c
  | turn {moments : List Moment} {c' c'' : Joint α} {m : Moment} (hrun : Run c moments c')
      (hturn : Turn c' m c'') : Run c (moments ++ [m]) c''

/-- Nothing is stopped in a run. -/
def Unstopped (moments : List Moment) : Prop :=
  ∀ m ∈ moments, ¬ m.IsStop

-- One run after another.
theorem Run.append {α : Type} {c c' c'' : Joint α} {moments later : List Moment}
    (h : Run c moments c') (h' : Run c' later c'') : Run c (moments ++ later) c'' := by
  induction h' with
  | rest =>
      rw [List.append_nil]
      exact h
  | turn _ hturn ih =>
      rw [← List.append_assoc]
      exact .turn ih hturn

end Joint

/-- Every stretch of a process under way that starts in a good engine ends in a good one and
    follows a relation. -/
def Thread.Keeps {α : Type} (J : Engine → Prop) (R : Engine → Engine → Prop) : Thread α → Prop
  | asleep _ resume => ∀ e, J e → (resume e).Keeps J R (fun _ => True) e
  | finished _ => True

section

variable {α : Type} {J : Engine → Prop} {R : Engine → Engine → Prop} {c c' : Joint α}

-- A stretch of a process that follows a relation, and what is left of it.
theorem Thread.keeps_ofProcess {p : Process α} {e : Engine}
    (h : p.Keeps J R (fun _ => True) e) :
    R e (Thread.ofProcess p).2 ∧ J (Thread.ofProcess p).2 ∧
      (Thread.ofProcess p).1.Keeps J R := by
  cases p with
  | done a e' => exact ⟨h.1, h.2.1, trivial⟩
  | wait time e' resume => exact ⟨h.1, h.2.1, h.2.2⟩

-- What is left of any process after a turn is what was there or what is left of the process that
-- took the turn.
theorem Joint.Turn.thread {m : Moment} (hturn : Turn c m c') {party : Nat} {t : Thread α}
    (ht : c'.threads[party]? = some t) :
    (c.threads[party]? = some t ∧ ∀ time, m ≠ .woke party time) ∨
      ∃ time resume, m = .woke party time ∧ c.threads[party]? = some (.asleep time resume) ∧
        (t, c'.engine) = Thread.ofProcess (resume (c.engine.clockAt time)) := by
  cases hturn with
  | expired _ _ => exact .inl ⟨ht, fun _ heq => Moment.noConfusion heq⟩
  | rang _ _ => exact .inl ⟨ht, fun _ heq => Moment.noConfusion heq⟩
  | @woke k time resume hasleep hdue =>
      by_cases hk : k = party
      · rw [hk] at hasleep ht ⊢
        refine .inr ⟨time, resume, rfl, hasleep, ?_⟩
        simp only [resumed] at ht ⊢
        have hlt : party < c.threads.length := (List.getElem?_eq_some_iff.mp hasleep).1
        rw [List.getElem?_set_self hlt, Option.some.injEq] at ht
        rw [← ht]
      · simp only [resumed] at ht
        rw [List.getElem?_set_ne hk] at ht
        exact .inl ⟨ht, fun _ heq => hk (Moment.woke.inj heq).1⟩

theorem Joint.Turn.thread_keeps {m : Moment} (hturn : Turn c m c')
    (hgood : ∀ time, J (c.engine.clockAt time)) {party : Nat}
    (h : ∀ t, c.threads[party]? = some t → t.Keeps J R) :
    ∀ t, c'.threads[party]? = some t → t.Keeps J R := by
  intro t ht
  rcases hturn.thread ht with ⟨hsame, _⟩ | ⟨time, resume, _, hasleep, heq⟩
  · exact h t hsame
  · have hkeeps := Thread.keeps_ofProcess (h _ hasleep (c.engine.clockAt time) (hgood time))
    rw [← heq] at hkeeps
    exact hkeeps.2.2

/-- A process under way keeps on following a relation that it follows, whatever the others do. -/
theorem Joint.Run.thread_keeps {moments : List Moment} (hrun : Run c moments c') {party : Nat}
    (h : ∀ t, c.threads[party]? = some t → t.Keeps (fun _ => True) R) :
    ∀ t, c'.threads[party]? = some t → t.Keeps (fun _ => True) R := by
  induction hrun with
  | rest => exact h
  | turn _ hturn ih => exact hturn.thread_keeps (fun _ => trivial) ih

-- What one turn follows, if all processes, timers, stops and the clock do.
theorem Joint.Turn.keeps {m : Moment} (hturn : Turn c m c')
    (htrans : ∀ e₁ e₂ e₃, R e₁ e₂ → R e₂ e₃ → R e₁ e₃)
    (hclock : ∀ e time, R e (e.clockAt time)) (hfire : ∀ e t, R e ((e.atDue t).fire t))
    (hring : ∀ e action, R e (Engine.ring e action))
    (h : ∀ (party : Nat) t, c.threads[party]? = some t → t.Keeps (fun _ => True) R) :
    R c.engine c'.engine := by
  cases hturn with
  | expired ht hdue => exact hfire _ _
  | rang action hdue => exact htrans _ _ _ (hclock _ _) (hring _ action)
  | @woke k time resume hasleep hdue =>
      have hthread := h k _ hasleep (c.engine.clockAt time) trivial
      exact htrans _ _ _ (hclock _ _) (Thread.keeps_ofProcess hthread).1

/-- A relation that all processes follow, and timers, stops and the clock as well, is followed by
    every run. -/
theorem Joint.Run.keeps {moments : List Moment} (hrun : Run c moments c')
    (hrefl : ∀ e, R e e) (htrans : ∀ e₁ e₂ e₃, R e₁ e₂ → R e₂ e₃ → R e₁ e₃)
    (hclock : ∀ e time, R e (e.clockAt time)) (hfire : ∀ e t, R e ((e.atDue t).fire t))
    (hring : ∀ e action, R e (Engine.ring e action))
    (h : ∀ (party : Nat) t, c.threads[party]? = some t → t.Keeps (fun _ => True) R) :
    R c.engine c'.engine := by
  induction hrun with
  | rest => exact hrefl _
  | turn hrun hturn ih =>
      exact htrans _ _ _ ih (hturn.keeps htrans hclock hfire hring fun party =>
        hrun.thread_keeps fun t => h party t)

/-! ## Jobs -/

variable {e : Engine} {parties : List (Job × Interpreter)} {k : Nat}

theorem Joint.getElem?_ofParties {t : Thread (Outcome × Interpreter)}
    (ht : (ofParties e parties).threads[k]? = some t) :
    ∃ job i, parties[k]? = some (job, i) ∧ t = .asleep e.now (job.step i) := by
  simp only [ofParties, start, List.map_map, List.getElem?_map, Option.map_eq_some_iff] at ht
  rcases ht with ⟨⟨job, i⟩, hparty, heq⟩
  exact ⟨job, i, hparty, heq.symm⟩

/-- Jobs that are about to begin keep to what jobs keep to. -/
theorem Joint.keeps_ofParties {I : Interpreter → Prop} (h : Step.Hosts J R I)
    {t : Thread (Outcome × Interpreter)} (ht : (ofParties e parties).threads[k]? = some t)
    (hI : ∀ job i, parties[k]? = some (job, i) → I i) : t.Keeps J R := by
  rcases getElem?_ofParties ht with ⟨job, i, hparty, rfl⟩
  exact fun e' he' =>
    (h.step_keeps job i e' he' (hI job i hparty)).mono (fun _ _ => id) fun _ _ => trivial

-- Parties that differ in something are different parties.
theorem Joint.ne_of_nodup {β : Type} {f : Job × Interpreter → β} (hdistinct : (parties.map f).Nodup)
    {j : Nat} {x y : Job × Interpreter} (hx : parties[j]? = some x) (hy : parties[k]? = some y)
    (hne : j ≠ k) : f x ≠ f y := by
  intro heq
  refine hne ((List.getElem?_inj ?_ hdistinct).mp ?_)
  · rw [List.length_map]
    exact (List.getElem?_eq_some_iff.mp hx).1
  · rw [List.getElem?_map, List.getElem?_map, hx, hy, Option.map_some, Option.map_some, heq]

/-! ## Time -/

/-- No process waits for a time that has gone by. -/
def Joint.Timely (c : Joint α) : Prop :=
  ∀ wake resume, .asleep wake resume ∈ c.threads → c.engine.now ≤ wake

-- A wait ends no earlier than it begins.
theorem Thread.now_le_of_ofProcess {p : Process α} {wake : Nat} {resume : Engine → Process α}
    (h : (Thread.ofProcess p).1 = .asleep wake resume) : (Thread.ofProcess p).2.now ≤ wake := by
  cases p with
  | done a e => simp only [Thread.ofProcess, reduceCtorEq] at h
  | wait time e resume' =>
      simp only [Thread.ofProcess, Thread.asleep.injEq] at h ⊢
      rw [← h.1]
      exact Nat.le_add_right _ _

-- A turn takes the clock no further than to the end of the next wait.
theorem Joint.Turn.timely {m : Moment} (hturn : Turn c m c') (h : c.Timely)
    (hnow : ∀ (party : Nat) t, c.threads[party]? = some t →
      t.Keeps (fun _ => True) fun e e' => e'.now = e.now) : c'.Timely := by
  cases hturn with
  | @woke k time resume hasleep hdue =>
      have hstretch := Thread.keeps_ofProcess
        (hnow k _ hasleep (c.engine.clockAt time) trivial)
      intro wake resume' hmem
      simp only [resumed] at hmem ⊢
      rcases List.mem_or_eq_of_mem_set hmem with hold | hnew
      · rw [hstretch.1]
        exact Nat.max_le.mpr ⟨h wake resume' hold, hdue.wakes wake resume' hold⟩
      · exact Thread.now_le_of_ofProcess hnew.symm
  | @expired t ht hdue =>
      intro wake resume' hmem
      simp only [Engine.now_fire]
      exact Nat.max_le.mpr ⟨h wake resume' hmem, hdue.wakes wake resume' hmem⟩
  | @rang time action hdue =>
      have hring : ((c.engine.clockAt time).ring action).now = max c.engine.now time := by
        cases action with
        | stopMotion => rfl
        | stop handle =>
            simp only [Engine.ring, Engine.stop, Engine.setRunning, Engine.stopMotion,
              Engine.cancelAll_eq, Engine.clockAt]
      intro wake resume' hmem
      rw [hring]
      exact Nat.max_le.mpr ⟨h wake resume' hmem, hdue.wakes wake resume' hmem⟩

/-- Jobs never wait for a time that has gone by. -/
theorem Joint.Run.timely {moments : List Moment} {c : Joint (Outcome × Interpreter)}
    (hrun : Run (ofParties e parties) moments c) : c.Timely := by
  -- No job moves the clock itself.
  have hclock : Step.Hosts (fun _ => True) (fun e e' => e'.now = e.now) fun _ => True :=
    { refl := fun _ => rfl
      trans := fun _ _ _ h₁ h₂ => h₂.trans h₁
      kin := fun hi _ => hi
      sees := fun _ _ _ => trivial
      tells := fun _ _ _ _ _ => ⟨trivial, rfl⟩
      calls := fun _ _ _ _ _ _ => ⟨trivial, rfl⟩
      requests := fun _ _ => ⟨trivial, rfl⟩
      writes := fun _ _ _ => ⟨trivial, rfl⟩
      invokes := fun tile name _ _ =>
        ⟨trivial, (Engine.aside_invoke _ true _ tile name).now⟩
      rests := fun _ _ => ⟨trivial, rfl⟩
      starts := fun _ _ => ⟨trivial, rfl⟩ }
  induction hrun with
  | rest =>
      intro wake resume hmem
      rcases List.mem_iff_getElem?.mp hmem with ⟨party, hparty⟩
      rcases getElem?_ofParties hparty with ⟨job, i, _, heq⟩
      exact Nat.le_of_eq (Thread.asleep.inj heq).1.symm
  | turn hrun hturn ih =>
      exact hturn.timely ih fun party => hrun.thread_keeps fun t ht =>
        keeps_ofParties hclock ht fun _ _ _ => trivial

end

end Farmhand
