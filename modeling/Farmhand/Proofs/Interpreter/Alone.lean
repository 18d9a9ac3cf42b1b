import Farmhand.Concurrent
import Farmhand.Interpreter.State

/-!
# Processes That Run Alone

A process that has the engine to itself meets nothing in its waits but the clock: the time passes,
and the timers that are due run out. What it comes to is then a function of where it begins. What is
said of it can be said of its parts, one after another, and a failure of one of them is the end.

## Main definitions

* `Process.alone`: What a process comes to when only time passes in its waits.
* `Step.Comes`: What a step that runs alone comes to has a property.

## Theorems

* `Process.alone_bind`, `Process.alone_sleep`: One process after another, and a wait.
* `Engine.run_alone`: The scheduler brings a single process to what it comes to alone.
* `Step.Comes.bind`: One step after another.
-/

namespace Farmhand

namespace Process

variable {α β : Type}

/-- What a process comes to, and in which engine, when only time passes in its waits. -/
def alone : Process α → α × Engine
  | done result e => (result, e)
  | wait time e resume => (resume (e.advanceTo (e.now + time))).alone

/-- One process after another. -/
theorem alone_bind (p : Process α) (next : α → Engine → Process β) :
    (p.bind next).alone = (next p.alone.1 p.alone.2).alone := by
  induction p with
  | done result e => rfl
  | wait time e resume ih => exact ih _

theorem alone_sleep (nanoseconds : Nat) (e : Engine) :
    (sleep nanoseconds e).alone.2 = e ∨
      (sleep nanoseconds e).alone.2 = e.advanceTo (e.now + Duration.ticks nanoseconds) := by
  unfold sleep
  split
  · exact Or.inl rfl
  · exact Or.inr rfl

end Process

namespace Engine

variable {α : Type}

-- From where a process has come, by induction on the waits that are left.
theorem runFor_alone (p : Process α) :
    ∃ n, ∀ count, n ≤ count →
      runFor [(Thread.ofProcess p).1] [] (Thread.ofProcess p).2 count =
        some ([p.alone.1], p.alone.2) := by
  induction p with
  | done result e =>
      refine ⟨1, fun count hcount => ?_⟩
      rcases Nat.exists_eq_add_of_le' hcount with ⟨left, rfl⟩
      rfl
  | wait time e resume ih =>
      rcases ih (e.advanceTo (e.now + time)) with ⟨n, hn⟩
      refine ⟨n + 1, fun count hcount => ?_⟩
      rcases Nat.exists_eq_add_of_le' (Nat.le_trans (Nat.le_add_left 1 n) hcount) with ⟨left, rfl⟩
      have hresumed : runFor [(Thread.ofProcess (.wait time e resume)).1] []
          (Thread.ofProcess (.wait time e resume)).2 (left + 1) =
            runFor [(Thread.ofProcess (resume (e.advanceTo (e.now + time)))).1] []
              (Thread.ofProcess (resume (e.advanceTo (e.now + time)))).2 left := by
        simp [runFor, nextAlarm?, Thread.ofProcess, Thread.earliest?, Thread.wake?,
          Thread.resumeFirst]
      rw [hresumed]
      exact hn left (Nat.le_of_succ_le_succ hcount)

/-- The scheduler brings a single process to what it comes to alone, if it may go through enough
    moments. -/
theorem run_alone (e : Engine) (p : Engine → Process α) :
    ∃ n, ∀ count, n ≤ count → e.run [p] [] count = some ([(p e).alone.1], (p e).alone.2) :=
  runFor_alone (p e)

end Engine

namespace Step

variable {α β : Type}

/-- What a step that runs alone comes to has a property. -/
def Comes (s : Step α) (i : Interpreter) (e : Engine)
    (Q : Except Failure α → Interpreter → Engine → Prop) : Prop :=
  Q (s i e).alone.1.1 (s i e).alone.1.2 (s i e).alone.2

variable {s : Step α} {i : Interpreter} {e : Engine}

theorem Comes.mono {Q Q' : Except Failure α → Interpreter → Engine → Prop} (h : s.Comes i e Q)
    (hQ : ∀ r j e', Q r j e' → Q' r j e') : s.Comes i e Q' :=
  hQ _ _ _ h

/-- One step after another. A failure of the first is the end of both. -/
theorem Comes.bind {next : α → Step β} {Q : Except Failure β → Interpreter → Engine → Prop}
    (h : s.Comes i e fun r j e' =>
      match r with
      | .ok a => (next a).Comes j e' Q
      | .error f => Q (.error f) j e') : (Step.bind s next).Comes i e Q := by
  unfold Comes at h ⊢
  unfold Step.bind
  rw [Process.andThen_eq_bind, Process.alone_bind]
  rcases hs : (s i e).alone with ⟨⟨r, j⟩, e'⟩
  rw [hs] at h
  cases r with
  | error f => exact h
  | ok a => exact h

-- A process that does not look at the interpreter succeeds with what it comes to.
theorem comes_ofProcess {p : Engine → Process α}
    {Q : Except Failure α → Interpreter → Engine → Prop}
    (h : Q (.ok (p e).alone.1) i (p e).alone.2) : (ofProcess p).Comes i e Q := by
  have halone : (ofProcess p i e).alone = ((.ok (p e).alone.1, i), (p e).alone.2) := by
    unfold ofProcess
    rw [Process.andThen_eq_bind, Process.alone_bind]
    rfl
  rw [Comes, halone]
  exact h

end Step

end Farmhand
