import Mathlib
import Farmhand.Proofs.Machine.Strokes

/-!
# Runs That Break Off

A run ends, but not always with a result that comes back: where a number does not fit, the program
breaks off. In the machine that is a failure like any other, and it is known in which states it can
arise. Once it is there, it takes everything off the stack. So the end of a run tells whether it
went through such a state: every run that does not comes back with a result.

## Main definitions

* `Machine.Passes`: A state of a run.

## Theorems

* `Machine.fails_next`: A failure at a number that does not fit is there after a step if it was
  there before, or if the step was about to break off.
* `Machine.eq_of_halts`: The last step of a run.
* `Machine.breaks_iff`: The rest of a run breaks off where it goes through a state that is about to.
* `Machine.run_ends`: Every run ends, and how it can end.
-/

namespace Farmhand

open Script

namespace Machine

/-- A machine and its engine are a state of a run, which goes on from another machine after some
    waits. -/
inductive Passes (meanwhile : Nat → Nat → Engine → Engine) :
    Nat → Machine → Engine → Machine → Engine → Prop
  | here {waits : Nat} {m : Machine} {e : Engine} : Passes meanwhile waits m e m e
  | on {waits : Nat} {m m₁ m' : Machine} {e e₁ e' : Engine} (hnext : m.next e = .on m₁ e₁)
      (h : Passes meanwhile waits m₁ e₁ m' e') : Passes meanwhile waits m e m' e'
  | wait {waits time : Nat} {m m₁ m' : Machine} {e e₁ e' : Engine}
      (hnext : m.next e = .wait time m₁ e₁)
      (h : Passes meanwhile (waits + 1) m₁ (meanwhile waits time e₁) m' e') :
      Passes meanwhile waits m e m' e'

variable {m m' : Machine} {e e' : Engine} {o : Overflow}

/-! ## One step -/

-- A failure takes off the stack what was waiting for a result, whatever that is.
theorem Fails.next {f : Failure} (hm : m.Fails f) (hnext : (m.next e).machine? = some m') :
    m'.Fails f := by
  rcases m with ⟨k, c, stack, i⟩
  obtain rfl : c = .back (.error f) := hm
  cases stack with
  | last => cases hnext
  | main actor rest =>
      rw [← Option.some.inj hnext]
      rfl
  | pend p rest =>
      rw [← Option.some.inj hnext]
      rfl
  | body name rest =>
      rw [← Option.some.inj hnext]
      rfl

/-- The program has broken off after a step if it had before, or if it was about to. -/
theorem fails_next (hnext : (m.next e).machine? = some m') :
    m'.Fails (.overflow o) ↔ m.Fails (.overflow o) ∨ Overflows e m o := by
  constructor
  · intro hafter
    by_cases hbefore : ∃ g, m.Fails g
    · -- There was a failure before, and it is still the same.
      rcases hbefore with ⟨g, hg⟩
      have hsame := Control.back.inj ((hg.next hnext).symm.trans hafter)
      exact .inl (Except.error.inj hsame ▸ hg)
    · have hraises : m.Raises (.overflow o) m' := ⟨fun g hg => hbefore ⟨g, hg⟩, hafter⟩
      rcases (stroke_next hnext).raises hraises trivial with
        ⟨_, _, _, _, _, _, _, hno⟩ | ⟨_, _, _, _, _, _, _, _, _, _, hno⟩ | ⟨o', ho, heq⟩
      · cases hno
      · cases hno
      · exact .inr (Failure.overflow.inj heq ▸ ho)
  · rintro (hbefore | hbreaks)
    · exact hbefore.next hnext
    · rw [← Option.some.inj ((next_of_overflows hbreaks).symm.trans hnext)]
      rfl

/-- The last step of a run. -/
def Progress.halts : Progress → Bool
  | halt _ _ _ => true
  | _ => false

section

variable {stack : Stack .success} {i : Interpreter}

-- A pause is never the last step of a run, and neither is a motion or the beginning or the end of a
-- call.
theorem halts_pausing (nanoseconds : Nat) : (pausing nanoseconds m e).halts = false := by
  unfold pausing
  split
  · rfl
  · rfl

theorem halts_ofMotion (target : Position) (rest : List Position) (steps : Nat) :
    (ofMotion stack i e target rest steps).halts = false := by
  unfold ofMotion
  simp only
  split
  · rfl
  · split
    · split
      · rfl
      · rfl
      · exact halts_pausing _
    · rfl

theorem halts_ofCapability (c : Capability) (args : List Value) :
    (ofCapability stack i e c args).halts = false := by
  unfold ofCapability
  split
  · rfl
  · split
    · rfl
    · generalize Course.of c.operation args i e.world.bounds = course
      cases course with
      | onTile f =>
          simp only [ofCourse, ofTile]
          split
          · split
            · rfl
            · rfl
          · rfl
      | pause nanoseconds s => exact halts_pausing nanoseconds
      | _ => rfl

theorem halts_ofPace (s : Success) : (ofPace stack i e s).halts = false := by
  unfold ofPace
  split
  · exact halts_pausing _
  · rfl

theorem halts_ofSettle (s : Success) : (ofSettle stack i e s).halts = false := by
  unfold ofSettle
  split
  · split
    · split
      · rfl
      · exact halts_ofPace s
    · exact halts_ofPace s
  · exact halts_ofPace s

theorem halts_ofCall (name : String) (args : List Value) :
    (ofCall stack i e name args).halts = false := by
  unfold ofCall
  split
  · rfl
  · simp only
    split
    · rfl
    · split
      · rfl
      · rfl

end

/-- The last step of a run is the one from a result with nothing pending. -/
theorem eq_of_halts (h : (m.next e).halts = true) :
    ∃ outcome i, m = ofResult .last i outcome := by
  rcases m with ⟨k, c, stack, i⟩
  -- Whatever is still to be done leaves something to be done, its result at least.
  have hgoes : ∀ {p : Progress}, p.halts = false → p.halts = true →
      ∃ outcome i', (⟨k, c, stack, i⟩ : Machine) = ofResult .last i' outcome :=
    fun hno hyes => absurd (hno.symm.trans hyes) (by decide)
  cases c with
  | back r =>
      cases stack with
      | last => exact ⟨r, i, rfl⟩
      | main actor rest => cases h
      | pend p rest => cases r <;> cases h
      | body name rest => cases r <;> cases h
  | job job =>
      cases job with
      | call actor name args => cases h
      | main actor =>
          simp only [next, ofJob] at h
          split at h <;> cases h
  | execute s => simp only [next] at h; split at h <;> cases h
  | whileLoop condition body turns => simp only [next] at h; split at h <;> cases h
  | forLoop name body values =>
      cases values with
      | nil => cases h
      | cons v rest => simp only [next] at h; split at h <;> cases h
  | call name args => exact hgoes (halts_ofCall name args) h
  | capability c args => exact hgoes (halts_ofCapability c args) h
  | visit path steps =>
      cases path with
      | nil => simp only [next, ofVisit] at h; split at h <;> cases h
      | cons target rest =>
          simp only [next, ofVisit] at h
          split at h
          · exact hgoes (halts_ofMotion target rest steps) h
          · cases h
  | arrive epoch target rest steps =>
      simp only [next, ofArrive] at h
      split at h
      · split at h <;> cases h
      · cases h
  | settle s => exact hgoes (halts_ofSettle s) h
  | _ => cases h

/-! ## Runs -/

section

variable {meanwhile : Nat → Nat → Engine → Engine} {waits time : Nat} {m₁ : Machine} {e₁ : Engine}

-- The states of a run are its first one and those behind its first step.
theorem passes_iff_of_on (hnext : m.next e = .on m₁ e₁) :
    Passes meanwhile waits m e m' e' ↔
      (m' = m ∧ e' = e) ∨ Passes meanwhile waits m₁ e₁ m' e' := by
  constructor
  · intro h
    cases h with
    | here => exact .inl ⟨rfl, rfl⟩
    | on hon h =>
        cases hnext.symm.trans hon
        exact .inr h
    | wait hwait => cases hnext.symm.trans hwait
  · rintro (⟨rfl, rfl⟩ | h)
    · exact .here
    · exact .on hnext h

-- So are they if the first step has to be waited for, and others act in the meantime.
theorem passes_iff_of_wait (hnext : m.next e = .wait time m₁ e₁) :
    Passes meanwhile waits m e m' e' ↔
      (m' = m ∧ e' = e) ∨ Passes meanwhile (waits + 1) m₁ (meanwhile waits time e₁) m' e' := by
  constructor
  · intro h
    cases h with
    | here => exact .inl ⟨rfl, rfl⟩
    | on hon => cases hnext.symm.trans hon
    | wait hwait h =>
        cases hnext.symm.trans hwait
        exact .inr h
  · rintro (⟨rfl, rfl⟩ | h)
    · exact .here
    · exact .wait hnext h

/-- Breaking off at some state of a run is breaking off at its first step or behind it. -/
theorem breaks_behind_iff {passed behind : Machine → Engine → Prop}
    (hnext : (m.next e).machine? = some m₁)
    (hpassed : ∀ m' e', passed m' e' ↔ (m' = m ∧ e' = e) ∨ behind m' e') :
    (m₁.Fails (.overflow o) ∨ ∃ m' e', behind m' e' ∧ Overflows e' m' o) ↔
      m.Fails (.overflow o) ∨ ∃ m' e', passed m' e' ∧ Overflows e' m' o := by
  rw [fails_next hnext]
  constructor
  · rintro ((hfails | hbreaks) | ⟨m', e', hbehind, hbreaks⟩)
    · exact .inl hfails
    · exact .inr ⟨m, e, (hpassed m e).mpr (.inl ⟨rfl, rfl⟩), hbreaks⟩
    · exact .inr ⟨m', e', (hpassed m' e').mpr (.inr hbehind), hbreaks⟩
  · rintro (hfails | ⟨m', e', hpass, hbreaks⟩)
    · exact .inl (.inl hfails)
    · rcases (hpassed m' e').mp hpass with ⟨rfl, rfl⟩ | hbehind
      · exact .inl (.inr hbreaks)
      · exact .inr ⟨m', e', hbehind, hbreaks⟩

end

/-- The rest of a run breaks off if it has already, or if it goes through a state that is about
    to. -/
theorem breaks_iff (hends : m.Ends) (meanwhile : Nat → Nat → Engine → Engine) (waits : Nat)
    (e : Engine) :
    ((m.process e).through meanwhile waits).1.1 = .error (.overflow o) ↔
      m.Fails (.overflow o) ∨
        ∃ m' e', Passes meanwhile waits m e m' e' ∧ Overflows e' m' o := by
  -- By induction on the steps that the machine can take.
  induction hends generalizing waits e with
  | intro m _ ih =>
      have hprocess := process_next m e
      cases hnext : m.next e with
      | halt outcome i e' =>
          rcases eq_of_halts (m := m) (e := e) (by rw [hnext]; rfl) with ⟨r, j, rfl⟩
          have hlast : ∀ m' e', Passes meanwhile waits (ofResult .last j r) e m' e' →
              ¬ Overflows e' m' o := by
            intro m' e' hpasses hbreaks
            cases hpasses with
            | here => cases hbreaks
            | on hon => cases hon
            | wait hwait => cases hwait
          refine ⟨fun h => .inl (congrArg Control.back h), ?_⟩
          rintro (hfails | ⟨m', e', hpasses, hbreaks⟩)
          · exact Control.back.inj hfails
          · exact absurd hbreaks (hlast m' e' hpasses)
      | on m₁ e₁ =>
          have hmachine : (m.next e).machine? = some m₁ := by rw [hnext]; rfl
          rw [hnext] at hprocess
          rw [← hprocess]
          exact (ih m₁ ⟨e, hmachine⟩ waits e₁).trans
            (breaks_behind_iff hmachine fun _ _ => passes_iff_of_on hnext)
      | wait time m₁ e₁ =>
          have hmachine : (m.next e).machine? = some m₁ := by rw [hnext]; rfl
          rw [hnext] at hprocess
          rw [← hprocess]
          exact (ih m₁ ⟨e, hmachine⟩ (waits + 1) (meanwhile waits time e₁)).trans
            (breaks_behind_iff hmachine fun _ _ => passes_iff_of_wait hnext)

/-- Every run ends. Whatever the job, the subroutines, the limits and the engine are, and whatever
    others do in the waits, there is a number of steps after which the machine has an outcome, the
    same for every larger number, and it is what the job comes to. It is one that comes back unless
    the run goes through a state in which a number does not fit, and there the program breaks
    off. -/
theorem run_ends (job : Job) (i : Interpreter) (e : Engine)
    (meanwhile : Nat → Nat → Engine → Engine) :
    (∃ fuel, ∀ more, fuel ≤ more →
      run meanwhile 0 more (start job i) e = some ((job.step i e).through meanwhile 0)) ∧
    ∀ o, ((job.step i e).through meanwhile 0).1.1 = .error (.overflow o) ↔
      ∃ m' e', Passes meanwhile 0 (start job i) e m' e' ∧ Overflows e' m' o := by
  have hruns := run_eq_through (ends (start job i)) meanwhile 0 e
  have hbreaks := fun o => breaks_iff (o := o) (ends (start job i)) meanwhile 0 e
  rw [process_start] at hruns
  refine ⟨hruns, fun o => ?_⟩
  have hfresh : ¬ (start job i).Fails (.overflow o) := nofun
  rw [process_start] at hbreaks
  exact (hbreaks o).trans (or_iff_right hfresh)

end Machine

/-! ## An actor that is too slow -/

/-- What a process that has broken off broke off at. -/
def Process.brokenAt? : Process (Outcome × Interpreter) → Option Overflow
  | done (outcome, _) _ => outcome.overflow?
  | wait _ _ _ => none

-- Only one kind of failure is about a number.
theorem Failure.eq_of_overflow? {f : Failure} {o : Overflow} (h : f.overflow? = some o) :
    f = .overflow o := by
  cases f with
  | overflow o' => exact congrArg Failure.overflow (Option.some.inj h)
  | _ => cases h

-- What such a process came to.
theorem Process.eq_of_brokenAt? {p : Process (Outcome × Interpreter)} {o : Overflow}
    (h : p.brokenAt? = some o) : ∃ i e, p = .done (.error (.overflow o), i) e := by
  cases p with
  | wait time e resume => cases h
  | done r e =>
      rcases r with ⟨outcome, i⟩
      cases outcome with
      | ok s => cases h
      | error f => exact ⟨i, e, by rw [Failure.eq_of_overflow? h]⟩

/-- An actor that is not quite at rest. -/
def snail : Actor :=
  { Actor.new "snail" ⟨0, 0⟩ with speed := 1e-300 }

-- The time of its step in seconds is farther out of range than can be told in numbers of the usual
-- size.
theorem snail_stepAt : Duration.stepAt 300 snail.speed = .error .stepTime := by
  have hpositive : Decimal.compare? snail.speed 0.0 = some .gt := by decide +kernel
  have hfinite : Decimal.isFinite snail.speed = true := by decide +kernel
  have hlong : Duration.nanoseconds? (Duration.seconds 300 / snail.speed) = none := by
    decide +kernel
  simp only [Duration.stepAt, hpositive, hfinite, if_true, hlong]

/-- The actor, with places to go to beside it. -/
def gravel : Engine :=
  { Engine.new ((World.empty ⟨3, 1⟩).insertActor snail) 300 with running := [false] }

/-- The call of a step. -/
def crawlCall : Expr :=
  .call "move_right" [] ⟨⟨1, 1⟩, ⟨1, 13⟩⟩

/-- An interpreter of the actor, with an entry script of one step. -/
def crawler : Interpreter :=
  { Interpreter.new 0 ⟨1000, 1000, 10⟩ snail with
    subroutines := .ofList
      [(mainName, ⟨[.expr crawlCall crawlCall.span], .ofString "move_right()\n"⟩)] }

/-- The time of the step does not fit, and the run comes back with nothing, however many steps it
    is given. -/
theorem not_run_returns :
    (Script.compile "move_right()\n").map Parsed.body = .ok [.expr crawlCall crawlCall.span] ∧
      ∀ meanwhile, ∃ fuel, ∀ more, fuel ≤ more → ∃ i e,
        Machine.run meanwhile 0 more (Machine.start (.main "snail") crawler) gravel =
          some ((.error (.overflow .stepTime), i), e) := by
  have hbroken : (runMain crawler gravel).brokenAt? = some .stepTime := by decide +kernel
  rcases Process.eq_of_brokenAt? hbroken with ⟨i, e, hrun⟩
  refine ⟨by cbv, fun meanwhile => ?_⟩
  have hruns := Machine.run_eq_through (Machine.ends (Machine.start (.main "snail") crawler))
    meanwhile 0 gravel
  rw [Machine.process_start] at hruns
  refine hruns.imp fun fuel hfuel more hmore => ⟨i, e, ?_⟩
  rw [hfuel more hmore]
  exact congrArg (fun p => some (Process.through meanwhile 0 p)) hrun

end Farmhand
