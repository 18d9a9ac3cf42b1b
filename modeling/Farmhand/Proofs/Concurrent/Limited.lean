import Farmhand.Proofs.Concurrent.Failing
import Farmhand.Proofs.Machine.Limits

/-!
# Limits of Runs

The limits of an interpreter hold in every run, whatever else goes on at the same time. Others never
touch the stack and the calls under way of a party, so what holds of one step of a machine in any
engine holds of its run among others.

## Theorems

* `Scene.Run.machine`: What every step of a machine keeps is kept by a party.
* `Scene.limits_exact`: The limits of calls and of turns are exact in every run.
-/

namespace Farmhand

open Script

namespace Scene

variable {admits : Scene → Interpreter → Prop} {s s' : Scene} {k : Nat} {m : Machine}

/-- What every step of a machine keeps, in any engine, is kept by a party, whatever happens. -/
theorem Run.machine {P : Machine → Prop} (hsteps : ∀ m m', Machine.Follows m' m → P m → P m')
    (hrun : Run admits s s') (hm : s.machineAt? k = some m) (hkept : P m) :
    ∀ m', s'.machineAt? k = some m' → P m' := by
  let Kept : Party → Prop := fun p => ∀ m', p.machine? = some m' → P m'
  have hown : ∃ p, s'.parties[k]? = some p ∧ Kept p := by
    induction hrun with
    | rest =>
        rcases Option.bind_eq_some_iff.mp hm with ⟨p, hp, hmachine⟩
        exact ⟨p, hp, fun m' hm' => Option.some.inj (hmachine.symm.trans hm') ▸ hkept⟩
    | turn _ hturn ih =>
        refine hturn.own (J := fun _ => True) (P := Kept) (fun _ _ h => h) ?_ trivial ih
        intro m e _ h m' hm'
        rw [Party.machine?_ofProgress] at hm'
        exact hsteps m m' ⟨e, hm'⟩ (h m rfl)
  rcases hown with ⟨p, hp, hparty⟩
  intro m' hm'
  rcases Option.bind_eq_some_iff.mp hm' with ⟨q, hq, hmachine⟩
  rw [hp, Option.some.injEq] at hq
  exact hparty m' (hq ▸ hmachine)

-- A loop that is run by a party is run as if nothing else went on.
theorem runs_loop {l : Machine.Loop} (hrun : Run admits s s') (hm : s.machineAt? k = some m) :
    ∀ m', s'.machineAt? k = some m' →
      ∃ truths entries m'', l.Runs m truths entries m'' ∧ (m'' = m' ∨ l.Returns m'') := by
  refine hrun.machine ?_ hm ⟨0, 0, m, .begins, .inl rfl⟩
  rintro m₁ m₂ hnext ⟨truths, entries, m'', hruns, hhere⟩
  by_cases hover : l.Returns m''
  · exact ⟨truths, entries, m'', hruns, .inr hover⟩
  · rw [hhere.resolve_right hover] at hruns hover
    rcases hruns.follows hover hnext with ⟨truths', entries', hruns'⟩
    exact ⟨truths', entries', m₂, hruns', .inl rfl⟩

/-- The limits of calls and of turns are exact. Whatever the job and the subroutines are, and
    whatever else happens at the same time, the limit of calls is exact at every instant of a run
    that began with no more calls under way than there may be. Where a `while` statement is about to
    be executed, the limit of turns is exact for it in every state until the loop is over; and
    whatever comes of the run is such a state, unless the loop was over before. -/
theorem limits_exact {job : Job} {i : Interpreter}
    (hcalls : i.frames.length ≤ i.settings.maxCallDepth)
    (hstart : s.machineAt? k = some (Machine.start job i)) (hrun : Run free s s')
    (hm : s'.machineAt? k = some m) :
    m.CallsExact i.settings.maxCallDepth ∧
      ∀ (l : Machine.Loop) span j,
        m = ⟨_, .execute (.whileLoop l.condition l.body span), l.around, j⟩ →
          (∀ truths entries m', l.Runs m truths entries m' →
            l.Exact i.settings.maxLoopIterations truths entries m') ∧
          ∀ s'' m', Run free s' s'' → s''.machineAt? k = some m' →
            ∃ truths entries m'', l.Runs m truths entries m'' ∧ (m'' = m' ∨ l.Returns m'') := by
  have hkept : m.interpreter.settings = i.settings ∧
      m.interpreter.frames.length ≤ m.interpreter.settings.maxCallDepth := by
    refine hrun.machine (P := fun m => m.interpreter.settings = i.settings ∧
      m.interpreter.frames.length ≤ m.interpreter.settings.maxCallDepth) ?_ hstart
        ⟨rfl, hcalls⟩ m hm
    rintro m₁ m₂ hnext ⟨hsettings, hle⟩
    rcases hnext.stroke with ⟨_, hstroke⟩
    exact ⟨hstroke.settings.trans hsettings, hstroke.calls_le hle⟩
  rcases hkept with ⟨hsettings, hle⟩
  refine ⟨Machine.callsExact (congrArg Settings.maxCallDepth hsettings) (hsettings ▸ hle), ?_⟩
  rintro l span j rfl
  refine ⟨fun truths entries m' hruns => ?_, fun s'' m' hlater hm' => runs_loop hlater hm m' hm'⟩
  have hexact := hruns.exact
  rwa [congrArg Settings.maxLoopIterations hsettings] at hexact

/-- An entry script that calls itself in a loop. -/
def spinning : String :=
  "while True:\n    main()\n"

/-- The loop, over what is pending around it in the first call. -/
def spin : Machine.Loop where
  condition := .lit (.bool true) ⟨⟨1, 7⟩, ⟨1, 11⟩⟩
  body := [.expr (.call mainName [] ⟨⟨2, 5⟩, ⟨2, 11⟩⟩) ⟨⟨2, 5⟩, ⟨2, 11⟩⟩]
  around := .pend (.sequence []) (.body mainName (.main "cook" .last))

def spinStmt : Stmt :=
  .whileLoop spin.condition spin.body ⟨⟨1, 1⟩, ⟨1, 6⟩⟩

/-- An interpreter that has loaded the script, with one turn for each loop and two calls inside each
    other. -/
def spinner : Interpreter :=
  { Interpreter.new 0 ⟨1000, 1, 2⟩ (Actor.new "cook" ⟨0, 0⟩) with
    subroutines := .ofList [(mainName, ⟨[spinStmt], .ofString spinning⟩)] }

/-- A run of the script. -/
def spun (count : Nat) : Scene :=
  (ofParties yard [(.main "cook", spinner)]).played 0 count

-- A loop whose condition is true goes into its body.
theorem runs_spin (span : Span) {i : Interpreter} {e : Engine}
    (hrunning : e.isRunning i.handle = true) (hturns : 0 < i.settings.maxLoopIterations) :
    spin.Runs ⟨_, .execute (.whileLoop spin.condition spin.body span), spin.around, i⟩ 1 1
      ⟨_, .block spin.body, spin.turn 0, i⟩ := by
  -- There is no result for what is around the loop yet.
  have hon : ∀ {k : Machine.Kind} {c : Machine.Control k} {stack : Machine.Stack k},
      c.isBack = false ∨ k = .value → ¬ spin.Returns ⟨k, c, stack, i⟩ := by
    rintro k c stack hc ⟨r, j, h⟩
    cases h
    rcases hc with hc | hc <;> cases hc
  let start : Machine :=
    ⟨_, .execute (.whileLoop spin.condition spin.body span), spin.around, i⟩
  have hloop : spin.Runs start 0 0 ⟨_, .whileLoop spin.condition spin.body 0, spin.around, i⟩ := by
    refine .goes .begins (hon (.inl rfl)) ⟨e, ?_⟩ Machine.Loop.not_affirms ?_
    · simp only [start, Machine.next, hrunning, if_true]
      rfl
    · rintro ⟨_, _, h⟩
      cases h
  have htest : spin.Runs start 0 0 ⟨_, .evaluate spin.condition, spin.test 0, i⟩ := by
    refine .goes hloop (hon (.inl rfl)) ⟨e, ?_⟩ ?_ (Machine.Loop.not_enters_of_below .same)
    · simp only [Machine.next, hrunning, if_true]
      rfl
    · rintro ⟨_, _, _, _, h⟩
      cases h
  have htruth : spin.Runs start 1 0 (Machine.ofResult (spin.test 0) i (.ok (.bool true))) :=
    .affirms htest (hon (.inl rfl)) ⟨e, rfl⟩ ⟨0, .bool true, i, rfl, rfl⟩
  refine .enters htruth (hon (.inr rfl)) ⟨e, congrArg some ?_⟩ ⟨0, i, rfl⟩
  exact if_neg (Nat.not_le_of_lt hturns)

/-- The script calls itself as often as it may, and it has entered the only turn of its loop when it
    does so first. -/
theorem limits_exact_spinning :
    Script.compile spinning = .ok ⟨[spinStmt], []⟩ ∧
      (∃ m, (spun 24).machineAt? 0 = some m ∧ m.CallsExact 2 ∧
        m.interpreter.frames.length = 2 ∧
        ((m.next yard).machine?.bind Machine.failure?).map Failure.message =
          some "execution error: call depth exceeded: more than 2 nested calls") ∧
      ∃ m m', (spun 6).machineAt? 0 = some m ∧ spin.Runs m 1 1 m' ∧ spin.Exact 1 1 1 m' := by
  have hcalls : spinner.frames.length ≤ spinner.settings.maxCallDepth := by decide
  refine ⟨by cbv, ?_, ?_⟩
  · have hdeep : ∃ m, (spun 24).machineAt? 0 = some m ∧ m.interpreter.frames.length = 2 ∧
        ((m.next yard).machine?.bind Machine.failure?).map Failure.message =
          some "execution error: call depth exceeded: more than 2 nested calls" :=
      ⟨_, rfl, by decide +kernel, by decide +kernel⟩
    rcases hdeep with ⟨m, hm, hframes, hfails⟩
    exact ⟨m, hm, (limits_exact hcalls rfl (run_played 0 24 _) hm).1, hframes, hfails⟩
  · have hbegins : ∃ i : Interpreter, (spun 6).machineAt? 0 =
        some ⟨_, .execute spinStmt, spin.around, i⟩ ∧
          (spun 6).engine.isRunning i.handle = true ∧ 0 < i.settings.maxLoopIterations :=
      ⟨_, rfl, by decide +kernel, by decide +kernel⟩
    rcases hbegins with ⟨i, hm, hrunning, hturns⟩
    have hruns := runs_spin ⟨⟨1, 1⟩, ⟨1, 6⟩⟩ hrunning hturns
    exact ⟨_, _, hm, hruns,
      ((limits_exact hcalls rfl (run_played 0 6 _) hm).2 spin _ i rfl).1 1 1 _ hruns⟩

end Scene

end Farmhand
