import Farmhand.Proofs.Concurrent.Stopping
import Farmhand.Proofs.Concurrent.Tracing
import Farmhand.Proofs.Interpreter.Sealing
import Farmhand.Proofs.Machine.Agreement

/-!
# The First Failure

A call that fails ends the run in which it was made. Whatever waits for its result, an expression, a
statement, a loop or a subroutine, waits on the stack of the machine, and there a failure is handed
down: nothing that is pending takes it up, the end of a subroutine forgets the variables of the
subroutine, and only the bottom of the stack does anything with it, which is to tell how the run
ended. So the first failure of a run is its last one, and it is the outcome.

This is said twice. What a machine stands for at the beginning of a call is the call and then a rest
that ends at once with the failure of the call, if it fails. And when the failure has come back,
then whatever else happens in between, the steps of the machine do nothing to the engine until the
end is told, and nothing to the variables of the interpreter at all.

## Main definitions

* `Machine.failure?`: A failure that has come back to what waits for a result.
* `Machine.OfMain`: How far a run of the entry script is.
* `Machine.Leaving`: A failure on its way down the stack.
* `Party.Yields`: What is left of a run after a failure.

## Theorems

* `Machine.Stack.plug_error`: A failure goes down the stack untouched.
* `Machine.OfMain.next`, `Scene.Run.own`: What a run of the entry script keeps to.
* `Machine.Leaving.next`: One step of a failure on its way.
* `Scene.first_failure`: The first failure ends the run.
-/

namespace Farmhand

open Script

namespace Machine

/-- A failure that has come back to what waits for a result: to the expression around a call, to the
    statement around an expression, to the call of a subroutine, to the run of the entry script. -/
def failure? : Machine → Option Failure
  | ⟨_, .back (.error f), .pend _ _, _⟩ => some f
  | ⟨_, .back (.error f), .body _ _, _⟩ => some f
  | ⟨_, .back (.error f), .main _ _, _⟩ => some f
  | _ => none

theorem failure?_eq_some {m : Machine} {f : Failure} (h : m.failure? = some f) :
    m = ofResult m.stack m.interpreter (.error f) := by
  unfold failure? at h
  split at h
  · rw [← Option.some.inj h]
  · rw [← Option.some.inj h]
  · rw [← Option.some.inj h]
  · cases h

/-! ## Runs of the entry script -/

/-- The errand of a run of the entry script, from its call to its end. -/
def outing (i : Interpreter) : Errand :=
  freely i (.main i.actor.id .last)

/-- How far a run of the entry script is. -/
inductive OfMain (actor : String) (i : Interpreter) : Machine → Prop
  | before : OfMain actor i (start (.main actor) i)
  | within {m : Machine} (hm : (outing i).Underway m) : OfMain actor i m
  | ended (r : Outcome) (j : Interpreter) : OfMain actor i (ofResult .last j r)

variable {actor : String} {i j : Interpreter} {f : Failure} {m : Machine}

/-- A step goes on with the run, or it comes to the end of the run. -/
theorem OfMain.next {e : Engine} (h : OfMain actor i m) (hkeyed : e.world.Keyed) {m' : Machine}
    (hm' : (m.next e).machine? = some m') : OfMain actor i m' := by
  cases h with
  | before =>
      unfold start Machine.next ofJob at hm'
      simp only at hm'
      split at hm'
      · rw [← Option.some.inj hm']
        exact .within ⟨⟨rfl, rfl, rfl, rfl⟩, List.forall_mem_nil _, trivial⟩
      · rw [← Option.some.inj hm']
        exact .ended _ _
  | within hm =>
      rcases hm.next (freely_sound i _) hkeyed with ⟨_, m'', hm'', hunderway⟩ | ⟨r, j, rfl⟩
      · rw [hm'', Option.some.injEq] at hm'
        exact .within (hm' ▸ hunderway)
      · -- At the bottom of the errand the end of the run is told.
        unfold outing freely at hm'
        rw [next_main] at hm'
        rw [← Option.some.inj hm']
        exact .ended r j
  | ended r j =>
      rw [next_last] at hm'
      cases hm'

/-! ## Down the stack -/

/-- A failure goes down the stack of a run untouched: the calls under way end, and the end of the
    run is told. -/
theorem Stack.plug_error (hframes : i.frames = []) {k : Kind} {stack : Stack k}
    {sites : List (String × Text.SourceLines)} (h : (outing i).Over stack sites) (S : Settings)
    (n : Nat) (f : Failure) (j : Interpreter) (e : Engine) :
    stack.plug S n (.error f, j) e =
      .done (.error f, { j with frames := j.frames.drop sites.length })
        (endRun i.actor.id j.handle (.error f) e) := by
  induction stack generalizing n sites j with
  | last => cases h.1
  | main actor rest =>
      rcases h with ⟨hbottom, hsites⟩
      cases hbottom
      have hnone : sites = [] := by
        rw [hsites, outing, freely, Interpreter.sites, hframes, List.map_nil]
      rw [hnone]
      rfl
  | pend p rest ih => exact ih h.2 n j
  | body name rest ih =>
      rcases h with ⟨site, outer, rfl, hrest⟩
      have hleft := ih hrest (n - 1) (Step.leave j)
      simp only [Step.leave, List.drop_tail] at hleft
      exact hleft

/-- A failure on its way down the stack of a run, from an interpreter that it came back to. -/
inductive Leaving (i : Interpreter) (f : Failure) (j : Interpreter) : Machine → Prop
  | out {k : Kind} (stack : Stack k) (frames : List Frame)
      (h : (outing i).Over stack (frames.map Frame.site)) :
      Leaving i f j (ofResult stack { j with frames } (.error f))
  | last : Leaving i f j (ofResult .last { j with frames := [] } (.error f))

theorem leaving_of_failure (hm : (outing i).Underway m) (hf : m.failure? = some f) :
    Leaving i f m.interpreter m := by
  have hout := Leaving.out (f := f) (j := m.interpreter) m.stack m.interpreter.frames
    hm.context.pending
  rw [failure?_eq_some hf]
  exact hout

/-- One step of a failure on its way: it goes on, and at most the end of the run is told. At the
    bottom the run is over. -/
theorem Leaving.next (hframes : i.frames = []) (h : Leaving i f j m) (e : Engine) :
    (∃ m' e', m.next e = .on m' e' ∧ e.Closes e' ∧ Leaving i f j m') ∨
      m.next e = .halt (.error f) { j with frames := [] } e := by
  cases h with
  | out stack frames h =>
      left
      cases stack with
      | last => cases h.1
      | main actor rest =>
          rcases h with ⟨hbottom, hsites⟩
          cases hbottom
          have hnone : frames = [] := by
            rw [outing, freely, Interpreter.sites, hframes, List.map_nil] at hsites
            exact List.map_eq_nil_iff.mp hsites
          rw [hnone]
          exact ⟨_, _, rfl, closes_endRun _ _ _ _, .last⟩
      | pend p rest => exact ⟨_, _, rfl, e.closes_self, .out rest frames h.2⟩
      | body name rest =>
          rcases h with ⟨site, outer, hsites, hrest⟩
          cases frames with
          | nil => cases hsites
          | cons frame frames =>
              rw [List.map_cons, List.cons.injEq] at hsites
              exact ⟨_, _, rfl, e.closes_self, .out rest frames (hsites.2 ▸ hrest)⟩
  | last => exact .inr rfl

theorem Leaving.interpreter (h : Leaving i f j m) :
    ∃ frames, m.interpreter = { j with frames } := by
  cases h with
  | out stack frames _ => exact ⟨frames, rfl⟩
  | last => exact ⟨[], rfl⟩

end Machine

/-- What is left of a run after a failure came back in an interpreter: it takes steps without a
    wait, in which nothing happens but that the end of a run is told, and no variable changes; and
    then the failure is its outcome. -/
def Party.Yields (f : Failure) (j : Interpreter) : Party → Prop
  | .working m => (∃ frames, m.interpreter = { j with frames }) ∧
      ∀ e : Engine, e.Closes (m.next e).engine
  | .asleep _ _ => False
  | .finished outcome j' => outcome = .error f ∧ j' = { j with frames := [] }

namespace Scene

variable {admits : Scene → Interpreter → Prop} {s s' : Scene} {k : Nat} {P : Party → Prop}

/-- What a party keeps when it wakes and when it takes a step, it keeps whatever happens. -/
theorem Turn.own {J : Engine → Prop} (hwakes : ∀ wake m, P (.asleep wake m) → P (.working m))
    (hsteps : ∀ m e, J e → P (.working m) → P (.ofProgress (m.next e)))
    (hengine : J s.engine) (hturn : Turn admits s s')
    (h : ∃ p, s.parties[k]? = some p ∧ P p) : ∃ p, s'.parties[k]? = some p ∧ P p := by
  rcases h with ⟨p, hp, hkept⟩
  -- A change of one party is one of this party or of another.
  have hset : ∀ l q e, (l = k → P q) → ∃ p', (⟨s.parties.set l q, e⟩ : Scene).parties[k]? =
      some p' ∧ P p' := by
    intro l q e hq
    by_cases hl : l = k
    · rw [hl]
      exact ⟨q, List.getElem?_set_self (List.getElem?_eq_some_iff.mp hp).1, hq hl⟩
    · exact ⟨p, (List.getElem?_set_ne hl).trans hp, hkept⟩
  cases hturn with
  | @steps l m hworking =>
      refine hset l _ _ fun hl => ?_
      rw [hl, hp, Option.some.injEq] at hworking
      exact hsteps m s.engine hengine (hworking ▸ hkept)
  | @wakes l wake m hasleep hdue =>
      refine hset l _ _ fun hl => ?_
      rw [hl, hp, Option.some.injEq] at hasleep
      exact hwakes wake m (hasleep ▸ hkept)
  | joins job hadmits =>
      exact ⟨p, (List.getElem?_append_left (List.getElem?_eq_some_iff.mp hp).1).trans hp, hkept⟩
  | _ => exact ⟨p, hp, hkept⟩

theorem Run.own (hwakes : ∀ wake m, P (.asleep wake m) → P (.working m))
    (hsteps : ∀ m (e : Engine), e.world.Keyed → P (.working m) → P (.ofProgress (m.next e)))
    (hkeyed : s.engine.world.Keyed) (hrun : Run admits s s')
    (h : ∃ p, s.parties[k]? = some p ∧ P p) :
    s'.engine.world.Keyed ∧ ∃ p, s'.parties[k]? = some p ∧ P p := by
  induction hrun with
  | rest => exact ⟨hkeyed, h⟩
  | turn _ hturn ih => exact ⟨hturn.keyed ih.1, hturn.own hwakes hsteps ih.1 ih.2⟩

/-- A party with a failure on its way, or with one as its outcome. -/
def Resigns (i : Interpreter) (f : Failure) (j : Interpreter) : Party → Prop
  | .working m => Machine.Leaving i f j m
  | .asleep _ _ => False
  | .finished outcome j' => outcome = .error f ∧ j' = { j with frames := [] }

section

variable {actor : String} {i j : Interpreter} {f : Failure} {m : Machine}

theorem Resigns.steps (hframes : i.frames = []) (h : Resigns i f j (.working m)) (e : Engine) :
    Resigns i f j (.ofProgress (m.next e)) := by
  rcases Machine.Leaving.next hframes h e with ⟨m', e', hnext, _, hm'⟩ | hnext
  · rw [hnext]
    exact hm'
  · rw [hnext]
    exact ⟨rfl, rfl⟩

-- A party that is about to resign comes to the failure, whatever the others do in between.
theorem Resigns.yields (hframes : i.frames = []) {p : Party} (h : Resigns i f j p) :
    p.Yields f j := by
  cases p with
  | working m =>
      refine ⟨h.interpreter, fun e => ?_⟩
      rcases Machine.Leaving.next hframes h e with ⟨m', e', hnext, hcloses, _⟩ | hnext
      · rw [hnext]
        exact hcloses
      · rw [hnext]
        exact e.closes_self
  | asleep wake m => exact h.elim
  | finished outcome j' => exact h

-- Wherever a run of the entry script has come to, its machine is one of such a run.
theorem ofMain_run (hkeyed : s.engine.world.Keyed)
    (hstart : s.machineAt? k = some (Machine.start (.main actor) i)) (hrun : Run admits s s') :
    s'.engine.world.Keyed ∧ ∃ p, s'.parties[k]? = some p ∧
      ∀ m, p.machine? = some m → Machine.OfMain actor i m := by
  rcases Option.bind_eq_some_iff.mp hstart with ⟨p, hp, hm⟩
  refine Run.own (P := fun p => ∀ m, p.machine? = some m → Machine.OfMain actor i m)
    (fun wake m h => h) ?_ hkeyed hrun ⟨p, hp, ?_⟩
  · intro m e hkeyed h m' hm'
    rw [Party.machine?_ofProgress] at hm'
    exact (h m rfl).next hkeyed hm'
  · intro m' hm'
    rw [← Option.some.inj (hm.symm.trans hm')]
    exact .before

/-- The first failure of a run ends it. From any moment at which a run of the entry script is about
    to begin, and whatever else happens at the same time, at every instant of the run: where a call
    begins, the machine stands for the call and then a rest which, if the call fails, ends at once
    with the same failure, and does nothing but tell it. And where a failure has come back, nothing
    is left but this end: the outcome is the failure, no variable changes, and the engine only
    learns how the run ended, whatever happens between the last steps. -/
theorem first_failure (hkeyed : s.engine.world.Keyed) (hframes : i.frames = [])
    (hstart : s.machineAt? k = some (Machine.start (.main actor) i)) (hrun : Run free s s')
    (hworking : s'.parties[k]? = some (.working m)) :
    (∀ name args stack j, m = ⟨_, .call name args, stack, j⟩ →
      ∃ next, (∀ e', m.process e' = (callAt j.room name args j e').bind next) ∧
        ∀ f j' e', next (.error f, j') e' =
          .done (.error f, { j' with frames := j'.frames.drop j.frames.length })
            (endRun i.actor.id j'.handle (.error f) e')) ∧
    ∀ f, m.failure? = some f →
      (∀ e', m.process e' =
        .done (.error f, { m.interpreter with frames := [] })
          (endRun i.actor.id m.interpreter.handle (.error f) e')) ∧
      ∀ s'', Run free s' s'' → ∃ p, s''.parties[k]? = some p ∧ p.Yields f m.interpreter := by
  rcases ofMain_run hkeyed hstart hrun with ⟨hkeyed', p, hp, hmain⟩
  rw [hp, Option.some.injEq] at hworking
  have hmain := hmain m (hworking ▸ rfl)
  refine ⟨?_, ?_⟩
  · rintro name args stack j rfl
    cases hmain with
    | within hm =>
        refine ⟨stack.plug j.settings j.frames.length, fun e' => rfl, fun f j' e' => ?_⟩
        rw [Machine.Stack.plug_error hframes hm.context.pending, Interpreter.sites,
          List.length_map]
  · intro f hf
    have hunderway : (Machine.outing i).Underway m := by
      cases hmain with
      | before => cases hf
      | within hm => exact hm
      | ended r j => cases r <;> cases hf
    refine ⟨fun e' => ?_, fun s'' hlater => ?_⟩
    · rw [Machine.failure?_eq_some hf, Machine.process_ofResult rfl rfl,
        Machine.Stack.plug_error hframes hunderway.context.pending, Interpreter.sites,
        List.length_map, List.drop_length]
    · have hresigns : Resigns i f m.interpreter p := by
        rw [hworking]
        exact Machine.leaving_of_failure hunderway hf
      rcases Run.own (fun wake m h => h.elim) (fun m e _ h => h.steps hframes e) hkeyed' hlater
        ⟨p, hp, hresigns⟩ with ⟨_, p', hp', hresigns'⟩
      exact ⟨p', hp', hresigns'.yields hframes⟩

end

/-- A script file in which a call fails in a list, in an argument, in a subroutine, in an
    argument. -/
def fetching : String :=
  "def fetch:\n    print([1, nope()])\n\nprint(fetch())\n"

/-- The statement of the subroutine, and that of the entry script. -/
def nopeCall : Expr :=
  .call "print" [.list [.lit (.int 1) ⟨⟨2, 8⟩, ⟨2, 9⟩⟩, .call "nope" [] ⟨⟨2, 11⟩, ⟨2, 17⟩⟩]
    ⟨⟨2, 7⟩, ⟨2, 18⟩⟩] ⟨⟨2, 1⟩, ⟨2, 19⟩⟩

def fetchCall : Expr :=
  .call "print" [.call "fetch" [] ⟨⟨4, 7⟩, ⟨4, 14⟩⟩] ⟨⟨4, 1⟩, ⟨4, 15⟩⟩

/-- An interpreter that has loaded the file. -/
def fetcher : Interpreter :=
  { caller 0 "cook" "\n\n\nprint(fetch())\n" fetchCall with
    subroutines := .ofList
      [(mainName, ⟨[.expr fetchCall fetchCall.span], .ofString "\n\n\nprint(fetch())\n"⟩),
        ("fetch", ⟨[.expr nopeCall nopeCall.span], .ofString "\nprint([1, nope()])\n\n\n"⟩)] }

theorem load_fetching (i : Interpreter) :
    i.load fetching = .ok { i with subroutines := fetcher.subroutines } := by
  have hsections : Script.sections fetching = .ok (.ofList
      [(mainName, "\n\n\nprint(fetch())\n"), ("fetch", "\nprint([1, nope()])\n\n\n")]) := by cbv
  exact load_of_compiled hsections (by decide) (by cbv) (by cbv) i

/-- One actor calls, and another is about to walk away. -/
def callers : List (Job × Interpreter) :=
  [(.main "cook", fetcher), (.main "walker", caller 1 "walker" "move_right()" stepCall)]

/-- The innermost call has just come back. -/
def refused : Scene :=
  (ofParties yard callers).played 0 19

/-- A function that does not exist is called in the middle of a run, which ends with this while the
    other actor walks. -/
theorem first_failure_fetching :
    (∀ i : Interpreter, i.load fetching = .ok { i with subroutines := fetcher.subroutines }) ∧
      ∃ m f, refused.parties[0]? = some (.working m) ∧ m.failure? = some f ∧
        f.message = "function not found: nope" ∧ m.interpreter.frames.length = 2 ∧
        m.process refused.engine = .done (.error f, { m.interpreter with frames := [] })
          (endRun "cook" m.interpreter.handle (.error f) refused.engine) ∧
        ((refused.played 1 5).played 0 20).parties[0]? =
          some (.finished (.error f) { m.interpreter with frames := [] }) := by
  have hkeyed : yard.world.Keyed :=
    (((World.keyed_empty _).insertTile _).insertActor _).insertActor _
  have hrun : Run free (ofParties yard callers) refused := run_played 0 19 _
  have hfails : ∃ m, refused.parties[0]? = some (.working m) ∧
      m.failure?.map Failure.message = some "function not found: nope" ∧
      m.interpreter.frames.length = 2 := ⟨_, rfl, by decide +kernel, by decide +kernel⟩
  rcases hfails with ⟨m, hworking, hmessage, hframes⟩
  rcases Option.map_eq_some_iff.mp hmessage with ⟨f, hf, hmessage⟩
  rcases (first_failure (i := fetcher) (k := 0) hkeyed rfl rfl hrun hworking).2 f hf with
    ⟨hprocess, hlater⟩
  rcases hlater _ ((run_played 1 5 refused).trans (run_played 0 20 _)) with ⟨p, hp, hyields⟩
  have hover : ∃ outcome j, ((refused.played 1 5).played 0 20).parties[0]? =
      some (.finished outcome j) := ⟨_, _, rfl⟩
  rcases hover with ⟨outcome, j, hfinished⟩
  rw [hfinished, Option.some.injEq] at hp
  rw [← hp] at hyields
  rcases hyields with ⟨rfl, rfl⟩
  exact ⟨load_fetching, m, f, hworking, hf, hmessage, hframes, hprocess _, hfinished⟩

end Scene

end Farmhand
