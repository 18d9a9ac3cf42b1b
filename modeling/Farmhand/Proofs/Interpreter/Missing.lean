import Farmhand.Proofs.Interpreter.Composition

/-!
# What a Script Does Not Find

A call of a name that stands for nothing fails, and this failure ends the run. It says the name, so
one can ask where the name came from: it is a name that one of the script's calls has. Nothing else
that a run does fails in this way, neither the steps of the interpreter nor capabilities nor
functions of tiles.

Which names the calls of a script have can be read off it. So one who has seen them all knows the
names that a run may fail by, whatever the world is like and whatever others do in it meanwhile.

## Main definitions

* `Process.Yields`: A process has a wanted result, whatever happens in its waits.
* `Failure.OfTile`: What functions of tiles fail by.
* `Step.Misses`: All names that a step does not find are among some names.
* `Step.Known`, `Step.Naming`: The calls of a script are of known things, or of some names.

## Theorems

* `Step.misses_run`: Operations find what they look for.
* `Step.composed_misses`: So does what scripts are composed of besides calls.
* `Step.callAt_misses`, `Step.runMain_misses`: What calls and runs do not find is among the names
  in the script.
-/

namespace Farmhand

open Script

/-! ## Results of processes -/

namespace Process

variable {α β : Type} {Q : α → Prop} {Q' : β → Prop} {p : Process α}

/-- Whatever happens in the waits of a process, its result is a wanted one. -/
def Yields {α : Type} (Q : α → Prop) : Process α → Prop
  | done a _ => Q a
  | wait _ _ resume => ∀ e, (resume e).Yields Q

/-- What one process after another comes to is what the second makes of what the first comes to. -/
theorem Yields.bind {next : α → Engine → Process β} (h : p.Yields Q)
    (hnext : ∀ a e, Q a → (next a e).Yields Q') : (p.bind next).Yields Q' := by
  induction p with
  | done a e => exact hnext a e h
  | wait time e resume ih => exact fun e' => ih e' (h e')

-- Every process comes to something.
theorem yields_trivial (p : Process α) : p.Yields fun _ => True := by
  induction p with
  | done a e => exact trivial
  | wait time e resume ih => exact fun e' => ih e'

end Process

/-! ## Tile functions -/

-- An update of the world that does not happen is no matter of names of functions.
theorem Failure.ofWorldError_found (error : WorldError) (name : String) :
    Failure.ofWorldError error ≠ .functionNotFound name := by
  cases error with
  | _ => exact nofun

/-- What functions of tiles fail by. -/
def Failure.OfTile : Failure → Prop
  | actorBusy _ _ _ | tileBusy _ _ _ | energyRequired _ _ _ | noSuchFunction _ _ => True
  | notOnTile _ _ _ _ _ | notIdle _ _ _ | notReady _ _ | couldNotStart _ _ => True
  | overtaken _ | shortage _ | world _ => True
  | _ => False

-- Errors of the world are among them.
theorem Failure.ofWorldError_ofTile (error : WorldError) : (Failure.ofWorldError error).OfTile := by
  cases error with
  | _ => trivial

namespace Engine

variable (e : Engine) {f : Failure}

-- A cycle that is not started gives an error of a tile function.
theorem startProduction_ofTile {timed : Bool} {a : Actor} {t : Tile} {energy : Nat}
    {p : Production} (h : (e.startProduction timed a t energy p).1 = .error f) : f.OfTile := by
  unfold startProduction at h
  split at h
  · rw [← Except.error.inj h]; trivial
  · simp only at h
    split at h
    · rw [← Except.error.inj h]; exact Failure.ofWorldError_ofTile _
    · split at h
      · cases h
      · rw [← Except.error.inj h]; trivial

-- An output that is not collected gives an error of a tile function.
theorem collectOutput_ofTile {a : Actor} {t : Tile} {energy : Nat} {resource : String}
    (h : (e.collectOutput a t energy resource).1 = .error f) : f.OfTile := by
  unfold collectOutput at h
  split at h
  · rw [← Except.error.inj h]; trivial
  · simp only at h
    split at h
    · rw [← Except.error.inj h]; exact Failure.ofWorldError_ofTile _
    · cases h

-- Any other function that is refused gives one.
theorem runFunction_ofTile {timed : Bool} {function : TileFunction} {a : Actor} {t : Tile}
    (h : (e.runFunction timed function a t).1 = .error f) : f.OfTile := by
  cases function with
  | plant => exact e.startProduction_ofTile h
  | mineInitiate => exact e.startProduction_ofTile h
  | harvest => exact e.collectOutput_ofTile h
  | collect => exact e.collectOutput_ofTile h
  | eat =>
      simp only [runFunction, eat] at h
      split at h
      · rw [← Except.error.inj h]; trivial
      · split at h
        · rw [← Except.error.inj h]; exact Failure.ofWorldError_ofTile _
        · cases h
  | store =>
      simp only [runFunction, store] at h
      split at h
      · cases h
      · split at h
        · rw [← Except.error.inj h]; exact Failure.ofWorldError_ofTile _
        · cases h

-- What is in the way of all functions is an error of this kind, too.
theorem obstacle_ofTile {function : TileFunction} {a : Actor} {t : Tile}
    (h : e.obstacle? function a t = some f) : f.OfTile := by
  unfold obstacle? at h
  split at h
  · rw [← Option.some.inj h]; trivial
  · split at h
    · rw [← Option.some.inj h]; trivial
    · split at h
      · rw [← Option.some.inj h]; trivial
      · split at h
        · rw [← Option.some.inj h]; trivial
        · cases h

/-- A call of a function of a tile fails with errors of tile functions and of the world only. -/
theorem invoke_ofTile {timed : Bool} {actor tile function : String}
    (h : (e.invoke timed actor tile function).1 = .error f) : f.OfTile := by
  unfold invoke at h
  split at h
  · rw [← Except.error.inj h]; trivial
  · rw [← Except.error.inj h]; trivial
  · split at h
    · rw [← Except.error.inj h]; trivial
    · split at h
      · next failure hfailure =>
        rw [← Except.error.inj h]
        exact e.obstacle_ofTile hfailure
      · exact e.runFunction_ofTile h

/-- A tile that does not offer a function says so in other words. -/
theorem invoke_found (name : String) (timed : Bool) (actor tile function : String) :
    (e.invoke timed actor tile function).1 ≠ .error (.functionNotFound name) :=
  fun h => e.invoke_ofTile h

end Engine

namespace Step

variable {α β : Type} {T : Table Subroutine} {N : String → Prop}

/-- All names that a step does not find are among some names, and the subroutines stay. -/
def Misses (T : Table Subroutine) (N : String → Prop) (s : Step α) : Prop :=
  ∀ i e, i.subroutines = T → (s i e).Yields fun r =>
    r.2.subroutines = T ∧ ∀ name, r.1 = .error (.functionNotFound name) → N name

/-- One step after another misses what either does. -/
theorem Misses.bind {s : Step α} {next : α → Step β} (hs : s.Misses T N)
    (hnext : ∀ a, (next a).Misses T N) : (Step.bind s next).Misses T N := by
  intro i e hi
  unfold Step.bind
  rw [Process.andThen_eq_bind]
  refine (hs i e hi).bind fun r e' hr => ?_
  rcases r with ⟨f | a, j⟩
  · exact ⟨hr.1, fun name h => hr.2 name (congrArg _ (Except.error.inj h))⟩
  · exact hnext a j e' hr.1

-- A step of the interpreter alone misses nothing unless it says so.
theorem misses_quiet {f : Interpreter → Except Failure α × Interpreter}
    (hf : ∀ i, (f i).2.subroutines = i.subroutines)
    (hfound : ∀ i name, (f i).1 ≠ .error (.functionNotFound name)) :
    Misses T N fun i e => .done (f i) e :=
  fun i _ hi => ⟨(hf i).trans hi, fun name h => absurd h (hfound i name)⟩

-- A value misses nothing.
theorem misses_pure (a : α) : (Step.pure a).Misses T N :=
  misses_quiet (fun _ => rfl) fun _ _ => nofun

-- A failure of another kind misses nothing.
theorem misses_fail {f : Failure} (hfound : ∀ name, f ≠ .functionNotFound name) :
    (Step.fail f : Step α).Misses T N :=
  misses_quiet (fun _ => rfl) fun _ name h => hfound name (Except.error.inj h)

-- A process that does not look at the interpreter does not fail.
theorem misses_ofProcess (p : Engine → Process α) : (Step.ofProcess p).Misses T N := by
  intro i e hi
  unfold Step.ofProcess
  rw [Process.andThen_eq_bind]
  exact (p e).yields_trivial.bind fun _ _ _ => ⟨hi, nofun⟩

/-! ## What calls are made of -/

-- An actor that is not there is missed by the world, not as a name.
theorem misses_resync : Step.resync.Misses T N := by
  intro i e hi
  unfold Step.resync
  split
  · exact ⟨hi, nofun⟩
  · exact ⟨hi, nofun⟩

-- A task of the actor is another failure.
theorem misses_checkIdle : Step.checkIdle.Misses T N := by
  intro i e hi
  unfold Step.checkIdle
  split
  · exact ⟨hi, nofun⟩
  · exact ⟨hi, nofun⟩

-- A stop is another failure than a missing name.
theorem misses_checkRunning : Step.checkRunning.Misses T N := by
  intro i e hi
  refine ⟨hi, fun name => ?_⟩
  simp only
  split <;> exact nofun

-- Energy that is not there is another failure.
theorem misses_debit (amount : Nat) : (Step.debit amount).Misses T N := by
  intro i e hi
  unfold Step.debit
  split
  · exact ⟨hi, fun name h => absurd (Except.error.inj h) (Failure.ofWorldError_found _ name)⟩
  · refine ⟨?_, nofun⟩
    simp only
    split
    · exact hi
    · exact hi

-- What follows a call fails in these ways only.
theorem misses_settle (s : Success) : (Step.settle s).Misses T N := by
  have hcharge : (Step.charge s).Misses T N := by
    unfold Step.charge
    split
    · split
      · exact misses_debit _
      · exact misses_pure ()
    · exact misses_pure ()
  have hpace : (Step.pace s).Misses T N := by
    unfold Step.pace
    split
    · exact fun i e hi => misses_ofProcess _ i e hi
    · exact misses_pure ()
  rw [Step.settle_eq]
  exact hcharge.bind fun _ => hpace.bind fun _ => misses_pure s

/-! ## Operations -/

-- An interruption is another failure.
theorem misses_interruptedAt (target : Position) : (Step.interruptedAt target).Misses T N := by
  intro i e hi
  refine ⟨?_, nofun⟩
  simp only
  split
  · exact hi
  · exact hi

-- A motion arrives or does not, and its step may be too long.
theorem misses_motion (target : Position) : (Step.motion target).Misses T N := by
  have hcounted : ∀ r : Except Overflow Bool, (Step.counted r).Misses T N := by
    intro r
    cases r with
    | ok b => exact misses_pure b
    | error overflow => exact misses_fail (f := .overflow overflow) fun _ => nofun
  exact fun i e hi => (misses_ofProcess _).bind hcounted i e hi

-- A walk misses nothing, tile by tile.
theorem misses_visit (path : List Position) : (Step.visit path).Misses T N := by
  induction path with
  | nil => exact misses_pure ()
  | cons target rest ih =>
      rw [Step.visit_cons]
      refine misses_checkRunning.bind fun _ => (misses_motion target).bind fun arrived => ?_
      split
      · exact ih
      · exact misses_interruptedAt target

-- A walk that leaves the world is another failure.
theorem misses_walk (path : List Position) : (Step.walk path).Misses T N := by
  have harrive : (Step.arrive path.length).Misses T N := fun _ _ hi => ⟨hi, nofun⟩
  intro i e hi
  rw [Step.walk_eq]
  split
  · exact misses_fail (f := .outsideWorld _ _) (fun _ => nofun) i e hi
  · split
    · exact misses_pure _ i e hi
    · exact (misses_visit path).bind (fun _ => misses_resync.bind fun _ => harrive) i e hi

-- A way that does not fit is another failure.
theorem misses_walkAlong (laid : Except Overflow (List Position)) :
    (Step.walkAlong laid).Misses T N := by
  cases laid with
  | ok path => exact misses_walk path
  | error overflow => exact misses_fail (f := .overflow overflow) fun _ => nofun

-- A walk in a direction is one along a line.
theorem misses_stride (direction : Direction) (steps : Int) :
    (Step.stride direction steps).Misses T N := by
  intro i e hi
  rw [Step.stride_eq]
  exact misses_walkAlong _ i e hi

-- A walk to a goal is one along the way there.
theorem misses_walkTo (goal : Position) : (Step.walkTo goal).Misses T N := by
  intro i e hi
  rw [Step.walkTo_eq]
  exact misses_walkAlong _ i e hi

-- An argument that is not good is another failure.
theorem misses_withArgument {r : Except ArgumentError α} {next : α → Step β}
    (hnext : ∀ a, (next a).Misses T N) : (Step.withArgument r next).Misses T N := by
  cases r with
  | ok a => exact hnext a
  | error error => exact misses_fail fun _ => nofun

-- What depends on the arguments alone fails by them.
theorem misses_computed (r : Except ArgumentError Value) : (Step.computed r).Misses T N := by
  cases r with
  | ok v => exact misses_pure _
  | error error => exact misses_fail fun _ => nofun

-- A function of a tile fails in its own ways, and so does it if there is no tile.
theorem misses_onTile (f : TileFunction) : (Step.onTile f).Misses T N := by
  intro i e hi
  unfold Step.onTile
  simp only
  split
  · split
    · exact ⟨hi, fun name h => absurd h (Engine.invoke_found e name _ _ _ _)⟩
    · exact ⟨hi, nofun⟩
  · exact ⟨hi, nofun⟩

/-- Operations find what they look for. -/
theorem misses_run (o : Operation) (args : Arguments) : (o.run args).Misses T N := by
  cases o with
  | step direction => exact misses_stride direction 1
  | move =>
      exact misses_withArgument fun direction => misses_withArgument fun n =>
        misses_stride direction n
  | moveTo => exact misses_withArgument misses_walkTo
  | plant => exact misses_onTile .plant
  | harvest => exact misses_onTile .harvest
  | eat => exact misses_onTile .eat
  | store => exact misses_onTile .store
  | wait =>
      exact misses_withArgument fun _ => (misses_ofProcess _).bind fun _ => misses_pure _
  | getPosition => exact fun _ _ hi => ⟨hi, nofun⟩
  | getEnergy => exact fun _ _ hi => ⟨hi, nofun⟩
  | getInventory => exact fun _ _ hi => ⟨hi, nofun⟩
  | print => exact fun _ _ hi => ⟨hi, nofun⟩
  | range => exact misses_computed _
  | len => exact misses_computed _
  | min => exact misses_computed _
  | max => exact misses_computed _
  | sum => exact misses_computed _
  | abs => exact misses_computed _

/-- A capability that was found misses nothing. -/
theorem misses_callCapability (c : Capability) (args : List Value) :
    (Step.callCapability c args).Misses T N := by
  intro i e hi
  rw [Step.callCapability_eq]
  split
  · next overflow _ => exact misses_fail (f := .overflow overflow) (fun _ => nofun) i e hi
  · split
    · exact misses_fail (f := .energyRequired _ _ _) (fun _ => nofun) i e hi
    · exact (misses_run c.operation args).bind misses_settle i e hi

/-- A function of a tile that was found misses nothing. -/
theorem misses_callTile (t : Tile) (name : String) : (Step.callTile t name).Misses T N := by
  intro i e hi
  have houtcome : (Step.ofExcept (e.invoke true i.actor.id t.id name).1).Misses T N :=
    misses_quiet (fun _ => rfl) fun _ missing => Engine.invoke_found e missing _ _ _ _
  rw [Step.callTile_eq]
  exact houtcome.bind misses_settle i _ hi

/-! ## Calls -/

/-- A subroutine misses what its body does. -/
theorem misses_enter {body : Step Flow} (hbody : body.Misses T N) (name : String) (s : Subroutine)
    (args : List Value) : (Step.enter name s args body).Misses T N := by
  intro i e hi
  unfold Step.enter
  rw [Process.andThen_eq_bind]
  refine (hbody { i with frames := _ :: i.frames } e hi).bind fun r e' hr => ?_
  rcases r with ⟨f | flow, j⟩
  · exact ⟨hr.1, fun missing h => hr.2 missing (congrArg _ (Except.error.inj h))⟩
  · refine ⟨hr.1, fun missing h => ?_⟩
    cases flow with
    | _ => exact absurd h nofun

/-- What scripts are composed of besides calls finds what it looks for. -/
theorem composed_misses : Composed fun _ s => Step.Misses T N s where
  quiet _ hassigned hfound := misses_quiet (fun i => (hassigned i).kin.subroutines) hfound
  bind := Misses.bind
  checkRunning := misses_checkRunning
  begins _ := misses_checkRunning.bind fun _ _ _ hi => ⟨hi, nofun⟩

/-- A call by this name finds something, or the name is among some names. -/
def Known {α : Type} (T : Table α) (N : String → Prop) (name : String) : Prop :=
  (Catalog.builtin.get? name).isSome = true ∨ T.contains name = true ∨ N name

theorem misses_callWith {subroutine : String → Subroutine → List Value → Step Success}
    (hsub : ∀ name s args, T.get? name = some s → (subroutine name s args).Misses T N)
    {name : String} (hname : Known T N name) (args : List Value) :
    (callWith subroutine name args).Misses T N := by
  have hannounced : ∀ source, (announceCall name args source).Misses T N :=
    fun _ _ _ hi => ⟨hi, nofun⟩
  have hdispatch : (dispatch subroutine name args).Misses T N := by
    intro i e hi
    unfold dispatch
    split
    · exact (hannounced _).bind (fun _ => misses_callCapability _ args) i e hi
    · next hcapability =>
      split
      · exact (hannounced _).bind (fun _ => misses_callTile _ name) i e hi
      · split
        · next s hs =>
          rw [hi] at hs
          exact (hannounced _).bind (fun _ => hsub name s args hs) i e hi
        · next hs =>
          -- Nothing has the name, so it is one of those that may be missed.
          rw [hi] at hs
          refine ⟨hi, fun missing h => ?_⟩
          rw [← Failure.functionNotFound.inj (Except.error.inj h)]
          rcases hname with hsome | hsome | hmissed
          · simp only [hcapability, Option.isSome_none, Bool.false_eq_true] at hsome
          · simp only [Table.contains, hs, Option.isSome_none, Bool.false_eq_true] at hsome
          · exact hmissed
  rw [callWith_eq]
  exact misses_resync.bind fun _ => misses_checkIdle.bind fun _ => hdispatch

/-- The calls in some subroutines are of known things, or of some names. -/
def Naming (T : Table Subroutine) (N : String → Prop) : Prop :=
  ∀ name s, T.get? name = some s →
    ∀ called ∈ (Stmt.callsOfBlock s.body).map Prod.snd, Known T N called

/-- What a call does not find is among the names in the script. -/
theorem callAt_misses (hnaming : Naming T N) (depth : Nat) {name : String} (hname : Known T N name)
    (args : List Value) : (Farmhand.callAt depth name args).Misses T N := by
  -- By induction on the calls that may still begin inside each other.
  induction depth generalizing name args with
  | zero =>
      have htooDeep : tooDeep.Misses T N := fun _ _ hi => ⟨hi, nofun⟩
      exact misses_callWith (fun _ _ _ _ => htooDeep) hname args
  | succ depth ih =>
      refine misses_callWith (fun called s values hs i e hi => ?_) hname args
      exact misses_enter (composed_misses.runBlock i.settings.maxLoopIterations s.body
        fun inner hinner values => ih (hnaming called s hs inner hinner) values) called s values
          i e hi

/-- What a run does not find is among the names in the script. -/
theorem runMain_misses (hnaming : Naming T N) : Farmhand.runMain.Misses T N := by
  intro i e hi
  unfold Farmhand.runMain
  simp only
  split
  · next hmain =>
    have hcall := callAt_misses hnaming (i.settings.maxCallDepth - i.frames.length)
      (.inr (.inl (hi ▸ hmain))) []
    rw [Process.andThen_eq_bind]
    exact (hcall i _ hi).bind fun _ _ hr => hr
  · exact ⟨hi, nofun⟩

end Step

end Farmhand
