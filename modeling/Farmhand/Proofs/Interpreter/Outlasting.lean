import Farmhand.Proofs.Interpreter.Halting
import Farmhand.Proofs.Production.Calls

/-!
# Calls that Outlast a Stop

What a call of a capability comes to when it was stopped while it waited. Most capabilities never
wait. A walk waits and fails. A wait, and the pause after an action that takes time, are over as if
nothing had happened, and the call succeeds; these are the calls that outlast a stop.

## Main definitions

* `Operation.outlasts`, `outlasts`: An operation, and a name, whose call may succeed although it was
  stopped while it waited.
* `Step.Ending`: How a call may end after a stop.

## Theorems

* `Step.Halts.first`, `Step.Halts.last`: One step after another, when the first breaks off or the
  second does nothing.
* `Step.run_halts`: Operations that do not outlast a stop.
* `Step.callCapability_halts`: Calls of capabilities.
-/

namespace Farmhand

open Script

/-! ## Calls that outlast a stop -/

/-- An operation that may wait and then succeed although it was stopped. A walk waits as well, but
    fails when it was stopped. -/
def Operation.outlasts : Operation → Bool
  | wait | plant | eat => true
  | _ => false

/-- A name whose call may succeed although it was stopped while it waited. -/
def outlasts (name : String) : Bool :=
  match Catalog.builtin.get? name with
  | some c => c.operation.outlasts
  | none => true

namespace Step

variable {α β : Type} {base : Interpreter}

/-! ## One step after another -/

/-- How a step may end after a stop: in any way, or with a failure if it is bound to break off. -/
def Ending (breaksOff : Prop) (r : Except Failure α) : Prop :=
  breaksOff → ∃ f, r = .error f

section

variable {breaksOff : Prop} {Q : α → Prop} {Q' : β → Prop} {s : Step α} {next : α → Step β}

-- A step that breaks off, whatever comes after it.
theorem Halts.first (hs : s.Halts base (Ending True) Q)
    (hnext : ∀ a, Q a → (next a).Halts base (Ending breaksOff) Q') :
    (Step.bind s next).Halts base (Ending breaksOff) Q' :=
  hs.bind hnext (fun a _ hok => absurd (hok trivial) (by simp)) fun f _ _ => ⟨f, rfl⟩

-- A step that is followed by nothing that a stopped interpreter does.
theorem Halts.last (hs : s.Halts base (Ending breaksOff) Q)
    (hnext : ∀ a, Q a → (next a).Halts base (Ending breaksOff) Q')
    (hstill : ∀ a, Q a → (next a).Still base fun _ => True) :
    (Step.bind s next).Halts base (Ending breaksOff) Q' := by
  refine hs.bind hnext (fun a ha hok i e hi hstopped => ?_) fun f _ _ => ⟨f, rfl⟩
  rcases hstill a ha i e hi hstopped with ⟨r, hdone, hr, _⟩
  exact ⟨r, hdone, hr, fun hbreaks => absurd (hok hbreaks) (by simp)⟩

end

/-! ## Capabilities -/

-- Only what takes time lasts.
theorem duration_of_invoke {f : TileFunction} (hf : f = .harvest ∨ f = .store) {e : Engine}
    {timed : Bool} {actor tile : String} {s : Success}
    (h : (e.invoke timed actor tile f.name).1 = .ok s) : s.duration = none := by
  have hinj : ∀ g : TileFunction, g.name = f.name → g = f := by
    intro g hg
    cases g <;> cases f <;> first | rfl | exact absurd hg (by decide)
  unfold Engine.invoke at h
  split at h
  · simp at h
  · simp at h
  · next a t _ _ =>
    split at h
    · simp at h
    · next g hg =>
      rw [hinj g (Engine.function?_eq_some hg).1] at h
      split at h
      · simp at h
      · rcases hf with rfl | rfl
        · simp only [Engine.runFunction, Engine.collectOutput] at h
          split at h
          · simp at h
          · split at h
            · simp at h
            · rw [← Except.ok.inj h]
        · simp only [Engine.runFunction, Engine.store] at h
          split at h
          · rw [← Except.ok.inj h]
          · split at h
            · simp at h
            · rw [← Except.ok.inj h]

-- Functions of tiles do not wait themselves: what they take is paused for afterwards.
theorem instant_onTile {f : TileFunction} {Q : Success → Prop}
    (hQ : ∀ e actor tile s, (Engine.invoke true actor tile f.name e).1 = .ok s → Q s) :
    (onTile f).Instant base Q := by
  intro i e hi
  unfold onTile
  simp only
  split
  · next t _ =>
    split
    · exact ⟨_, _, rfl, hi, fun s hs => hQ e i.actor.id t.id s hs⟩
    · exact ⟨_, e, rfl, hi, fun s hs => absurd hs (by simp)⟩
  · exact ⟨_, e, rfl, hi, fun s hs => absurd hs (by simp)⟩

/-- A walk that was stopped fails, so it has no duration to pause for. -/
theorem halts_walk (path : List Position) :
    (walk path).Halts base (Ending True) fun s => s.duration = none := by
  have harrive : (arrive path.length).Instant base fun s => s.duration = none :=
    fun i e hi => ⟨_, e, rfl, hi, fun s hs => by rw [← Except.ok.inj hs]⟩
  have hvisit : (visit path).Halts base (Ending True) fun _ => True :=
    (halts_visit path).mono fun _ hr _ => hr
  intro i e hi
  rw [walk_eq]
  split
  · exact (instant_fail _).halts _ i e hi
  · split
    · exact (instant_pure (Q := fun s : Success => s.duration = none) rfl).halts _ i e hi
    · exact hvisit.first (fun _ _ => (idle_resync.instant.halts _).first fun _ _ =>
        harrive.halts _) i e hi

theorem halts_withArgument {γ : Type} {r : Except ArgumentError γ} {next : γ → Step α}
    {ends : Except Failure α → Prop} {Q : α → Prop} (h : ∀ a, (next a).Halts base ends Q) :
    (withArgument r next).Halts base ends Q := by
  cases r with
  | ok a => exact h a
  | error error => exact (instant_fail _).halts _

theorem instant_computed (r : Except ArgumentError Value) :
    (computed r).Instant base fun s => s.duration = none := by
  cases r with
  | ok v => exact instant_pure rfl
  | error error => exact instant_fail _

theorem halts_walkAlong (laid : Except Overflow (List Position)) :
    (walkAlong laid).Halts base (Ending True) fun s => s.duration = none := by
  cases laid with
  | ok path => exact halts_walk path
  | error overflow => exact (instant_fail _).halts _

/-- An operation that does not outlast a stop breaks off when it was stopped, and starts nothing
    that would pause the script. -/
theorem run_halts {o : Operation} (ho : o.outlasts = false) (args : Arguments) :
    (o.run args).Halts base (Ending True) fun s => s.duration = none := by
  have hstride : ∀ direction n, (stride direction n).Halts base (Ending True)
      fun s => s.duration = none := by
    intro direction n i e hi
    rw [stride_eq]
    exact halts_walkAlong _ i e hi
  have hwalkTo : ∀ goal, (walkTo goal).Halts base (Ending True) fun s => s.duration = none := by
    intro goal i e hi
    rw [walkTo_eq]
    exact halts_walkAlong _ i e hi
  -- What only tells something is done at once.
  have htold : ∀ {i : Interpreter} {e : Engine} {s : Success}, base.Akin i → s.duration = none →
      Process.Halts base (Ending True) (fun s => s.duration = none) (.done (.ok s, i) e) :=
    fun hi hs => ⟨hi, fun s' hs' => Except.ok.inj hs' ▸ hs⟩
  cases o with
  | step direction => exact hstride direction 1
  | move => exact halts_withArgument fun direction => halts_withArgument (hstride direction)
  | moveTo => exact halts_withArgument hwalkTo
  | harvest =>
      exact (instant_onTile fun _ _ _ _ hs => duration_of_invoke (.inl rfl) hs).halts _
  | store => exact (instant_onTile fun _ _ _ _ hs => duration_of_invoke (.inr rfl) hs).halts _
  | getPosition => exact fun i e hi => htold hi rfl
  | getEnergy => exact fun i e hi => htold hi rfl
  | getInventory => exact fun i e hi => htold hi rfl
  | print => exact fun i e hi => htold hi rfl
  | range => exact (instant_computed _).halts _
  | len => exact (instant_computed _).halts _
  | min => exact (instant_computed _).halts _
  | max => exact (instant_computed _).halts _
  | sum => exact (instant_computed _).halts _
  | abs => exact (instant_computed _).halts _
  | wait => exact absurd ho (by decide)
  | plant => exact absurd ho (by decide)
  | eat => exact absurd ho (by decide)

/-! ## Calls -/

theorem halts_settle (s : Success) : (settle s).Halts base (Ending False) fun _ => True := by
  have hpace : (pace s).Halts base (Ending False) fun _ => True := by
    unfold pace
    split
    · exact halts_sleep _ fun hbreaks => hbreaks.elim
    · exact (instant_pure trivial).halts _
  rw [settle_eq]
  exact ((instant_charge s).halts _).first fun _ _ =>
    hpace.last (fun _ _ => (instant_pure trivial).halts _) fun _ _ => (idle_pure s).still

-- Nothing pauses the script after a call that starts nothing.
theorem instant_settle {s : Success} (hs : s.duration = none) :
    (settle s).Halts base (Ending True) fun _ => True := by
  rw [settle_eq]
  unfold pace
  rw [hs]
  exact ((instant_charge s).halts _).first fun _ _ =>
    ((idle_pure ()).instant.halts _).first fun _ _ => (idle_pure s).instant.halts _

theorem halts_pause (seconds : Float) (nanoseconds : Nat) :
    (pause seconds nanoseconds).Halts base (Ending False)
      fun s => s.energyCost = none ∧ s.duration = none :=
  (halts_sleep (fun _ => nanoseconds) fun hbreaks => hbreaks.elim).last
    (fun _ _ => (instant_pure ⟨rfl, rfl⟩).halts _) fun _ _ => (idle_pure _).still

-- Nothing at all follows a call that costs nothing and starts nothing.
theorem idle_settle {s : Success} (hcost : s.energyCost = none) (hduration : s.duration = none) :
    (settle s).Idle base := by
  rw [settle_eq]
  unfold charge pace
  rw [hcost, hduration]
  exact (idle_pure ()).bind fun _ => (idle_pure ()).bind fun _ => idle_pure s

-- What an operation does and what follows it, after the checks of a call.
theorem run_settle_halts {o : Operation} {breaksOff : Prop}
    (ho : breaksOff → o.outlasts = false) (args : Arguments) :
    (Step.bind (o.run args) settle).Halts base (Ending breaksOff) fun _ => True := by
  by_cases houtlasts : o.outlasts = false
  · have hbreaks : (Step.bind (o.run args) settle).Halts base (Ending True) fun _ => True :=
      (run_halts houtlasts args).first fun s hs => instant_settle hs
    exact hbreaks.mono fun r hr _ => hr trivial
  · have htile : ∀ f, (Step.bind (onTile f) settle).Halts base (Ending False) fun _ => True :=
      fun f => ((instant_onTile (Q := fun _ => True) fun _ _ _ _ _ => trivial).halts _).first
        fun s _ => halts_settle s
    have hends : (Step.bind (o.run args) settle).Halts base (Ending False) fun _ => True := by
      cases o with
      | wait =>
          exact Halts.last (halts_withArgument fun a => halts_pause a.1 a.2)
            (fun s hs => (idle_settle hs.1 hs.2).instant.halts _)
            fun s hs => (idle_settle hs.1 hs.2).still
      | plant => exact htile .plant
      | eat => exact htile .eat
      | _ => exact absurd rfl houtlasts
    exact hends.mono fun r _ hbreaks => absurd (ho hbreaks) houtlasts

/-- A call of a capability comes to an end after a stop, and breaks off unless it is one that may
    outlast a stop. -/
theorem callCapability_halts {c : Capability} {breaksOff : Prop}
    (hc : breaksOff → c.operation.outlasts = false) (args : List Value) :
    (callCapability c args).Halts base (Ending breaksOff) fun _ => True := by
  intro i e hi
  rw [callCapability_eq]
  split
  · exact (instant_fail _).halts _ i e hi
  · split
    · exact (instant_fail _).halts _ i e hi
    · exact run_settle_halts hc args i e hi

end Step

end Farmhand
