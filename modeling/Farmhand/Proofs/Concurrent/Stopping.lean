import Mathlib
import Farmhand.Proofs.Concurrent.Turns
import Farmhand.Proofs.Interpreter.Guarded

/-!
# What Runs after a Stop

A run that is stopped while it waits. Whatever the others do in the meantime, its interpreter may
not go on and its motion does not arrive. When its wait is over, no further statement begins. Calls
may: the rest of the expression in which the call stood that was waiting is still evaluated. In a
script of guarded subroutines there are none left that could wait for their turn, and then the run
does nothing but end.

## Main definitions

* `Engine.Closes`: Nothing happens but that the end of a run is told.
* `Process.StopsShort`: A process that does nothing but end when it was stopped.
* `Engine.Calms`: No statement begins in an interpreter that was stopped, and it stays stopped.

## Theorems

* `step_stopsShort`: Every job of a script of guarded subroutines stops short.
* `stopped_comes_to_rest`: What a stopped run does in any interleaving.
* `not_stopped_comes_to_rest`: A script that goes on calling after a stop.
-/

namespace Farmhand

open Script

/-- A message about the end of a run. -/
def Event.IsClosing : Event → Prop
  | completed _ _ | failed _ _ | stopped _ | error _ _ _ => True
  | _ => False

/-- Nothing happens but that the end of a run is told, and its interpreter rests. -/
structure Engine.Closes (e e' : Engine) : Prop where
  rest : e' = { e with running := e'.running, log := e'.log }
  told : ∃ events, e'.log = events ++ e.log ∧ ∀ event ∈ events, event.IsClosing

namespace Engine

/-! ## The flags of interpreters -/

-- Interpreters have flags of their own.
theorem isRunning_setRunning_of_ne (e : Engine) {h k : Nat} (hne : k ≠ h) (value : Bool) :
    (e.setRunning k value).isRunning h = e.isRunning h := by
  unfold isRunning setRunning
  simp only [List.getD_eq_getElem?_getD, List.getElem?_set_ne hne]

-- To stop an interpreter sets no other one going.
theorem isRunning_stopped {e : Engine} {h : Nat} (hstopped : e.isRunning h = false) (k : Nat) :
    (e.setRunning k false).isRunning h = false := by
  by_cases hk : k = h
  · rw [hk]
    unfold isRunning setRunning
    simp only [List.getD_eq_getElem?_getD, List.getElem?_set_self']
    cases e.running[h]? <;> rfl
  · rw [isRunning_setRunning_of_ne e hk, hstopped]

-- A stop takes the flag of one interpreter, and counts for the motion of all.
theorem isRunning_stop_self (e : Engine) (h : Nat) : (e.stop h).isRunning h = false := by
  have hset : (e.setRunning h false).isRunning h = false := by
    unfold isRunning setRunning
    simp only [List.getD_eq_getElem?_getD, List.getElem?_set_self']
    cases e.running[h]? <;> rfl
  unfold stop stopMotion
  rw [cancelAll_eq]
  exact hset

theorem motionEpoch_stop (e : Engine) (h : Nat) :
    (e.stop h).motionEpoch = e.motionEpoch + 1 := by
  unfold stop stopMotion
  rw [cancelAll_eq]
  rfl

/-! ## What runs do to them -/

/-- Motion that was stopped stays so. -/
def Onward (e e' : Engine) : Prop :=
  e.motionEpoch ≤ e'.motionEpoch

/-- An interpreter that was stopped stays so as well. -/
def Holds (h : Nat) (e e' : Engine) : Prop :=
  e.Onward e' ∧ (e.isRunning h = false → e'.isRunning h = false)

/-- And no statement begins in it. -/
def Calms (h : Nat) (e e' : Engine) : Prop :=
  e.Holds h e' ∧ (e.isRunning h = false →
    ∃ events, e'.log = events ++ e.log ∧ ∀ event ∈ events, ¬ event.IsStatement)

section

variable {h : Nat}

theorem Holds.trans {e₁ e₂ e₃ : Engine} (h₁ : e₁.Holds h e₂) (h₂ : e₂.Holds h e₃) :
    e₁.Holds h e₃ :=
  ⟨Nat.le_trans h₁.1 h₂.1, fun hstopped => h₂.2 (h₁.2 hstopped)⟩

-- The log grows, so what was told in either part is what was told in both.
theorem Calms.trans {e₁ e₂ e₃ : Engine} (h₁ : e₁.Calms h e₂) (h₂ : e₂.Calms h e₃) :
    e₁.Calms h e₃ := by
  refine ⟨h₁.1.trans h₂.1, fun hstopped => ?_⟩
  rcases h₁.2 hstopped with ⟨first, hfirst, hnone⟩
  rcases h₂.2 (h₁.1.2 hstopped) with ⟨later, hlater, hnone'⟩
  refine ⟨later ++ first, by rw [hlater, hfirst, List.append_assoc], fun event hevent => ?_⟩
  rcases List.mem_append.mp hevent with hl | hf
  · exact hnone' event hl
  · exact hnone event hf

-- Whatever leaves the flags, the account of motion and the log alone.
theorem calms_of_eq {e e' : Engine} (hepoch : e'.motionEpoch = e.motionEpoch)
    (hrunning : e'.running = e.running) (hlog : e'.log = e.log) : e.Calms h e' := by
  refine ⟨⟨Nat.le_of_eq hepoch.symm, fun hstopped => ?_⟩, fun _ => ⟨[], hlog, ?_⟩⟩
  · unfold isRunning at hstopped ⊢
    rw [hrunning, hstopped]
  · exact fun _ hevent => absurd hevent List.not_mem_nil

end

end Engine

namespace Step

-- A relation between engines that the calm steps follow, and what a run tells and its end as well.
private theorem permits {R : Engine → Engine → Prop} {I : Interpreter → Prop} {h : Nat}
    (htrans : ∀ e₁ e₂ e₃, R e₁ e₂ → R e₂ e₃ → R e₁ e₃) (hcalm : ∀ e e', e.Calms h e' → R e e')
    (hI : ∀ i j : Interpreter, j.handle = i.handle → I i → I j)
    (htells : ∀ (i : Interpreter) (e : Engine) (event : Event), I i →
      (event.IsStatement → e.isRunning i.handle = true) → R e (e.emit event)) :
    Permits (fun _ => True) R I where
  refl e := hcalm e e (Engine.calms_of_eq rfl rfl rfl)
  trans := htrans
  kin hi hkin := hI _ _ hkin.handle hi
  sees {i} _ _ _ hi _ := hI i _ rfl hi
  tells _ hi _ _ hbegins := ⟨trivial, htells _ _ _ hi hbegins⟩
  calls _ _ _ _ _ hi := ⟨trivial, htells _ _ _ hi False.elim⟩
  requests _ _ := ⟨trivial, hcalm _ _ (Engine.calms_of_eq rfl rfl rfl)⟩
  writes _ _ _ := ⟨trivial, hcalm _ _ (Engine.calms_of_eq rfl rfl rfl)⟩
  invokes tile name _ _ :=
    have haside := Engine.aside_invoke _ true _ tile name
    ⟨trivial, hcalm _ _ (Engine.calms_of_eq haside.motionEpoch haside.running haside.log)⟩
  rests _ _ := ⟨trivial, hcalm _ _ ⟨⟨Nat.le_refl _, fun hstopped =>
    Engine.isRunning_stopped hstopped _⟩, fun _ => ⟨[], rfl, fun _ hevent =>
      absurd hevent List.not_mem_nil⟩⟩⟩

/-- No run sets motion going that was stopped. -/
theorem hosts_onward : Hosts (fun _ => True) Engine.Onward fun _ => True where
  toPermits := permits (h := 0) (fun _ _ _ h₁ h₂ => Nat.le_trans h₁ h₂) (fun _ _ hcalm => hcalm.1.1)
    (fun _ _ _ _ => trivial) fun _ _ _ _ _ => Nat.le_refl _
  starts _ _ := ⟨trivial, Nat.le_refl _⟩

/-- No run sets another interpreter going. -/
theorem hosts_holds (h : Nat) :
    Hosts (fun _ => True) (Engine.Holds h) fun i => i.handle ≠ h where
  toPermits := permits (fun _ _ _ h₁ h₂ => h₁.trans h₂) (fun _ _ hcalm => hcalm.1)
    (fun _ _ hhandle hi => hhandle ▸ hi) fun _ _ _ _ _ => ⟨Nat.le_refl _, id⟩
  starts _ hi := ⟨trivial, Nat.le_refl _, fun hstopped =>
    (Engine.isRunning_setRunning_of_ne _ hi true).trans hstopped⟩

/-- After a stop, an interpreter begins no statement. -/
theorem permits_calms (h : Nat) :
    Permits (fun _ => True) (Engine.Calms h) fun i => i.handle = h :=
  permits (fun _ _ _ h₁ h₂ => h₁.trans h₂) (fun _ _ hcalm => hcalm)
    (fun _ _ hhandle hi => hhandle.trans hi) fun i e event hi hbegins => by
      refine ⟨⟨Nat.le_refl _, id⟩, fun hstopped => ⟨[event], rfl, fun other hother => ?_⟩⟩
      rw [List.mem_singleton.mp hother]
      intro hstatement
      rw [← hi, hbegins hstatement] at hstopped
      exact absurd hstopped (by decide)

end Step

/-! ## Jobs that stop short -/

/-- Wherever a process waits, it does nothing but end when its interpreter was stopped meanwhile. -/
def Process.StopsShort {α : Type} (h : Nat) : Process α → Prop
  | done _ _ => True
  | wait _ e resume =>
    (∀ e', e'.isRunning h = false → e.motionEpoch < e'.motionEpoch →
      ∃ a e'', resume e' = done a e'' ∧ e'.Closes e'') ∧
    ∀ e', StopsShort h (resume e')

theorem Engine.closes_self (e : Engine) : e.Closes e :=
  ⟨rfl, [], rfl, fun _ hevent => absurd hevent List.not_mem_nil⟩

/-- What is told at the end depends on the outcome, and nothing of it is a statement or a call. -/
theorem closes_endRun (actor : String) (handle : Nat) (outcome : Outcome) (e : Engine) :
    e.Closes (endRun actor handle outcome e) := by
  unfold endRun
  split
  · exact e.closes_self
  · cases outcome with
    | ok s =>
        refine ⟨rfl, [_], rfl, fun event hevent => ?_⟩
        rw [List.mem_singleton.mp hevent]
        trivial
    | error f =>
        simp only [Event.ofFailure]
        split
        · refine ⟨rfl, [_], rfl, fun event hevent => ?_⟩
          rw [List.mem_singleton.mp hevent]
          trivial
        · refine ⟨rfl, [_, _], rfl, fun event hevent => ?_⟩
          simp only [List.mem_cons, List.not_mem_nil, or_false] at hevent
          rcases hevent with heq | heq
          · rw [heq]
            trivial
          · rw [heq]
            trivial

/-- Every job of a script of guarded subroutines stops short. -/
theorem step_stopsShort {i : Interpreter} (hguarded : i.Guarded) (job : Job) (e : Engine) :
    (job.step i e).StopsShort i.handle := by
  -- What follows the call of a job does nothing but end the run.
  have hends : ∀ {p : Process (Outcome × Interpreter)}
      (next : Outcome × Interpreter → Engine → Process (Outcome × Interpreter)),
      (p.Halts i (Step.Ending False) fun _ => True) →
      (∀ r e, ∃ a e', next r e = .done a e' ∧ e.Closes e') →
      (p.bind next).StopsShort i.handle := by
    intro p next hp hnext
    induction p with
    | done r e₁ =>
        rcases hnext r e₁ with ⟨a, e', hdone, _⟩
        rw [Process.bind, hdone]
        trivial
    | wait time e₁ resume ih =>
        refine ⟨fun e' hstopped hlater => ?_, fun e' => ih e' (hp.2 e')⟩
        rcases hp.1 e' hstopped hlater with ⟨r, hresume, _⟩
        show ∃ a e'', (resume e').bind next = .done a e'' ∧ e'.Closes e''
        rw [hresume]
        exact hnext r e'
  have hcall : ∀ name args e,
      (callFunction name args i e).Halts i (Step.Ending False) fun _ => True :=
    fun name args e =>
      Step.callAt_halts hguarded _ name args False False.elim i _ ⟨rfl, rfl⟩
  cases job with
  | call actor name args =>
      have hbind : ∀ p : Process (Outcome × Interpreter), p.bind Process.done = p := by
        intro p
        induction p with
        | done r e₁ => rfl
        | wait time e₁ resume ih =>
            simp only [Process.bind]
            rw [funext ih]
      have hshort := hends Process.done (hcall name args e)
        fun r e => ⟨r, e, rfl, e.closes_self⟩
      rw [hbind] at hshort
      exact hshort
  | main actor =>
      show (runMain i e).StopsShort i.handle
      unfold runMain
      simp only
      split
      · rw [Process.andThen_eq_bind]
        exact hends _ (hcall mainName [] _) fun r e => ⟨_, _, rfl, closes_endRun _ _ _ _⟩
      · trivial

/-! ## A party that has begun -/

/-- A process under way that does nothing but end when it was stopped since some stop of motion. -/
def Thread.StopsShort {α : Type} (h epoch : Nat) : Thread α → Prop
  | asleep _ resume =>
    (∀ e', e'.isRunning h = false → epoch < e'.motionEpoch →
      ∃ a e'', resume e' = .done a e'' ∧ e'.Closes e'') ∧
    ∀ e', (resume e').StopsShort h
  | finished _ => True

-- What a process is after its first stretch, it still is.
theorem Thread.stopsShort_ofProcess {α : Type} {h : Nat} {p : Process α} (hp : p.StopsShort h) :
    (Thread.ofProcess p).1.StopsShort h (Thread.ofProcess p).2.motionEpoch := by
  cases p with
  | done a e => trivial
  | wait time e resume => exact hp

/-- What is known of a party once it has begun. -/
structure Thread.Heeds (i : Interpreter) (e : Engine) (t : Thread (Outcome × Interpreter)) :
    Prop where
  calm : t.Keeps (fun _ => True) (Engine.Calms i.handle)
  short : i.Guarded → ∃ epoch, epoch ≤ e.motionEpoch ∧ t.StopsShort i.handle epoch

section

variable {e : Engine} {parties : List (Job × Interpreter)} {k : Nat} {job : Job}
variable {i : Interpreter} {c c' : Joint (Outcome × Interpreter)} {moments : List Moment}

open Joint

-- A job that begins heeds stops from its first wait on.
theorem heeds_ofProcess (job : Job) (i : Interpreter) (e : Engine) :
    (Thread.ofProcess (job.step i e)).1.Heeds i (Thread.ofProcess (job.step i e)).2 := by
  rcases (Step.permits_calms i.handle).step_resumes (fun _ => trivial) job rfl e with ⟨e₀, hkeeps⟩
  have hcalm := Thread.keeps_ofProcess (hkeeps.mono (fun _ _ => id) fun _ _ => trivial)
  refine ⟨hcalm.2.2, fun hguarded => ?_⟩
  exact ⟨_, Nat.le_refl _, Thread.stopsShort_ofProcess (step_stopsShort hguarded job e)⟩

-- A party that heeds a stop still does so after each of its turns.
theorem Thread.Heeds.ofProcess {time : Nat}
    {resume : Engine → Process (Outcome × Interpreter)} (h : Thread.Heeds i e (.asleep time resume))
    (e' : Engine) :
    (Thread.ofProcess (resume e')).1.Heeds i (Thread.ofProcess (resume e')).2 := by
  refine ⟨(Thread.keeps_ofProcess (h.calm e' trivial)).2.2, fun hguarded => ?_⟩
  rcases h.short hguarded with ⟨_, _, hshort⟩
  exact ⟨_, Nat.le_refl _, Thread.stopsShort_ofProcess (hshort.2 e')⟩

-- No turn takes back a stop of motion.
theorem onward_turn {m : Moment} (hrun : Run (ofParties e parties) moments c)
    (hturn : Turn c m c') : c.engine.Onward c'.engine := by
  refine hturn.keeps (fun _ _ _ h₁ h₂ => Nat.le_trans h₁ h₂) (fun _ _ => Nat.le_refl _) ?_ ?_
    fun party => hrun.thread_keeps fun t ht => keeps_ofParties Step.hosts_onward ht
      fun _ _ _ => trivial
  · intro e t
    exact Nat.le_of_eq (Engine.aside_fire (e.atDue t) t).motionEpoch.symm
  · intro e action
    cases action with
    | stop h => exact Nat.le_trans (Nat.le_succ _) (Nat.le_of_eq (e.motionEpoch_stop h).symm)
    | stopMotion => exact Nat.le_succ _

/-- Once a party has begun, it heeds stops. -/
theorem heeds_of_begun (hparty : parties[k]? = some (job, i))
    (hrun : Run (ofParties e parties) moments c) {t : Thread (Outcome × Interpreter)}
    (ht : c.threads[k]? = some t) :
    t.Heeds i c.engine ∨ (t = .asleep e.now (job.step i) ∧ ∀ time, .woke k time ∉ moments) := by
  -- By induction on the turns so far.
  induction hrun generalizing t with
  | rest =>
      rcases getElem?_ofParties ht with ⟨job', i', hparty', rfl⟩
      rw [hparty, Option.some.injEq, Prod.mk.injEq] at hparty'
      rw [← hparty'.1, ← hparty'.2]
      exact .inr ⟨rfl, fun _ hmem => absurd hmem List.not_mem_nil⟩
  | @turn moments c₁ c₂ m hrun hturn ih =>
      rcases hturn.thread ht with ⟨hsame, hother⟩ | ⟨time, resume, hm, hasleep, heq⟩
      · rcases ih hsame with hheeds | ⟨hbegin, hnone⟩
        · refine .inl ⟨hheeds.calm, fun hguarded => ?_⟩
          rcases hheeds.short hguarded with ⟨epoch, hle, hshort⟩
          exact ⟨epoch, Nat.le_trans hle (onward_turn hrun hturn), hshort⟩
        · refine .inr ⟨hbegin, fun time hmem => ?_⟩
          rcases List.mem_append.mp hmem with hbefore | hlast
          · exact hnone time hbefore
          · exact hother time (List.mem_singleton.mp hlast).symm
      · have hthread : t = (Thread.ofProcess (resume (c₁.engine.clockAt time))).1 :=
          congrArg Prod.fst heq
        have hengine : c₂.engine = (Thread.ofProcess (resume (c₁.engine.clockAt time))).2 :=
          congrArg Prod.snd heq
        rw [hthread, hengine]
        rcases ih hasleep with hheeds | ⟨hbegin, _⟩
        · exact .inl (hheeds.ofProcess _)
        · rw [Thread.asleep.injEq] at hbegin
          rw [hbegin.2]
          exact .inl (heeds_ofProcess job i _)

/-! ## After the stop -/

-- Timers and alarms give no interpreter its flag back.
theorem holds_fire (h : Nat) (e : Engine) (t : Timer) : e.Holds h ((e.atDue t).fire t) := by
  have haside := Engine.aside_fire (e.atDue t) t
  exact (Engine.calms_of_eq haside.motionEpoch haside.running haside.log).1

theorem holds_ring (h : Nat) (e : Engine) (action : AlarmAction) : e.Holds h (e.ring action) := by
  cases action with
  | stopMotion => exact ⟨Nat.le_succ _, id⟩
  | stop k =>
      refine ⟨Nat.le_trans (Nat.le_succ _) (Nat.le_of_eq (e.motionEpoch_stop k).symm), ?_⟩
      intro hstopped
      show (e.stop k).isRunning h = false
      unfold Engine.stop Engine.stopMotion
      rw [Engine.cancelAll_eq]
      exact Engine.isRunning_stopped hstopped k

/-- What is known of a party that was stopped after it had begun. -/
structure Joint.Stopped (i : Interpreter) (k : Nat) (c : Joint (Outcome × Interpreter)) : Prop where
  flag : c.engine.isRunning i.handle = false
  holds : ∀ (party : Nat) t, c.threads[party]? = some t →
    t.Keeps (fun _ => True) (Engine.Holds i.handle)
  calm : ∀ t, c.threads[k]? = some t → t.Keeps (fun _ => True) (Engine.Calms i.handle)
  short : i.Guarded → ∀ t, c.threads[k]? = some t →
    ∃ epoch, epoch < c.engine.motionEpoch ∧ t.StopsShort i.handle epoch

theorem stopped_of_stop (hdistinct : (parties.map fun party => party.2.handle).Nodup)
    (hparty : parties[k]? = some (job, i)) (hrun : Run (ofParties e parties) moments c)
    (hbegun : ∃ time, .woke k time ∈ moments) {time : Nat}
    (hstop : Turn c (.rang time (.stop i.handle)) c') : c'.Stopped i k := by
  have hheeds : ∀ t, c.threads[k]? = some t → t.Heeds i c.engine := by
    intro t ht
    rcases heeds_of_begun hparty hrun ht with hheeds | ⟨_, hnone⟩
    · exact hheeds
    · rcases hbegun with ⟨time, hmem⟩
      exact absurd hmem (hnone time)
  cases hstop with
  | rang action hdue =>
  refine ⟨Engine.isRunning_stop_self _ _, fun party t ht => ?_, fun t ht => (hheeds t ht).calm,
    fun hguarded t ht => ?_⟩
  · by_cases hk : party = k
    · rw [hk] at ht
      have hcalm := (hheeds t ht).calm
      cases t with
      | finished result => trivial
      | asleep wake resume =>
          exact fun e' he' => (hcalm e' he').mono (fun _ _ h => h.1) fun _ h => h
    · -- The interpreters of the others have other numbers.
      refine hrun.thread_keeps (fun t ht => keeps_ofParties (Step.hosts_holds i.handle) ht ?_) t ht
      exact fun job' j hj => ne_of_nodup hdistinct hj hparty hk
  · rcases (hheeds t ht).short hguarded with ⟨epoch, hle, hshort⟩
    refine ⟨epoch, ?_, hshort⟩
    show epoch < ((c.engine.clockAt time).stop i.handle).motionEpoch
    rw [Engine.motionEpoch_stop]
    exact Nat.lt_succ_of_le hle

-- The turn of a stopped party whose subroutines are guarded.
theorem Joint.Stopped.ends (h : c.Stopped i k) (hguarded : i.Guarded) {wake : Nat}
    {resume : Engine → Process (Outcome × Interpreter)}
    (hasleep : c.threads[k]? = some (.asleep wake resume)) :
    ∃ result e', resume (c.engine.clockAt wake) = .done result e' ∧
      (c.engine.clockAt wake).Closes e' := by
  rcases h.short hguarded _ hasleep with ⟨epoch, hlt, hshort⟩
  exact hshort.1 (c.engine.clockAt wake) h.flag hlt

/-- Another turn: the flag stays down, no motion arrives, and the party still does nothing but end.
    -/
theorem Joint.Stopped.turn (h : c.Stopped i k) {m : Moment} (hturn : Turn c m c') :
    c'.Stopped i k := by
  have hengine := hturn.keeps (fun _ _ _ h₁ h₂ => h₁.trans h₂) (fun _ _ => ⟨Nat.le_refl _, id⟩)
    (holds_fire i.handle) (holds_ring i.handle) h.holds
  refine ⟨hengine.2 h.flag, fun party => hturn.thread_keeps (fun _ => trivial) (h.holds party),
    hturn.thread_keeps (fun _ => trivial) h.calm, fun hguarded t ht => ?_⟩
  rcases hturn.thread ht with ⟨hsame, _⟩ | ⟨time, resume, _, hasleep, heq⟩
  · rcases h.short hguarded t hsame with ⟨epoch, hlt, hshort⟩
    exact ⟨epoch, Nat.lt_of_lt_of_le hlt hengine.1, hshort⟩
  · rcases h.short hguarded _ hasleep with ⟨epoch, hlt, _⟩
    rcases h.ends hguarded hasleep with ⟨result, e', hdone, _⟩
    rw [hdone] at heq
    refine ⟨epoch, Nat.lt_of_lt_of_le hlt hengine.1, ?_⟩
    rw [show t = .finished result from congrArg Prod.fst heq]
    trivial

/-- In any interleaving, a party that was stopped after it had begun, in a wait, begins no further
    statement when it goes on. If its subroutines are guarded, it does nothing but end its run: no
    call begins, nothing is printed, and the world and its tasks are left as they are. -/
theorem stopped_comes_to_rest (hdistinct : (parties.map fun party => party.2.handle).Nodup)
    (hparty : parties[k]? = some (job, i)) (hbefore : Run (ofParties e parties) moments c)
    (hbegun : ∃ time, .woke k time ∈ moments) {time : Nat} {c₁ : Joint (Outcome × Interpreter)}
    (hstop : Turn c (.rang time (.stop i.handle)) c₁) {later : List Moment}
    {c₂ : Joint (Outcome × Interpreter)} (hafter : Run c₁ later c₂) {wake : Nat}
    {c₃ : Joint (Outcome × Interpreter)} (hturn : Turn c₂ (.woke k wake) c₃) :
    (∃ events, c₃.engine.log = events ++ c₂.engine.log ∧
      ∀ event ∈ events, ¬ event.IsStatement) ∧
    (i.Guarded → (∃ result, c₃.threads[k]? = some (.finished result)) ∧
      (c₂.engine.clockAt wake).Closes c₃.engine) := by
  have hstopped : c₂.Stopped i k := by
    clear hturn
    induction hafter with
    | rest => exact stopped_of_stop hdistinct hparty hbefore hbegun hstop
    | turn _ hnext ih => exact ih.turn hnext
  cases hturn with
  | @woke _ _ resume hasleep hdue =>
  refine ⟨?_, fun hguarded => ?_⟩
  · have hcalm := Thread.keeps_ofProcess (hstopped.calm _ hasleep (c₂.engine.clockAt wake) trivial)
    exact hcalm.1.2 hstopped.flag
  · rcases hstopped.ends hguarded hasleep with ⟨result, e', hdone, hcloses⟩
    have hlt : k < c₂.threads.length := (List.getElem?_eq_some_iff.mp hasleep).1
    simp only [resumed, hdone, Thread.ofProcess]
    exact ⟨⟨result, List.getElem?_set_self hlt⟩, hcloses⟩

end

/-! ## A diner -/

namespace Process

variable {α : Type}

/-- How long a process waits first, if it does. -/
def waits? : Process α → Option Nat
  | done _ _ => none
  | wait time _ _ => some time

/-- What a process does after its first stretch. -/
def onward : Process α → Engine → Process α
  | done a _ => done a
  | wait _ _ resume => resume

-- A process that waits first is asleep when its first stretch is over.
theorem ofProcess_of_waits {p : Process α} {time : Nat} (h : p.waits? = some time) :
    Thread.ofProcess p = (.asleep (p.after.now + time) p.onward, p.after) := by
  cases p with
  | done a e => simp only [waits?, reduceCtorEq] at h
  | wait time' e resume =>
      simp only [waits?, Option.some.injEq] at h
      rw [← h]
      rfl

end Process

/-- The name that is called, if an event tells a call. -/
def Event.called? : Event → Option String
  | call _ _ name _ _ => some name
  | _ => none

/-- An actor that stands on a food tile. -/
def kitchen : Engine :=
  { Engine.new (((World.empty ⟨1, 1⟩).insertTile (Tile.new "kitchen" .food ⟨0, 0⟩)).insertActor
      (Actor.new "bot" ⟨0, 0⟩)) 300 with running := [false] }

/-- The actor's interpreter, with an entry script. -/
def diner (source : String) (body : Block) : Interpreter :=
  { Interpreter.new 0 ⟨1000, 1000, 10⟩ (Actor.new "bot" ⟨0, 0⟩) with
    subroutines := .ofList [(mainName, ⟨body, .ofString source⟩)] }

/-- A meal, on its own and inside another call. -/
def meal : Expr :=
  .call "eat" [] ⟨⟨1, 1⟩, ⟨1, 6⟩⟩

def toldMeal : Expr :=
  .call "print" [.call "eat" [] ⟨⟨1, 7⟩, ⟨1, 12⟩⟩] ⟨⟨1, 1⟩, ⟨1, 13⟩⟩

section

open Joint

variable (source : String) (body : Block)

/-- The run of the entry script up to the pause of the meal. -/
def seating : Process (Outcome × Interpreter) :=
  (Job.main "bot").step (diner source body) (kitchen.clockAt 0)

def seated : Joint (Outcome × Interpreter) :=
  ⟨[.asleep 1000 (seating source body).onward], (seating source body).after⟩

/-- The same with a stop in the middle of the pause. -/
def interrupted : Joint (Outcome × Interpreter) :=
  { seated source body with
    engine := ((seated source body).engine.clockAt 500).ring (.stop 0) }

-- A script whose first wait is the pause of the meal, of one second like the meal itself.
private theorem run_interrupted (hwaits : (seating source body).waits? = some 1000)
    (hnow : (seating source body).after.now = 0)
    (htimers : ∀ t ∈ (seating source body).after.timers, t.due = 1000) :
    Run (ofParties kitchen [(.main "bot", diner source body)]) [.woke 0 0] (seated source body) ∧
      Turn (seated source body) (.rang 500 (.stop 0)) (interrupted source body) ∧
      (interrupted source body).Due 1000 := by
  have hfirst : Turn (ofParties kitchen [(.main "bot", diner source body)]) (.woke 0 0)
      (seated source body) := by
    have hasleep : (ofParties kitchen [(.main "bot", diner source body)]).threads[0]? =
        some (.asleep 0 ((Job.main "bot").step (diner source body))) := rfl
    have hturn := Turn.woke hasleep ⟨fun _ _ _ => Nat.zero_le _, fun _ _ => Nat.zero_le _⟩
    have hthread := Process.ofProcess_of_waits hwaits
    rw [hnow] at hthread
    rw [seating] at hthread
    rw [resumed, ofParties, start, hthread] at hturn
    exact hturn
  have hwakes : ∀ {time wake : Nat} {resume : Engine → Process (Outcome × Interpreter)},
      time ≤ 1000 → .asleep wake resume ∈ (seated source body).threads → time ≤ wake := by
    intro time wake resume hle hmem
    have heq := List.mem_singleton.mp hmem
    rw [Thread.asleep.injEq] at heq
    omega
  refine ⟨.turn .rest hfirst, .rang _ ⟨fun _ _ => hwakes (by decide), fun t ht => ?_⟩,
    fun _ _ => hwakes (Nat.le_refl _), fun t ht => ?_⟩
  · rw [htimers t ht]
    decide
  · have hsame : (interrupted source body).engine.timers = (seating source body).after.timers := by
      simp only [interrupted, seated, Engine.clockAt, Engine.ring, Engine.stop,
        Engine.setRunning, Engine.stopMotion, Engine.cancelAll_eq]
    rw [hsame] at ht
    exact Nat.le_of_eq (htimers t ht).symm

/-- A meal that is interrupted is the last thing its run does. -/
theorem stopped_comes_to_rest_meal :
    (Script.compile "eat()").map Parsed.body = .ok [.expr meal meal.span] ∧
      ∃ wake c c₁ c₂, Run (ofParties kitchen
          [(.main "bot", diner "eat()" [.expr meal meal.span])]) [.woke 0 0] c ∧
        Turn c (.rang 500 (.stop 0)) c₁ ∧ Turn c₁ (.woke 0 wake) c₂ ∧
        (∃ result, c₂.threads[0]? = some (.finished result)) ∧
        (c₁.engine.clockAt wake).Closes c₂.engine := by
  rcases run_interrupted "eat()" [.expr meal meal.span] (by decide +kernel) (by decide +kernel)
    (by decide +kernel) with ⟨hrun, hstop, hdue⟩
  have hasleep : (interrupted "eat()" [.expr meal meal.span]).threads[0]? =
      some (.asleep 1000 (seating "eat()" [.expr meal meal.span]).onward) := rfl
  have hturn := Turn.woke hasleep hdue
  have hguarded : (diner "eat()" [.expr meal meal.span]).Guarded := by
    intro name s hs
    by_cases hname : name = mainName
    · rw [hname] at hs
      rw [← Option.some.inj (show some _ = some s from hs)]
      exact ⟨List.pairwise_singleton _ _, trivial⟩
    · exact absurd (show none = some s from (if_neg fun h => hname h.symm).symm.trans hs) (by simp)
  have hrest := stopped_comes_to_rest (k := 0) (i := diner "eat()" [.expr meal meal.span])
    (by decide) rfl hrun ⟨0, List.mem_singleton.mpr rfl⟩ hstop .rest hturn
  exact ⟨by cbv, 1000, _, _, _, hrun, hstop, hturn, hrest.2 hguarded⟩

/-- A call around the meal is made although the meal was interrupted. -/
theorem not_stopped_comes_to_rest :
    (Script.compile "print(eat())").map Parsed.body = .ok [.expr toldMeal toldMeal.span] ∧
      ∃ c c₁ c₂, Run (ofParties kitchen
          [(.main "bot", diner "print(eat())" [.expr toldMeal toldMeal.span])]) [.woke 0 0] c ∧
        Turn c (.rang 500 (.stop 0)) c₁ ∧ Turn c₁ (.woke 0 1000) c₂ ∧
        c₁.engine.log.filterMap Event.called? = ["eat", "main"] ∧
        c₂.engine.log.filterMap Event.called? = ["print", "eat", "main"] := by
  rcases run_interrupted "print(eat())" [.expr toldMeal toldMeal.span] (by decide +kernel)
    (by decide +kernel) (by decide +kernel) with ⟨hrun, hstop, hdue⟩
  exact ⟨by cbv, _, _, _, hrun, hstop, .woke rfl hdue, by decide +kernel, by decide +kernel⟩

end

end Farmhand
