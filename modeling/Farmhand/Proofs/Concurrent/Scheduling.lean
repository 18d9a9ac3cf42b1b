import Farmhand.Proofs.Concurrent.Turns
import Farmhand.Proofs.Engine.Quiet

/-!
# The Scheduler as an Interleaving

The scheduler of the library lets things happen in one fixed order: the processes begin one after
the other, then the tasks that are due end, then come the alarms and then the first process whose
wait is over. Whatever it comes to is what some run of turns comes to. So what holds after all runs,
in every order of the turns, holds of what the scheduler does, and of all that a simulation does
with several jobs.

## Main definitions

* `Engine.Punctual`: No timer is overdue.

## Theorems

* `Joint.run_launch`: The start of processes is a run of turns.
* `Joint.run_runFor`: So is what they do from then on.
* `Engine.run_isRun`: What the scheduler comes to with several jobs is what a run comes to.
-/

namespace Farmhand

/-! ## Threads -/

namespace Thread

variable {α : Type}

theorem earliest?_eq_none_iff (threads : List (Thread α)) :
    earliest? threads = none ↔ ∀ t ∈ threads, t.wake? = none := by
  induction threads with
  | nil => simp [earliest?]
  | cons t rest ih =>
      rw [earliest?, List.forall_mem_cons, ← ih]
      cases t.wake? with
      | none => simp
      | some wake => cases earliest? rest <;> simp

-- The earliest end of a wait is the end of one, and none comes before it.
theorem earliest?_eq_some {threads : List (Thread α)} {time : Nat}
    (h : earliest? threads = some time) :
    (∃ resume, .asleep time resume ∈ threads) ∧
      ∀ wake resume, .asleep wake resume ∈ threads → time ≤ wake := by
  induction threads generalizing time with
  | nil => simp only [earliest?, reduceCtorEq] at h
  | cons t rest ih =>
      cases t with
      | finished result =>
          have hrest := ih (show earliest? rest = some time by simpa [earliest?, wake?] using h)
          rcases hrest.1 with ⟨resume, hmem⟩
          refine ⟨⟨resume, List.mem_cons_of_mem _ hmem⟩, fun wake resume' hmem' => ?_⟩
          rcases List.mem_cons.mp hmem' with heq | htail
          · exact absurd heq (by simp)
          · exact hrest.2 wake resume' htail
      | asleep own go =>
          cases hearliest : earliest? rest with
          | none =>
              simp only [earliest?, wake?, hearliest, Option.some.injEq] at h
              have hnone := (earliest?_eq_none_iff rest).mp hearliest
              refine ⟨⟨go, h ▸ List.mem_cons_self⟩, fun wake resume' hmem' => ?_⟩
              rcases List.mem_cons.mp hmem' with heq | htail
              · exact Nat.le_of_eq (h.symm.trans (Thread.asleep.inj heq).1.symm)
              · exact absurd (hnone _ htail) (by simp [wake?])
          | some other =>
              simp only [earliest?, wake?, hearliest, Option.some.injEq] at h
              have hrest := ih hearliest
              rcases hrest.1 with ⟨resume, hmem⟩
              refine ⟨?_, fun wake resume' hmem' => ?_⟩
              · rcases Nat.le_total own other with hle | hle
                · rw [Nat.min_eq_left hle] at h
                  exact ⟨go, h ▸ List.mem_cons_self⟩
                · rw [Nat.min_eq_right hle] at h
                  exact ⟨resume, h ▸ List.mem_cons_of_mem _ hmem⟩
              · rcases List.mem_cons.mp hmem' with heq | htail
                · rw [(Thread.asleep.inj heq).1, ← h]
                  exact Nat.min_le_left _ _
                · rw [← h]
                  exact Nat.le_trans (Nat.min_le_right _ _) (hrest.2 wake resume' htail)

-- The first process that waits until a time goes on, and the others stay as they are.
theorem resumeFirst_eq {threads : List (Thread α)} {time : Nat}
    (h : ∃ resume, .asleep time resume ∈ threads) (e : Engine) :
    ∃ k resume, threads[k]? = some (.asleep time resume) ∧
      resumeFirst time e threads =
        (threads.set k (ofProcess (resume e)).1, (ofProcess (resume e)).2) := by
  induction threads with
  | nil =>
      rcases h with ⟨resume, hmem⟩
      exact absurd hmem List.not_mem_nil
  | cons t rest ih =>
      cases t with
      | finished result =>
          have htail : ∃ resume, .asleep time resume ∈ rest := by
            rcases h with ⟨resume, hmem⟩
            exact ⟨resume, (List.mem_cons.mp hmem).resolve_left (by simp)⟩
          rcases ih htail with ⟨k, resume, hk, heq⟩
          exact ⟨k + 1, resume, hk, by rw [resumeFirst, heq, List.set_cons_succ]⟩
      | asleep wake go =>
          by_cases hwake : wake = time
          · refine ⟨0, go, by rw [hwake]; rfl, ?_⟩
            rw [resumeFirst, if_pos hwake, List.set_cons_zero]
          · have htail : ∃ resume, .asleep time resume ∈ rest := by
              rcases h with ⟨resume, hmem⟩
              refine ⟨resume, (List.mem_cons.mp hmem).resolve_left fun heq => ?_⟩
              exact hwake (Thread.asleep.inj heq).1.symm
            rcases ih htail with ⟨k, resume, hk, heq⟩
            refine ⟨k + 1, resume, hk, ?_⟩
            rw [resumeFirst, if_neg hwake, heq, List.set_cons_succ]

-- The results of processes that are all over stand in the places of these.
theorem getElem?_results {threads : List (Thread α)} (h : ∀ t ∈ threads, t.wake? = none) {k : Nat}
    {result : α} (hk : threads[k]? = some (.finished result)) :
    (results threads)[k]? = some result := by
  induction threads generalizing k with
  | nil => simp only [List.getElem?_nil, reduceCtorEq] at hk
  | cons t rest ih =>
      cases t with
      | asleep wake resume => exact absurd (h _ List.mem_cons_self) (by simp [wake?])
      | finished first =>
          cases k with
          | zero =>
              simp only [List.getElem?_cons_zero, Option.some.injEq, finished.injEq] at hk
              rw [results, List.getElem?_cons_zero, hk]
          | succ k => exact ih (fun t ht => h t (List.mem_cons_of_mem _ ht)) hk

end Thread

namespace Joint

variable {α : Type} {threads : List (Thread α)} {e : Engine} {time : Nat}

theorem unstopped_nil : Unstopped [] :=
  fun _ hm => absurd hm List.not_mem_nil

theorem Unstopped.append {first later : List Moment} (h : Unstopped first) (h' : Unstopped later) :
    Unstopped (first ++ later) := by
  intro m hm
  rcases List.mem_append.mp hm with hf | hl
  · exact h m hf
  · exact h' m hl

/-! ## From one moment to the next -/

-- Timers that run out up to a time at which no wait is over.
theorem run_fireDue (hwakes : ∀ wake resume, .asleep wake resume ∈ threads → time ≤ wake)
    (count : Nat) (e : Engine) :
    ∃ moments, Run ⟨threads, e⟩ moments ⟨threads, Engine.fireDue time count e⟩ ∧
      Unstopped moments := by
  induction count generalizing e with
  | zero => exact ⟨[], .rest, unstopped_nil⟩
  | succ count ih =>
      rw [Engine.fireDue_succ]
      cases ht : Engine.earliest? e.timers with
      | none => exact ⟨[], .rest, unstopped_nil⟩
      | some t =>
          by_cases hdue : t.due ≤ time
          · simp only [hdue, if_true]
            have hturn : Turn ⟨threads, e⟩ (.expired t) ⟨threads, (e.atDue t).fire t⟩ :=
              .expired (Engine.earliest?_mem ht) ⟨fun wake resume hmem =>
                Nat.le_trans hdue (hwakes wake resume hmem), Engine.earliest?_le ht⟩
            rcases ih ((e.atDue t).fire t) with ⟨moments, hrun, hfree⟩
            refine ⟨[.expired t] ++ moments, Run.append (.turn .rest hturn) hrun, ?_⟩
            refine Unstopped.append (fun m hm => ?_) hfree
            rw [List.mem_singleton.mp hm]
            exact id
          · simp only [hdue, if_false]
            exact ⟨[], .rest, unstopped_nil⟩

-- After them nothing is to happen before that time.
theorem due_fireDue (hwakes : ∀ wake resume, .asleep wake resume ∈ threads → time ≤ wake)
    (e : Engine) : (Joint.mk threads (Engine.fireDue time e.pending e)).Due time :=
  ⟨hwakes, fun t ht => Nat.le_of_lt (Engine.fireDue_quiet (Nat.le_refl _) t ht)⟩

-- An alarm that comes before the end of every wait.
theorem run_alarm (hwakes : ∀ wake resume, .asleep wake resume ∈ threads → time ≤ wake)
    (e : Engine) (action : AlarmAction) :
    ∃ moments, Run ⟨threads, e⟩ moments ⟨threads, (e.advanceTo time).ring action⟩ := by
  rcases run_fireDue hwakes e.pending e with ⟨moments, hrun, _⟩
  exact ⟨_, .turn hrun (.rang action (due_fireDue hwakes e))⟩

-- The end of the first wait.
theorem run_resumeFirst (h : Thread.earliest? threads = some time) (e : Engine) :
    ∃ moments, Run ⟨threads, e⟩ moments
        ⟨(Thread.resumeFirst time (e.advanceTo time) threads).1,
          (Thread.resumeFirst time (e.advanceTo time) threads).2⟩ ∧ Unstopped moments := by
  have hearliest := Thread.earliest?_eq_some h
  rcases run_fireDue hearliest.2 e.pending e with ⟨moments, hrun, hfree⟩
  rcases Thread.resumeFirst_eq hearliest.1 (e.advanceTo time) with ⟨k, resume, hk, heq⟩
  rw [heq]
  refine ⟨_, .turn hrun (.woke hk (due_fireDue hearliest.2 e)), hfree.append fun m hm => ?_⟩
  rw [List.mem_singleton.mp hm]
  exact id

/-- What processes under way come to is what a run of turns comes to. Without alarms, nothing is
    stopped in it. -/
theorem run_runFor {alarms : List Alarm} {count : Nat} {results : List α} {e' : Engine}
    (h : Engine.runFor threads alarms e count = some (results, e')) :
    ∃ moments c, Run ⟨threads, e⟩ moments c ∧ (∀ t ∈ c.threads, t.wake? = none) ∧
      Thread.results c.threads = results ∧ c.engine = e' ∧ (alarms = [] → Unstopped moments) := by
  -- By induction on the moments that are allowed.
  induction count generalizing threads alarms e with
  | zero => simp only [Engine.runFor, reduceCtorEq] at h
  | succ count ih =>
      -- What has happened up to some state comes before what happens from it on.
      have hthen : ∀ {threads₁ : List (Thread α)} {e₁ : Engine} {first : List Moment}
          {alarms₁ : List Alarm}, Run ⟨threads, e⟩ first ⟨threads₁, e₁⟩ →
          Engine.runFor threads₁ alarms₁ e₁ count = some (results, e') →
          (alarms = [] → Unstopped first ∧ alarms₁ = []) →
          ∃ moments c, Run ⟨threads, e⟩ moments c ∧ (∀ t ∈ c.threads, t.wake? = none) ∧
            Thread.results c.threads = results ∧ c.engine = e' ∧
            (alarms = [] → Unstopped moments) := by
        intro threads₁ e₁ first alarms₁ hfirst hrest hfree
        rcases ih hrest with ⟨later, c, hrun, hover, hresults, hengine, hfree'⟩
        exact ⟨first ++ later, c, hfirst.append hrun, hover, hresults, hengine, fun halarms =>
          (hfree halarms).1.append (hfree' (hfree halarms).2)⟩
      rw [Engine.runFor] at h
      cases halarm : Engine.nextAlarm? alarms with
      | none =>
          cases hearliest : Thread.earliest? threads with
          | none =>
              simp only [halarm, hearliest, Option.some.injEq, Prod.mk.injEq] at h
              exact ⟨[], _, .rest, (Thread.earliest?_eq_none_iff threads).mp hearliest, h.1, h.2,
                fun _ => unstopped_nil⟩
          | some time =>
              simp only [halarm, hearliest] at h
              rcases run_resumeFirst hearliest e with ⟨first, hfirst, hfree⟩
              exact hthen hfirst h fun halarms => ⟨hfree, halarms⟩
      | some next =>
          have hsome : alarms ≠ [] := by
            rintro rfl
            simp only [Engine.nextAlarm?, reduceCtorEq] at halarm
          cases hearliest : Thread.earliest? threads with
          | none =>
              simp only [halarm, hearliest] at h
              have hnone := (Thread.earliest?_eq_none_iff threads).mp hearliest
              -- Nobody sleeps, so nobody has to wake before the alarm.
              have hwakes : ∀ wake resume, .asleep wake resume ∈ threads → next.1.due ≤ wake :=
                fun wake resume hmem => absurd (hnone _ hmem) (by simp [Thread.wake?])
              rcases run_alarm hwakes e next.1.action with ⟨first, hfirst⟩
              exact hthen hfirst h fun halarms => absurd halarms hsome
          | some time =>
              simp only [halarm, hearliest] at h
              split at h
              · next hdue =>
                rcases run_alarm (fun wake resume hmem => Nat.le_trans hdue
                  ((Thread.earliest?_eq_some hearliest).2 wake resume hmem)) e next.1.action with
                  ⟨first, hfirst⟩
                exact hthen hfirst h fun halarms => absurd halarms hsome
              · rcases run_resumeFirst hearliest e with ⟨first, hfirst, _⟩
                exact hthen hfirst h fun halarms => absurd halarms hsome

end Joint

/-! ## The start -/

/-- No timer is overdue. -/
def Engine.Punctual (e : Engine) : Prop :=
  ∀ t ∈ e.timers, e.now ≤ t.due

theorem Engine.Punctual.frame {e e' : Engine} (h : e.Punctual) (hnow : e'.now = e.now)
    (htimers : e'.timers = e.timers) : e'.Punctual := by
  intro t ht
  rw [hnow]
  exact h t (htimers ▸ ht)

/-- Jobs take no time but in their waits, and start no timers that are overdue. -/
theorem Step.hosts_punctual :
    Step.Hosts Engine.Punctual (fun e e' => e'.now = e.now) fun _ => True where
  refl _ := rfl
  trans _ _ _ h₁ h₂ := h₂.trans h₁
  kin hi _ := hi
  sees _ _ _ := trivial
  tells he _ _ _ _ := ⟨he.frame rfl rfl, rfl⟩
  calls _ _ _ _ he _ := ⟨he.frame rfl rfl, rfl⟩
  requests _ he := ⟨he.frame rfl rfl, rfl⟩
  writes he _ _ := ⟨he.frame rfl rfl, rfl⟩
  invokes {i e} tile name he _ := by
    refine ⟨?_, (Engine.aside_invoke e true i.actor.id tile name).now⟩
    refine Engine.invoke_induction he true i.actor.id tile name
      (fun _ _ _ _ _ he' _ _ => he'.frame rfl rfl) fun _ _ e' task atEnd he' _ hstart _ => ?_
    intro t ht
    rw [Engine.started_timers, List.mem_append] at ht
    rw [Engine.started_now]
    rcases ht with hold | hnew
    · exact he' t hold
    · rw [List.mem_singleton.mp hnew, ← hstart]
      exact Nat.le_add_right _ _
  rests he _ := ⟨he.frame rfl rfl, rfl⟩
  starts he _ := ⟨he.frame rfl rfl, rfl⟩

namespace Joint

variable {α : Type}

/-- The start of processes, one after the other, is a run of turns. -/
theorem run_launch {time : Nat} {processes : List (Engine → Process α)}
    (hkeeps : ∀ p ∈ processes,
      (Thread.asleep time p).Keeps Engine.Punctual fun e e' => e'.now = e.now)
    {begun : List (Thread α)} {e : Engine} (hnow : e.now = time) (he : e.Punctual)
    (hbegun : ∀ wake resume, .asleep wake resume ∈ begun → time ≤ wake) :
    ∃ moments, Run ⟨begun ++ processes.map (.asleep time), e⟩ moments
      ⟨begun ++ (e.launch processes).1, (e.launch processes).2⟩ ∧ Unstopped moments := by
  induction processes generalizing begun e with
  | nil => exact ⟨[], .rest, unstopped_nil⟩
  | cons p rest ih =>
      -- The clock is there already, so waking the process is its first stretch and nothing else.
      have hclock : e.clockAt time = e := by
        unfold Engine.clockAt
        rw [hnow, Nat.max_self, ← hnow]
      have hstretch := Thread.keeps_ofProcess (hkeeps p List.mem_cons_self e he)
      have hturn : Turn ⟨begun ++ (p :: rest).map (.asleep time), e⟩ (.woke begun.length time)
          ⟨(begun ++ [(Thread.ofProcess (p e)).1]) ++ rest.map (.asleep time),
            (Thread.ofProcess (p e)).2⟩ := by
        have hasleep : (begun ++ (p :: rest).map (Thread.asleep time))[begun.length]? =
            some (.asleep time p) := by
          rw [List.getElem?_append_right (Nat.le_refl _), Nat.sub_self]
          rfl
        have hwoke := Turn.woke (c := ⟨begun ++ (p :: rest).map (.asleep time), e⟩) hasleep
          ⟨fun wake resume hmem => ?_, fun t ht => hnow ▸ he t ht⟩
        · rw [resumed, hclock] at hwoke
          simpa using hwoke
        · rcases List.mem_append.mp hmem with hb | hr
          · exact hbegun wake resume hb
          · rcases List.mem_map.mp hr with ⟨q, _, heq⟩
            exact Nat.le_of_eq (Thread.asleep.inj heq).1
      have hbegun' : ∀ wake resume,
          .asleep wake resume ∈ begun ++ [(Thread.ofProcess (p e)).1] → time ≤ wake := by
        intro wake resume hmem
        rcases List.mem_append.mp hmem with hb | hnew
        · exact hbegun wake resume hb
        · have hle := Thread.now_le_of_ofProcess (List.mem_singleton.mp hnew).symm
          rw [hstretch.1, hnow] at hle
          exact hle
      rcases ih (fun q hq => hkeeps q (List.mem_cons_of_mem _ hq)) (hstretch.1.trans hnow)
        hstretch.2.1 hbegun' with ⟨moments, hrun, hfree⟩
      refine ⟨[.woke begun.length time] ++ moments, Run.append (.turn .rest hturn) ?_, ?_⟩
      · simpa [Engine.launch] using hrun
      · refine Unstopped.append (fun m hm => ?_) hfree
        rw [List.mem_singleton.mp hm]
        exact id

end Joint

/-- What the scheduler comes to with several jobs and alarms is what a run of turns comes to;
    without alarms, nothing is stopped in it. -/
theorem Engine.run_isRun {e e' : Engine} (he : e.Punctual) {parties : List (Job × Interpreter)}
    {alarms : List Alarm} {count : Nat} {results : List (Outcome × Interpreter)}
    (h : e.run (parties.map fun (job, i) => job.step i) alarms count = some (results, e')) :
    ∃ moments c, (Joint.ofParties e parties).Run moments c ∧
      (∀ t ∈ c.threads, t.wake? = none) ∧ Thread.results c.threads = results ∧ c.engine = e' ∧
      (alarms = [] → Joint.Unstopped moments) := by
  have hkeeps : ∀ p ∈ parties.map (fun (job, i) => Job.step job i),
      (Thread.asleep e.now p).Keeps Engine.Punctual fun e e' => e'.now = e.now := by
    intro p hp
    rcases List.mem_map.mp hp with ⟨⟨job, i⟩, _, rfl⟩
    exact fun e₁ he₁ => (Step.hosts_punctual.step_keeps job i e₁ he₁ trivial).mono (fun _ _ => id)
      fun _ _ => trivial
  have hbegun : ∀ wake resume, .asleep wake resume ∈ ([] : List (Thread (Outcome × Interpreter))) →
      e.now ≤ wake :=
    fun _ _ hmem => absurd hmem List.not_mem_nil
  rcases Joint.run_launch hkeeps rfl he hbegun with ⟨first, hfirst, hfree⟩
  rcases Joint.run_runFor h with ⟨later, c, hlater, hover, hresults, hengine, hfree'⟩
  exact ⟨first ++ later, c, hfirst.append hlater, hover, hresults, hengine, fun halarms =>
    hfree.append (hfree' halarms)⟩

end Farmhand
