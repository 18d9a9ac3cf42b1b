import Farmhand.Proofs.Machine.Breaking
import Farmhand.Proofs.Movement.Motion

/-!
# Motions That Cross

Many motions can be under way at once, also of the same actor. They share one number, the epoch,
that every stop of motion raises. A motion remembers the epoch in which it began, and at its end it
looks whether that is still the epoch. Since the epoch never goes back, what a motion finds at its
end tells whether motion was stopped since it began, whatever else was begun, ended or stopped.

Motions are asked for here at any time, and they end, tasks end and motion is stopped in any order.
No motion ends before its time, but it may end late, after other things that came later. The runs in
which all happens when it is due are among these. A motion whose time does not fit has no end: it
breaks off where it is asked for.

## Main definitions

* `World.SameRoom`, `Engine.GoesOn`: Nothing that motions ask for has changed.
* `Incident`, `Joint.Passes`, `Joint.Traffic`: What happens while motions are under way.
* `Incident.Ends`: The end of a motion in what happened.
* `Joint.Awaits`: A motion that waits for its end.
* `Joint.Settles`, `Joint.Fares`: What a step does for a motion, and how the motion fares.

## Theorems

* `Joint.Passes.keeps`, `Joint.Traffic.epoch`: The epoch counts the stops, and nothing else does.
* `Joint.Traffic.asleep`: A motion stays as it is until its own end.
* `Joint.Awaits.finished_iff`: How a motion comes out that waits for its end.
* `Joint.Traffic.fares`: A motion arrives exactly if it could begin and was not stopped, and
  breaks off exactly if its time does not fit.
-/

namespace Farmhand

/-! ## Room for motions -/

namespace World

variable {w w' w'' : World} {id : String} {p : Position} {a : Actor}

/-- The same bounds, and the same actors with the same speeds. -/
structure SameRoom (w w' : World) : Prop where
  bounds : w'.bounds = w.bounds
  speeds : ∀ a, w'.speed? a = w.speed? a

/-- Tasks leave the room as it is. -/
theorem attends_sameRoom : Attends SameRoom where
  self _ := ⟨rfl, fun _ => rfl⟩
  trans h h' := ⟨h'.bounds.trans h.bounds, fun a => (h'.speeds a).trans (h.speeds a)⟩
  task w task key := ⟨followed_bounds.task w task key, attends_speeds.task w task key⟩
  state _ _ _ := ⟨rfl, fun _ => rfl⟩

-- A new place of an actor leaves the bounds and all speeds as they are.
theorem sameRoom_updateActor {patch : ActorPatch} (h : w.updateActor id patch = .ok w') :
    w.SameRoom w' :=
  ⟨bounds_updateActor h, speed?_updateActor h⟩

-- A place that an actor could take can be taken later.
theorem SameRoom.takes (h : w.SameRoom w') (hp : w.bounds.contains p = true)
    (ha : w.actors.get? id = some a) :
    ∃ w'', w'.updateActor id { position := some p } = .ok w'' := by
  have hspeed : w'.speed? id = some a.speed := by
    rw [h.speeds, speed?, ha]
    rfl
  rcases Option.map_eq_some_iff.mp hspeed with ⟨b, hb, _⟩
  exact updateActor_position hb (h.bounds.symm ▸ hp)

end World

namespace Engine

/-- Motion was not stopped, and it has the same room. -/
structure GoesOn (e e' : Engine) : Prop where
  room : e.world.SameRoom e'.world
  epoch : e'.motionEpoch = e.motionEpoch

variable {e e' e'' : Engine}

theorem goesOn_self (e : Engine) : e.GoesOn e :=
  ⟨World.attends_sameRoom.self _, rfl⟩

theorem GoesOn.trans (h : e.GoesOn e') (h' : e'.GoesOn e'') : e.GoesOn e'' :=
  ⟨World.attends_sameRoom.trans h.room h'.room, h'.epoch.trans h.epoch⟩

-- A timer that runs out stops no motion.
theorem goesOn_fire (e : Engine) (t : Timer) : e.GoesOn ((e.atDue t).fire t) :=
  ⟨World.attends_sameRoom.fire (e.atDue t) t, (aside_fire (e.atDue t) t).motionEpoch⟩

-- A stop raises the epoch.
theorem ring_stops (e : Engine) (action : AlarmAction) :
    e.world.SameRoom (e.ring action).world ∧
      (e.ring action).motionEpoch = e.motionEpoch + 1 := by
  cases action with
  | stopMotion => exact ⟨World.attends_sameRoom.self _, rfl⟩
  | stop handle =>
      refine ⟨World.attends_sameRoom.cancelAll (e.setRunning handle false), ?_⟩
      simp only [ring, stop, stopMotion, cancelAll_eq, setRunning]

end Engine

namespace Process

/-- No motion stops another one or takes its room. -/
theorem keeps_arrival (id : String) (target : Position) (epoch : Nat) (e : Engine) :
    (arrival id target epoch e).Keeps (fun _ => True) Engine.GoesOn (fun _ => True) e := by
  rcases arrival_cases id target epoch e with ⟨w, heq, _, hw⟩ | ⟨heq, _⟩
  · rw [heq]
    exact ⟨⟨World.sameRoom_updateActor hw, rfl⟩, trivial, trivial⟩
  · rw [heq]
    exact ⟨Engine.goesOn_self e, trivial, trivial⟩

-- A motion writes the place of its actor, and counts that it was asked for.
theorem keeps_move (id : String) (target : Position) (e : Engine) :
    (move id target e).Keeps (fun _ => True) Engine.GoesOn (fun _ => True) e := by
  have hasked : e.GoesOn { e with moveRequests := e.moveRequests + 1 } :=
    ⟨World.attends_sameRoom.self _, rfl⟩
  rcases move_cases id target e with ⟨_, heq⟩ | ⟨_, heq⟩ | ⟨_, heq⟩ | ⟨time, _, _, heq⟩
  · rw [heq]
    exact ⟨hasked, trivial, trivial⟩
  · rw [heq]
    exact ⟨hasked, trivial, trivial⟩
  · rw [heq]
    exact (keeps_arrival id target _ _).after (fun _ _ _ => Engine.GoesOn.trans) hasked
  · rw [heq]
    exact ⟨hasked, trivial, fun e' _ => keeps_arrival id target _ e'⟩

end Process

/-! ## Traffic -/

/-- What happens while motions are under way: another one is asked for, or one of the things that
    happen by themselves. -/
inductive Incident where
  | asked (time : Nat) (id : String) (target : Position)
  | turn (m : Moment)

namespace Incident

/-- A stop. -/
def IsStop : Incident → Prop
  | asked _ _ _ => False
  | turn m => m.IsStop

/-- In what happened, some of it came first, and then a motion ended, by its place among the
    motions. -/
def Ends (k : Nat) (between happened : List Incident) : Prop :=
  ∃ late rest, happened = between ++ .turn (.woke k late) :: rest

end Incident

/-- What a motion comes to: whether it arrived, unless it broke off. -/
abbrev Landing :=
  Except Overflow Bool

namespace Joint

/-- The state when one more process has begun beside the others. -/
def joined (c : Joint Landing) (p : Process Landing) : Joint Landing :=
  ⟨c.threads ++ [(Thread.ofProcess p).1], (Thread.ofProcess p).2⟩

/-- One step while motions are under way. The processes are the motions that were asked for, in
    order. No step has to wait for what is due before it. -/
inductive Passes (c : Joint Landing) : Incident → Joint Landing → Prop
  | asked (time : Nat) (id : String) (target : Position) :
    Passes c (.asked time id target)
      (c.joined (Process.move id target (c.engine.clockAt time)))
  | woke {k wake late : Nat} {resume : Engine → Process Landing}
      (hasleep : c.threads[k]? = some (.asleep wake resume)) (hover : wake ≤ late) :
    Passes c (.turn (.woke k late)) (c.resumed k (resume (c.engine.clockAt late)))
  | expired {t : Timer} (ht : t ∈ c.engine.timers) :
    Passes c (.turn (.expired t)) { c with engine := (c.engine.atDue t).fire t }
  | rang (time : Nat) (action : AlarmAction) :
    Passes c (.turn (.rang time action))
      { c with engine := (c.engine.clockAt time).ring action }

/-- Any number of steps. -/
inductive Traffic : Joint Landing → List Incident → Joint Landing → Prop
  | rest (c : Joint Landing) : Traffic c [] c
  | passes {c c' c'' : Joint Landing} {x : Incident} {later : List Incident}
      (hpasses : Passes c x c') (htraffic : Traffic c' later c'') : Traffic c (x :: later) c''

/-- What a step does for a motion. Either the motion has arrived with it, and its actor is at its
    target, or it has not, and the world is as it was. -/
def Settles (k : Nat) (id : String) (target : Position) (c c' : Joint Landing) : Prop :=
  c'.threads[k]? = some (.finished (.ok true)) ∧ c.engine.world.Moved id target c'.engine.world ∨
    c'.threads[k]? ≠ some (.finished (.ok true)) ∧ c'.engine.world = c.engine.world

/-- All processes are such that they stop no motion and take no room. -/
def Harmless (c : Joint Landing) : Prop :=
  ∀ t ∈ c.threads, t.Keeps (fun _ => True) Engine.GoesOn

variable {c c' c'' : Joint Landing} {x : Incident} {k : Nat} {happened : List Incident}

/-- What happens in the order of time can happen here. -/
theorem Turn.passes {m : Moment} (h : Turn c m c') : Passes c (.turn m) c' := by
  cases h with
  | woke hasleep _ => exact .woke hasleep (Nat.le_refl _)
  | expired ht _ => exact .expired ht
  | rang action _ => exact .rang _ action

theorem Traffic.split {earlier later : List Incident} (h : Traffic c (earlier ++ later) c'') :
    ∃ c', Traffic c earlier c' ∧ Traffic c' later c'' := by
  induction earlier generalizing c with
  | nil => exact ⟨c, .rest c, h⟩
  | cons x rest ih =>
      cases h with
      | passes hpasses htraffic =>
          rcases ih htraffic with ⟨c', hbefore, hafter⟩
          exact ⟨c', .passes hpasses hbefore, hafter⟩

/-! ## The epoch -/

/-- A step leaves the room of motions as it is, and raises the epoch exactly if it is a stop. -/
theorem Passes.keeps (h : Passes c x c') (hc : c.Harmless) :
    c'.Harmless ∧ c.engine.world.SameRoom c'.engine.world ∧
      (x.IsStop ∧ c'.engine.motionEpoch = c.engine.motionEpoch + 1 ∨
        ¬ x.IsStop ∧ c'.engine.motionEpoch = c.engine.motionEpoch) := by
  cases h with
  | asked time id target =>
      have hstretch := Thread.keeps_ofProcess
        (Process.keeps_move id target (c.engine.clockAt time))
      refine ⟨fun t ht => ?_, hstretch.1.room, .inr ⟨nofun, hstretch.1.epoch⟩⟩
      rcases List.mem_append.mp ht with hold | hnew
      · exact hc t hold
      · exact List.mem_singleton.mp hnew ▸ hstretch.2.2
  | @woke k wake late resume hasleep hover =>
      have hthread := hc _ (List.mem_of_getElem? hasleep)
      have hstretch := Thread.keeps_ofProcess (hthread (c.engine.clockAt late) trivial)
      refine ⟨fun t ht => ?_, hstretch.1.room, .inr ⟨nofun, hstretch.1.epoch⟩⟩
      rcases List.mem_or_eq_of_mem_set ht with hold | hnew
      · exact hc t hold
      · exact hnew ▸ hstretch.2.2
  | @expired t ht =>
      have hgoes := Engine.goesOn_fire c.engine t
      exact ⟨hc, hgoes.room, .inr ⟨nofun, hgoes.epoch⟩⟩
  | rang time action =>
      have hstops := Engine.ring_stops (c.engine.clockAt time) action
      exact ⟨hc, hstops.1, .inl ⟨trivial, hstops.2⟩⟩

theorem Traffic.keeps (h : Traffic c happened c') (hc : c.Harmless) :
    c'.Harmless ∧ c.engine.world.SameRoom c'.engine.world := by
  induction h with
  | rest c => exact ⟨hc, World.attends_sameRoom.self _⟩
  | passes hpasses _ ih =>
      rcases hpasses.keeps hc with ⟨hharmless, hroom, _⟩
      rcases ih hharmless with ⟨hlater, hrest⟩
      exact ⟨hlater, World.attends_sameRoom.trans hroom hrest⟩

/-- The epoch never goes back, and it is what it was exactly if there was no stop. -/
theorem Traffic.epoch (h : Traffic c happened c') (hc : c.Harmless) :
    c.engine.motionEpoch ≤ c'.engine.motionEpoch ∧
      (c'.engine.motionEpoch = c.engine.motionEpoch ↔ ∀ x ∈ happened, ¬ x.IsStop) := by
  induction h with
  | rest c => exact ⟨Nat.le_refl _, fun _ => List.forall_mem_nil _, fun _ => rfl⟩
  | passes hpasses _ ih =>
      rcases hpasses.keeps hc with ⟨hharmless, _, hepoch⟩
      rcases ih hharmless with ⟨hle, hsame⟩
      rw [List.forall_mem_cons, ← hsame]
      rcases hepoch with ⟨hstop, hraised⟩ | ⟨hstop, hleft⟩
      · exact ⟨by omega, fun heq => absurd heq (by omega), fun hnone => absurd hstop hnone.1⟩
      · rw [← hleft]
        exact ⟨hle, fun heq => ⟨hstop, heq⟩, fun hnone => hnone.2⟩

/-! ## One motion among the others -/

/-- A process stays as it is in a step, unless the step is its own. -/
theorem Passes.thread (h : Passes c x c') {t : Thread Landing} (ht : c.threads[k]? = some t) :
    c'.threads[k]? = some t ∨ ∃ late wake resume, x = .turn (.woke k late) ∧ wake ≤ late ∧
      t = .asleep wake resume ∧ c' = c.resumed k (resume (c.engine.clockAt late)) := by
  cases h with
  | asked time id target =>
      exact .inl ((List.getElem?_append_left (List.getElem?_eq_some_iff.mp ht).1).trans ht)
  | @woke j wake late resume hasleep hover =>
      by_cases hj : j = k
      · rw [hj] at hasleep ⊢
        exact .inr ⟨late, wake, resume, rfl, hover, Option.some.inj (ht.symm.trans hasleep), rfl⟩
      · exact .inl ((List.getElem?_set_ne hj).trans ht)
  | expired _ => exact .inl ht
  | rang _ _ => exact .inl ht

-- What is over stays over.
theorem Traffic.finished (h : Traffic c happened c') {r : Landing}
    (hr : c.threads[k]? = some (.finished r)) : c'.threads[k]? = some (.finished r) := by
  induction h with
  | rest c => exact hr
  | passes hpasses _ ih =>
      rcases hpasses.thread hr with hsame | ⟨_, _, _, _, _, heq, _⟩
      · exact ih hsame
      · cases heq

/-- A process that waits is still the same after some steps, or it went on in one of them. -/
theorem Traffic.asleep (h : Traffic c happened c') {wake : Nat} {resume : Engine → Process Landing}
    (hasleep : c.threads[k]? = some (.asleep wake resume)) :
    c'.threads[k]? = some (.asleep wake resume) ∨
      ∃ between late rest d, happened = between ++ .turn (.woke k late) :: rest ∧ wake ≤ late ∧
        Traffic c between d ∧ d.threads[k]? = some (.asleep wake resume) ∧
        Traffic (d.resumed k (resume (d.engine.clockAt late))) rest c' := by
  induction h with
  | rest c => exact .inl hasleep
  | @passes c d₁ c' x later hpasses htraffic ih =>
      rcases hpasses.thread hasleep with hsame | ⟨late, _, _, rfl, hover, heq, rfl⟩
      · rcases ih hsame with hstill | ⟨between, late, rest, d, rfl, hover, hbefore, hd, hafter⟩
        · exact .inl hstill
        · exact .inr ⟨x :: between, late, rest, d, rfl, hover, .passes hpasses hbefore, hd, hafter⟩
      · cases heq
        exact .inr ⟨[], late, later, c, rfl, hover, .rest c, hasleep, htraffic⟩

/-- A motion that waits for its end, and could reach its target now. -/
structure Awaits (c : Joint Landing) (k : Nat) (id : String) (target : Position) (wake : Nat) :
    Prop where
  thread : c.threads[k]? = some (.asleep wake (Process.arrival id target c.engine.motionEpoch))
  inside : c.engine.world.bounds.contains target = true
  actor : ∃ a, c.engine.world.actors.get? id = some a
  harmless : c.Harmless

variable {id : String} {target : Position} {wake late : Nat}

-- The end of a motion that was not there too early, and finds room for its actor.
theorem settles_arrival {epoch : Nat} (hk : k < c.threads.length)
    (hroom : ∃ w, c.engine.world.updateActor id { position := some target } = .ok w) :
    let c' := c.resumed k (Process.arrival id target epoch (c.engine.clockAt late))
    (∃ b, c'.threads[k]? = some (.finished (.ok b)) ∧
      (b = true ↔ c.engine.motionEpoch = epoch)) ∧
      Settles k id target c c' := by
  have hset : ∀ t : Thread Landing, (c.threads.set k t)[k]? = some t :=
    fun t => List.getElem?_set_self hk
  rcases Process.arrival_cases id target epoch (c.engine.clockAt late) with
    ⟨w, heq, hepoch, hw⟩ | ⟨heq, hstopped⟩
  · simp only [resumed, heq, Thread.ofProcess]
    refine ⟨⟨true, hset _, fun _ => hepoch, fun _ => rfl⟩, .inl ⟨hset _, ?_⟩⟩
    exact (World.updateActor_position_iff.mp hw).2
  · simp only [resumed, heq, Thread.ofProcess]
    have hlater : c.engine.motionEpoch ≠ epoch := by
      rcases hroom with ⟨w, hw⟩
      exact fun hepoch => hstopped hepoch w hw
    refine ⟨⟨false, hset _, fun h => absurd h Bool.false_ne_true,
      fun hepoch => absurd hepoch hlater⟩, .inr ⟨?_, rfl⟩⟩
    rw [hset]
    exact fun h => by cases h

/-- A motion that still waits after some steps comes to its end, and arrives exactly if none of the
    steps was a stop. -/
theorem Awaits.settles (h : c.Awaits k id target wake) {between : List Incident}
    (hbetween : Traffic c between c') (hk : k < c'.threads.length) (late : Nat) :
    let p := Process.arrival id target c.engine.motionEpoch (c'.engine.clockAt late)
    (∃ b, (c'.resumed k p).threads[k]? = some (.finished (.ok b)) ∧
      (b = true ↔ ∀ x ∈ between, ¬ x.IsStop)) ∧ Settles k id target c' (c'.resumed k p) := by
  intro p
  rcases h.actor with ⟨a, ha⟩
  have hroom := (hbetween.keeps h.harmless).2.takes h.inside ha
  rw [← (hbetween.epoch h.harmless).2]
  exact settles_arrival hk hroom

/-- What is known of a step that is the end of a motion. -/
theorem Awaits.ends (h : c.Awaits k id target wake) {between : List Incident}
    (hbetween : Traffic c between c') (hend : Passes c' (.turn (.woke k late)) c'') :
    wake ≤ late ∧ (∃ b, c''.threads[k]? = some (.finished (.ok b)) ∧
      (b = true ↔ ∀ x ∈ between, ¬ x.IsStop)) ∧ Settles k id target c' c'' := by
  cases hend with
  | @woke _ wake' _ resume hasleep hover =>
      have hk := (List.getElem?_eq_some_iff.mp hasleep).1
      rcases hbetween.asleep h.thread with hstill | ⟨earlier, early, _, d, _, _, hd, hthread, hrest⟩
      · rcases Thread.asleep.inj (Option.some.inj (hasleep.symm.trans hstill)) with ⟨rfl, rfl⟩
        exact ⟨hover, h.settles hbetween hk late⟩
      · -- It cannot end twice.
        have hd' := (List.getElem?_eq_some_iff.mp hthread).1
        rcases (h.settles hd hd' early).1 with ⟨b, hover, _⟩
        rw [hrest.finished hover] at hasleep
        cases hasleep

/-- A motion under way has come out in some way exactly if it ended, and in this way because motion
    was stopped before, or because it was not. It does not break off any more. -/
theorem Awaits.finished_iff (h : c.Awaits k id target wake) (htraffic : Traffic c happened c')
    (r : Landing) :
    c'.threads[k]? = some (.finished r) ↔
      ∃ between b, Incident.Ends k between happened ∧ r = .ok b ∧
        (b = true ↔ ∀ x ∈ between, ¬ x.IsStop) := by
  constructor
  · intro hr
    rcases htraffic.asleep h.thread with
      hstill | ⟨between, late, rest, d, heq, _, hd, hthread, hrest⟩
    · rw [hstill] at hr
      cases hr
    · rcases (h.settles hd (List.getElem?_eq_some_iff.mp hthread).1 late).1 with ⟨b, hover, hb⟩
      have hsame := (hrest.finished hover).symm.trans hr
      cases hsame
      exact ⟨between, b, ⟨late, rest, heq⟩, rfl, hb⟩
  · rintro ⟨between, b, ⟨late, rest, rfl⟩, rfl, hb⟩
    rcases htraffic.split with ⟨d, hbetween, hlater⟩
    cases hlater with
    | passes hend hrest =>
        rcases (h.ends hbetween hend).2.1 with ⟨b', hover, hb'⟩
        rw [hrest.finished hover, Bool.eq_iff_iff.mpr (hb'.trans hb.symm)]

/-- How a motion fares that was asked for in a step from `c` to `c'`, when some things happened
    since then that led to `c''`. -/
structure Fares (c c' : Joint Landing) (id : String) (target : Position) (happened : List Incident)
    (c'' : Joint Landing) : Prop where
  /-- It arrives if it could begin, and no stop was before its end. -/
  arrives : c''.threads[c.threads.length]? = some (.finished (.ok true)) ↔
    ∃ time, c.engine.Admits id target time ∧ (time = 0 ∨
      ∃ between, Incident.Ends c.threads.length between happened ∧ ∀ x ∈ between, ¬ x.IsStop)
  /-- It does not if it could not begin, or a stop was before its end. -/
  fails : c''.threads[c.threads.length]? = some (.finished (.ok false)) ↔
    ((∀ time, ¬ c.engine.Admits id target time) ∧ ¬ c.engine.Overtaxes id target) ∨
      ∃ time, c.engine.Admits id target time ∧ time ≠ 0 ∧
        ∃ between, Incident.Ends c.threads.length between happened ∧ ∃ x ∈ between, x.IsStop
  /-- It breaks off if its time does not fit. -/
  breaks : ∀ o, c''.threads[c.threads.length]? = some (.finished (.error o)) ↔
    o = .stepTime ∧ c.engine.Overtaxes id target
  begins : Settles c.threads.length id target c c'
  /-- Its end comes when its time is over. -/
  ends : ∀ late d, Passes c'' (.turn (.woke c.threads.length late)) d →
    Settles c.threads.length id target c'' d ∧
      ∃ time, c.engine.Admits id target time ∧ c'.engine.now + Duration.ticks time ≤ late
  /-- Until it is over, its end can come. -/
  lasts : (∀ r, c''.threads[c.threads.length]? ≠ some (.finished r)) →
    ∃ time d, c.engine.Admits id target time ∧
      Passes c'' (.turn (.woke c.threads.length (c'.engine.now + Duration.ticks time))) d

/-- Why a motion is over as soon as it is asked for. -/
inductive Prompt (e : Engine) (id : String) (target : Position) : Landing → Prop
  | arrives (h : e.Admits id target 0) : Prompt e id target (.ok true)
  | fails (hnone : ∀ time, ¬ e.Admits id target time) (hfits : ¬ e.Overtaxes id target) :
      Prompt e id target (.ok false)
  | breaks (h : e.Overtaxes id target) : Prompt e id target (.error .stepTime)

-- A motion that is over as soon as it is asked for.
theorem Traffic.fares_over (h : Traffic c' happened c'') {r : Landing}
    (hover : c'.threads[c.threads.length]? = some (.finished r))
    (hwhy : Prompt c.engine id target r)
    (hbegins : Settles c.threads.length id target c c') : Fares c c' id target happened c'' := by
  have hlater := h.finished hover
  have hresult : ∀ r', c''.threads[c.threads.length]? = some (.finished r') ↔ r = r' := by
    intro r'
    rw [hlater, Option.some.injEq, Thread.finished.injEq]
  refine ⟨?_, ?_, fun o => ?_, hbegins, fun late d hend => ?_,
    fun hnever => absurd hlater (hnever r)⟩
  · rw [hresult]
    cases hwhy with
    | arrives hadmits => exact ⟨fun _ => ⟨0, hadmits, .inl rfl⟩, fun _ => rfl⟩
    | fails hnone hfits => exact ⟨nofun, fun ⟨time, hadmits, _⟩ => absurd hadmits (hnone time)⟩
    | breaks hslow => exact ⟨nofun, fun ⟨_, hadmits, _⟩ => absurd hslow hadmits.not_overtaxes⟩
  · rw [hresult]
    cases hwhy with
    | arrives hadmits =>
        refine ⟨nofun, ?_⟩
        rintro (⟨hnone, _⟩ | ⟨time, hadmits', hne, _⟩)
        · exact absurd hadmits (hnone 0)
        · exact absurd (hadmits'.unique hadmits) hne
    | fails hnone hfits => exact ⟨fun _ => .inl ⟨hnone, hfits⟩, fun _ => rfl⟩
    | breaks hslow =>
        refine ⟨nofun, ?_⟩
        rintro (⟨_, hfits⟩ | ⟨_, hadmits, _⟩)
        · exact absurd hslow hfits
        · exact absurd hslow hadmits.not_overtaxes
  · rw [hresult]
    cases hwhy with
    | arrives hadmits => exact ⟨nofun, fun hslow => absurd hslow.2 hadmits.not_overtaxes⟩
    | fails hnone hfits => exact ⟨nofun, fun hslow => absurd hslow.2 hfits⟩
    | breaks hslow =>
        exact ⟨fun heq => ⟨(Except.error.inj heq).symm, hslow⟩, fun heq => heq.1 ▸ rfl⟩
  · cases hend with
    | woke hasleep _ =>
        rw [hlater] at hasleep
        cases hasleep

-- A motion that has to wait for its end.
theorem Traffic.fares_awaited (h : Traffic c' happened c'') {time : Nat}
    (hadmits : c.engine.Admits id target time) (htime : time ≠ 0)
    (hawaits : c'.Awaits c.threads.length id target (c'.engine.now + Duration.ticks time))
    (hbegins : Settles c.threads.length id target c c') : Fares c c' id target happened c'' := by
  refine ⟨?_, ?_, fun o => ?_, hbegins, fun late d hend => ?_, fun hnever => ?_⟩
  · rw [hawaits.finished_iff h]
    constructor
    · rintro ⟨between, b, hends, heq, hnone⟩
      exact ⟨time, hadmits, .inr ⟨between, hends, hnone.mp (Except.ok.inj heq).symm⟩⟩
    · rintro ⟨time', hadmits', hzero | ⟨between, hends, hnone⟩⟩
      · exact absurd ((hadmits.unique hadmits').trans hzero) htime
      · exact ⟨between, true, hends, rfl, fun _ => hnone, fun _ => rfl⟩
  · rw [hawaits.finished_iff h]
    constructor
    · rintro ⟨between, b, hends, heq, hnone⟩
      refine .inr ⟨time, hadmits, htime, between, hends, ?_⟩
      have hsome : ¬ ∀ x ∈ between, ¬ x.IsStop := fun hnone' =>
        Bool.noConfusion ((Except.ok.inj heq).trans (hnone.mpr hnone'))
      simpa only [not_forall, not_not, exists_prop] using hsome
    · rintro (⟨hnone, _⟩ | ⟨_, _, _, between, hends, x, hx, hstop⟩)
      · exact absurd hadmits (hnone time)
      · exact ⟨between, false, hends, rfl, nofun, fun hnone => absurd hstop (hnone x hx)⟩
  · rw [hawaits.finished_iff h]
    constructor
    · rintro ⟨_, _, _, heq, _⟩
      cases heq
    · rintro ⟨_, hslow⟩
      exact absurd hslow hadmits.not_overtaxes
  · rcases hawaits.ends h hend with ⟨hlate, _, hsettles⟩
    exact ⟨hsettles, time, hadmits, hlate⟩
  · rcases h.asleep hawaits.thread with hstill | ⟨_, late, _, d, _, _, hd, hthread, hrest⟩
    · exact ⟨time, _, hadmits, .woke hstill (Nat.le_refl _)⟩
    · have hk := (List.getElem?_eq_some_iff.mp hthread).1
      rcases (hawaits.settles hd hk late).1 with ⟨b, hover, _⟩
      exact absurd (hrest.finished hover) (hnever (.ok b))

/-- A motion that is asked for is over at once, or it waits for its end. -/
theorem Passes.begins {time : Nat} (h : Passes c (.asked time id target) c') (hc : c.Harmless) :
    Settles c.threads.length id target c c' ∧
      ((∃ r, c'.threads[c.threads.length]? = some (.finished r) ∧
        Prompt c.engine id target r) ∨
      ∃ tween, c.engine.Admits id target tween ∧ tween ≠ 0 ∧
        c'.Awaits c.threads.length id target (c'.engine.now + Duration.ticks tween)) := by
  have hc' := (h.keeps hc).1
  cases h with
  | asked _ _ _ =>
      have hlast : ∀ t : Thread Landing, (c.threads ++ [t])[c.threads.length]? = some t :=
        fun t => List.getElem?_concat_length
      -- The clock is nothing to a motion that begins.
      have hclock : ∀ {tween}, (c.engine.clockAt time).Admits id target tween →
          c.engine.Admits id target tween :=
        fun h => ⟨h.inside, h.able⟩
      rcases Process.move_cases id target (c.engine.clockAt time) with
        ⟨⟨hnone, hfits⟩, heq⟩ | ⟨hslow, heq⟩ | ⟨hadmits, heq⟩ | ⟨tween, hadmits, htween, heq⟩
      · simp only [joined, heq, Thread.ofProcess, Settles, hlast]
        refine ⟨.inr ⟨(fun h => by cases h), rfl⟩, .inl ⟨.ok false, rfl, .fails ?_ ?_⟩⟩
        · exact fun _ h => hnone _ ⟨h.inside, h.able⟩
        · exact fun h => hfits ⟨h.inside, h.slow⟩
      · simp only [joined, heq, Thread.ofProcess, Settles, hlast]
        exact ⟨.inr ⟨(fun h => by cases h), rfl⟩,
          .inl ⟨.error .stepTime, rfl, .breaks ⟨hslow.inside, hslow.slow⟩⟩⟩
      · rcases Process.arrival_cases id target (c.engine.clockAt time).motionEpoch
          { c.engine.clockAt time with moveRequests := (c.engine.clockAt time).moveRequests + 1 }
          with ⟨w, harrives, _, hw⟩ | ⟨_, hstopped⟩
        · simp only [joined, heq, harrives, Thread.ofProcess, Settles, hlast]
          exact ⟨.inl ⟨trivial, (World.updateActor_position_iff.mp hw).2⟩,
            .inl ⟨.ok true, rfl, .arrives (hclock hadmits)⟩⟩
        · rcases hadmits.able with ⟨a, ha, _⟩
          rcases World.updateActor_position ha hadmits.inside with ⟨w, hw⟩
          exact absurd hw (hstopped rfl w)
      · simp only [joined, heq, Thread.ofProcess, Settles, hlast] at hc' ⊢
        rcases hadmits.able with ⟨a, ha, _⟩
        exact ⟨.inr ⟨(fun h => by cases h), rfl⟩,
          .inr ⟨tween, hclock hadmits, htween, hlast _, hadmits.inside, ⟨a, ha⟩, hc'⟩⟩

/-- A motion arrives exactly if it could begin and was not stopped before its end. Let motions be
    asked for, come to their ends and be stopped in any order, from a state without motions on, and
    tasks end in between. Among them, let a motion be asked for. If the place is in the world, and
    the actor is there and has a speed at which it moves, the motion ends when its time is over or
    later. If there was no stop until then, its end brings its actor to its target and does nothing
    else to the world. If the actor is so slow that the time of its step does not fit, the motion
    breaks off. In all other cases it fails, and neither its beginning nor its end does anything to
    the world. -/
theorem Traffic.fares {e : Engine} {earlier later : List Incident} {time : Nat}
    (hearlier : Traffic ⟨[], e⟩ earlier c) (hasked : Passes c (.asked time id target) c')
    (hlater : Traffic c' later c'') : Fares c c' id target later c'' := by
  have hharmless := (hearlier.keeps (List.forall_mem_nil _)).1
  rcases hasked.begins hharmless with
    ⟨hsettles, ⟨r, hover, hwhy⟩ | ⟨tween, hadmits, htween, hawaits⟩⟩
  · exact hlater.fares_over hover hwhy hsettles
  · exact hlater.fares_awaited hadmits htween hawaits hsettles

-- A motion that can begin, and takes some time.
theorem passes_asked {tween : Nat} (hadmits : c.engine.Admits id target tween)
    (htween : tween ≠ 0) (time : Nat) :
    Passes c (.asked time id target)
      ⟨c.threads ++ [.asleep (max c.engine.now time + Duration.ticks tween)
        (Process.arrival id target c.engine.motionEpoch)],
      { c.engine.clockAt time with moveRequests := c.engine.moveRequests + 1 }⟩ := by
  have hable : (c.engine.clockAt time).Admits id target tween := ⟨hadmits.inside, hadmits.able⟩
  have hasked := Passes.asked (c := c) time id target
  rcases Process.move_cases id target (c.engine.clockAt time) with
    ⟨⟨hnone, _⟩, _⟩ | ⟨hslow, _⟩ | ⟨hzero, _⟩ | ⟨tween', hable', _, heq⟩
  · exact absurd hable (hnone tween)
  · exact absurd hslow hable.not_overtaxes
  · exact absurd (hable.unique hzero) htween
  · rw [joined, heq, ← hable.unique hable'] at hasked
    exact hasked

/-- Someone sets out, is stopped, and sets out again before the time of the first motion is over. -/
theorem Traffic.fares_again :
    let e := Engine.new ((World.empty ⟨3, 2⟩).insertActor (Actor.new "bot" ⟨0, 0⟩)) 300
    ∃ c₁ c₂ c₃ c₄ c₅, Passes ⟨[], e⟩ (.asked 0 "bot" ⟨1, 0⟩) c₁ ∧
      Passes c₁ (.turn (.rang 100 .stopMotion)) c₂ ∧ Passes c₂ (.asked 200 "bot" ⟨0, 1⟩) c₃ ∧
      Passes c₃ (.turn (.woke 0 300)) c₄ ∧ Passes c₄ (.turn (.woke 1 500)) c₅ ∧
      c₅.threads[0]? = some (.finished (.ok false)) ∧ c₅.threads[1]? = some (.finished (.ok true)) ∧
      c₄.engine.world.Moved "bot" ⟨0, 1⟩ c₅.engine.world := by
  intro e
  have hstep : Duration.stepAt? 300 (Actor.new "bot" ⟨0, 0⟩).speed = some 300000000 := by
    decide +kernel
  have hfirst : e.Admits "bot" ⟨1, 0⟩ 300000000 := ⟨rfl, _, rfl, hstep⟩
  let c₁ : Joint Landing :=
    ⟨[.asleep 300 (Process.arrival "bot" ⟨1, 0⟩ 0)], { e with moveRequests := 1 }⟩
  let c₂ : Joint Landing := { c₁ with engine := (c₁.engine.clockAt 100).ring .stopMotion }
  have hsecond : c₂.engine.Admits "bot" ⟨0, 1⟩ 300000000 := ⟨rfl, _, rfl, hstep⟩
  let c₃ : Joint Landing := ⟨c₁.threads ++ [.asleep 500 (Process.arrival "bot" ⟨0, 1⟩ 1)],
    { c₂.engine.clockAt 200 with moveRequests := 2 }⟩
  let c₄ := c₃.resumed 0 (Process.arrival "bot" ⟨1, 0⟩ 0 (c₃.engine.clockAt 300))
  let c₅ := c₄.resumed 1 (Process.arrival "bot" ⟨0, 1⟩ 1 (c₄.engine.clockAt 500))
  have hout : Passes ⟨[], e⟩ (.asked 0 "bot" ⟨1, 0⟩) c₁ :=
    passes_asked (c := ⟨[], e⟩) hfirst (by decide) 0
  have hstop : Passes c₁ (.turn (.rang 100 .stopMotion)) c₂ := .rang 100 .stopMotion
  have hagain : Passes c₂ (.asked 200 "bot" ⟨0, 1⟩) c₃ := passes_asked hsecond (by decide) 200
  have hends : Passes c₃ (.turn (.woke 0 300)) c₄ := .woke rfl (Nat.le_refl 300)
  have harrives : Passes c₄ (.turn (.woke 1 500)) c₅ := .woke rfl (Nat.le_refl 500)
  -- The first motion ends after the stop.
  have hcut : c₅.threads[0]? = some (.finished (.ok false)) :=
    (Traffic.fares (.rest _) hout
      (.passes hstop (.passes hagain (.passes hends (.passes harrives (.rest c₅)))))).fails.mpr
      (.inr ⟨300000000, hfirst, by decide,
        [.turn (.rang 100 .stopMotion), .asked 200 "bot" ⟨0, 1⟩],
        ⟨300, [.turn (.woke 1 500)], rfl⟩, _, List.mem_cons_self, trivial⟩)
  -- The second one begins after it.
  have hlater : ∀ {c happened}, Traffic c₃ happened c → Fares c₂ c₃ "bot" ⟨0, 1⟩ happened c :=
    Traffic.fares (.passes hout (.passes hstop (.rest c₂))) hagain
  have harrived : c₅.threads[1]? = some (.finished (.ok true)) :=
    (hlater (.passes hends (.passes harrives (.rest c₅)))).arrives.mpr
      ⟨300000000, hsecond, .inr ⟨[.turn (.woke 0 300)], ⟨500, [], rfl⟩,
        List.forall_mem_singleton.mpr nofun⟩⟩
  refine ⟨c₁, c₂, c₃, c₄, c₅, hout, hstop, hagain, hends, harrives, hcut, harrived, ?_⟩
  rcases ((hlater (.passes hends (.rest c₄))).ends 500 c₅ harrives).1 with
    ⟨_, hmoved⟩ | ⟨hnever, _⟩
  · exact hmoved
  · exact absurd harrived hnever

/-- A motion of an actor that is there, to a place in the world, comes back with nothing: the actor
    is too slow for the time of its step to fit. -/
theorem Traffic.not_comes_back :
    gravel.world.bounds.contains ⟨1, 0⟩ = true ∧
      gravel.world.actors.get? "snail" = some snail ∧
      ∃ c, Passes ⟨[], gravel⟩ (.asked 0 "snail" ⟨1, 0⟩) c ∧
        c.threads[0]? = some (.finished (.error .stepTime)) := by
  have hslow : gravel.Overtaxes "snail" ⟨1, 0⟩ := ⟨rfl, snail, rfl, snail_stepAt⟩
  have hasked := Passes.asked (c := ⟨[], gravel⟩) 0 "snail" ⟨1, 0⟩
  refine ⟨rfl, rfl, _, hasked, ?_⟩
  rcases Process.move_cases "snail" ⟨1, 0⟩ (gravel.clockAt 0) with
    ⟨⟨_, hfits⟩, _⟩ | ⟨_, heq⟩ | ⟨hadmits, _⟩ | ⟨_, hadmits, _⟩
  · exact absurd hslow hfits
  · rw [joined, heq]
    rfl
  · exact absurd hslow hadmits.not_overtaxes
  · exact absurd hslow hadmits.not_overtaxes

end Joint

end Farmhand
