import Farmhand.Proofs.Concurrent.Busy
import Farmhand.Proofs.Machine.Breaking
import Farmhand.Proofs.Machine.Telling

/-!
# The Trace of a Run

What a run of the entry script tells is bracketed. It tells that it started, then statements, calls
and what is printed, and at last how it ended: that it completed, or that it was stopped and nothing
more, or the failure twice, as an error and as the failure of the run. There are many ways to an
end, and what makes them one is that all of them come back to the bottom of the stack with a
result, which is told there. Only where the program breaks off nothing is told, and what was told
before has no end. Whatever else goes on at the same time speaks for other actors.

Every statement that is told is quoted from the file: it names a section, and the text is that of a
line of the file which belongs to this section.

## Main definitions

* `Event.Closes`: How the end of a run is told.
* `Event.IsInner`: What is told between the start and the end.
* `Bracketed`: The whole of what a run tells.
* `Machine.Voices`: A machine that speaks for one actor.
* `Scene.Stage`: How far a run is, with what it has told.
* `Scene.Follows`: A scene with a run among others that speak for other actors.
* `Scene.Traced`: What was told since a moment is bracketed, whole if the run is over.

## Theorems

* `Machine.Voices.next`: Machines go on speaking for one actor.
* `Scene.Stage.steps`: A step of a run tells what belongs at its stage.
* `Scene.Follows.turn`, `Scene.follows_run`: A scene with a run stays one.
* `Scene.trace_bracketed`: What a run tells is bracketed.
* `Scene.not_trace_closed`: A run that breaks off has told no end.
-/

namespace Farmhand

open Script

/-! ## Brackets -/

namespace Event

/-- How the end of a run is told: that it completed, only that it was stopped, or what went
    wrong, as an error and as the failure of the run. If the program broke off, nothing is told. -/
inductive Closes (actor : String) : Outcome → List Event → Prop
  | completed (s : Success) :
      Closes actor (.ok s) [.completed actor (s.message.getD "completed")]
  | stopped {f : Failure} (h : f.kind = .stopped) : Closes actor (.error f) [.stopped actor]
  | failed {f : Failure} (h : f.kind ≠ .stopped) (hback : f.overflow? = none) :
      Closes actor (.error f) [.error actor f.kind f.message, .failed actor f.message]
  | broken (o : Overflow) : Closes actor (.error (.overflow o)) []

/-- What is told between the start and the end of a run: calls, what is printed, and statements that
    are quoted from a file. -/
def IsInner (source : String) : Event → Prop
  | .statement _ name line text => Quotes source name line text
  | .call _ _ _ _ _ => True
  | .log _ _ _ => True
  | _ => False

-- The end is told for the actor of the run.
theorem Closes.actor {actor : String} {outcome : Outcome} {events : List Event}
    (h : Closes actor outcome events) : ∀ event ∈ events, event.actor = actor := by
  cases h with
  | completed s => exact List.forall_mem_singleton.mpr rfl
  | stopped h => exact List.forall_mem_singleton.mpr rfl
  | failed h hback => exact List.forall_mem_cons.mpr ⟨rfl, List.forall_mem_singleton.mpr rfl⟩
  | broken o => exact List.forall_mem_nil _

-- A failure that comes back is told twice, unless it is a stop.
theorem closes_ofFailure (actor : String) {f : Failure} (hback : f.overflow? = none) :
    Closes actor (.error f) (ofFailure actor f) := by
  unfold ofFailure
  split
  · next h => exact .stopped h
  · next h => exact .failed h hback

end Event

/-- The whole of what a run of a file tells: its start, and its end by its outcome. -/
def Bracketed (source actor : String) (outcome : Outcome) (events : List Event) : Prop :=
  ∃ inner closing, events = .started actor :: (inner ++ closing) ∧
    (∀ event ∈ inner, event.IsInner source) ∧ Event.Closes actor outcome closing

-- What broke off has not come to the end of what it tells.
theorem Bracketed.unclosed {source actor : String} {o : Overflow} {events : List Event}
    (h : Bracketed source actor (.error (.overflow o)) events) :
    ∀ event ∈ events, event = .started actor ∨ event.IsInner source := by
  rcases h with ⟨inner, closing, rfl, hinner, hcloses⟩
  have hnone : closing = [] := by
    cases hcloses with
    | broken o => rfl
    | failed h hback => cases hback
    | stopped h => cases h
  rw [hnone, List.append_nil]
  exact List.forall_mem_cons.mpr ⟨.inl rfl, fun event hevent => .inr (hinner event hevent)⟩

-- The end of a run is told if it comes back, and nothing else.
theorem log_endRun (actor : String) (handle : Nat) (outcome : Outcome) (e : Engine) :
    ∃ closing, (endRun actor handle outcome e).log = closing.reverse ++ e.log ∧
      Event.Closes actor outcome closing := by
  cases outcome with
  | ok s => exact ⟨_, rfl, .completed s⟩
  | error f =>
      cases hf : f.overflow? with
      | some o =>
          rw [Failure.eq_of_overflow? hf]
          exact ⟨[], rfl, .broken o⟩
      | none =>
          refine ⟨Event.ofFailure actor f, ?_, Event.closes_ofFailure actor hf⟩
          simp only [endRun, Outcome.overflow?, hf, Engine.emitAll_eq]
          rfl

/-! ## Speaking for one actor -/

namespace Machine

variable {m : Machine} {e : Engine} {a : String}

/-- A machine that speaks for one actor: it is about to run the entry script, or keeps to an errand
    for the actor. -/
def Voices (a : String) (m : Machine) : Prop :=
  (∃ actor i, m = start (.main actor) i ∧ i.actor.id = a) ∨
    ∃ g : Errand, g.actor = a ∧ g.Sound ∧ (g.bottom = .last ∨ g.bottom = .main a .last) ∧
      g.Underway m

/-- An errand on which everything may be told. -/
def freely (i : Interpreter) (bottom : Stack .success) : Errand where
  actor := i.actor.id
  subroutines := i.subroutines
  tells := fun _ _ => True
  bottom := bottom
  sites := i.sites

-- An errand on which everything may be told forbids nothing.
theorem freely_sound (i : Interpreter) (bottom : Stack .success) : (freely i bottom).Sound :=
  fun _ _ _ _ _ => trivial

-- Every job speaks for the actor of its interpreter.
theorem voices_start (job : Job) (i : Interpreter) : (start job i).Voices i.actor.id := by
  cases job with
  | main actor => exact .inl ⟨actor, i, rfl, rfl⟩
  | call actor name args =>
      exact .inr ⟨freely i .last, rfl, freely_sound i _, .inl rfl, ⟨rfl, rfl, rfl, rfl⟩,
        List.forall_mem_nil _, trivial⟩

-- With a result at the bottom of the stack nothing is left to tell.
theorem voices_last {g : Errand} (hsound : g.Sound) (r : Outcome) {i : Interpreter}
    (hactor : i.actor.id = g.actor) (hsubroutines : i.subroutines = g.subroutines) :
    (ofResult .last i r).Voices g.actor := by
  refine .inr ⟨{ g with bottom := .last, sites := i.sites }, rfl, hsound, .inl rfl, ?_⟩
  exact ⟨⟨hactor, hsubroutines, rfl, rfl⟩, List.forall_mem_nil _, trivial⟩

-- What becomes of a result at the bottom, and of one at the end of the entry script.
theorem next_last (r : Outcome) (i : Interpreter) (e : Engine) :
    (ofResult .last i r).next e = .halt r i e :=
  rfl

-- At the bottom of the stack the end of the run is told.
theorem next_main (actor : String) (rest : Stack .success) (r : Outcome) (i : Interpreter)
    (e : Engine) : (ofResult (.main actor rest) i r).next e =
      .on (ofResult rest i r) (endRun actor i.handle r e) :=
  rfl

/-- A machine that speaks for one actor goes on doing so. -/
theorem Voices.next (h : m.Voices a) (hkeyed : e.world.Keyed) :
    (∃ told, (m.next e).engine.log = told ++ e.log ∧ ∀ event ∈ told, event.actor = a) ∧
      ∀ m', (m.next e).machine? = some m' → m'.Voices a := by
  rcases h with ⟨actor, i, rfl, rfl⟩ | ⟨g, rfl, hsound, hbottom, hm⟩
  · unfold start next ofJob
    simp only
    split
    · refine ⟨⟨[.started i.actor.id], rfl, List.forall_mem_singleton.mpr rfl⟩, fun m' hm' => ?_⟩
      rw [← Option.some.inj hm']
      exact .inr ⟨freely i (.main i.actor.id .last), rfl, freely_sound i _, .inr rfl,
        ⟨rfl, rfl, rfl, rfl⟩, List.forall_mem_nil _, trivial⟩
    · have hcloses := Event.closes_ofFailure i.actor.id (f := .noEntryScript) rfl
      refine ⟨⟨(Event.ofFailure i.actor.id .noEntryScript).reverse, ?_, fun event hevent => ?_⟩,
        fun m' hm' => ?_⟩
      · simp only [Progress.engine, Engine.emitAll_eq]
      · exact hcloses.actor event (List.mem_reverse.mp hevent)
      · rw [← Option.some.inj hm']
        exact voices_last (freely_sound i .last) _ rfl rfl
  · rcases hm.next hsound hkeyed with ⟨⟨told, hlog, htold⟩, m', hm', hunderway⟩ | hback
    · refine ⟨⟨told, hlog, fun event hevent => (htold event hevent).actor⟩, fun m'' hm'' => ?_⟩
      rw [← Option.some.inj (hm'.symm.trans hm'')]
      exact .inr ⟨g, rfl, hsound, hbottom, hunderway⟩
    · rcases hback with ⟨r, i, rfl⟩
      rcases hbottom with hbottom | hbottom
      · rw [hbottom, next_last]
        exact ⟨⟨[], rfl, List.forall_mem_nil _⟩, fun m' hm' => by cases hm'⟩
      · have hcontext := hm.context
        rw [hbottom, next_main]
        rcases log_endRun g.actor i.handle r e with ⟨closing, hlog, hcloses⟩
        refine ⟨⟨closing.reverse, hlog, fun event hevent => ?_⟩, fun m' hm' => ?_⟩
        · exact hcloses.actor event (List.mem_reverse.mp hevent)
        · rw [← Option.some.inj hm']
          exact voices_last hsound r hcontext.actor hcontext.subroutines

end Machine

namespace Party

/-- The number that did not fit, of an interpreter that has broken off. -/
def brokenAt? : Party → Option Overflow
  | .finished outcome _ => outcome.overflow?
  | _ => none

-- What such a party finished with.
theorem eq_of_brokenAt? {p : Party} {o : Overflow}
    (h : p.brokenAt? = some o) : ∃ i, p = .finished (.error (.overflow o)) i := by
  cases p with
  | working m => cases h
  | asleep wake m => cases h
  | finished outcome i =>
      cases outcome with
      | ok s => cases h
      | error f => exact ⟨i, by rw [Failure.eq_of_overflow? h]⟩

end Party

namespace Scene

/-! ## The stages of a run -/

/-- The errand of a run of a file: what it tells is quoted from the file, and its end is told. -/
def errandOf (source : String) (i : Interpreter) : Machine.Errand where
  actor := i.actor.id
  subroutines := i.subroutines
  tells := fun site s => Quotes source site.1 s.span.line ((site.2.line? s.span.line).getD "")
  bottom := .main i.actor.id .last
  sites := []

/-- How far a run of a file is, with what it has told. -/
inductive Stage (source actor : String) (i : Interpreter) : Party → List Event → Prop
  | before {p : Party} (hp : p.machine? = some (Machine.start (.main actor) i)) :
      Stage source actor i p []
  | within {p : Party} {m : Machine} {inner : List Event} (hp : p.machine? = some m)
      (hm : (errandOf source i).Underway m) (hinner : ∀ event ∈ inner, event.IsInner source) :
      Stage source actor i p (.started i.actor.id :: inner)
  | closed {p : Party} {outcome : Outcome} {j : Interpreter} {events : List Event}
      (hp : p = .working (Machine.ofResult .last j outcome) ∨ p = .finished outcome j)
      (hframes : j.frames = []) (hsubroutines : j.subroutines = i.subroutines)
      (hevents : Bracketed source i.actor.id outcome events) : Stage source actor i p events

variable {source actor : String} {i : Interpreter} {m : Machine} {events : List Event}
  {p : Party} {e : Engine}

-- What may be told on the errand is quoted from the file.
theorem isInner_of_speaks {event : Event} (h : (errandOf source i).Speaks event) :
    event.IsInner source := by
  cases event with
  | statement actor name line text =>
      rcases h with ⟨_, lines, s, hquotes, rfl, rfl⟩
      exact hquotes
  | call actor depth name args callee => trivial
  | log actor severity message => trivial
  | _ => exact h.elim

-- Sleep does not change how far a run is.
theorem Stage.wakes {wake : Nat} (h : Stage source actor i (.asleep wake m) events) :
    Stage source actor i (.working m) events := by
  cases h with
  | before hp => exact .before hp
  | within hp hm hinner => exact .within hp hm hinner
  | closed hp => rcases hp with hp | hp <;> cases hp

/-- A step of a run tells what belongs at its stage. -/
theorem Stage.steps (hsound : (errandOf source i).Sound)
    (hmain : i.subroutines.contains mainName = true) (hframes : i.frames = [])
    (h : Stage source actor i (.working m) events) (hkeyed : e.world.Keyed) :
    ∃ told, (m.next e).engine.log = told ++ e.log ∧ (∀ event ∈ told, event.actor = i.actor.id) ∧
      Stage source actor i (.ofProgress (m.next e)) (events ++ told.reverse) := by
  cases h with
  | before hp =>
      rw [Option.some.inj hp]
      refine ⟨[.started i.actor.id], ?_, List.forall_mem_singleton.mpr rfl, ?_⟩
      · simp only [Machine.start, Machine.next, Machine.ofJob, hmain, if_true]
        rfl
      · simp only [Machine.start, Machine.next, Machine.ofJob, hmain, if_true]
        have hsites : i.sites = [] := by rw [Interpreter.sites, hframes, List.map_nil]
        exact .within rfl ⟨⟨rfl, rfl, rfl, hsites⟩, List.forall_mem_nil _, trivial⟩
          (List.forall_mem_nil _)
  | @within _ inner hp hm hinner =>
      rw [← Option.some.inj hp] at hm
      rcases hm.next hsound hkeyed with ⟨⟨told, hlog, htold⟩, m', hm', hunderway⟩ | hback
      · refine ⟨told, hlog, fun event hevent => (htold event hevent).actor, ?_⟩
        refine .within ((Party.machine?_ofProgress _).trans hm') hunderway fun event hevent => ?_
        rcases List.mem_append.mp hevent with hold | hnew
        · exact hinner event hold
        · exact isInner_of_speaks (htold event (List.mem_reverse.mp hnew))
      · -- The run is back at its bottom, with a result that is told.
        rcases hback with ⟨r, j, rfl⟩
        have hcontext := hm.context
        rcases log_endRun i.actor.id j.handle r e with ⟨closing, hlog, hcloses⟩
        unfold errandOf
        rw [Machine.next_main]
        refine ⟨closing.reverse, hlog, fun event hevent => ?_, ?_⟩
        · exact hcloses.actor event (List.mem_reverse.mp hevent)
        · rw [List.reverse_reverse]
          exact .closed (.inl rfl) (List.map_eq_nil_iff.mp hcontext.pending.2)
            hcontext.subroutines ⟨inner, closing, rfl, hinner, hcloses⟩
  | closed hp hframes hsubroutines hevents =>
      rcases hp with hp | hp
      · rw [Party.working.inj hp, Machine.next_last]
        refine ⟨[], rfl, List.forall_mem_nil _, ?_⟩
        rw [List.reverse_nil, List.append_nil]
        exact .closed (.inr rfl) hframes hsubroutines hevents
      · cases hp

/-! ## Scenes with a run -/

/-- A scene with a run of a file at some place among its parties, and what was told before it. The
    other parties speak for other actors. -/
structure Follows (source actor : String) (i : Interpreter) (k : Nat) (before : List Event)
    (s : Scene) : Prop where
  keyed : s.engine.world.Keyed
  others : ∀ j m, j ≠ k → s.machineAt? j = some m → ∃ a, a ≠ i.actor.id ∧ m.Voices a
  own : ∃ p told, s.parties[k]? = some p ∧ s.engine.log = told ++ before ∧
    Stage source actor i p (told.filter fun event => event.actor = i.actor.id).reverse

variable {k : Nat} {before : List Event} {s s' : Scene}

-- What is told for an actor, after something was told for it or for others.
theorem filter_own {a : String} {told : List Event} (h : ∀ event ∈ told, event.actor = a)
    (others : List Event) :
    ((told ++ others).filter fun event => event.actor = a).reverse =
      (others.filter fun event => event.actor = a).reverse ++ told.reverse := by
  have hall : (told.filter fun event => event.actor = a) = told :=
    List.filter_eq_self.mpr fun event hevent => decide_eq_true (h event hevent)
  rw [List.filter_append, hall, List.reverse_append]

-- What others tell is not for this actor.
theorem filter_others {a b : String} (hne : b ≠ a) {told : List Event}
    (h : ∀ event ∈ told, event.actor = b) (others : List Event) :
    ((told ++ others).filter fun event => event.actor = a) =
      others.filter fun event => event.actor = a := by
  have hnone : (told.filter fun event => event.actor = a) = [] :=
    List.filter_eq_nil_iff.mpr fun event hevent => by
      rw [h event hevent, decide_eq_true_eq]
      exact hne
  rw [List.filter_append, hnone, List.nil_append]

-- A turn in which no machine takes a step tells nothing and changes no party of the run.
theorem Follows.elsewhere (h : Follows source actor i k before s)
    (hkeyed : s'.engine.world.Keyed) (hlog : s'.engine.log = s.engine.log)
    (hmachines : ∀ j, s'.machineAt? j = s.machineAt? j)
    (hown : s'.parties[k]? = s.parties[k]?) : Follows source actor i k before s' := by
  rcases h with ⟨_, hothers, p, told, hp, htold, hstage⟩
  refine ⟨hkeyed, fun j m hj hm => ?_, p, told, hown.trans hp, hlog.trans htold, hstage⟩
  rw [hmachines] at hm
  exact hothers j m hj hm

theorem Follows.steps (hsound : (errandOf source i).Sound)
    (hmain : i.subroutines.contains mainName = true) (hframes : i.frames = [])
    (h : Follows source actor i k before s) {l : Nat}
    (hworking : s.parties[l]? = some (.working m)) :
    Follows source actor i k before (s.stepped l m) := by
  rcases h with ⟨hkeyed, hothers, p, told, hp, htold, hstage⟩
  have hlt : l < s.parties.length := (List.getElem?_eq_some_iff.mp hworking).1
  have hkeyed' := (Machine.passage_next m s.engine).effect.keyed hkeyed
  have hself : (s.stepped l m).machineAt? l = (m.next s.engine).machine? := by
    rw [stepped, machineAt?_set_self hlt, Party.machine?_ofProgress]
  have hapart : ∀ j, l ≠ j → (s.stepped l m).machineAt? j = s.machineAt? j :=
    fun j hne => machineAt?_set_ne hne _ _
  by_cases hl : l = k
  · -- A step of the run itself.
    subst hl
    rw [Option.some.inj (hp.symm.trans hworking)] at hstage
    rcases hstage.steps hsound hmain hframes hkeyed with ⟨more, hlog, hmore, hstage'⟩
    refine ⟨hkeyed', fun j m' hj hm' => ?_, _, more ++ told, List.getElem?_set_self hlt, ?_, ?_⟩
    · exact hothers j m' hj (hapart j (Ne.symm hj) ▸ hm')
    · rw [List.append_assoc, ← htold]
      exact hlog
    · rw [filter_own hmore]
      exact hstage'
  · -- A step of a party that speaks for another actor.
    rcases hothers l m hl (machineAt?_of_working hworking) with ⟨a, ha, hvoices⟩
    rcases hvoices.next hkeyed with ⟨⟨more, hlog, hmore⟩, hnext⟩
    refine ⟨hkeyed', fun j m' hj hm' => ?_, p, more ++ told, ?_, ?_, ?_⟩
    · by_cases hj' : l = j
      · subst hj'
        exact ⟨a, ha, hnext m' (hself ▸ hm')⟩
      · exact hothers j m' hj (hapart j hj' ▸ hm')
    · exact (List.getElem?_set_ne hl).trans hp
    · rw [List.append_assoc, ← htold]
      exact hlog
    · rw [filter_others ha hmore]
      exact hstage

/-- A scene with a run stays one, as long as no other interpreter of its actor begins. -/
theorem Follows.turn (hsound : (errandOf source i).Sound)
    (hmain : i.subroutines.contains mainName = true) (hframes : i.frames = [])
    (h : Follows source actor i k before s)
    (hturn : Turn (fun _ other => other.actor.id ≠ i.actor.id) s s') :
    Follows source actor i k before s' := by
  have hkeyed := hturn.keyed h.keyed
  cases hturn with
  | steps hworking => exact h.steps hsound hmain hframes hworking
  | @wakes l wake m hasleep hdue =>
      have hlt : l < s.parties.length := (List.getElem?_eq_some_iff.mp hasleep).1
      have hmachines := machineAt?_wakes hasleep s.engine
      by_cases hl : l = k
      · subst hl
        rcases h with ⟨_, hothers, p, told, hp, htold, hstage⟩
        rw [Option.some.inj (hp.symm.trans hasleep)] at hstage
        refine ⟨hkeyed, fun j m' hj hm' => ?_, _, told, List.getElem?_set_self hlt, htold,
          hstage.wakes⟩
        exact hothers j m' hj (hmachines j ▸ hm')
      · exact h.elsewhere hkeyed rfl hmachines (List.getElem?_set_ne hl)
  | joins job hadmits =>
      rcases h with ⟨_, hothers, p, told, hp, htold, hstage⟩
      refine ⟨hkeyed, fun j m' hj hm' => ?_, p, told, ?_, htold, hstage⟩
      · rcases machineAt?_joins hm' with hold | ⟨_, rfl⟩
        · exact hothers j m' hj hold
        · exact ⟨_, hadmits, Machine.voices_start job _⟩
      · rw [List.getElem?_append_left (List.getElem?_eq_some_iff.mp hp).1]
        exact hp
  | @expires t _ =>
      exact h.elsewhere hkeyed (Engine.aside_fire _ t).log (fun _ => rfl) rfl
  | rings action =>
      exact h.elsewhere hkeyed (log_ring s.engine action) (fun _ => rfl) rfl
  | passes time => exact h.elsewhere hkeyed rfl (fun _ => rfl) rfl
  | enrols => exact h.elsewhere hkeyed rfl (fun _ => rfl) rfl

/-! ## Runs -/

variable {parties : List (Job × Interpreter)}

-- Before the first turn nothing was told.
theorem follows_ofParties (hkeyed : e.world.Keyed) (hparty : parties[k]? = some (.main actor, i))
    (honly : ∀ j party, j ≠ k → parties[j]? = some party → party.2.actor.id ≠ i.actor.id) :
    Follows source actor i k e.log (ofParties e parties) := by
  refine ⟨hkeyed, fun j m hj hm => ?_, .asleep e.now (Machine.start (.main actor) i), [], ?_, rfl,
    .before rfl⟩
  · rcases machineAt?_ofParties hm with ⟨job, other, hother, rfl⟩
    exact ⟨_, honly j _ hj hother, Machine.voices_start job other⟩
  · simp only [ofParties, List.getElem?_map, hparty, Option.map_some]

-- Whatever a run has told at any of its stages is the beginning of something bracketed.
theorem Stage.exists_prefix (h : Stage source actor i p events) :
    ∃ outcome whole, Bracketed source i.actor.id outcome whole ∧ events <+: whole := by
  cases h with
  | before _ =>
      exact ⟨.ok {}, _, ⟨[], _, rfl, List.forall_mem_nil _, .completed {}⟩, List.nil_prefix⟩
  | @within _ inner _ _ hinner =>
      refine ⟨.ok {}, _, ⟨inner, _, rfl, hinner, .completed {}⟩, ?_⟩
      exact ⟨_, rfl⟩
  | closed _ _ _ hevents => exact ⟨_, events, hevents, List.prefix_refl _⟩

-- What a run has told when it is over.
theorem Stage.finished {outcome : Outcome} {j : Interpreter}
    (h : Stage source actor i (.finished outcome j) events) :
    Bracketed source i.actor.id outcome events ∧ j.frames = [] ∧
      j.subroutines = i.subroutines := by
  cases h with
  | before hp => cases hp
  | within hp => cases hp
  | closed hp hframes hsubroutines hevents =>
      rcases hp with hp | hp
      · cases hp
      · cases hp
        exact ⟨hevents, hframes, hsubroutines⟩

/-- What was told for the actor of an interpreter from one engine to another. At any moment it is
    the beginning of something bracketed. When its run has ended it is bracketed, by the outcome of
    the run, and if the run came back the interpreter is left as a run may begin again. -/
def Traced (source : String) (i : Interpreter) (e e' : Engine)
    (ended : Outcome → Interpreter → Prop) : Prop :=
  ∃ told, e'.log = told ++ e.log ∧
    let events := (told.filter fun event => event.actor = i.actor.id).reverse
    (∃ outcome whole, Bracketed source i.actor.id outcome whole ∧ events <+: whole) ∧
      ∀ outcome j, ended outcome j →
        Bracketed source i.actor.id outcome events ∧
          (outcome.overflow? = none → j.frames = [] ∧ j.subroutines = i.subroutines)

/-- At every stage, what was told is the beginning of something bracketed. -/
theorem Follows.traced (h : Follows source actor i k e.log s) :
    Traced source i e s.engine fun outcome j => s.parties[k]? = some (.finished outcome j) := by
  rcases h.own with ⟨p, told, hp, htold, hstage⟩
  refine ⟨told, htold, hstage.exists_prefix, fun outcome j hfinished => ?_⟩
  rw [Option.some.inj (hp.symm.trans hfinished)] at hstage
  exact ⟨hstage.finished.1, fun _ => hstage.finished.2⟩

-- From the first message on, a run that broke off has told no end.
theorem Traced.unclosed {e' : Engine} {ended : Outcome → Interpreter → Prop} {o : Overflow}
    {j : Interpreter} (h : Traced source i e e' ended) (hfirst : e.log = [])
    (hended : ended (.error (.overflow o)) j) :
    ∀ event ∈ e'.log, event.actor = i.actor.id →
      event = .started i.actor.id ∨ event.IsInner source := by
  rcases h with ⟨told, htold, _, hwhole⟩
  rw [hfirst, List.append_nil] at htold
  intro event hevent hactor
  refine (hwhole _ j hended).1.unclosed event ?_
  exact List.mem_reverse.mpr
    (List.mem_filter.mpr ⟨htold ▸ hevent, decide_eq_true hactor⟩)

section

variable {i₀ i₁ : Interpreter} (hload : i₀.load source = .ok i₁)
  (hsubroutines : i.subroutines = i₁.subroutines)
  (hmain : i.subroutines.contains mainName = true) (hframes : i.frames = [])
  (hkeyed : e.world.Keyed) (hparty : parties[k]? = some (.main actor, i))
  (honly : ∀ j party, j ≠ k → parties[j]? = some party → party.2.actor.id ≠ i.actor.id)
include hload hsubroutines hmain hframes hkeyed hparty honly

-- From the start of a scene on, every turn keeps the run followed.
theorem follows_run
    (hrun : Run (fun _ other => other.actor.id ≠ i.actor.id) (ofParties e parties) s) :
    Follows source actor i k e.log s := by
  have hsound : (errandOf source i).Sound := by
    intro name s hs
    exact Interpreter.load_isFrom hload (hsubroutines ▸ hs)
  induction hrun with
  | rest => exact follows_ofParties hkeyed hparty honly
  | turn _ hturn ih => exact ih.turn hsound hmain hframes hturn

/-- The trace of a run of a script file by the only interpreter of its actor. However the steps of
    this interpreter and of others alternate with each other, with timers and with stops, and
    whichever others begin in the meantime: what is told for the actor is bracketed, and the
    statements in it are quoted from the file. This is said of every instant of every scene, and
    of the processes themselves side by side. -/
theorem trace_bracketed :
    (∀ s, Run (fun _ other => other.actor.id ≠ i.actor.id) (ofParties e parties) s →
      Traced source i e s.engine fun outcome j => s.parties[k]? = some (.finished outcome j)) ∧
    ∀ moments c, (Joint.ofParties e parties).Run moments c →
      Traced source i e c.engine fun outcome j =>
        c.threads[k]? = some (.finished (outcome, j)) := by
  have hscenes := fun s hrun => (follows_run (s := s) hload hsubroutines hmain hframes hkeyed
    hparty honly hrun).traced
  refine ⟨hscenes, fun moments c hrun => ?_⟩
  rcases run_ofJoint hrun with ⟨s, hreached, hplays⟩
  rcases hscenes s hreached with ⟨told, htold, hprefix, hended⟩
  refine ⟨told, hplays.engine ▸ htold, hprefix, fun outcome j hfinished => ?_⟩
  rcases hplays.parties k _ hfinished with ⟨p, hp, hstands⟩
  cases hstands with
  | finished outcome j => exact hended outcome j hp

end

/-! ## A trace without an end -/

/-- The crawler has broken off. -/
def crawled : Scene :=
  (ofParties gravel [(.main "snail", crawler)]).played 0 20

/-- A script of one step that is too slow to be timed tells its start, and then only what stands
    inside the brackets. It is over and has told no end. -/
theorem not_trace_closed :
    crawler.load "move_right()\n" = .ok crawler ∧
      (∃ i, crawled.parties[0]? = some (.finished (.error (.overflow .stepTime)) i)) ∧
      ∀ event ∈ crawled.engine.log, event.actor = "snail" →
        event = .started "snail" ∨ event.IsInner "move_right()\n" := by
  have hloaded : crawler.load "move_right()\n" = .ok crawler :=
    Interpreter.load_main (by cbv) (by cbv) crawler
  have hbroken : crawled.parties[0]?.bind Party.brokenAt? = some .stepTime := by decide +kernel
  rcases Option.bind_eq_some_iff.mp hbroken with ⟨p, hp, hoverflow⟩
  rcases Party.eq_of_brokenAt? hoverflow with ⟨i, rfl⟩
  refine ⟨hloaded, ⟨i, hp⟩, fun event hevent hactor => ?_⟩
  have hkeyed : gravel.world.Keyed := (World.keyed_empty _).insertActor _
  have hparty : [(Job.main "snail", crawler)][0]? = some (.main "snail", crawler) := rfl
  have honly : ∀ j party, j ≠ 0 → [(Job.main "snail", crawler)][j]? = some party →
      party.2.actor.id ≠ crawler.actor.id := by
    intro j party hj hother
    cases j with
    | zero => exact absurd rfl hj
    | succ j => cases hother
  have hrun : Run (fun _ other => other.actor.id ≠ crawler.actor.id)
      (ofParties gravel [(.main "snail", crawler)]) crawled := run_played 0 20 _
  have hfollows := follows_run hloaded rfl (by decide) rfl hkeyed hparty honly hrun
  exact Traced.unclosed (e := gravel) hfollows.traced rfl hp event hevent hactor

-- A file with a subroutine loads if both of its sections have tokens.
theorem load_of_compiled {source name own whole : String} {parts : Table String}
    {body body' : Block} (hsections : Script.sections source = .ok parts)
    (hentries : parts.entries = [(mainName, whole), (name, own)])
    (hmain : Script.compile whole = .ok ⟨body, []⟩) (hown : Script.compile own = .ok ⟨body', []⟩)
    (i : Interpreter) : i.load source = .ok { i with
      subroutines := .ofList
        [(mainName, ⟨body, .ofString whole⟩), (name, ⟨body', .ofString own⟩)] } := by
  have hcompiled : Interpreter.compileAll parts.entries =
      .ok [(mainName, ⟨body, .ofString whole⟩), (name, ⟨body', .ofString own⟩)] := by
    simp only [hentries, Interpreter.compileAll, hmain, hown, Except.map]
  exact Interpreter.load_eq_ok hsections hcompiled i

/-- A script file with a subroutine. -/
def greeting : String :=
  "def greet:\n    print(1)\n\ngreet()\n"

/-- The call in the subroutine, and that of the subroutine. -/
def printCall : Expr :=
  .call "print" [.lit (.int 1) ⟨⟨2, 7⟩, ⟨2, 8⟩⟩] ⟨⟨2, 1⟩, ⟨2, 9⟩⟩

def greetCall : Expr :=
  .call "greet" [] ⟨⟨4, 1⟩, ⟨4, 8⟩⟩

/-- An interpreter that has loaded the file. -/
def greeter : Interpreter :=
  { caller 0 "cook" "\n\n\ngreet()\n" greetCall with
    subroutines := .ofList
      [(mainName, ⟨[.expr greetCall greetCall.span], .ofString "\n\n\ngreet()\n"⟩),
        ("greet", ⟨[.expr printCall printCall.span], .ofString "\nprint(1)\n\n\n"⟩)] }

theorem load_greeting (i : Interpreter) :
    i.load greeting = .ok { i with subroutines := greeter.subroutines } := by
  have hsections : Script.sections greeting =
      .ok (.ofList [(mainName, "\n\n\ngreet()\n"), ("greet", "\nprint(1)\n\n\n")]) := by cbv
  exact load_of_compiled hsections (by decide) (by cbv) (by cbv) i

/-- One actor greets, and another walks away. -/
def neighbours : List (Job × Interpreter) :=
  [(.main "cook", greeter), (.main "walker", caller 1 "walker" "move_right()" stepCall)]

/-- The greeting is over, and the walk has not begun. -/
def greeted : Scene :=
  (ofParties yard neighbours).played 0 40

/-- A greeting is told in eight messages, from its start to its end. -/
theorem trace_bracketed_greeting :
    ∃ outcome j told, greeted.parties[0]? = some (.finished outcome j) ∧
      greeted.engine.log = told ++ yard.log ∧ told.length = 8 ∧
      Bracketed greeting "cook" outcome
        (told.filter fun event => event.actor = "cook").reverse := by
  have hkeyed : yard.world.Keyed :=
    (((World.keyed_empty _).insertTile _).insertActor _).insertActor _
  have hparty : neighbours[0]? = some (.main "cook", greeter) := rfl
  have honly : ∀ j party, j ≠ 0 → neighbours[j]? = some party →
      party.2.actor.id ≠ greeter.actor.id := by
    intro j party hj hother
    match j, hother with
    | 0, _ => exact absurd rfl hj
    | 1, hother =>
        rw [← Option.some.inj hother]
        decide
    | j + 2, hother => cases hother
  have htraced := (trace_bracketed (load_greeting greeter) rfl (by decide) rfl hkeyed hparty
    honly).1 greeted (run_played 0 40 _)
  have hover : ∃ outcome j, greeted.parties[0]? = some (.finished outcome j) := ⟨_, _, rfl⟩
  have hlength : greeted.engine.log.length = 8 := by decide +kernel
  rcases htraced with ⟨told, hlog, _, hended⟩
  rcases hover with ⟨outcome, j, hfinished⟩
  have htold : told = greeted.engine.log := (hlog.trans (List.append_nil told)).symm
  exact ⟨outcome, j, told, hfinished, hlog, htold ▸ hlength, (hended outcome j hfinished).1⟩

end Scene

end Farmhand
