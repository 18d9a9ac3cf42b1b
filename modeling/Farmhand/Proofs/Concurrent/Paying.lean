import Farmhand.Proofs.Concurrent.Fares

/-!
# Walks Are Paid at Their End

What the walks of an actor cost it, over any number of runs of the one interpreter that drives it,
with stops at any instants. A walk changes the place of the actor tile by tile and is paid in one
step after the last tile, and only if it comes so far. So the energy that is gone is the price of
the walks that were completed, and a walk that was stopped on its way is free, however many tiles it
took the actor.

The tiles are counted where they can be seen, in the places that the world shows before and after
each turn, and so is the energy. Only which walk a tile belongs to is read off the machine.

## Main definitions

* `Tally`, `Tally.after`: What walks came to, and what they come to with one more turn.
* `Tally.Balanced`: What is gone was paid for completed walks.
* `Scene.Roams`: The runs of one interpreter, with what the walks in them came to.
* `Scene.InWalk`: A walk was begun and is not paid for.

## Theorems

* `Tally.Balanced.stride`: The accounts stay balanced in a step.
* `Scene.Roams.accounts`: They are balanced at every instant.
* `Scene.Roams.run`, `Scene.roams_ofJoint`: Whatever a run or a process comes to is counted.
* `Scene.NamesNoTileFunction.turn`: Scripts that name no function of a tile call none.
-/

namespace Farmhand

/-- The tiles between the places of an actor in two worlds. -/
def World.tilesBetween (w w' : World) (a : String) : Nat :=
  match w.place? a, w'.place? a with
  | some p, some q => p.stepsTo q
  | _, _ => 0

namespace World

variable {w w' : World} {a : String} {p q : Position}

-- The tiles are counted from the places that the world shows.
theorem tilesBetween_eq (hp : w.place? a = some p) (hq : w'.place? a = some q) :
    w.tilesBetween w' a = p.stepsTo q := by
  simp only [tilesBetween, hp, hq]

theorem tilesBetween_still (h : w'.place? a = w.place? a) : w.tilesBetween w' a = 0 := by
  unfold tilesBetween
  rw [h]
  cases w.place? a with
  | none => rfl
  | some p => exact p.stepsTo_self

end World

namespace Machine

/-- The walk of a machine that may have come to its end. -/
def walkOf? (live : Option Machine) : Option (Nat × Nat) :=
  live.bind fun m => m.control.walk?

/-- What such a machine is to pay. -/
def dueOf (live : Option Machine) : Nat :=
  live.elim 0 fun m => m.control.due

/-- What follows a call that succeeded is still to be done by it. -/
def settles (live : Option Machine) : Bool :=
  live.any fun m => m.control.isSettle

end Machine

/-! ## Accounts -/

/-- What the walks of an actor came to. -/
structure Tally where
  /-- The tiles that the actor moved. -/
  moved : Nat
  /-- The tiles of each walk that was completed, the last of them first. -/
  completed : List Nat
  /-- The tiles of the walk under way. -/
  under : Nat
  /-- The tiles of walks that were cut short. -/
  cut : Nat
deriving DecidableEq

namespace Tally

open Machine

/-- No walks. -/
def zero : Tally :=
  ⟨0, [], 0, 0⟩

/-- What walks came to after a turn in which the actor moved some tiles, by the machine before and
    after it. -/
def after (t : Tally) (tiles : Nat) (live live' : Option Machine) : Tally :=
  match walkOf? live, walkOf? live' with
  | none, _ => { t with moved := t.moved + tiles }
  | some _, some _ => { t with moved := t.moved + tiles, under := t.under + tiles }
  | some _, none =>
    if settles live' then ⟨t.moved + tiles, (t.under + tiles) :: t.completed, 0, t.cut⟩
    else ⟨t.moved + tiles, t.completed, 0, t.cut + (t.under + tiles)⟩

-- Nothing comes to nothing.
theorem after_zero (t : Tally) (live : Option Machine) : t.after 0 live live = t := by
  unfold after
  cases walkOf? live with
  | none => rfl
  | some walk => rfl

/-- The accounts of an actor at a place with some energy are balanced: every tile belongs to a walk,
    the walk under way is as long as it was to be, and what is gone was paid for completed walks,
    with the exception of what is due. -/
structure Balanced (energy : Nat) (live : Option Machine) (p : Position) (n : Nat) (t : Tally) :
    Prop where
  moved : t.moved = t.completed.sum + t.cut + t.under
  walks : ∀ ahead steps, walkOf? live = some (ahead, steps) → t.under + ahead = steps
  rests : walkOf? live = none → t.under = 0
  paid : n + (t.completed.map fare).sum = energy + dueOf live
  fits : ∀ m, live = some m → m.Fits p n

variable {energy : Nat} {m : Machine} {live : Option Machine} {p q : Position} {n l : Nat}
variable {t : Tally}

/-- Accounts stay balanced in a step. -/
theorem Balanced.stride (h : Balanced energy (some m) p n t) (hstride : m.Stride p n live q l)
    (hfits : ∀ m', live = some m' → m'.Fits q l) :
    Balanced energy live q l (t.after (p.stepsTo q) (some m) live) := by
  have hpaid : n + (t.completed.map fare).sum = energy + m.control.due := h.paid
  have hunder : ∀ ahead steps, m.control.walk? = some (ahead, steps) → t.under + ahead = steps :=
    h.walks
  have hmoved := h.moved
  cases hstride with
  | aside hwalk hnext =>
      have hrests : t.under = 0 := h.rests hwalk
      have hdue := (h.fits m rfl).due_le
      have hover : walkOf? live = none ∧ dueOf live = 0 := by
        cases live with
        | none => exact ⟨rfl, rfl⟩
        | some m' => exact hnext m' rfl
      simp only [after, walkOf?, Option.bind_some, hwalk, p.stepsTo_self, Nat.add_zero]
      refine ⟨hmoved, fun ahead steps hsome => ?_, fun _ => hrests, ?_, hfits⟩
      · exact absurd (hover.1.symm.trans hsome) nofun
      · rw [hover.2]
        show n - m.control.due + (t.completed.map fare).sum = energy + 0
        omega
  | @begins m' steps hwalk hdue hnext hnone =>
      have hrests : t.under = 0 := h.rests hwalk
      simp only [after, walkOf?, Option.bind_some, hwalk, p.stepsTo_self, Nat.add_zero]
      refine ⟨hmoved, fun ahead steps' hsome => ?_, fun hnowalk => ?_, ?_, hfits⟩
      · rw [walkOf?, Option.bind_some, hnext] at hsome
        cases hsome
        rw [hrests, Nat.zero_add]
      · rw [walkOf?, Option.bind_some, hnext] at hnowalk
        cases hnowalk
      · show n + (t.completed.map fare).sum = energy + m'.control.due
        rw [hnone, hpaid, hdue]
  | @goes m' q ahead ahead' steps hwalk hdue hnext hnone hahead =>
      -- The tiles of this turn are taken off those ahead.
      have hlength := hunder _ _ hwalk
      simp only [after, walkOf?, Option.bind_some, hwalk, hnext]
      refine ⟨?_, fun _ _ hsome => ?_, fun hnowalk => ?_, ?_, hfits⟩
      · show t.moved + _ = t.completed.sum + t.cut + (t.under + _)
        omega
      · rw [walkOf?, Option.bind_some, hnext] at hsome
        cases hsome
        show t.under + p.stepsTo q + ahead' = steps
        omega
      · rw [walkOf?, Option.bind_some, hnext] at hnowalk
        cases hnowalk
      · show n + (t.completed.map fare).sum = energy + m'.control.due
        rw [hnone, hpaid, hdue]
  -- The tiles walked so far are cut off, and nothing is due for them.
  | @breaks m' ahead steps hwalk hdue hnext hnone hfails =>
      simp only [after, walkOf?, Option.bind_some, hwalk, hnext, settles, Option.any_some, hfails,
        p.stepsTo_self, Nat.add_zero]
      refine ⟨?_, fun _ _ hsome => ?_, fun _ => rfl, ?_, hfits⟩
      · show t.moved = t.completed.sum + (t.cut + t.under) + 0
        omega
      · rw [walkOf?, Option.bind_some, hnext] at hsome
        cases hsome
      · show n + (t.completed.map fare).sum = energy + m'.control.due
        rw [hnone, hpaid, hdue]
  -- The walk is complete, and what was due for it is paid by its length.
  | @arrives m' steps hwalk hdue hnext howes hsettles =>
      have hlength : t.under + 0 = steps := hunder _ _ hwalk
      simp only [after, walkOf?, Option.bind_some, hwalk, hnext, settles, Option.any_some, hsettles,
        p.stepsTo_self, Nat.add_zero, if_true]
      refine ⟨?_, fun _ _ hsome => ?_, fun _ => rfl, ?_, hfits⟩
      · show t.moved = (t.under :: t.completed).sum + t.cut + 0
        rw [List.sum_cons]
        omega
      · rw [walkOf?, Option.bind_some, hnext] at hsome
        cases hsome
      · show n + ((t.under :: t.completed).map fare).sum = energy + m'.control.due
        rw [howes, List.map_cons, List.sum_cons, ← hlength, Nat.add_zero]
        omega

end Tally

/-! ## Scenes of one interpreter -/

namespace Scene

open Machine Tally

variable {s s' : Scene} {a : String} {e : Engine} {energy : Nat} {t : Tally}

/-- No interpreter may begin a job while another is at work. -/
def nobody : Scene → Interpreter → Prop :=
  fun _ _ => False

/-- The machine of the party that joined last, unless it has finished. -/
def live? (s : Scene) : Option Machine :=
  s.machineAt? (s.parties.length - 1)

/-- A walk was begun and is not paid for. -/
def InWalk (s : Scene) : Prop :=
  walkOf? s.live? ≠ none ∨ dueOf s.live? ≠ 0

instance (s : Scene) : Decidable s.InWalk :=
  inferInstanceAs (Decidable (_ ∨ _))

/-- What one interpreter comes to that drives an actor alone: one of its jobs begins when the one
    before has finished, all that is called are subroutines and capabilities of movement, of time
    and of computing, and there are stops, timers and waits at any instants. What its walks come to
    is counted. -/
inductive Roams (a : String) (e : Engine) : Scene → Tally → Prop
  | start : Roams a e ⟨[], e⟩ .zero
  | begins {s : Scene} {t : Tally} (h : Roams a e s t) (hover : s.live? = none) (job : Job)
      {i : Interpreter} (hactor : i.actor.id = a) :
      Roams a e ⟨s.parties ++ [.asleep s.engine.now (Machine.start job i)], s.engine⟩ t
  | turn {s s' : Scene} {t : Tally} (h : Roams a e s t) (hturn : Turn nobody s s')
      (hcalls : s.engine.TellsSolitary s'.engine) :
      Roams a e s'
        (t.after (s.engine.world.tilesBetween s'.engine.world a) s.live? s'.live?)

/-- A scene of one interpreter that drives an actor, with balanced accounts. -/
structure Accounts (a : String) (energy : Nat) (s : Scene) (t : Tally) : Prop where
  keyed : s.engine.world.Keyed
  size : 0 ≤ max s.engine.world.bounds.width s.engine.world.bounds.height
  last : ∀ k m, s.machineAt? k = some m → k + 1 = s.parties.length
  drives : ∀ m, s.live? = some m → m.interpreter.actor.id = a
  balanced : ∃ p n, s.engine.world.place? a = some p ∧ s.engine.world.energy? a = some n ∧
    t.Balanced energy s.live? p n

-- With one interpreter, the machine at work is the one that joined last.
theorem Accounts.live (h : Accounts a energy s t) {k : Nat} {m : Machine}
    (hm : s.machineAt? k = some m) : s.live? = some m := by
  have hlast := h.last k m hm
  have hk : s.parties.length - 1 = k := by omega
  rw [live?, hk, hm]

theorem live?_congr (hlength : s'.parties.length = s.parties.length)
    (hmachines : ∀ k, s'.machineAt? k = s.machineAt? k) : s'.live? = s.live? := by
  rw [live?, hlength, hmachines, live?]

-- Where nobody moves and no machine goes on, walks come to nothing.
theorem after_rests (t : Tally) (hstill : s.engine.world.Still s'.engine.world)
    (hlive : s'.live? = s.live?) :
    t.after (s.engine.world.tilesBetween s'.engine.world a) s.live? s'.live? = t := by
  rw [World.tilesBetween_still (hstill a), hlive, after_zero]

/-! ### Steps -/

-- It stays the one, or has finished.
theorem Accounts.live?_stepped (h : Accounts a energy s t) {k : Nat} {m : Machine}
    (hworking : s.parties[k]? = some (.working m)) :
    (s.stepped k m).live? = (m.next s.engine).machine? := by
  have hlast := h.last k m (machineAt?_of_working hworking)
  have hlt : k < s.parties.length := (List.getElem?_eq_some_iff.mp hworking).1
  have hlength : (s.stepped k m).parties.length = s.parties.length := List.length_set
  have hk : (s.stepped k m).parties.length - 1 = k := by omega
  rw [live?, hk, stepped, machineAt?_set_self hlt, Party.machine?_ofProgress]

/-- A step is of one of the kinds that steps of walks are of, and each keeps the accounts balanced.
    -/
theorem Accounts.steps (h : Accounts a energy s t) {k : Nat} {m : Machine}
    (hworking : s.parties[k]? = some (.working m))
    (hcalls : s.engine.TellsSolitary (s.stepped k m).engine) :
    Accounts a energy (s.stepped k m)
      (t.after (s.engine.world.tilesBetween (s.stepped k m).engine.world a) s.live?
        (s.stepped k m).live?) := by
  have hm := machineAt?_of_working hworking
  have hlast := h.last k m hm
  have hlive := h.live hm
  have hactor := h.drives m hlive
  have hlength : (s.stepped k m).parties.length = s.parties.length := List.length_set
  have hlive' := h.live?_stepped hworking
  have hpassage := Machine.passage_next m s.engine
  rcases h.balanced with ⟨p, n, hplace, henergy, hbalanced⟩
  have hstrides : Strides m p n a (m.next s.engine) := by
    rw [← hactor] at hplace henergy ⊢
    exact strides_next hcalls h.size hplace henergy (hbalanced.fits m hlive)
  rcases hstrides with ⟨q, l, hplace', henergy', hstride, hfits⟩
  have hbounds : (s.stepped k m).engine.world.bounds = s.engine.world.bounds :=
    hpassage.effect.follows World.followed_bounds World.bounds_updateActor
  refine ⟨hpassage.effect.keyed h.keyed, hbounds ▸ h.size, fun j m' hm' => ?_, fun m' hm' => ?_,
    q, l, hplace', henergy', ?_⟩
  · by_cases hj : k = j
    · rw [hlength, ← hj, hlast]
    · rw [hlength]
      exact h.last j m' (machineAt?_set_ne hj _ _ ▸ hm')
  · rw [hlive'] at hm'
    exact (hpassage.actor h.keyed m' hm').trans hactor
  · have hthere : (s.stepped k m).engine.world.place? a = some q := hplace'
    rw [World.tilesBetween_eq hplace hthere, hlive, hlive']
    exact Balanced.stride (hlive ▸ hbalanced) hstride hfits

/-! ### Other turns -/

-- Where nobody joins, a turn that is no step changes no machine.
theorem Turn.steps_or_rests (hturn : Turn nobody s s') :
    (∃ k m, s.parties[k]? = some (.working m) ∧ s' = s.stepped k m) ∨
      s'.parties.length = s.parties.length ∧ ∀ k, s'.machineAt? k = s.machineAt? k := by
  cases hturn with
  | @steps k m hworking => exact .inl ⟨k, m, hworking, rfl⟩
  | wakes hasleep _ => exact .inr ⟨List.length_set, machineAt?_wakes hasleep s.engine⟩
  | joins job hadmits => exact hadmits.elim
  | _ => exact .inr ⟨rfl, fun _ => rfl⟩

/-- A turn in which nobody moves and nothing is paid. -/
theorem Accounts.rests (h : Accounts a energy s t)
    (hlength : s'.parties.length = s.parties.length)
    (hmachines : ∀ k, s'.machineAt? k = s.machineAt? k)
    (hstill : s.engine.world.Still s'.engine.world)
    (hspares : s.engine.world.Spares s'.engine.world) :
    Accounts a energy s'
      (t.after (s.engine.world.tilesBetween s'.engine.world a) s.live? s'.live?) := by
  have hlive := live?_congr hlength hmachines
  rcases h.balanced with ⟨p, n, hplace, henergy, hbalanced⟩
  rw [after_rests t hstill hlive]
  refine ⟨hspares.keyed h.keyed, hspares.bounds ▸ h.size, fun k m hm => ?_, ?_, p, n, ?_, ?_, ?_⟩
  · rw [hlength]
    exact h.last k m (hmachines k ▸ hm)
  · rw [hlive]
    exact h.drives
  · exact (hstill a).trans hplace
  · exact (hspares.energies a).trans henergy
  · rw [hlive]
    exact hbalanced

/-- Accounts stay balanced in every turn. -/
theorem Accounts.turn (h : Accounts a energy s t) (hturn : Turn nobody s s')
    (hcalls : s.engine.TellsSolitary s'.engine) :
    Accounts a energy s'
      (t.after (s.engine.world.tilesBetween s'.engine.world a) s.live? s'.live?) := by
  rcases hturn.steps_or_rests with ⟨k, m, hworking, rfl⟩ | ⟨hlength, hmachines⟩
  · exact h.steps hworking hcalls
  · rcases hturn.steps_or_attends with ⟨k, m, hworking, rfl⟩ | hattends
    · exact h.steps hworking hcalls
    · exact h.rests hlength hmachines (hattends World.followed_still.attends)
        (hattends World.attends_spares)

/-! ### Jobs -/

-- At its beginning a job has nothing of a walk.
theorem live?_begins (s : Scene) (job : Job) (i : Interpreter) (wake : Nat) (e : Engine) :
    live? ⟨s.parties ++ [.asleep wake (Machine.start job i)], e⟩ = some (Machine.start job i) := by
  simp only [live?, machineAt?, List.length_append, List.length_singleton, Nat.add_sub_cancel,
    List.getElem?_concat_length, Option.bind_some, Party.machine?]

-- A job that names no function of a tile starts a machine that names none.
theorem names_start {job : Job} (hjob : job.NamesNoTileFunction) {i : Interpreter}
    (hi : i.NamesNoTileFunction) : Names NoTileFunction (Machine.start job i) := by
  refine ⟨⟨List.forall_mem_nil _, hi⟩, ?_⟩
  cases job with
  | main actor => exact List.forall_mem_singleton.mpr noTileFunction_main
  | call actor name args => exact List.forall_mem_singleton.mpr hjob

/-- A job begins where no machine is at work, so no walk is under way. -/
theorem Accounts.begins (h : Accounts a energy s t) (hover : s.live? = none) (job : Job)
    {i : Interpreter} (hactor : i.actor.id = a) :
    Accounts a energy ⟨s.parties ++ [.asleep s.engine.now (Machine.start job i)], s.engine⟩ t := by
  have hlive := live?_begins s job i s.engine.now s.engine
  rcases h.balanced with ⟨p, n, hplace, henergy, hbalanced⟩
  rw [hover] at hbalanced
  refine ⟨h.keyed, h.size, fun k m hm => ?_, fun m hm => ?_, p, n, hplace, henergy, ?_⟩
  · rcases machineAt?_append hm with hm | ⟨rfl, _⟩
    · exact absurd ((h.live hm).symm.trans hover) nofun
    · rw [List.length_append, List.length_singleton]
  · rw [← Option.some.inj (hlive.symm.trans hm)]
    exact hactor
  · rw [hlive]
    exact ⟨hbalanced.moved, nofun, fun _ => hbalanced.rests rfl, hbalanced.paid,
      fun m hm => Option.some.inj hm ▸ trivial⟩

/-! ### Runs -/

variable {x : Actor}

theorem machineAt?_nil (e : Engine) (k : Nat) : machineAt? ⟨[], e⟩ k = none := by
  rw [machineAt?, List.getElem?_nil, Option.bind_none]

-- At first there are no walks, and the energy is all there.
theorem accounts_start (hkeyed : e.world.Keyed) (hx : e.world.actors.get? a = some x)
    (hinside : e.world.bounds.contains x.position = true) :
    Accounts a x.energy ⟨[], e⟩ .zero := by
  have hsize : 0 ≤ max e.world.bounds.width e.world.bounds.height := by
    simp only [Bounds.contains, Bool.and_eq_true, decide_eq_true_eq] at hinside
    omega
  have hlive : live? ⟨[], e⟩ = none := machineAt?_nil e _
  have hplace : e.world.place? a = some x.position := by
    rw [World.place?, hx, Option.map_some]
  refine ⟨hkeyed, hsize, fun k m hm => ?_, fun m hm => ?_, x.position, x.energy, hplace,
    World.energy?_eq_some hx, ?_⟩
  · exact absurd (hm.symm.trans (machineAt?_nil e k)) (Option.some_ne_none m)
  · exact absurd (hm.symm.trans hlive) (Option.some_ne_none m)
  · rw [hlive]
    refine ⟨rfl, fun ahead steps hwalk => ?_, fun _ => rfl, rfl, fun m hm => ?_⟩
    · exact absurd hwalk.symm (Option.some_ne_none _)
    · exact absurd hm.symm (Option.some_ne_none m)

/-- Accounts are balanced at every instant. -/
theorem Roams.accounts (h : Roams a e s t) (hkeyed : e.world.Keyed)
    (hx : e.world.actors.get? a = some x)
    (hinside : e.world.bounds.contains x.position = true) : Accounts a x.energy s t := by
  induction h with
  | start => exact accounts_start hkeyed hx hinside
  | begins _ hover job hactor ih => exact ih.begins hover job hactor
  | turn _ hturn hcalls ih => exact ih.turn hturn hcalls

-- A run only adds to the log.
theorem Run.tells {admits : Scene → Interpreter → Prop} (hrun : Run admits s s') :
    ∃ told, s'.engine.log = told ++ s.engine.log := by
  induction hrun with
  | rest => exact ⟨[], rfl⟩
  | turn _ hturn ih =>
      rcases ih with ⟨first, hfirst⟩
      rcases hturn.tells with ⟨told, htold, _⟩
      exact ⟨told ++ first, by rw [htold, hfirst, List.append_assoc]⟩

/-- Runs in which no function of a tile is called are among those whose walks are counted. -/
theorem Roams.run (h : Roams a e s t) (hrun : Run nobody s s')
    (hcalls : s.engine.TellsSolitary s'.engine) : ∃ t', Roams a e s' t' := by
  induction hrun with
  | rest => exact ⟨t, h⟩
  | turn hbefore hturn ih =>
      rcases hturn.tells with ⟨told, htold, _⟩
      rcases hcalls.parts hbefore.tells ⟨told, htold⟩ with ⟨hfirst, hlast⟩
      rcases ih hfirst with ⟨t', h'⟩
      exact ⟨_, h'.turn hturn hlast⟩

/-- Whatever the process of a job comes to without a call of a function of a tile is among these
    scenes. -/
theorem roams_ofJoint (job : Job) {i : Interpreter} (hactor : i.actor.id = a)
    {c : Joint (Outcome × Interpreter)} {moments : List Moment}
    (h : (Joint.ofParties e [(job, i)]).Run moments c) (hcalls : e.TellsSolitary c.engine) :
    ∃ s t, Roams a e s t ∧ s.Plays c := by
  have hplayed : ∃ s, Run nobody (ofParties e [(job, i)]) s ∧ s.Plays c := run_ofJoint h
  rcases hplayed with ⟨s, hrun, hplays⟩
  have hbegins : Roams a e (ofParties e [(job, i)]) .zero :=
    Roams.start.begins (machineAt?_nil e _) job hactor
  rcases hbegins.run hrun (hplays.engine ▸ hcalls) with ⟨t, hroams⟩
  exact ⟨s, t, hroams, hplays⟩

/-! ### Scripts that name no function of a tile -/

/-- No machine of a scene names a function of a tile. -/
def NamesNoTileFunction (s : Scene) : Prop :=
  ∀ k m, s.machineAt? k = some m → Names NoTileFunction m

-- A party that joins names none either.
theorem NamesNoTileFunction.begins (h : s.NamesNoTileFunction) {job : Job}
    (hjob : job.NamesNoTileFunction) {i : Interpreter} (hi : i.NamesNoTileFunction) (wake : Nat) :
    NamesNoTileFunction ⟨s.parties ++ [.asleep wake (Machine.start job i)], s.engine⟩ := by
  intro k m hm
  rcases machineAt?_append hm with hm | ⟨_, hm⟩
  · exact h k m hm
  · rw [← Option.some.inj hm]
    exact names_start hjob hi

/-- A turn of such scripts calls no function of a tile, and leaves them what they are. -/
theorem NamesNoTileFunction.turn (h : s.NamesNoTileFunction) (hturn : Turn nobody s s') :
    s.engine.TellsSolitary s'.engine ∧ s'.NamesNoTileFunction := by
  rcases hturn.steps_or_rests with ⟨k, m, hworking, rfl⟩ | ⟨_, hmachines⟩
  · have hnames := h k m (machineAt?_of_working hworking)
    refine ⟨hnames.tellsSolitary s.engine, fun j m' hm' => ?_⟩
    by_cases hj : k = j
    · have hlt : k < s.parties.length := (List.getElem?_eq_some_iff.mp hworking).1
      rw [← hj, stepped, machineAt?_set_self hlt, Party.machine?_ofProgress] at hm'
      exact (hnames.next s.engine m' hm').1
    · exact h j m' (machineAt?_set_ne hj _ _ ▸ hm')
  · refine ⟨?_, fun k m hm => h k m (hmachines k ▸ hm)⟩
    rcases hturn.still_or_steps with ⟨k, m, hworking, rfl⟩ | ⟨_, hlog⟩
    · exact (h k m (machineAt?_of_working hworking)).tellsSolitary s.engine
    · exact Engine.tellsSolitary_of_log hlog

end Scene

end Farmhand
