import Farmhand.Proofs.Interpreter.Alone
import Farmhand.Proofs.Interpreter.Composition
import Farmhand.Proofs.Movement.Counting
import Farmhand.Proofs.Production.Charges
import Farmhand.World.File

/-!
# What Calls Cost

A call is asked for its energy before it begins, by what is declared for its name, and pays at one
of two places: a function of a tile takes its energy itself, and everything else reports what it
cost and pays when it is over. The two must agree, and nothing may be paid twice. For walks they
agree because both count the same steps: what is asked for counts the steps of the arguments, what
is paid those that were laid out. There are fewer of these only where the walk leads out of the
world, and then it fails.

There is one exception. The number of steps that are laid out has to be a coordinate. In a world so
large that one step more than its size is no coordinate, a walk of more steps than the largest
coordinate is not laid out at all, and succeeds where it stands.

## Main definitions

* `World.Spares`: Everyone has the energy that they had.
* `Step.Frugal`, `Step.Charges`: A step that takes no energy, and one that reports a cost.
* `Operation.tariff`, `Operation.function?`: What is declared for an operation, and the function of
  a tile that it calls.
* `World.required?`: What is asked for before a call by a name.
* `Engine.ChargedOnce`: What a call costs its actor.
* `WorldFile.longRoad`: A world of which the size and one more is no coordinate.

## Theorems

* `Catalog.builtin_declares`: The catalog declares what the operations cost.
* `World.spares_advanceTo`: Time costs nothing.
* `Step.walk_charges`, `Step.stride_charges`: What walks cost.
* `Step.run_charges`: An operation reports what is declared for it.
* `callFunction_charged`: Every call is charged once, and only if it succeeds.
* `not_callFunction_charged`: But for a walk on the long road.
-/

namespace Farmhand

/-! ## Energies that stay -/

/-- Everyone has the energy that they had, and the world has its bounds. -/
structure World.Spares (w w' : World) : Prop where
  bounds : w'.bounds = w.bounds
  energies : ∀ actor, w'.energy? actor = w.energy? actor
  keyed : w.Keyed → w'.Keyed

namespace World

variable {w w' w'' : World}

theorem spares_self (w : World) : w.Spares w :=
  ⟨rfl, fun _ => rfl, id⟩

theorem Spares.trans (h : w.Spares w') (h' : w'.Spares w'') : w.Spares w'' :=
  ⟨h'.bounds.trans h.bounds, fun actor => (h'.energies actor).trans (h.energies actor),
    fun hkeyed => h'.keyed (h.keyed hkeyed)⟩

-- Someone with the same energy in the place of an actor.
theorem spares_insert {id : String} {a b : Actor} (ha : w.actors.get? id = some a)
    (hid : b.id = a.id) (henergy : b.energy = a.energy) :
    w.Spares { w with actors := w.actors.insert id b } := by
  refine ⟨rfl, fun actor => ?_, fun hkeyed => ⟨?_, hkeyed.tiles⟩⟩
  · by_cases hactor : actor = id
    · rw [hactor, energy?_insert, energy?_eq_some ha, henergy]
    · exact congrArg (Option.map _) (Table.get?_insert_of_ne _ _ _ _ hactor)
  · have hkey : id = b.id := hid.symm ▸ (hkeyed.actors id a ha).symm
    rw [hkey]
    exact hkeyed.actors.insert b

/-- Tasks take energy from no one. -/
theorem attends_spares : Attends Spares where
  self := spares_self
  trans := Spares.trans
  task := by
    intro w task key
    cases key with
    | tile id => exact ⟨rfl, fun _ => rfl, fun hkeyed => hkeyed.withTask task (.tile id)⟩
    | actor id =>
        cases ha : w.actors.get? id with
        | none =>
            simp only [withTask, Table.modify, ha]
            exact spares_self w
        | some a =>
            simp only [withTask, Table.modify, ha]
            exact spares_insert ha rfl rfl
  state _ _ _ := ⟨rfl, fun _ => rfl, fun hkeyed => hkeyed.withState _ _⟩

/-- No energy is taken by the passing of time. -/
theorem spares_advanceTo (e : Engine) (time : Nat) : e.world.Spares (e.advanceTo time).world :=
  attends_spares.advanceTo e time

-- A new place costs nothing by itself.
theorem spares_placed {id : String} {p : Position}
    (h : w.updateActor id { position := some p } = .ok w') : w.Spares w' := by
  rcases (updateActor_eq_ok_iff w w' id _).mp h with ⟨a, b, ha, hb, rfl⟩
  simp only [patchActor, patchActor.energyPatched] at hb
  split at hb
  · rw [← Except.ok.inj hb]
    exact spares_insert ha rfl rfl
  · simp only [reduceCtorEq] at hb

end World

namespace Step

variable {α β : Type} {i : Interpreter} {e : Engine}

/-- A step that takes energy from no one, and still drives the same actor. -/
def Frugal (s : Step α) : Prop :=
  ∀ i e, e.world.Keyed →
    s.Comes i e fun _ j e' => e.world.Spares e'.world ∧ j.actor.id = i.actor.id

/-- A step that takes energy from no one and, if it succeeds, reports a cost. -/
def Charges (s : Step Success) (i : Interpreter) (e : Engine) (cost : Nat) : Prop :=
  s.Comes i e fun r j e' => e.world.Spares e'.world ∧ j.actor.id = i.actor.id ∧
    ∀ success, r = .ok success → success.energyCost.getD 0 = cost

theorem frugal_quiet {f : Interpreter → Except Failure α × Interpreter}
    (hf : ∀ i, (f i).2.actor.id = i.actor.id) : Frugal fun i e => .done (f i) e :=
  fun i _ _ => ⟨World.spares_self _, hf i⟩

theorem Frugal.bind {s : Step α} {next : α → Step β} (hs : s.Frugal)
    (hnext : ∀ a, (next a).Frugal) : (Step.bind s next).Frugal := by
  intro i e hkeyed
  refine Comes.bind ((hs i e hkeyed).mono fun r j e' hfirst => ?_)
  cases r with
  | error f => exact hfirst
  | ok a =>
      refine (hnext a j e' (hfirst.1.keyed hkeyed)).mono fun _ _ _ hlater => ?_
      exact ⟨hfirst.1.trans hlater.1, hlater.2.trans hfirst.2⟩

-- What reports a cost after a step that takes none.
theorem Frugal.charges {s : Step α} {next : α → Step Success} {cost : Nat} (hs : s.Frugal)
    (hkeyed : e.world.Keyed)
    (hnext : ∀ a j e', e'.world.Keyed → (next a).Charges j e' cost) :
    (Step.bind s next).Charges i e cost := by
  refine Comes.bind ((hs i e hkeyed).mono fun r j e' hfirst => ?_)
  cases r with
  | error f => exact ⟨hfirst.1, hfirst.2, nofun⟩
  | ok a =>
      refine (hnext a j e' (hfirst.1.keyed hkeyed)).mono fun _ _ _ hlater => ?_
      exact ⟨hfirst.1.trans hlater.1, hlater.2.1.trans hfirst.2, hlater.2.2⟩

theorem charges_done {s : Success} {cost : Nat} (hs : s.energyCost.getD 0 = cost) :
    (Step.pure s).Charges i e cost :=
  ⟨World.spares_self _, rfl, fun _ h => Except.ok.inj h ▸ hs⟩

theorem charges_fail (f : Failure) (cost : Nat) : (Step.fail f).Charges i e cost :=
  ⟨World.spares_self _, rfl, nofun⟩

/-! ## Walks -/

-- A look at the actor finds the actor of this id.
theorem frugal_resync : resync.Frugal := by
  intro i e hkeyed
  cases ha : e.world.actor i.actor.id with
  | error error =>
      simp only [Comes, resync, ha, Process.alone]
      exact ⟨World.spares_self _, trivial⟩
  | ok a =>
      simp only [Comes, resync, ha, Process.alone]
      exact ⟨World.spares_self _, hkeyed.actors _ a ((World.actor_eq_ok_iff _ _ _).mp ha)⟩

theorem frugal_interruptedAt (target : Position) : (interruptedAt target).Frugal := by
  intro i e hkeyed
  cases ha : e.world.actor i.actor.id with
  | error error =>
      simp only [Comes, interruptedAt, ha, Process.alone]
      exact ⟨World.spares_self _, trivial⟩
  | ok a =>
      simp only [Comes, interruptedAt, ha, Process.alone]
      exact ⟨World.spares_self _, hkeyed.actors _ a ((World.actor_eq_ok_iff _ _ _).mp ha)⟩

theorem spares_sleep (nanoseconds : Nat) (e : Engine) :
    e.world.Spares (Process.sleep nanoseconds e).alone.2.world := by
  rcases Process.alone_sleep nanoseconds e with h | h
  · rw [h]
    exact World.spares_self _
  · rw [h]
    exact World.spares_advanceTo e _

theorem frugal_sleep (nanoseconds : Nat) : (ofProcess (Process.sleep nanoseconds)).Frugal :=
  fun _ e _ => comes_ofProcess ⟨spares_sleep nanoseconds e, rfl⟩

-- A motion waits and then changes the actor's place, if it comes so far.
theorem frugal_motion (target : Position) : (motion target).Frugal := by
  intro i e _
  have hmove : e.world.Spares (Process.move i.actor.id target e).alone.2.world := by
    rcases Process.move_begins i.actor.id target e with ⟨r, _, heq⟩ | ⟨a, time, _, _, _, heq⟩
    · rw [heq]
      exact World.spares_self _
    · rw [heq, Process.alone_bind]
      have hwaited := spares_sleep time { e with moveRequests := e.moveRequests + 1 }
      generalize (Process.sleep time { e with moveRequests := e.moveRequests + 1 }).alone.2 =
        later at hwaited ⊢
      rcases Process.arrival_cases i.actor.id target e.motionEpoch later with
        ⟨world, hend, _, hw⟩ | ⟨hend, _⟩
      · rw [hend]
        exact hwaited.trans (World.spares_placed hw)
      · rw [hend]
        exact hwaited
  unfold Comes
  rw [motion_eq, Process.alone_bind]
  exact ⟨hmove, rfl⟩

theorem frugal_visit (path : List Position) : (visit path).Frugal := by
  induction path with
  | nil => exact frugal_quiet fun _ => rfl
  | cons target rest ih =>
      rw [visit_cons]
      refine Frugal.bind (fun _ _ _ => ⟨World.spares_self _, rfl⟩) fun _ =>
        (frugal_motion target).bind fun arrived => ?_
      split
      · exact ih
      · exact frugal_interruptedAt target

/-- A walk costs its steps. -/
theorem walk_charges (hkeyed : e.world.Keyed) (path : List Position) :
    (walk path).Charges i e (min (stepEnergy * path.length) Integer.maxAmount) := by
  unfold Charges Comes
  rw [walk_eq]
  split
  · exact charges_fail _ _
  · split
    · next hempty =>
      rw [List.isEmpty_iff.mp hempty]
      exact charges_done rfl
    · exact (frugal_visit path).charges hkeyed fun _ _ _ hkeyed' =>
        frugal_resync.charges hkeyed' fun _ _ _ _ => charges_done rfl

/-- A walk to a goal costs the distance. -/
theorem walkTo_charges (hkeyed : e.world.Keyed) (goal : Position) :
    (walkTo goal).Charges i e
      (min (stepEnergy * i.actor.position.stepsTo goal) Integer.maxAmount) := by
  unfold Charges Comes
  rw [walkTo_eq]
  rcases Position.layOut_cases i.actor.position goal with hlaid | hlaid
  · rw [hlaid, ← Position.length_pathTo]
    exact walk_charges hkeyed _
  · rw [hlaid]
    exact charges_fail _ _

-- In one direction one soon comes out of the world: of two positions that are as far from each
-- other as the world is large, one lies outside.
theorem exists_outside {b : Bounds} (hsize : 0 ≤ max b.width b.height) (p : Position)
    (direction : Direction) {count : Nat} (hcount : (count : Int) = max b.width b.height + 1) :
    ∃ q ∈ p.line direction.delta.1 direction.delta.2 count, b.contains q = false := by
  have hmem : ∀ k : Nat, k < count → p.offset (direction.delta.1 * ((k : Int) + 1))
      (direction.delta.2 * ((k : Int) + 1)) ∈
        p.line direction.delta.1 direction.delta.2 count :=
    fun k hk => List.mem_map.mpr ⟨k, List.mem_range.mpr hk, rfl⟩
  have hfirst := hmem 0 (by omega)
  have hlast := hmem (count - 1) (by omega)
  have hreach : ((count - 1 : Nat) : Int) = max b.width b.height := by omega
  rw [hreach] at hlast
  by_cases hin : b.contains (p.offset (direction.delta.1 * ((0 : Nat) + 1))
      (direction.delta.2 * ((0 : Nat) + 1))) = true
  · refine ⟨_, hlast, Bool.eq_false_iff.mpr fun hout => ?_⟩
    simp only [Bounds.contains, Bool.and_eq_true, decide_eq_true_eq] at hin hout
    cases direction <;> simp only [Position.offset, Direction.delta] at hin hout <;> omega
  · exact ⟨_, hfirst, Bool.eq_false_iff.mpr hin⟩

-- The steps that are laid out are those that were asked for, unless they lead out of the world.
theorem amount?_of_inside {b : Bounds} (hsize : 0 ≤ max b.width b.height) (p : Position)
    (direction : Direction) {steps : Int} (hsteps : 0 ≤ steps)
    (hlaid : Integer.isCoordinate (min steps (max b.width b.height + 1)) = true)
    (hinside : ∀ q ∈ p.line direction.delta.1 direction.delta.2 (strideLength b steps),
      b.contains q = true) :
    Integer.amount? steps = some (strideLength b steps) := by
  have hlength : strideLength b steps = (min steps (max b.width b.height + 1)).toNat := by
    rw [strideLength, hlaid, if_pos rfl]
  by_cases hfits : steps ≤ max b.width b.height + 1
  · rw [Int.min_eq_left hfits] at hlaid hlength
    simp only [Integer.isCoordinate, Bool.and_eq_true, decide_eq_true_eq] at hlaid
    have hle : steps ≤ (Integer.maxAmount : Int) := by
      simp only [Integer.maxAmount]
      omega
    simp only [Integer.amount?, hsteps, hle, decide_true, Bool.and_self, if_true, hlength]
  · -- Fewer are laid out, and they lead out of the world.
    rw [Int.min_eq_right (by omega)] at hlength
    have hcount : (strideLength b steps : Int) = max b.width b.height + 1 := by omega
    rcases exists_outside hsize p direction hcount with ⟨q, hq, hout⟩
    rw [hinside q hq] at hout
    cases hout

-- A walk is checked as a whole.
theorem inside_of_find? {b : Bounds} {path : List Position}
    (h : path.find? (fun p => !b.contains p) = none) : ∀ q ∈ path, b.contains q = true := by
  intro q hq
  have hin := List.find?_eq_none.mp h q hq
  rwa [Bool.not_eq_true', Bool.not_eq_false] at hin

/-- A walk in a direction costs the steps that were asked for, as long as the steps that it lays out
    are a coordinate. -/
theorem stride_charges (hkeyed : e.world.Keyed)
    (hsize : 0 ≤ max e.world.bounds.width e.world.bounds.height) (direction : Direction)
    {steps : Int} (hsteps : 0 ≤ steps)
    (hlaid : Integer.isCoordinate
      (min steps (max e.world.bounds.width e.world.bounds.height + 1)) = true) :
    (stride direction steps).Charges i e
      (min (stepEnergy * (Integer.amount? steps).getD 0) Integer.maxAmount) := by
  unfold Charges Comes
  rw [stride_eq]
  rcases i.actor.position.layLine_cases direction.delta.1 direction.delta.2
    (strideLength e.world.bounds steps) with hline | hline
  · rw [hline]
    unfold walkAlong
    cases hfind : (i.actor.position.line direction.delta.1 direction.delta.2
        (strideLength e.world.bounds steps)).find? fun p => !e.world.bounds.contains p with
    | some outside =>
        simp only [walk_eq, hfind]
        exact charges_fail _ _
    | none =>
        have hinside := inside_of_find? hfind
        have hwalk := walk_charges (i := i) hkeyed (i.actor.position.line direction.delta.1
          direction.delta.2 (strideLength e.world.bounds steps))
        rw [Position.length_line] at hwalk
        rw [amount?_of_inside hsize i.actor.position direction hsteps hlaid hinside,
          Option.getD_some]
        exact hwalk
  · rw [hline]
    exact charges_fail _ _

end Step

/-! ## Operations -/

/-- What is declared for an operation. -/
def Operation.tariff : Operation → EnergyCost
  | step _ => .fixed stepEnergy
  | move => .perStep stepEnergy .asked
  | moveTo => .perStep stepEnergy .distance
  | plant => .fixed TileFunction.plant.energy
  | harvest => .fixed TileFunction.harvest.energy
  | store => .fixed TileFunction.store.energy
  | _ => .free

/-- The function of a tile that an operation calls, if it calls one. -/
def Operation.function? : Operation → Option TileFunction
  | plant => some .plant
  | harvest => some .harvest
  | eat => some .eat
  | store => some .store
  | _ => none

/-- The catalog declares for each capability what its operation costs, and the ones that call
    functions of tiles have the names of these. What is about time and computing is free. -/
theorem Catalog.builtin_declares {name : String} {c : Capability}
    (h : builtin.get? name = some c) :
    c.energy = c.operation.tariff ∧
      (c.operation.function? = none → TileFunction.ofName? name = none) ∧
      (∀ f, c.operation.function? = some f → TileFunction.ofName? name = some f) ∧
      (c.category ∈ [.system, .utility] →
        c.operation.tariff = .free ∧ c.operation.function? = none) ∧
      (c.operation = .move → name = "move") := by
  have hall : ∀ entry ∈ builtin.entries, entry.2.energy = entry.2.operation.tariff ∧
      (entry.2.operation.function? = none → TileFunction.ofName? entry.1 = none) ∧
      (entry.2.operation.function?.all (TileFunction.ofName? entry.1 = some ·)) ∧
      (entry.2.category ∈ [.system, .utility] →
        entry.2.operation.tariff = .free ∧ entry.2.operation.function? = none) ∧
      (entry.2.operation = .move → entry.1 = "move") := by
    decide +kernel
  rcases hall (name, c) (Entries.mem_of_get? h) with ⟨hcost, hnone, hsome, hfree, hmove⟩
  refine ⟨hcost, hnone, fun f hf => ?_, hfree, hmove⟩
  simp only [hf, Option.all_some, decide_eq_true_eq] at hsome
  exact hsome

namespace Step

variable {i : Interpreter} {e : Engine}

/-- What an argument has to be good for. -/
theorem withArgument_charges {α : Type} {r : Except ArgumentError α} {next : α → Step Success}
    {cost : Nat} (h : ∀ a, r = .ok a → (next a).Charges i e cost) :
    (withArgument r next).Charges i e cost := by
  cases r with
  | error error => exact charges_fail _ _
  | ok a => exact h a rfl

theorem computed_charges (r : Except ArgumentError Value) : (computed r).Charges i e 0 := by
  cases r with
  | error error => exact charges_fail _ _
  | ok v => exact charges_done rfl

-- The steps that are walked are those that were counted.
theorem stepsArgument_eq_ok {args : Arguments} {n : Int} (h : stepsArgument args = .ok n)
    (a : Actor) :
    0 ≤ n ∧ StepCount.asked.steps a args = (Integer.amount? n).getD 0 := by
  unfold stepsArgument at h
  split at h
  · next hlength =>
    have hnone : args[1]? = none := List.getElem?_eq_none hlength
    rw [← Except.ok.inj h]
    simp only [StepCount.steps, hnone]
    exact ⟨by decide, rfl⟩
  · cases hint : args.int 1 "steps" with
    | error error => simp only [hint, reduceCtorEq] at h
    | ok m =>
        simp only [hint] at h
        split at h
        · next hnonneg =>
          rw [← Except.ok.inj h]
          refine ⟨hnonneg, ?_⟩
          unfold Arguments.int at hint
          split at hint
          · next v hv =>
            split at hint
            · next k hk =>
              rw [← Except.ok.inj hint]
              simp only [StepCount.steps, hv, hk, Option.bind_some]
            · simp only [reduceCtorEq] at hint
          · simp only [reduceCtorEq] at hint
        · simp only [reduceCtorEq] at h

/-- An operation that calls no function of a tile takes nothing and reports what is declared for it,
    as long as the steps that it lays out are a coordinate. -/
theorem run_charges (hkeyed : e.world.Keyed)
    (hsize : 0 ≤ max e.world.bounds.width e.world.bounds.height) {args : Arguments}
    {o : Operation} (hlaid : o = .move → ∀ n, stepsArgument args = .ok n → Integer.isCoordinate
      (min n (max e.world.bounds.width e.world.bounds.height + 1)) = true)
    (ho : o.function? = none) :
    (o.run args).Charges i e (o.tariff.required i.actor args) := by
  cases o with
  | step direction =>
      refine stride_charges hkeyed hsize direction (by decide) ?_
      rw [Int.min_eq_left (by omega)]
      rfl
  | move =>
      refine withArgument_charges fun direction _ => withArgument_charges fun n hn => ?_
      rcases stepsArgument_eq_ok hn i.actor with ⟨hnonneg, hcounted⟩
      simp only [Operation.tariff, EnergyCost.required, hcounted]
      exact stride_charges hkeyed hsize direction hnonneg (hlaid rfl n hn)
  | moveTo =>
      refine withArgument_charges fun goal hgoal => ?_
      simp only [Operation.tariff, EnergyCost.required, StepCount.steps, hgoal]
      exact walkTo_charges hkeyed goal
  | plant => simp only [Operation.function?, reduceCtorEq] at ho
  | harvest => simp only [Operation.function?, reduceCtorEq] at ho
  | eat => simp only [Operation.function?, reduceCtorEq] at ho
  | store => simp only [Operation.function?, reduceCtorEq] at ho
  | wait =>
      exact withArgument_charges fun _ _ => (frugal_sleep _).charges hkeyed fun _ _ _ _ =>
        charges_done rfl
  | getPosition => exact charges_done rfl
  | getEnergy => exact charges_done rfl
  | getInventory => exact charges_done rfl
  | print => exact ⟨World.spares_self _, rfl, fun _ h => Except.ok.inj h ▸ rfl⟩
  | range => exact computed_charges _
  | len => exact computed_charges _
  | min => exact computed_charges _
  | max => exact computed_charges _
  | sum => exact computed_charges _
  | abs => exact computed_charges _

/-! ## Payment -/

-- A pause never fails, and costs nothing.
theorem pace_comes (s : Success) :
    (pace s).Comes i e fun r _ e' => r = .ok () ∧ e.world.Spares e'.world := by
  cases hduration : s.duration with
  | none =>
      unfold pace
      rw [hduration]
      exact ⟨rfl, World.spares_self _⟩
  | some duration =>
      have hpause : pace s = fun i =>
          ofProcess (Process.sleep (pacingPause duration i.settings.pacingCap * 1000000)) i := by
        unfold pace
        rw [hduration]
      unfold Comes
      rw [hpause]
      exact comes_ofProcess (Q := fun r _ e' => r = .ok () ∧ e.world.Spares e'.world)
        ⟨congrArg Except.ok (Subsingleton.elim _ _), spares_sleep _ e⟩

-- A cost is taken from an actor who has it.
theorem updateActor_debit {w : World} {id : String} {a : Actor} (ha : w.actors.get? id = some a)
    {cost : Nat} (hle : cost ≤ a.energy) :
    w.updateActor id { energy := some (.debit cost) } =
      .ok { w with actors := w.actors.insert id { a with energy := a.energy - cost } } := by
  refine (World.updateActor_eq_ok_iff _ _ _ _).mpr ⟨a, _, ha, ?_, rfl⟩
  simp only [World.patchActor, World.patchActor.energyPatched, Actor.changeEnergy, if_pos hle,
    Except.map]
  rfl

-- What a call reports is taken if it is there, and nothing is taken if it is not.
theorem charge_comes {energy : Nat} (hkeyed : e.world.Keyed)
    (henergy : e.world.energy? i.actor.id = some energy) (s : Success) :
    (charge s).Comes i e fun r _ e' => e'.world.Keyed ∧
      match r with
      | .ok _ => s.energyCost.getD 0 ≤ energy ∧
          e'.world.energy? i.actor.id = some (energy - s.energyCost.getD 0)
      | .error _ => energy < s.energyCost.getD 0 ∧ e'.world.energy? i.actor.id = some energy := by
  unfold charge
  cases hcost : s.energyCost with
  | none => exact ⟨hkeyed, Nat.zero_le _, henergy⟩
  | some cost =>
      by_cases hpositive : 0 < cost
      · simp only [if_pos hpositive, Option.getD_some]
        rcases Option.map_eq_some_iff.mp henergy with ⟨a, ha, rfl⟩
        by_cases hle : cost ≤ a.energy
        · have hpaid := updateActor_debit ha hle
          simp only [Comes, debit, hpaid, Process.alone]
          exact ⟨(World.updateActor_eq_ok hpaid).2.2 hkeyed, hle, World.energy?_insert _ _ _⟩
        · have hrefused : ∃ error, e.world.updateActor i.actor.id
              { energy := some (.debit cost) } = .error error := by
            refine ⟨.insufficientEnergy cost a.energy, ?_⟩
            simp only [World.updateActor, World.actor, ha, World.patchActor,
              World.patchActor.energyPatched, Actor.changeEnergy, if_neg hle, Except.map]
          rcases hrefused with ⟨error, hrefused⟩
          simp only [Comes, debit, hrefused, Process.alone]
          exact ⟨hkeyed, Nat.lt_of_not_le hle, henergy⟩
      · simp only [Option.getD_some, Nat.eq_zero_of_not_pos hpositive]
        exact ⟨hkeyed, Nat.zero_le _, henergy⟩

/-- What follows a call takes the cost that it reported, or fails because it is not there. -/
theorem settle_comes {energy : Nat} (hkeyed : e.world.Keyed)
    (henergy : e.world.energy? i.actor.id = some energy) (s : Success) :
    (settle s).Comes i e fun r _ e' =>
      match r with
      | .ok _ => s.energyCost.getD 0 ≤ energy ∧
          e'.world.energy? i.actor.id = some (energy - s.energyCost.getD 0)
      | .error _ => energy < s.energyCost.getD 0 ∧ e'.world.energy? i.actor.id = some energy := by
  rw [settle_eq]
  refine Comes.bind ((charge_comes hkeyed henergy s).mono fun r j e₁ hcharged => ?_)
  cases r with
  | error f => exact hcharged.2
  | ok _ =>
      refine Comes.bind ((pace_comes s).mono fun r' _ e₂ hpaced => ?_)
      rw [hpaced.1]
      rw [← hpaced.2.energies i.actor.id] at hcharged
      exact hcharged.2

end Step

/-! ## Calls -/

/-- What is asked for before a call by a name, if the name stands for a capability or for a function
    of the tile under the actor. -/
def World.required? (w : World) (actor name : String) (args : Arguments) : Option Nat :=
  (w.actors.get? actor).bind fun a =>
    match Catalog.builtin.get? name with
    | some c => some (c.energy.required a args)
    | none => ((w.tileAt? a.position).bind fun t => t.function? name).map TileFunction.energy

/-- What an accepted call takes from an actor who has what it needs: what a function of a tile
    leaves to it, or just the need. -/
def Engine.Paid (e e' : Engine) (a : Actor) (name : String) (needed : Nat) : Prop :=
  needed ≤ a.energy ∧
    match TileFunction.ofName? name with
    | none => e'.world.energy? a.id = some (a.energy - needed)
    | some f => ∃ t, e.world.tileAt? a.position = some t ∧
        e'.world.energy? a.id = some (f.leaves a t)

/-- A call that fails takes nothing, one for which the energy is not there does nothing, and one
    that succeeds is paid for. -/
def Engine.Bills (e e' : Engine) (a : Actor) (name : String) (needed : Nat) {α : Type}
    (outcome : Except Failure α) : Prop :=
  (a.energy < needed → outcome.isOk = false ∧ e'.world = e.world ∧ e'.slots = e.slots ∧
    e'.moveRequests = e.moveRequests) ∧
  match outcome with
  | .ok _ => e.Paid e' a name needed
  | .error _ => e'.world.energy? a.id = some a.energy

namespace Step

variable {i : Interpreter} {e : Engine} {name : String} {needed : Nat}

-- A failure that leaves the engine as it is.
theorem bills_failed {α : Type} (ha : e.world.actors.get? i.actor.id = some i.actor) (f : Failure) :
    e.Bills e i.actor name needed (.error f : Except Failure α) :=
  ⟨fun _ => ⟨rfl, rfl, rfl, rfl⟩, World.energy?_eq_some ha⟩

/-- A call of a function of the tile under the actor, with what follows it. -/
theorem invoke_bills (hkeyed : e.world.Keyed) (ha : e.world.actors.get? i.actor.id = some i.actor)
    {t : Tile} (ht : e.world.tileAt? i.actor.position = some t) {f : TileFunction}
    (hf : TileFunction.ofName? name = some f) :
    (Step.bind (Step.ofExcept (e.invoke true i.actor.id t.id name).1) settle).Comes i
      (e.invoke true i.actor.id t.id name).2 fun r _ e' =>
        e.Bills e' i.actor name f.energy r := by
  have hfail : ∀ failure, e.Bills e i.actor name f.energy (.error failure : Outcome) :=
    fun failure => bills_failed ha failure
  refine Comes.bind ?_
  rcases Engine.invoke_whole hkeyed i.actor.id t.id name with
    ⟨g, b, u, hb, hu, hg, henergy, hwhole⟩ | ⟨failure, hfailed, _⟩
  · -- The actor, the tile and the function are the ones that are meant.
    have hfun : g = f := by
      unfold Tile.function? at hg
      split at hg
      · rw [hf] at hg
        exact (Option.some.inj (Option.filter_eq_some_iff.mp hg).1).symm
      · simp only [reduceCtorEq] at hg
    have hactor : b = i.actor := Option.some.inj (hb.symm.trans ha)
    have htile : u = t := by
      unfold World.tileAt? at ht
      split at ht
      · next id _ =>
        have hid : t.id = id := hkeyed.tiles id t ht
        rw [hid, ht] at hu
        exact (Option.some.inj hu).symm
      · simp only [reduceCtorEq] at ht
    rw [hfun, hactor, htile] at hwhole
    have hneeds : f.energy ≤ i.actor.energy := hfun ▸ hactor ▸ henergy
    have hkeyed₁ := World.followed_keyed.invoke e true i.actor.id t.id name hkeyed
    generalize e.invoke true i.actor.id t.id name = r at hwhole hkeyed₁
    rcases r with ⟨outcome, e₁⟩
    cases outcome with
    | error failure =>
        rw [show e₁ = e from hwhole.1]
        exact hfail failure
    | ok s =>
        -- The function has taken its energy, and nothing more is reported.
        have hcost : s.energyCost.getD 0 = 0 := by rw [hwhole.1, Option.getD_none]
        show (settle s).Comes i e₁ fun r _ e' => e.Bills e' i.actor name f.energy r
        refine (settle_comes hkeyed₁ hwhole.2 s).mono fun r _ e₂ hsettled => ?_
        rw [hcost] at hsettled
        refine ⟨fun hlt => absurd hneeds (Nat.not_le.mpr hlt), ?_⟩
        cases r with
        | error failure => exact absurd hsettled.1 (Nat.not_lt_zero _)
        | ok _ =>
            refine ⟨hneeds, ?_⟩
            rw [hf]
            exact ⟨t, ht, hsettled.2⟩
  · rw [hfailed]
    exact hfail failure

-- An operation that calls a function of the tile, with what follows it.
theorem onTile_bills (hkeyed : e.world.Keyed) (ha : e.world.actors.get? i.actor.id = some i.actor)
    {f : TileFunction} (hf : TileFunction.ofName? name = some f) (hname : f.name = name) :
    (Step.bind (onTile f) settle).Comes i e fun r _ e' => e.Bills e' i.actor name f.energy r := by
  have hfail : ∀ failure, e.Bills e i.actor name f.energy (.error failure : Outcome) :=
    fun failure => bills_failed ha failure
  unfold Comes Step.bind onTile
  simp only
  split
  · next t ht =>
    split
    · rw [hname]
      exact invoke_bills hkeyed ha ht hf
    · exact hfail _
  · exact hfail _

/-- A call of a capability pays what is declared for it. -/
theorem callCapability_bills (hkeyed : e.world.Keyed)
    (ha : e.world.actors.get? i.actor.id = some i.actor)
    (hsize : 0 ≤ max e.world.bounds.width e.world.bounds.height) {args : Arguments}
    (hlaid : name = "move" → ∀ n, stepsArgument args = .ok n → Integer.isCoordinate
      (min n (max e.world.bounds.width e.world.bounds.height + 1)) = true)
    {c : Capability} (hc : Catalog.builtin.get? name = some c) :
    (callCapability c args).Comes i e fun r _ e' =>
      e.Bills e' i.actor name (c.energy.required i.actor args) r := by
  have hfail : ∀ failure, e.Bills e i.actor name (c.energy.required i.actor args)
      (.error failure : Outcome) := fun failure => bills_failed ha failure
  rcases Catalog.builtin_declares hc with ⟨hcost, hother, hfunction, _, hmove⟩
  unfold Comes
  rw [callCapability_eq]
  rcases c.energy.demand_cases i.actor args with hdemand | hdemand
  · rw [hdemand]
    simp only
    split
    · exact hfail _
    · next henough =>
      show (Step.bind (c.operation.run args) settle).Comes i e fun r _ e' =>
        e.Bills e' i.actor name (c.energy.required i.actor args) r
      cases ho : c.operation.function? with
      | some f =>
          have hruns : c.operation.run args = onTile f := by
            cases hop : c.operation <;> rw [hop] at ho <;>
              first | exact congrArg onTile (Option.some.inj ho) | cases ho
          have hneeded : c.energy.required i.actor args = f.energy := by
            rw [hcost]
            cases hop : c.operation <;> rw [hop] at ho <;> cases ho <;> rfl
          have hname : f.name = name := by
            have hfound := List.find?_some (hfunction f ho)
            exact of_decide_eq_true hfound
          rw [hruns, hneeded]
          exact onTile_bills hkeyed ha (hfunction f ho) hname
      | none =>
          -- The operation has taken nothing yet, and reports just what was asked for.
          have hcharges := run_charges (i := i) hkeyed hsize (fun hop => hlaid (hmove hop)) ho
          rw [← hcost] at hcharges
          have henergy := World.energy?_eq_some ha
          refine Comes.bind (hcharges.mono fun r j e₁ hrun => ?_)
          rcases hrun with ⟨hspared, hactor, hreported⟩
          have hleft : e₁.world.energy? j.actor.id = some i.actor.energy := by
            rw [hactor, hspared.energies, henergy]
          cases r with
          | error failure =>
              exact ⟨fun hlt => absurd hlt henough, (hspared.energies _).trans henergy⟩
          | ok s =>
              refine (settle_comes (hspared.keyed hkeyed) hleft s).mono fun r' _ e₂ hsettled => ?_
              rw [hreported s rfl, hactor] at hsettled
              refine ⟨fun hlt => absurd hlt henough, ?_⟩
              cases r' with
              | error failure => exact hsettled.2
              | ok _ =>
                  refine ⟨hsettled.1, ?_⟩
                  rw [hother ho]
                  exact hsettled.2
  · rw [hdemand]
    exact hfail _

/-- A call by a name that stands for a capability or a function of the tile is billed to the actor
    as the world has it, whatever the interpreter has seen of it. -/
theorem callWith_bills (subroutine : String → Subroutine → List Value → Step Success)
    (hkeyed : e.world.Keyed) {a : Actor} (ha : e.world.actors.get? i.actor.id = some a)
    (hsize : 0 ≤ max e.world.bounds.width e.world.bounds.height) {args : List Value}
    (hlaid : name = "move" → ∀ n, stepsArgument args = .ok n → Integer.isCoordinate
      (min n (max e.world.bounds.width e.world.bounds.height + 1)) = true)
    (hneeded : e.world.required? i.actor.id name args = some needed) :
    (callWith subroutine name args).Comes i e fun r _ e' => e.Bills e' a name needed r := by
  have hid : a.id = i.actor.id := hkeyed.actors _ a ha
  have ha' : e.world.actors.get? a.id = some a := hid ▸ ha
  have hfail : ∀ failure, e.Bills e a name needed (.error failure : Outcome) :=
    fun failure => bills_failed (i := { i with actor := a }) ha' failure
  rw [callWith_eq]
  -- The actor is looked at, and it may have a task.
  have hseen : resync i e = .done (.ok (), { i with actor := a }) e := by
    unfold resync
    rw [(World.actor_eq_ok_iff _ _ _).mpr ha]
  refine Comes.bind ?_
  unfold Comes
  rw [hseen]
  show (Step.bind checkIdle fun _ => dispatch subroutine name args).Comes { i with actor := a } e
    fun r _ e' => e.Bills e' a name needed r
  refine Comes.bind ?_
  cases htask : e.actorTask? a.id with
  | some task =>
      simp only [Comes, checkIdle, htask, Process.alone]
      exact hfail _
  | none =>
      simp only [Comes, checkIdle, htask, Process.alone]
      unfold World.required? at hneeded
      rw [ha, Option.bind_some] at hneeded
      show (dispatch subroutine name args).Comes { i with actor := a } e fun r _ e' =>
        e.Bills e' a name needed r
      unfold dispatch Comes
      cases hc : Catalog.builtin.get? name with
      | some c =>
          simp only [hc, Option.some.injEq] at hneeded
          rw [← hneeded]
          exact callCapability_bills (i := { i with actor := a }) (e := e.emit _) hkeyed ha' hsize
            hlaid hc
      | none =>
          simp only [hc] at hneeded
          rcases Option.map_eq_some_iff.mp hneeded with ⟨f, hoffered, rfl⟩
          rcases Option.bind_eq_some_iff.mp hoffered with ⟨t, ht, hfunction⟩
          have hoffer : offering? { i with actor := a } e name = some t := by
            unfold offering?
            rw [ht, Option.filter_some, hfunction]
            rfl
          have hname : TileFunction.ofName? name = some f := by
            unfold Tile.function? at hfunction
            split at hfunction
            · exact (Option.filter_eq_some_iff.mp hfunction).1
            · simp only [reduceCtorEq] at hfunction
          simp only [hoffer]
          exact invoke_bills (i := { i with actor := a }) (e := e.emit _) hkeyed ha' ht hname

end Step

-- Whoever carries nothing carries no item, and the other way round.
theorem Actor.load_eq_zero_iff (a : Actor) :
    a.load = 0 ↔ ∀ item n, a.inventory.get? item = some n → n = 0 := by
  constructor
  · intro hload item n hn
    have hle := Engine.le_load hn
    omega
  · intro hnone
    have hsum : ∀ (entries : List (String × Nat)), (∀ entry ∈ entries, entry.2 = 0) →
        (entries.map Prod.snd).foldl (· + ·) 0 = 0 := by
      intro entries
      induction entries with
      | nil => exact fun _ => rfl
      | cons entry rest ih =>
          intro hall
          rw [List.map_cons, List.foldl_cons, hall entry List.mem_cons_self]
          exact ih fun other hother => hall other (List.mem_cons_of_mem _ hother)
    refine hsum a.inventory.entries fun entry hentry => hnone entry.1 entry.2 ?_
    exact Entries.get?_of_mem a.inventory.nodup_keys hentry

namespace Engine

/-- What a call by a name costs its actor, by what was asked for before it. -/
structure ChargedOnce (e e' : Engine) (a : Actor) (name : String) (needed : Nat)
    (outcome : Outcome) : Prop where
  /-- Without the energy that it asks for, a call fails and does nothing. -/
  refused : a.energy < needed → outcome.isOk = false ∧ e'.world = e.world ∧ e'.slots = e.slots ∧
    e'.moveRequests = e.moveRequests
  failed : outcome.isOk = false → e'.world.energy? a.id = some a.energy
  /-- Deposits count only if there is something to deposit. -/
  charged : outcome.isOk = true → name ≠ TileFunction.eat.name →
    (name = TileFunction.store.name → ∃ item n, a.inventory.get? item = some n ∧ 0 < n) →
      needed ≤ a.energy ∧ e'.world.energy? a.id = some (a.energy - needed)
  free : (∃ c, Catalog.builtin.get? name = some c ∧ c.category ∈ [.system, .utility]) →
    e'.world.energy? a.id = some a.energy
  nothing : name = TileFunction.store.name →
    (∀ item n, a.inventory.get? item = some n → n = 0) → e'.world.energy? a.id = some a.energy
  eaten : outcome.isOk = true → name = TileFunction.eat.name →
    ∃ t, e.world.tileAt? a.position = some t ∧
      e'.world.energy? a.id = some (min (a.energy + t.nutrition) a.maxEnergy)

variable {e e' : Engine} {a : Actor} {name : String} {needed : Nat} {outcome : Outcome}

-- What a bill says, name by name.
theorem Bills.chargedOnce (h : e.Bills e' a name needed outcome)
    (hneeded : ∀ f, TileFunction.ofName? name = some f → needed = f.energy)
    (hfree : (∃ c, Catalog.builtin.get? name = some c ∧ c.category ∈ [.system, .utility]) →
      TileFunction.ofName? name = none ∧ needed = 0) :
    e.ChargedOnce e' a name needed outcome := by
  rcases h with ⟨hrefused, hpaid⟩
  have hstore : TileFunction.ofName? TileFunction.store.name = some .store := by decide
  have heat : TileFunction.ofName? TileFunction.eat.name = some .eat := by decide
  cases outcome with
  | error failure =>
      exact ⟨hrefused, fun _ => hpaid, nofun, fun _ => hpaid, fun _ _ => hpaid, nofun⟩
  | ok s =>
      rcases hpaid with ⟨henough, hpaid⟩
      refine ⟨hrefused, nofun, fun _ hnotEat hdeposit => ⟨henough, ?_⟩, fun hc => ?_,
        fun hname hnone => ?_, fun _ hname => ?_⟩
      · cases hf : TileFunction.ofName? name with
        | none =>
            rw [hf] at hpaid
            exact hpaid
        | some f =>
            rw [hf] at hpaid
            rcases hpaid with ⟨t, _, hleft⟩
            have hname : f.name = name := by
              have hfound := List.find?_some hf
              exact of_decide_eq_true hfound
            have hleaves : f.leaves a t = a.energy - f.energy := by
              cases f with
              | eat => exact absurd hname.symm hnotEat
              | store =>
                  -- An actor with something to deposit has a load.
                  rcases hdeposit hname.symm with ⟨item, n, hn, hpositive⟩
                  have hload : a.load ≠ 0 := fun hzero => by
                    have hnone := (Actor.load_eq_zero_iff a).mp hzero item n hn
                    omega
                  simp only [TileFunction.leaves, if_neg hload]
              | _ => rfl
            rw [hneeded f hf, ← hleaves]
            exact hleft
      · rcases hfree hc with ⟨hf, hzero⟩
        rw [hf, hzero] at hpaid
        exact hpaid
      · rw [hname, hstore] at hpaid
        rcases hpaid with ⟨t, _, hleft⟩
        have hload := (Actor.load_eq_zero_iff a).mpr hnone
        simp only [TileFunction.leaves, if_pos hload] at hleft
        exact hleft
      · rw [hname, heat] at hpaid
        exact hpaid

end Engine

-- What is asked for a name is what is declared for it.
theorem World.required?_declared {w : World} {actor name : String} {args : Arguments} {needed : Nat}
    (h : w.required? actor name args = some needed) :
    (∀ f, TileFunction.ofName? name = some f → needed = f.energy) ∧
      ((∃ c, Catalog.builtin.get? name = some c ∧ c.category ∈ [.system, .utility]) →
        TileFunction.ofName? name = none ∧ needed = 0) := by
  rcases Option.bind_eq_some_iff.mp h with ⟨a, _, ha⟩
  cases hc : Catalog.builtin.get? name with
  | some c =>
      simp only [hc, Option.some.injEq] at ha
      rcases Catalog.builtin_declares hc with ⟨hcost, hother, hfunction, hfree, _⟩
      rw [hcost] at ha
      refine ⟨fun f hf => ?_, ?_⟩
      · cases ho : c.operation.function? with
        | none =>
            rw [hother ho] at hf
            simp only [reduceCtorEq] at hf
        | some g =>
            rw [hfunction g ho] at hf
            rw [← ha, ← Option.some.inj hf]
            cases hop : c.operation <;> rw [hop] at ho <;> cases ho <;> rfl
      · rintro ⟨d, hd, hcategory⟩
        rcases hfree (Option.some.inj hd ▸ hcategory) with ⟨htariff, hnone⟩
        rw [htariff] at ha
        exact ⟨hother hnone, ha.symm⟩
  | none =>
      simp only [hc] at ha
      rcases Option.map_eq_some_iff.mp ha with ⟨f, hoffered, rfl⟩
      rcases Option.bind_eq_some_iff.mp hoffered with ⟨t, _, hfunction⟩
      unfold Tile.function? at hfunction
      split at hfunction
      · have hname := (Option.filter_eq_some_iff.mp hfunction).1
        refine ⟨fun g hg => ?_, fun ⟨d, hd, _⟩ => by simp only [reduceCtorEq] at hd⟩
        rw [hname, Option.some.injEq] at hg
        rw [hg]
      · simp only [reduceCtorEq] at hfunction

/-- A call from outside by a name that stands for a capability or a function of the tile under the
    actor, of an interpreter that runs alone. It comes to an end, and it is charged once and only if
    it succeeds, as long as the world is not so large that the steps of a walk cannot be laid
    out. -/
theorem callFunction_charged {i : Interpreter} {e : Engine} {a : Actor} {name : String}
    {args : List Value} {needed : Nat} (hkeyed : e.world.Keyed)
    (ha : e.world.actors.get? i.actor.id = some a)
    (hneeded : e.world.required? i.actor.id name args = some needed)
    (hsize : 0 ≤ max e.world.bounds.width e.world.bounds.height)
    (hlaid : name = "move" → ∀ n, Step.stepsArgument args = .ok n → Integer.isCoordinate
      (min n (max e.world.bounds.width e.world.bounds.height + 1)) = true) :
    let r := (callFunction name args i e).alone
    (∃ n, ∀ count, n ≤ count →
      e.run [callFunction name args i] [] count = some ([r.1], r.2)) ∧
      e.ChargedOnce r.2 a name needed r.1.1 := by
  refine ⟨e.run_alone _, ?_⟩
  rcases World.required?_declared hneeded with ⟨hfunction, hfree⟩
  have hcharged : ∀ e₁ : Engine, e₁.world = e.world → e₁.slots = e.slots →
      e₁.moveRequests = e.moveRequests → ∀ depth, (callAt depth name args).Comes i e₁ fun r _ e' =>
        e.ChargedOnce e' a name needed r := by
    intro e₁ hworld hslots hmoves depth
    have hbills : (callAt depth name args).Comes i e₁ fun r _ e' =>
        e₁.Bills e' a name needed r := by
      rw [← hworld] at hkeyed ha hneeded hsize hlaid
      cases depth with
      | zero => exact Step.callWith_bills _ hkeyed ha hsize hlaid hneeded
      | succ depth => exact Step.callWith_bills _ hkeyed ha hsize hlaid hneeded
    have hcharged := Engine.Bills.chargedOnce hbills hfunction hfree
    refine ⟨fun hlow => ?_, hcharged.failed, hcharged.charged, hcharged.free, hcharged.nothing, ?_⟩
    · rw [← hworld, ← hslots, ← hmoves]
      exact hcharged.refused hlow
    · rw [← hworld]
      exact hcharged.eaten
  unfold callFunction
  -- Before a call from outside, the interpreter may be set going, which changes nothing of this.
  by_cases hframes : i.frames.isEmpty = true
  · simp only [hframes, if_true]
    exact hcharged (e.setRunning i.handle true) rfl rfl rfl _
  · simp only [hframes]
    exact hcharged e rfl rfl rfl _

/-- A meal is charged: whoever eats loses what is asked for and gains what the food gives. -/
theorem callFunction_charged_meal :
    let kitchen := (World.empty ⟨1, 1⟩).insertTile (Tile.new "kitchen" .food ⟨0, 0⟩)
    let cook := { Actor.new "cook" ⟨0, 0⟩ with energy := 60 }
    let i := Interpreter.new 0 ⟨0, 1, 1⟩ cook
    let e := { Engine.new (kitchen.insertActor cook) 1 with running := [false] }
    e.world.Keyed ∧ e.world.required? "cook" "eat" [] = some 0 ∧
      (callFunction "eat" [] i e).alone.1.1.isOk = true ∧
      e.ChargedOnce (callFunction "eat" [] i e).alone.2 cook "eat" 0
        (callFunction "eat" [] i e).alone.1.1 := by
  intro kitchen cook i e
  have hkeyed : e.world.Keyed := ((World.keyed_empty _).insertTile _).insertActor _
  have hneeded : e.world.required? "cook" "eat" [] = some 0 := by decide +kernel
  exact ⟨hkeyed, hneeded, by decide +kernel,
    (callFunction_charged hkeyed rfl hneeded (by decide) (fun hname => absurd hname (by decide))).2⟩

/-- A road as long as a world can be, with someone at its beginning. -/
def WorldFile.longRoad : WorldFile where
  bounds := ⟨2147483647, 1⟩
  actors := [⟨"bot", .drone, ⟨0, 0⟩, some 4294967295, some 4294967295, none, .empty⟩]
  tiles := []
  resources := .empty

/-- A walk beyond the end of such a road is a walk to nowhere, and costs nothing. -/
theorem not_callFunction_charged :
    ¬ ∀ (file : WorldFile) (w : World), file.build = .ok w → ∀ (stepTime : Nat) (i : Interpreter)
      (a : Actor) (name : String) (args : List Value) (needed : Nat),
        w.actors.get? i.actor.id = some a → w.required? i.actor.id name args = some needed →
          let r := (callFunction name args i (Engine.new w stepTime)).alone
          (Engine.new w stepTime).ChargedOnce r.2 a name needed r.1.1 := by
  intro h
  have hcharged := h .longRoad _ rfl 1 (Interpreter.new 0 ⟨0, 1, 1⟩ (Actor.new "bot" ⟨0, 0⟩)) _
    "move" [.str "right", .int 2147483648] 4294967295 rfl rfl
  have hpaid := hcharged.charged rfl (by decide) fun hname => absurd hname (by decide)
  exact absurd hpaid.2 (by decide +kernel)

end Farmhand
