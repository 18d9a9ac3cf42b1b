import Farmhand.Proofs.Concurrent.Busy
import Farmhand.Proofs.Interpreter.Charging
import Farmhand.Proofs.Machine.Naming

/-!
# Walks, Step by Step

A walk goes through many states, and its actor pays for it in one step at the end. What has to hold
in between for the payment to be right is carried by the state itself: the positions still ahead are
one step apart, from where the actor is, and the energy for the whole walk is there. It is there
because it was asked for before the walk began, with the actor seen as the world had it at the
beginning of the call.

All this is said of one step of a machine in which no function of a tile is called. With respect to
walks such a step is of one of five kinds, and nothing else changes the place or the energy of its
actor.

## Main definitions

* `fare`: What a walk costs.
* `Position.Leads`: A way of single steps.
* `Machine.Control.walk?`, `Machine.Control.due`: How much of a walk is ahead, and what is to be
  paid.
* `Machine.Fits`: What a machine relies on about the place and the energy of its actor.
* `Machine.Stride`: What a step is with respect to walks.
* `Machine.Course.Affords`: What is free or asked enough for.

## Theorems

* `Position.leads_line`, `Position.leads_pathTo`: Walks that are laid out are ways of single steps.
* `Machine.course_affords`: What is asked for before a walk is enough for it.
* `Machine.strides_next`: Every step is of one of the five kinds.
-/

namespace Farmhand

open Script

/-- What a walk of some steps costs. -/
def fare (steps : Nat) : Nat :=
  min (stepEnergy * steps) Integer.maxAmount

/-! ## Ways -/

namespace Position

/-- A way of single steps from a position. -/
def Leads (p : Position) : List Position → Prop
  | [] => True
  | q :: rest => p.stepsTo q = 1 ∧ q.Leads rest

-- In a direction that changes one coordinate by one.
theorem leads_line_append {dx dy : Int} (hunit : dx.natAbs + dy.natAbs = 1) (p : Position)
    (count : Nat) {rest : List Position}
    (hrest : (p.offset (dx * count) (dy * count)).Leads rest) :
    p.Leads (p.line dx dy count ++ rest) := by
  induction count generalizing p with
  | zero =>
      have hhere : p.offset (dx * (0 : Nat)) (dy * (0 : Nat)) = p := by
        simp only [offset, Nat.cast_zero, Int.mul_zero, Int.add_zero]
      rw [hhere] at hrest
      exact hrest
  | succ count ih =>
      rw [line_succ, List.cons_append]
      refine ⟨?_, ih (p.offset dx dy) ?_⟩
      · simp only [stepsTo, offset]
        omega
      · rw [offset_succ]
        exact hrest

/-- A walk in a direction is a way of single steps. -/
theorem leads_line (p : Position) (direction : Direction) (count : Nat) :
    p.Leads (p.line direction.delta.1 direction.delta.2 count) := by
  have hunit : direction.delta.1.natAbs + direction.delta.2.natAbs = 1 := by
    cases direction <;> rfl
  have hway : p.Leads (p.line direction.delta.1 direction.delta.2 count ++ []) :=
    leads_line_append hunit p count trivial
  rwa [List.append_nil] at hway

-- No steps in no direction, or some steps of one.
theorem leads_sign (p : Position) (a : Int) (rest : List Position) :
    ((p.offset a 0).Leads rest → p.Leads (p.line a.sign 0 a.natAbs ++ rest)) ∧
      ((p.offset 0 a).Leads rest → p.Leads (p.line 0 a.sign a.natAbs ++ rest)) := by
  by_cases ha : a = 0
  · subst ha
    have hhere : p.offset 0 0 = p := by
      simp only [offset, Int.add_zero]
    rw [hhere]
    exact ⟨id, id⟩
  · have hunit : a.sign.natAbs = 1 := Int.natAbs_sign_of_ne_zero ha
    have hfar : a.sign * (a.natAbs : Int) = a := Int.sign_mul_natAbs a
    refine ⟨fun hrest => ?_, fun hrest => ?_⟩
    · refine leads_line_append (by rw [hunit]; rfl) p a.natAbs ?_
      rw [hfar, Int.zero_mul]
      exact hrest
    · refine leads_line_append (by rw [hunit]; rfl) p a.natAbs ?_
      rw [hfar, Int.zero_mul]
      exact hrest

/-- A walk to a goal is a way of single steps. -/
theorem leads_pathTo (p goal : Position) : p.Leads (p.pathTo goal) := by
  have hturn : p.offset (goal.x - p.x) 0 = ⟨goal.x, p.y⟩ := by
    simp only [offset, mk.injEq]
    omega
  refine (leads_sign p (goal.x - p.x) _).1 ?_
  rw [hturn]
  have hway := (leads_sign ⟨goal.x, p.y⟩ (goal.y - p.y) []).2 trivial
  rwa [List.append_nil] at hway

theorem stepsTo_self (p : Position) : p.stepsTo p = 0 := by
  simp only [stepsTo, Int.sub_self, Int.natAbs_zero, Nat.add_zero]

end Position

-- What calls no function of a tile.
theorem Operation.function?_eq_none {o : Operation} (h : o.isOnTile = false) :
    o.function? = none := by
  cases o with
  | plant => cases h
  | harvest => cases h
  | eat => cases h
  | store => cases h
  | _ => rfl

namespace Machine

/-! ## Where a machine is in a walk -/

/-- How many steps of a walk are ahead, and how many it has altogether. -/
def Control.walk? {k : Kind} : Control k → Option (Nat × Nat)
  | .visit path steps => some (path.length, steps)
  | .arrive _ _ rest steps => some (rest.length + 1, steps)
  | _ => none

/-- What is to be paid for a call that succeeded. -/
def Control.due {k : Kind} : Control k → Nat
  | .settle s => s.energyCost.getD 0
  | _ => 0

/-- A call succeeded, and what follows it is still to be done. -/
def Control.isSettle {k : Kind} : Control k → Bool
  | .settle _ => true
  | _ => false

-- What has nothing to do with walks owes nothing.
theorem Control.Plain.aside {k : Kind} {c : Control k} (h : c.Plain) :
    c.walk? = none ∧ c.due = 0 ∧ c.isSettle = false := by
  cases c with
  | _ => first | exact h.elim | exact ⟨rfl, rfl, rfl⟩

/-- What a machine relies on about the place and the energy of its actor. -/
def Fits (p : Position) (n : Nat) : Machine → Prop
  | ⟨_, .capability c _, _, i⟩ => i.actor.position = p ∧ i.actor.energy = n ∧
      ∃ name, Catalog.builtin.get? name = some c ∧ c.category ∈ [.movement, .system, .utility]
  | ⟨_, .tileFunction _ _, _, _⟩ => False
  | ⟨_, .visit path steps, _, _⟩ => p.Leads path ∧ fare steps ≤ n
  | ⟨_, .arrive _ target rest steps, _, _⟩ => p.Leads (target :: rest) ∧ fare steps ≤ n
  | ⟨_, .settle s, _, _⟩ => s.energyCost.getD 0 ≤ n
  | _ => True

theorem fits_of_plain {m : Machine} (h : m.control.Plain) (p : Position) (n : Nat) :
    Fits p n m := by
  rcases m with ⟨k, control, stack, i⟩
  cases control with
  | _ => first | exact h.elim | trivial

-- What is due is there.
theorem Fits.due_le {m : Machine} {p : Position} {n : Nat} (h : Fits p n m) :
    m.control.due ≤ n := by
  rcases m with ⟨k, control, stack, i⟩
  cases control with
  | settle s => exact h
  | _ => exact Nat.zero_le n

/-- What a step is with respect to walks, from a place and an energy to others. -/
inductive Stride (m : Machine) (p : Position) (n : Nat) :
    Option Machine → Position → Nat → Prop
  /-- It is none of a walk. If something is to be paid, it is paid. -/
  | aside {next : Option Machine} (hwalk : m.control.walk? = none)
      (hnext : ∀ m', next = some m' → m'.control.walk? = none ∧ m'.control.due = 0) :
      Stride m p n next p (n - m.control.due)
  /-- A walk begins. -/
  | begins {m' : Machine} {steps : Nat} (hwalk : m.control.walk? = none)
      (hdue : m.control.due = 0) (hnext : m'.control.walk? = some (steps, steps))
      (hnone : m'.control.due = 0) : Stride m p n (some m') p n
  /-- A walk goes on, and the actor may have moved. -/
  | goes {m' : Machine} {q : Position} {ahead ahead' steps : Nat}
      (hwalk : m.control.walk? = some (ahead, steps)) (hdue : m.control.due = 0)
      (hnext : m'.control.walk? = some (ahead', steps)) (hnone : m'.control.due = 0)
      (hahead : ahead' + p.stepsTo q = ahead) : Stride m p n (some m') q n
  /-- A walk is over before its end. -/
  | breaks {m' : Machine} {ahead steps : Nat} (hwalk : m.control.walk? = some (ahead, steps))
      (hdue : m.control.due = 0) (hnext : m'.control.walk? = none) (hnone : m'.control.due = 0)
      (hfails : m'.control.isSettle = false) : Stride m p n (some m') p n
  /-- A walk is at its end, and is to be paid. -/
  | arrives {m' : Machine} {steps : Nat} (hwalk : m.control.walk? = some (0, steps))
      (hdue : m.control.due = 0) (hnext : m'.control.walk? = none)
      (howes : m'.control.due = fare steps) (hsettles : m'.control.isSettle = true) :
      Stride m p n (some m') p n

/-- A step after which the actor has a place and an energy that fit. -/
def Strides (m : Machine) (p : Position) (n : Nat) (a : String) (next : Progress) : Prop :=
  ∃ q l, next.engine.world.place? a = some q ∧ next.engine.world.energy? a = some l ∧
    Stride m p n next.machine? q l ∧ ∀ m', next.machine? = some m' → Fits q l m'

variable {m m' : Machine} {e e' : Engine} {p : Position} {n : Nat} {a : String}

theorem Strides.pausing (h : Strides m p n a (.on m' e')) (nanoseconds : Nat) :
    Strides m p n a (pausing nanoseconds m' e') := by
  unfold Machine.pausing
  split
  · exact h
  · exact h

/-! ## Steps that are none of a walk -/

section

variable (hplace : e.world.place? a = some p) (henergy : e.world.energy? a = some n)
include hplace henergy

-- A step to nothing of a call that was announced.
theorem strides_plain {next : Progress} (hworld : next.engine.world = e.world)
    (hwalk : m.control.walk? = none) (hdue : m.control.due = 0)
    (hplain : ∀ m', next.machine? = some m' → m'.control.Plain) : Strides m p n a next := by
  have hstride : Stride m p n next.machine? p (n - m.control.due) :=
    .aside hwalk fun m' hm => ⟨(hplain m' hm).aside.1, (hplain m' hm).aside.2.1⟩
  rw [hdue] at hstride
  exact ⟨p, n, hworld ▸ hplace, hworld ▸ henergy, hstride,
    fun m' hm => fits_of_plain (hplain m' hm) p n⟩

-- A step to the end of a call that is free.
theorem strides_free (hworld : e'.world = e.world) (hwalk : m.control.walk? = none)
    (hdue : m.control.due = 0) {s : Success} (hs : s.energyCost = none) {stack : Stack .success}
    {i : Interpreter} : Strides m p n a (.on ⟨_, .settle s, stack, i⟩ e') := by
  have hnone : (Control.settle s).due = 0 := by rw [Control.due, hs, Option.getD_none]
  have hstride : Stride m p n (some ⟨_, .settle s, stack, i⟩) p (n - m.control.due) :=
    .aside hwalk fun m' hm => Option.some.inj hm ▸ ⟨rfl, hnone⟩
  rw [hdue] at hstride
  refine ⟨p, n, hworld ▸ hplace, hworld ▸ henergy, hstride, fun m' hm => ?_⟩
  rw [← Option.some.inj hm]
  have hle : (Control.settle s).due ≤ n := hnone ▸ Nat.zero_le n
  exact hle

-- A walk is over, and nothing of it is left.
theorem strides_breaks {ahead steps : Nat} (hworld : e'.world = e.world)
    (hwalk : m.control.walk? = some (ahead, steps)) (hdue : m.control.due = 0)
    (hplain : m'.control.Plain) : Strides m p n a (.on m' e') := by
  rcases hplain.aside with ⟨hnext, hnone, hfails⟩
  exact ⟨p, n, hworld ▸ hplace, hworld ▸ henergy, .breaks hwalk hdue hnext hnone hfails,
    fun m'' hm => Option.some.inj hm ▸ fits_of_plain hplain p n⟩

end

/-! ## Walks that are laid out -/

-- What is asked for before a walk in a direction is enough for it, if it does not lead out of the
-- world.
theorem fare_stride {b : Bounds} (hsize : 0 ≤ max b.width b.height) (p : Position)
    (direction : Direction) {steps : Int} (hsteps : 0 ≤ steps)
    (hpath : p.line direction.delta.1 direction.delta.2 (Step.strideLength b steps) ≠ [])
    (hinside : ∀ q ∈ p.line direction.delta.1 direction.delta.2 (Step.strideLength b steps),
      b.contains q = true) :
    fare (p.line direction.delta.1 direction.delta.2 (Step.strideLength b steps)).length =
      fare ((Integer.amount? steps).getD 0) := by
  have hlaid : Integer.isCoordinate (min steps (max b.width b.height + 1)) = true := by
    rw [← Bool.not_eq_false]
    intro hnot
    refine hpath ?_
    rw [Step.strideLength, hnot, if_neg Bool.false_ne_true]
    rfl
  rw [Position.length_line, Step.amount?_of_inside hsize p direction hsteps hlaid hinside,
    Option.getD_some]

/-- What is free, and a walk from a place for which enough is asked if it stays in the world. -/
def Course.Affords (p : Position) (b : Bounds) (asked : Nat) : Course → Prop
  | .answer outcome => ∀ s, outcome = .ok s → s.energyCost = none
  | .print _ => True
  | .walk path => p.Leads path ∧
      (path ≠ [] → (∀ q ∈ path, b.contains q = true) → fare path.length ≤ asked)
  | .onTile _ => False
  | .pause _ s => s.energyCost = none

theorem affords_computed (p : Position) (b : Bounds) (asked : Nat)
    (r : Except ArgumentError Value) : (Course.computed r).Affords p b asked := by
  cases r with
  | ok v => exact fun s hs => Except.ok.inj hs ▸ rfl
  | error error => exact fun s hs => by cases hs

-- What depends on an argument affords what it does for every good one.
theorem affords_withArgument {α : Type} {p : Position} {b : Bounds} {asked : Nat}
    {r : Except ArgumentError α} {next : α → Course}
    (h : ∀ a, r = .ok a → (next a).Affords p b asked) :
    (Course.withArgument r next).Affords p b asked := by
  cases r with
  | ok a => exact h a rfl
  | error error => exact fun s hs => by cases hs

-- A walk that is laid out is along the way itself.
theorem affords_along {p : Position} {b : Bounds} {asked : Nat}
    {laid : Except Overflow (List Position)}
    (h : ∀ path, laid = .ok path → (Course.walk path).Affords p b asked) :
    (Course.along laid).Affords p b asked := by
  cases laid with
  | ok path => exact h path rfl
  | error overflow => exact fun s hs => by cases hs

/-- What is asked for before a walk is enough for it, and all else that a capability sets out to do
    is free, if it is no function of a tile. -/
theorem course_affords {b : Bounds} (hsize : 0 ≤ max b.width b.height) {o : Operation}
    (ho : o.function? = none) (args : Arguments) (i : Interpreter) :
    (Course.of o args i b).Affords i.actor.position b (o.tariff.required i.actor args) := by
  cases o with
  | step direction =>
      refine affords_along fun path hlaid => ?_
      rcases Position.layLine_eq_ok_iff.mp hlaid with ⟨rfl, _⟩
      refine ⟨Position.leads_line _ direction _, fun hpath hinside => ?_⟩
      rw [fare_stride hsize i.actor.position direction (by decide) hpath hinside]
      exact Nat.min_le_left _ _
  | move =>
      refine affords_withArgument fun direction _ => affords_withArgument fun steps hsteps => ?_
      refine affords_along fun path hlaid => ?_
      rcases Position.layLine_eq_ok_iff.mp hlaid with ⟨rfl, _⟩
      rcases Step.stepsArgument_eq_ok hsteps i.actor with ⟨hnonneg, hcounted⟩
      refine ⟨Position.leads_line _ direction _, fun hpath hinside => ?_⟩
      rw [fare_stride hsize i.actor.position direction hnonneg hpath hinside, fare,
        Operation.tariff, EnergyCost.required, hcounted]
  | moveTo =>
      refine affords_withArgument fun goal hgoal => affords_along fun path hlaid => ?_
      rw [Position.eq_of_layOut hlaid]
      refine ⟨Position.leads_pathTo _ goal, fun _ _ => ?_⟩
      rw [Position.length_pathTo, fare, Operation.tariff, EnergyCost.required, StepCount.steps,
        hgoal]
  | plant => simp only [Operation.function?, reduceCtorEq] at ho
  | harvest => simp only [Operation.function?, reduceCtorEq] at ho
  | eat => simp only [Operation.function?, reduceCtorEq] at ho
  | store => simp only [Operation.function?, reduceCtorEq] at ho
  | wait => exact affords_withArgument fun _ _ => rfl
  | getPosition => exact fun s hs => Except.ok.inj hs ▸ rfl
  | getEnergy => exact fun s hs => Except.ok.inj hs ▸ rfl
  | getInventory => exact fun s hs => Except.ok.inj hs ▸ rfl
  | print => trivial
  | range => exact affords_computed _ _ _ _
  | len => exact affords_computed _ _ _ _
  | min => exact affords_computed _ _ _ _
  | max => exact affords_computed _ _ _ _
  | sum => exact affords_computed _ _ _ _
  | abs => exact affords_computed _ _ _ _

/-! ## Calls -/

-- What a walk begins with: it fails, is over, or lies in the world.
theorem ofWalk_cases (stack : Stack .success) (i : Interpreter) (e : Engine)
    (path : List Position) :
    (∃ f, ofWalk stack i e path = ofResult stack i (.error f)) ∨
      (∃ s : Success, s.energyCost = none ∧ ofWalk stack i e path = ⟨_, .settle s, stack, i⟩) ∨
      path ≠ [] ∧ (∀ q ∈ path, e.world.bounds.contains q = true) ∧
        ofWalk stack i e path = ⟨_, .visit path path.length, stack, i⟩ := by
  unfold ofWalk
  split
  · exact .inl ⟨_, rfl⟩
  · next hfind =>
    cases path with
    | nil => exact .inr (.inl ⟨_, rfl, rfl⟩)
    | cons target rest =>
        exact .inr (.inr ⟨List.cons_ne_nil _ _, Step.inside_of_find? hfind, rfl⟩)

section

variable {stack : Stack .success} {i : Interpreter}
variable (hplace : e.world.place? i.actor.id = some p)
variable (henergy : e.world.energy? i.actor.id = some n)
include hplace henergy

/-- What a capability sets out to do is free, or a walk for which enough was asked, or a function of
    a tile, which is none of those that are called here. -/
theorem strides_ofCourse {c : Capability} {args : List Value} {asked : Nat} {course : Course}
    (hcourse : course.Affords p e.world.bounds asked) (henough : asked ≤ n) :
    Strides ⟨_, .capability c args, stack, i⟩ p n i.actor.id (ofCourse stack i e course) := by
  cases course with
  | answer outcome =>
      cases outcome with
      | ok s => exact strides_free hplace henergy rfl rfl rfl (hcourse s rfl)
      | error f =>
          exact strides_plain hplace henergy rfl rfl rfl fun _ hm => Option.some.inj hm ▸ trivial
  | print text => exact strides_free hplace henergy rfl rfl rfl rfl
  | walk path =>
      rcases hcourse with ⟨hleads, henergies⟩
      simp only [ofCourse]
      rcases ofWalk_cases stack i e path with
        ⟨f, hwalk⟩ | ⟨s, hfree, hwalk⟩ | ⟨hpath, hinside, hwalk⟩
      · rw [hwalk]
        exact strides_plain hplace henergy rfl rfl rfl fun _ hm => Option.some.inj hm ▸ trivial
      · rw [hwalk]
        exact strides_free hplace henergy rfl rfl rfl hfree
      · rw [hwalk]
        refine ⟨p, n, hplace, henergy, .begins rfl rfl rfl rfl, fun _ hm => ?_⟩
        rw [← Option.some.inj hm]
        exact ⟨hleads, (henergies hpath hinside).trans henough⟩
  | onTile f => exact hcourse.elim
  | pause nanoseconds s =>
      exact Strides.pausing (strides_free hplace henergy rfl rfl rfl hcourse) nanoseconds

-- The interpreter sees its actor as the world has it, so that what is asked for is there.
theorem strides_ofCapability (hsize : 0 ≤ max e.world.bounds.width e.world.bounds.height)
    {c : Capability} {args : List Value} (hfits : Fits p n ⟨_, .capability c args, stack, i⟩) :
    Strides ⟨_, .capability c args, stack, i⟩ p n i.actor.id (ofCapability stack i e c args) := by
  rcases hfits with ⟨rfl, rfl, name, hc, hcategory⟩
  have hcost := (Catalog.builtin_declares hc).1
  have hnone := Operation.function?_eq_none (isOnTile_of_category hc hcategory)
  have hfails : ∀ f, Strides ⟨_, .capability c args, stack, i⟩ _ _ i.actor.id
      (.on (ofResult stack i (.error f)) e) := fun f =>
    strides_plain hplace henergy rfl rfl rfl fun _ hm => Option.some.inj hm ▸ trivial
  unfold ofCapability
  rcases c.energy.demand_cases i.actor args with hdemand | hdemand
  · rw [hdemand]
    simp only
    split
    · exact hfails _
    · next henough =>
      rw [hcost] at henough
      exact strides_ofCourse hplace henergy (course_affords hsize hnone args i)
        (Nat.le_of_not_lt henough)
  · rw [hdemand]
    exact hfails _

-- The call is told as what it is.
theorem strides_ofCall {name : String} {args : List Value}
    (hcalls : e.TellsSolitary (ofCall stack i e name args).engine) :
    Strides ⟨_, .call name args, stack, i⟩ p n i.actor.id (ofCall stack i e name args) := by
  simp only [ofCall] at hcalls ⊢
  split
  · exact strides_plain hplace henergy rfl rfl rfl fun _ hm => Option.some.inj hm ▸ trivial
  · next a ha =>
    have hget := (World.actor_eq_ok_iff _ _ _).mp ha
    split
    · exact strides_plain hplace henergy rfl rfl rfl fun _ hm => Option.some.inj hm ▸ trivial
    · split
      · next hidle _ callee hcallee =>
        simp only [ha, hidle, hcallee] at hcalls
        have hsolitary := Engine.isSolitary_of_emit hcalls
        refine ⟨p, n, hplace, henergy, .aside rfl fun _ hm => ?_, fun _ hm => ?_⟩
        · rw [← Option.some.inj hm]
          cases callee with
          | _ => exact ⟨rfl, rfl⟩
        · rw [← Option.some.inj hm]
          rw [World.place?, hget] at hplace
          rw [World.energy?, hget] at henergy
          cases callee with
          | capability c =>
              rcases hsolitary with ⟨c', hc', hcategory⟩
              have hc := get?_of_callee?_capability hcallee
              rw [Option.some.inj (hc'.symm.trans hc)] at hcategory
              exact ⟨Option.some.inj hplace, Option.some.inj henergy, name, hc, hcategory⟩
          | tileFunction t => exact hsolitary.elim
          | subroutine s => trivial
      · exact strides_plain hplace henergy rfl rfl rfl fun _ hm => Option.some.inj hm ▸ trivial

/-! ## Walks under way -/

/-- A motion that is refused ends the walk, and one that begins leaves the actor where it is. -/
theorem strides_ofMotion {target : Position} {rest : List Position} {steps : Nat}
    (hfits : Fits p n ⟨_, .visit (target :: rest) steps, stack, i⟩) :
    Strides ⟨_, .visit (target :: rest) steps, stack, i⟩ p n i.actor.id
      (ofMotion stack i e target rest steps) := by
  simp only [ofMotion]
  split
  · exact strides_breaks hplace henergy rfl rfl rfl trivial
  · split
    · split
      · exact strides_breaks hplace henergy rfl rfl rfl trivial
      · exact strides_breaks hplace henergy rfl rfl rfl trivial
      · refine Strides.pausing ?_ _
        refine ⟨p, n, hplace, henergy, .goes rfl rfl rfl rfl ?_, fun _ hm => ?_⟩
        · rw [Position.stepsTo_self]
          rfl
        · rw [← Option.some.inj hm]
          exact hfits
    · exact strides_breaks hplace henergy rfl rfl rfl trivial

/-- A walk that has arrived is paid next, and one that was stopped ends without being paid. -/
theorem strides_ofVisit {path : List Position} {steps : Nat}
    (hfits : Fits p n ⟨_, .visit path steps, stack, i⟩) :
    Strides ⟨_, .visit path steps, stack, i⟩ p n i.actor.id (ofVisit stack i e path steps) := by
  cases path with
  | nil =>
      simp only [ofVisit]
      split
      · exact strides_breaks hplace henergy rfl rfl rfl trivial
      · refine ⟨p, n, hplace, henergy, .arrives rfl rfl rfl rfl rfl, fun _ hm => ?_⟩
        rw [← Option.some.inj hm]
        exact hfits.2
  | cons target rest =>
      simp only [ofVisit]
      split
      · exact strides_ofMotion hplace henergy hfits
      · exact strides_breaks hplace henergy rfl rfl rfl trivial

-- The one step in which the place changes.
theorem strides_ofArrive {epoch : Nat} {target : Position} {rest : List Position} {steps : Nat}
    (hfits : Fits p n ⟨_, .arrive epoch target rest steps, stack, i⟩) :
    Strides ⟨_, .arrive epoch target rest steps, stack, i⟩ p n i.actor.id
      (ofArrive stack i e epoch target rest steps) := by
  rcases hfits with ⟨⟨hone, hleads⟩, hfare⟩
  unfold ofArrive
  split
  · split
    · next w hw =>
      have hthere : w.place? i.actor.id = some target := by
        rcases (World.updateActor_eq_ok_iff _ _ _ _).mp hw with ⟨a, b, _, hb, rfl⟩
        rcases World.patchActor_eq_ok hb with ⟨l, rfl, _⟩
        unfold World.place?
        rw [Table.get?_insert_self]
        rfl
      refine ⟨target, n, hthere, ?_, .goes rfl rfl rfl rfl ?_, fun _ hm => ?_⟩
      · exact ((World.spares_placed hw).energies _).trans henergy
      · rw [hone]
      · rw [← Option.some.inj hm]
        exact ⟨hleads, hfare⟩
    · exact strides_breaks hplace henergy rfl rfl rfl trivial
  · exact strides_breaks hplace henergy rfl rfl rfl trivial

/-! ## Payment -/

omit hplace henergy in
-- A pause after what was paid.
theorem strides_ofPace {s : Success} {j : Interpreter}
    (hplace : e'.world.place? a = some p)
    (henergy : e'.world.energy? a = some (n - s.energyCost.getD 0)) :
    Strides ⟨_, .settle s, stack, i⟩ p n a (ofPace stack j e' s) := by
  have hover : Strides ⟨_, .settle s, stack, i⟩ p n a (.on (ofResult stack j (.ok s)) e') :=
    ⟨p, _, hplace, henergy, .aside rfl fun _ hm => Option.some.inj hm ▸ ⟨rfl, rfl⟩,
      fun _ hm => Option.some.inj hm ▸ trivial⟩
  unfold ofPace
  split
  · exact hover.pausing _
  · exact hover

/-- The payment. The energy is there, so it is not refused, and afterwards nothing is due. -/
theorem strides_ofSettle {s : Success} (hfits : Fits p n ⟨_, .settle s, stack, i⟩) :
    Strides ⟨_, .settle s, stack, i⟩ p n i.actor.id (ofSettle stack i e s) := by
  have hle : s.energyCost.getD 0 ≤ n := hfits
  unfold ofSettle
  split
  · next cost hcost =>
    rw [hcost, Option.getD_some] at hle
    split
    · rcases Option.map_eq_some_iff.mp henergy with ⟨x, hx, rfl⟩
      have hpaid := Step.updateActor_debit hx hle
      rw [hpaid]
      refine strides_ofPace ?_ ?_
      · exact (World.still_updateActor rfl hpaid _).trans hplace
      · rw [hcost]
        exact World.energy?_insert _ _ _
    · next hzero =>
      refine strides_ofPace hplace ?_
      rw [hcost, Option.getD_some, Nat.eq_zero_of_not_pos hzero]
      exact henergy
  · next hcost =>
    refine strides_ofPace hplace ?_
    rw [hcost]
    exact henergy

end

/-! ## Steps -/

-- What has nothing to do with a call but to begin it leaves the world as it is.
theorem world_next (hventures : ¬ m.control.Ventures) (hsettle : m.control.isSettle = false)
    (e : Engine) : (m.next e).engine.world = e.world := by
  rcases m with ⟨k, control, stack, i⟩
  cases control with
  | job job =>
      cases job with
      | call actor name args =>
          simp only [next, ofJob, Progress.engine]
          split
          · rfl
          · rfl
      | main actor =>
          simp only [next, ofJob]
          split
          · rfl
          · simp only [Progress.engine, Engine.emitAll_eq]
  | execute s =>
      simp only [next]
      split
      · rfl
      · rfl
  | whileLoop condition body turns =>
      simp only [next]
      split
      · rfl
      · rfl
  | forLoop name body values =>
      cases values with
      | nil => rfl
      | cons v rest =>
          simp only [next]
          split
          · rfl
          · rfl
  | back r =>
      cases stack with
      | last => rfl
      | main actor rest =>
          cases r with
          | ok s => rfl
          | error f =>
              simp only [next, ofBack, Progress.engine, endRun, Engine.emitAll_eq]
              split
              · rfl
              · rfl
      | pend p rest =>
          cases r with
          | ok a => rfl
          | error f => rfl
      | body name rest =>
          cases r with
          | ok flow => rfl
          | error f => rfl
  -- Only calls, walks and payments reach the world.
  | call name args => exact absurd trivial hventures
  | capability c args => exact absurd trivial hventures
  | tileFunction t name => exact absurd trivial hventures
  | visit path steps => exact absurd trivial hventures
  | arrive epoch target rest steps => exact absurd trivial hventures
  | settle s => cases hsettle
  | _ => rfl

/-- Every step in which no function of a tile is called is of one of the five kinds, and leaves the
    actor with a place and an energy that fit. -/
theorem strides_next (hcalls : e.TellsSolitary (m.next e).engine)
    (hsize : 0 ≤ max e.world.bounds.width e.world.bounds.height)
    (hplace : e.world.place? m.interpreter.actor.id = some p)
    (henergy : e.world.energy? m.interpreter.actor.id = some n) (hfits : Fits p n m) :
    Strides m p n m.interpreter.actor.id (m.next e) := by
  have haside : ¬ m.control.Ventures → m.control.isSettle = false →
      m.control.walk? = none → m.control.due = 0 →
      Strides m p n m.interpreter.actor.id (m.next e) := by
    intro hventures hsettle hwalk hdue
    exact strides_plain hplace henergy (world_next hventures hsettle e) hwalk hdue fun _ hm =>
      plain_next hventures hm
  rcases m with ⟨k, control, stack, i⟩
  cases control with
  | call name args =>
      exact strides_ofCall hplace henergy hcalls
  | capability c args => exact strides_ofCapability hplace henergy hsize hfits
  | tileFunction t name => exact hfits.elim
  | visit path steps => exact strides_ofVisit hplace henergy hfits
  | arrive epoch target rest steps => exact strides_ofArrive hplace henergy hfits
  | settle s => exact strides_ofSettle hplace henergy hfits
  | _ => exact haside id rfl rfl rfl

end Machine

end Farmhand
