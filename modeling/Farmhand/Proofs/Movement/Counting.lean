import Mathlib.Tactic.Ring
import Farmhand.Capability.Basic
import Farmhand.Duration

/-!
# Numbers That Fit

Before a walk its steps are counted, so that energy can be asked for them, and its places are laid
out. Each of its steps is timed. The program computes all this with numbers of a fixed size, and
here is what it computes: what there is to compute, or nothing if one of the numbers on the way does
not fit. Of the numbers that come up while a way is laid out, none is larger than the first ones, so
it is told at the beginning whether a way can be laid out.

## Theorems

* `Position.layOut_eq`: A way is laid out if its goal is not too far away.
* `Position.layLine_cases`: Equal steps are laid out, or not all of them fit.
* `EnergyCost.demand_cases`: What is asked for before a call is what it costs, or cannot be counted.
* `Duration.stepAt?_eq_some_iff`: When a step takes some time.
-/

namespace Farmhand

theorem Integer.isCoordinate_iff (n : Int) :
    Integer.isCoordinate n = true ↔ -2147483648 ≤ n ∧ n ≤ 2147483647 := by
  simp only [Integer.isCoordinate, Bool.and_eq_true, decide_eq_true_eq]

namespace Position

/-! ## Equal steps -/

theorem length_line (p : Position) (dx dy : Int) (count : Nat) :
    (p.line dx dy count).length = count := by
  rw [line, List.length_map, List.length_range]

-- The first of some equal steps, and the others from where it leads.
theorem line_succ (p : Position) (dx dy : Int) (count : Nat) :
    p.line dx dy (count + 1) = p.offset dx dy :: (p.offset dx dy).line dx dy count := by
  rw [line, List.range_succ_eq_map, List.map_cons, List.map_map, line]
  refine List.cons_eq_cons.mpr ⟨?_, List.map_congr_left fun n _ => ?_⟩
  · simp only [offset, Nat.cast_zero, Int.zero_add, Int.mul_one]
  · simp only [Function.comp, offset, Nat.cast_succ, mk.injEq]
    constructor
    · ring
    · ring

-- One step and then some more.
theorem offset_succ (p : Position) (dx dy : Int) (count : Nat) :
    (p.offset dx dy).offset (dx * count) (dy * count) =
      p.offset (dx * (count + 1 : Nat)) (dy * (count + 1 : Nat)) := by
  simp only [offset, Nat.cast_succ, mk.injEq]
  constructor
  · ring
  · ring

/-- Equal steps are laid out as they are, or one of them leads out of the range of coordinates. -/
theorem layLine_cases (p : Position) (dx dy : Int) (count : Nat) :
    p.layLine dx dy count = .ok (p.line dx dy count) ∨
      p.layLine dx dy count = .error .coordinate := by
  unfold layLine
  simp only
  split
  · exact .inl rfl
  · exact .inr rfl

-- A line is laid out exactly if all its positions can be counted.
theorem layLine_eq_ok_iff {p : Position} {dx dy : Int} {count : Nat} {path : List Position} :
    p.layLine dx dy count = .ok path ↔
      path = p.line dx dy count ∧ ∀ q ∈ path, q.isCounted = true := by
  unfold layLine
  simp only
  split
  · next hall =>
    rw [List.all_eq_true] at hall
    constructor
    · intro h
      rw [← Except.ok.inj h]
      exact ⟨rfl, hall⟩
    · rintro ⟨rfl, _⟩
      rfl
  · next hnot =>
    refine ⟨fun h => (by cases h), fun ⟨heq, hall⟩ => ?_⟩
    subst heq
    exact absurd (List.all_eq_true.mpr hall) hnot

/-! ## Ways to a goal -/

-- A way takes as many steps as its ends are apart.
theorem length_pathTo (p goal : Position) : (p.pathTo goal).length = p.stepsTo goal := by
  rw [pathTo, List.length_append, length_line, length_line, stepsTo]
  omega

/-- How far a goal is, in columns and in rows, is told by coordinates. -/
def Reachable (p goal : Position) : Prop :=
  Integer.isCoordinate (goal.x - p.x) = true ∧ Integer.isCoordinate (goal.y - p.y) = true

instance (p goal : Position) : Decidable (p.Reachable goal) :=
  inferInstanceAs (Decidable (_ ∧ _))

-- One of the steps that bring a number to zero, and those after it.
theorem natAbs_sub_sign {d : Int} (h : d ≠ 0) :
    d.natAbs = (d - d.sign).natAbs + 1 ∧
      ((d - d.sign).natAbs = 0 ∨ (d - d.sign).sign = d.sign) := by
  rcases Int.lt_or_gt_of_ne h with hneg | hpos
  · rw [Int.sign_eq_neg_one_of_neg hneg]
    refine ⟨by omega, ?_⟩
    by_cases hlast : d = -1
    · exact .inl (by omega)
    · exact .inr (Int.sign_eq_neg_one_of_neg (by omega))
  · rw [Int.sign_eq_one_of_pos hpos]
    refine ⟨by omega, ?_⟩
    by_cases hlast : d = 1
    · exact .inl (by omega)
    · exact .inr (Int.sign_eq_one_of_pos (by omega))

-- A line has no direction if it has no steps, so its direction is that of what is left.
theorem line_sign (p : Position) {d : Int} (h : d ≠ 0) :
    p.line d.sign 0 d.natAbs =
        p.offset d.sign 0 :: (p.offset d.sign 0).line (d - d.sign).sign 0 (d - d.sign).natAbs ∧
      p.line 0 d.sign d.natAbs =
        p.offset 0 d.sign :: (p.offset 0 d.sign).line 0 (d - d.sign).sign (d - d.sign).natAbs := by
  rcases natAbs_sub_sign h with ⟨hcount, hleft⟩
  rw [hcount, line_succ, line_succ]
  rcases hleft with hnone | hsign
  · rw [hnone]
    exact ⟨rfl, rfl⟩
  · rw [hsign]
    exact ⟨rfl, rfl⟩

-- In the column of the goal, the way goes along it.
theorem pathTo_along {p goal : Position} (hcolumn : p.x = goal.x) :
    p.pathTo goal = p.line 0 (goal.y - p.y).sign (goal.y - p.y).natAbs := by
  have hnone : goal.x - p.x = 0 := by omega
  have hhere : (⟨goal.x, p.y⟩ : Position) = p := by rw [← hcolumn]
  rw [pathTo, hnone, hhere]
  rfl

/-- A step towards a goal is the first of the way there, or the goal is too far away. How far it is
    can be told after the step if it could be told before. -/
theorem approach_cases {p goal : Position} (h : p ≠ goal) :
    (∃ q, p.approach goal = .ok q ∧ p.stepsTo goal = q.stepsTo goal + 1 ∧
      p.pathTo goal = q :: q.pathTo goal ∧ (q.Reachable goal ↔ p.Reachable goal)) ∨
    (p.approach goal = .error .coordinate ∧ ¬ p.Reachable goal) := by
  unfold approach Reachable
  by_cases hcolumn : p.x = goal.x
  -- In the column of the goal the next step is up or down.
  · have hrow : goal.y - p.y ≠ 0 := by
      intro hsame
      refine h ?_
      cases p
      cases goal
      simp only [mk.injEq] at hcolumn hsame ⊢
      omega
    rw [if_neg (not_not_intro hcolumn)]
    split
    · next hfits =>
      have hrest : goal.y - (p.offset 0 (goal.y - p.y).sign).y =
          goal.y - p.y - (goal.y - p.y).sign := by
        simp only [offset]
        omega
      have hnear := natAbs_sub_sign hrow
      have hstill : (p.offset 0 (goal.y - p.y).sign).x = goal.x := by
        simp only [offset, Int.add_zero, hcolumn]
      refine .inl ⟨_, rfl, ?_, ?_, ?_⟩
      · simp only [stepsTo]
        omega
      · rw [pathTo_along hcolumn, pathTo_along hstill, (line_sign p hrow).2, hrest]
      · simp only [Integer.isCoordinate_iff] at hfits ⊢
        omega
    · next hfar => exact .inr ⟨rfl, fun hreach => hfar hreach.2⟩
  -- Otherwise it is to the left or to the right.
  · have hcolumn' : goal.x - p.x ≠ 0 := by omega
    rw [if_pos hcolumn]
    split
    · next hfits =>
      have hrest : goal.x - (p.offset (goal.x - p.x).sign 0).x =
          goal.x - p.x - (goal.x - p.x).sign := by
        simp only [offset]
        omega
      have hnear := natAbs_sub_sign hcolumn'
      have hstill : (p.offset (goal.x - p.x).sign 0).y = p.y := by
        simp only [offset, Int.add_zero]
      refine .inl ⟨_, rfl, ?_, ?_, ?_⟩
      · simp only [stepsTo]
        omega
      · rw [pathTo, pathTo, (line_sign p hcolumn').1, hrest, hstill, List.cons_append]
      · simp only [Integer.isCoordinate_iff] at hfits ⊢
        omega
    · next hfar => exact .inr ⟨rfl, fun hreach => hfar hreach.1⟩

theorem layOutFrom_eq (p goal : Position) (before : List Position) :
    layOutFrom goal (p.stepsTo goal) p before =
      if p.Reachable goal then .ok (before.reverse ++ p.pathTo goal) else .error .coordinate := by
  -- By induction on the steps that are left.
  induction hleft : p.stepsTo goal generalizing p before with
  | zero =>
      have hsame : p = goal := by
        cases p
        cases goal
        simp only [stepsTo, mk.injEq] at hleft ⊢
        omega
      have hnear : p.Reachable p := by
        simp only [Reachable, Int.sub_self]
        exact ⟨rfl, rfl⟩
      rw [← hsame, if_pos hnear, pathTo_along rfl, Int.sub_self]
      simp only [layOutFrom, Int.natAbs_zero, line, List.range_zero, List.map_nil, List.append_nil]
  | succ left ih =>
      have hne : p ≠ goal := by
        rintro rfl
        simp only [stepsTo] at hleft
        omega
      rcases approach_cases hne with ⟨q, hstep, hsteps, hpath, hreach⟩ | ⟨hstep, hfar⟩
      · rw [layOutFrom, hstep, hpath]
        have hrest := ih q (q :: before) (by omega)
        simp only [hreach, List.reverse_cons, List.append_assoc, List.singleton_append] at hrest ⊢
        exact hrest
      · rw [layOutFrom, hstep, if_neg hfar]

/-- A way is laid out as it is if the columns and the rows between its ends can be told, and not at
    all otherwise. -/
theorem layOut_eq (p goal : Position) :
    p.layOut goal = if p.Reachable goal then .ok (p.pathTo goal) else .error .coordinate :=
  layOutFrom_eq p goal []

theorem layOut_cases (p goal : Position) :
    p.layOut goal = .ok (p.pathTo goal) ∨ p.layOut goal = .error .coordinate := by
  rw [layOut_eq]
  split
  · exact .inl rfl
  · exact .inr rfl

-- What is laid out is the way itself.
theorem eq_of_layOut {p goal : Position} {path : List Position} (h : p.layOut goal = .ok path) :
    path = p.pathTo goal := by
  rcases layOut_cases p goal with hlaid | hlaid
  · exact Except.ok.inj (h.symm.trans hlaid)
  · cases h.symm.trans hlaid

end Position

/-! ## Costs -/

-- Two positions are as many steps apart as is counted, or too many for that.
theorem Position.countSteps_cases (p q : Position) :
    p.countSteps q = .ok (p.stepsTo q) ∨ p.countSteps q = .error .steps := by
  unfold countSteps
  split
  · exact .inl rfl
  · exact .inr rfl

/-- The steps of a call are counted, or there are too many of them. -/
theorem StepCount.count_cases (s : StepCount) (a : Actor) (args : Arguments) :
    s.count a args = .ok (s.steps a args) ∨ s.count a args = .error .steps := by
  cases s with
  | asked => exact .inl rfl
  | distance =>
      simp only [count, steps]
      cases args.target with
      | ok p => exact a.position.countSteps_cases p
      | error error => exact .inl rfl

/-- What is asked for before a call is what it costs, or its steps are too many to be counted. -/
theorem EnergyCost.demand_cases (c : EnergyCost) (a : Actor) (args : Arguments) :
    c.demand a args = .ok (c.required a args) ∨ c.demand a args = .error .steps := by
  cases c with
  | free => exact .inl rfl
  | fixed amount => exact .inl rfl
  | perStep amount steps =>
      simp only [demand, required]
      rcases steps.count_cases a args with hcount | hcount
      · rw [hcount]
        exact .inl rfl
      · rw [hcount]
        exact .inr rfl

namespace Duration

variable {stepTime time : Nat} {speed : Float}

/-- A step takes some time if it is timed, and not if the time does not fit. -/
theorem stepAt?_eq_some_iff :
    stepAt? stepTime speed = some time ↔ stepAt stepTime speed = .ok (some time) := by
  unfold stepAt?
  constructor
  · intro h
    split at h
    · next hstep =>
      rw [hstep, h]
    · cases h
  · intro h
    rw [h]

-- What does not fit, if anything, is the time of the step.
theorem stepAt_eq_error {o : Overflow} (h : stepAt stepTime speed = .error o) : o = .stepTime := by
  unfold stepAt at h
  split at h
  · split at h
    · split at h
      · cases h
      · exact (Except.error.inj h).symm
    · cases h
  · cases h

end Duration

end Farmhand
