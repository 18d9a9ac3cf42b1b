import Farmhand.Proofs.Concurrent.Fares

/-!
# Ways Through the World

A walk is laid out in one of two manners: as some equal steps in a direction, or along the row and
then along the column to a goal. The first is a special case of the second, whose goal is where the
steps lead, so what is said here of the way to a goal is said of both. Such a way stays between its
ends. As a world has all that lies between two of its places, a way whose goal lies in the world
never leaves it.

The numbers that come up while a way is laid out have their ranges. The places of a world lie at one
end of the range of coordinates, so everything that lies on their side of zero can be counted with.
A goal need not lie in the world to be asked for, and one that lies far out on the other side can be
too far away. The program, which counts in these ranges, breaks off then.

## Main definitions

* `Position.Route`: A way of single steps in the world, columns first.
* `Position.reckoned`: The numbers that come up when a way is laid out.
* `Actor.Reckons`: All numbers fit that come up before an actor sets out for a goal.

## Theorems

* `Position.pathTo_offset`: Steps in a direction are the way to where they lead.
* `Position.route_pathTo`: The way to a goal in the world stays there.
* `Actor.reckons_iff`: Which goals can be counted with, and that the others break the program off.
* `Actor.not_always_reckons`: Not all of them can.
-/

namespace Farmhand

theorem Bounds.contains_iff (b : Bounds) (p : Position) :
    b.contains p = true ↔ 0 ≤ p.x ∧ 0 ≤ p.y ∧ p.x < b.width ∧ p.y < b.height := by
  simp only [Bounds.contains, Bool.and_eq_true, decide_eq_true_eq, and_assoc]

namespace Position

variable {p goal q : Position} {b : Bounds}

/-! ## Where a way leads -/

-- The last of some equal steps.
theorem getLastD_line (p : Position) (dx dy : Int) (count : Nat) :
    (p.line dx dy count).getLastD p = p.offset (dx * count) (dy * count) := by
  induction count generalizing p with
  | zero => simp only [line, List.range_zero, List.map_nil, List.getLastD_nil, offset,
      Nat.cast_zero, Int.mul_zero, Int.add_zero]
  | succ count ih => rw [line_succ, List.getLastD_cons, ih, offset_succ]

-- The way goes to the column of the goal first, and from there to the goal.
theorem getLastD_pathTo (p goal : Position) : (p.pathTo goal).getLastD p = goal := by
  have hturn : (p.line (goal.x - p.x).sign 0 (goal.x - p.x).natAbs).getLastD p =
      ⟨goal.x, p.y⟩ := by
    rw [getLastD_line, Int.sign_mul_natAbs]
    simp only [offset, mk.injEq]
    omega
  have hend : (Position.line ⟨goal.x, p.y⟩ 0 (goal.y - p.y).sign
      (goal.y - p.y).natAbs).getLastD ⟨goal.x, p.y⟩ = goal := by
    rw [getLastD_line, Int.sign_mul_natAbs]
    cases goal
    simp only [offset, mk.injEq]
    omega
  rw [List.getLastD_eq_getLast?] at hturn hend
  rw [List.getLastD_eq_getLast?, pathTo, List.getLast?_append, Option.getD_or, hturn, hend]

/-- Steps in a direction are the way to where they lead. -/
theorem pathTo_offset (p : Position) (direction : Direction) (count : Nat) :
    p.pathTo (p.offset (direction.delta.1 * count) (direction.delta.2 * count)) =
      p.line direction.delta.1 direction.delta.2 count := by
  -- A coordinate that stays takes no steps, and the other one takes all of them.
  have hnone : ∀ (q : Position) (dx dy : Int), q.line dx dy 0 = [] := fun _ _ _ => rfl
  have hfar : ∀ m n : Int, m + n - m = n := fun m n => by omega
  cases count with
  | zero => simp only [pathTo, offset, Nat.cast_zero, Int.mul_zero, hfar, Int.natAbs_zero, hnone,
      List.append_nil]
  | succ count =>
      have hsign : ((count + 1 : Nat) : Int).sign = 1 := Int.sign_natCast_of_ne_zero (by omega)
      cases direction <;>
        simp only [pathTo, offset, Direction.delta, hfar, Int.zero_mul, Int.one_mul, Int.neg_mul,
          Int.sign_neg, hsign, Int.natAbs_neg, Int.natAbs_natCast, Int.natAbs_zero, hnone,
          List.append_nil, List.nil_append, Int.add_zero, Int.sub_self]

/-! ## What lies on a way -/

-- Some of the steps to a coordinate lead no further than all of them.
theorem sign_mul_between {d : Int} {i : Nat} (h : i < d.natAbs) :
    min 0 d ≤ d.sign * ((i : Int) + 1) ∧ d.sign * ((i : Int) + 1) ≤ max 0 d := by
  rcases Int.lt_trichotomy d 0 with hneg | hzero | hpos
  · rw [Int.sign_eq_neg_one_of_neg hneg]
    omega
  · omega
  · rw [Int.sign_eq_one_of_pos hpos]
    omega

theorem mem_line {dx dy : Int} {count : Nat} (h : q ∈ p.line dx dy count) :
    ∃ i : Nat, i < count ∧ q = p.offset (dx * ((i : Int) + 1)) (dy * ((i : Int) + 1)) := by
  rcases List.mem_map.mp h with ⟨i, hi, rfl⟩
  exact ⟨i, List.mem_range.mp hi, rfl⟩

-- The first part of a way stays in its row.
theorem mem_across (h : q ∈ p.line (goal.x - p.x).sign 0 (goal.x - p.x).natAbs) :
    q.y = p.y ∧ min p.x goal.x ≤ q.x ∧ q.x ≤ max p.x goal.x := by
  rcases mem_line h with ⟨i, hi, rfl⟩
  have hbetween := sign_mul_between hi
  simp only [offset, Int.zero_mul, Int.add_zero, true_and]
  omega

-- The second part stays in the column of the goal.
theorem mem_along
    (h : q ∈ Position.line ⟨goal.x, p.y⟩ 0 (goal.y - p.y).sign (goal.y - p.y).natAbs) :
    q.x = goal.x ∧ min p.y goal.y ≤ q.y ∧ q.y ≤ max p.y goal.y := by
  rcases mem_line h with ⟨i, hi, rfl⟩
  have hbetween := sign_mul_between hi
  simp only [offset, Int.zero_mul, Int.add_zero, true_and]
  omega

/-- A way stays between its ends. -/
theorem mem_pathTo (h : q ∈ p.pathTo goal) :
    (min p.x goal.x ≤ q.x ∧ q.x ≤ max p.x goal.x) ∧
      (min p.y goal.y ≤ q.y ∧ q.y ≤ max p.y goal.y) := by
  rcases List.mem_append.mp h with hacross | halong
  · rcases mem_across hacross with ⟨hrow, hcolumn⟩
    exact ⟨hcolumn, by omega⟩
  · rcases mem_along halong with ⟨hcolumn, hrow⟩
    exact ⟨by omega, hrow⟩

/-! ## Routes -/

/-- A way of single steps to a goal that stays in the world and goes along the row before it goes
    along the column. -/
structure Route (p : Position) (b : Bounds) (goal : Position) (path : List Position) : Prop where
  leads : p.Leads path
  inside : ∀ q ∈ path, b.contains q = true
  columnsFirst : ∃ across along, path = across ++ along ∧ (∀ q ∈ across, q.y = p.y) ∧
    ∀ q ∈ along, q.x = goal.x
  length : path.length = p.stepsTo goal
  arrives : path.getLastD p = goal

/-- The way to a goal in the world stays there. -/
theorem route_pathTo (hp : b.contains p = true) (hgoal : b.contains goal = true) :
    p.Route b goal (p.pathTo goal) where
  leads := leads_pathTo p goal
  inside q hq := by
    have hbetween := mem_pathTo hq
    rw [Bounds.contains_iff] at hp hgoal ⊢
    omega
  columnsFirst := ⟨_, _, rfl, fun _ hq => (mem_across hq).1, fun _ hq => (mem_along hq).1⟩
  length := length_pathTo p goal
  arrives := getLastD_pathTo p goal

-- A goal out of the world is on the way to it.
theorem exists_outside_pathTo (hp : b.contains p = true) (hgoal : b.contains goal = false) :
    ∃ q ∈ p.pathTo goal, b.contains q = false := by
  have hend := getLastD_pathTo p goal
  cases hpath : p.pathTo goal with
  | nil =>
      -- Whoever does not move is there already.
      rw [hpath, List.getLastD_nil] at hend
      rw [← hend, hp] at hgoal
      cases hgoal
  | cons q rest =>
      rw [hpath, List.getLastD_cons] at hend
      exact ⟨goal, hend ▸ List.getLastD_mem_cons, hgoal⟩

/-! ## Numbers -/

/-- The signed numbers that come up when the way to a goal is laid out: at each place of it, the
    place itself and how far the goal still is, in columns and in rows. -/
def reckoned (p goal : Position) : List Int :=
  (p :: p.pathTo goal).flatMap fun q => [q.x, q.y, goal.x - q.x, goal.y - q.y]

-- The farthest that one gets from both ends is where one begins.
theorem reckoned_iff (hx : Integer.isCoordinate p.x = true) (hy : Integer.isCoordinate p.y = true)
    (hgx : Integer.isCoordinate goal.x = true) (hgy : Integer.isCoordinate goal.y = true) :
    (∀ n ∈ p.reckoned goal, Integer.isCoordinate n = true) ↔
      p.Reachable goal := by
  constructor
  · intro h
    have hhere : ∀ n ∈ [p.x, p.y, goal.x - p.x, goal.y - p.y], n ∈ p.reckoned goal := fun n hn =>
      List.mem_flatMap.mpr ⟨p, List.mem_cons_self, hn⟩
    exact ⟨h _ (hhere _ (by simp)), h _ (hhere _ (by simp))⟩
  · rintro ⟨hdx, hdy⟩ n hn
    rcases List.mem_flatMap.mp hn with ⟨q, hq, hn⟩
    have hbetween : (min p.x goal.x ≤ q.x ∧ q.x ≤ max p.x goal.x) ∧
        (min p.y goal.y ≤ q.y ∧ q.y ≤ max p.y goal.y) := by
      rcases List.mem_cons.mp hq with rfl | hq
      · omega
      · exact mem_pathTo hq
    rw [Integer.isCoordinate_iff] at hx hy hgx hgy hdx hdy ⊢
    simp only [List.mem_cons, List.not_mem_nil, or_false] at hn
    rcases hn with rfl | rfl | rfl | rfl
    · omega
    · omega
    · omega
    · omega

end Position

-- A goal that is asked for is one of coordinates.
theorem Arguments.target_eq_ok {args : Arguments} {goal : Position} (h : args.target = .ok goal) :
    Integer.isCoordinate goal.x = true ∧ Integer.isCoordinate goal.y = true := by
  have hcoordinate : ∀ {name : String} {m n : Int}, coordinate name m = .ok n →
      Integer.isCoordinate n = true := by
    intro name m n hn
    unfold coordinate at hn
    split at hn
    · next hm => rwa [← Except.ok.inj hn]
    · cases hn
  unfold target at h
  split at h
  · cases h
  · split at h
    · cases h
    · next y _ =>
      split at h
      · cases h
      · next x hx =>
        cases hy : coordinate "y" y with
        | error error =>
            rw [hy] at h
            cases h
        | ok n =>
            rw [hy] at h
            rw [← Except.ok.inj h]
            exact ⟨hcoordinate hx, hcoordinate hy⟩

namespace Actor

/-- All numbers fit that come up before an actor sets out for a goal: the steps that are counted to
    ask for energy, and those with which the way is laid out. -/
structure Reckons (a : Actor) (args : Arguments) (goal : Position) : Prop where
  steps : StepCount.distance.steps a args ≤ Integer.maxAmount
  numbers : ∀ n ∈ a.position.reckoned goal, Integer.isCoordinate n = true

/-- The program sets out for a goal with what it computes beforehand: it knows what to ask for, and
    it has the way before it. -/
structure SetsOut (a : Actor) (args : Arguments) (goal : Position) : Prop where
  asks : Operation.moveTo.tariff.demand a args = .ok (Operation.moveTo.tariff.required a args)
  laysOut : a.position.layOut goal = .ok (a.position.pathTo goal)

-- All numbers fit exactly if the program does not break off before it sets out.
theorem reckons_iff_setsOut {a : Actor} (hx : Integer.isCoordinate a.position.x = true)
    (hy : Integer.isCoordinate a.position.y = true) {args : Arguments} {goal : Position}
    (hgoal : args.target = .ok goal) : a.Reckons args goal ↔ a.SetsOut args goal := by
  rcases Arguments.target_eq_ok hgoal with ⟨hgx, hgy⟩
  have hnumbers := Position.reckoned_iff hx hy hgx hgy
  have hsteps : StepCount.distance.steps a args = a.position.stepsTo goal := by
    simp only [StepCount.steps, hgoal]
  have hcount : StepCount.distance.count a args = a.position.countSteps goal := by
    simp only [StepCount.count, hgoal]
  have hasks : Operation.moveTo.tariff.demand a args =
        .ok (Operation.moveTo.tariff.required a args) ↔
      StepCount.distance.steps a args ≤ Integer.maxAmount := by
    simp only [Operation.tariff, EnergyCost.demand, EnergyCost.required, hcount, hsteps,
      Position.countSteps]
    split
    · next hfits => exact iff_of_true rfl hfits
    · next hmany => exact iff_of_false (fun h => by cases h) hmany
  have hlaysOut : a.position.layOut goal = .ok (a.position.pathTo goal) ↔
      a.position.Reachable goal := by
    rw [Position.layOut_eq]
    split
    · next hreach => exact iff_of_true rfl hreach
    · next hfar => exact iff_of_false (fun h => by cases h) hfar
  constructor
  · rintro ⟨hfits, hall⟩
    exact ⟨hasks.mpr hfits, hlaysOut.mpr (hnumbers.mp hall)⟩
  · rintro ⟨hasked, hlaid⟩
    exact ⟨hasks.mp hasked, hnumbers.mpr (hlaysOut.mp hlaid)⟩

/-- From a place in the world all goals can be counted with but those that are farther to the left
    or farther up than the range of coordinates has numbers below zero, and the one that is as far
    as that in both. For those the program breaks off before it sets out. -/
theorem reckons_iff {b : Bounds} (hwidth : Integer.isCoordinate b.width = true)
    (hheight : Integer.isCoordinate b.height = true) {a : Actor}
    (ha : b.contains a.position = true) {args : Arguments} {goal : Position}
    (hgoal : args.target = .ok goal) :
    (a.Reckons args goal ↔
      -2147483648 ≤ goal.x - a.position.x ∧ -2147483648 ≤ goal.y - a.position.y ∧
        goal ≠ a.position.offset (-2147483648) (-2147483648)) ∧
    (a.Reckons args goal ↔ a.SetsOut args goal) := by
  have hcounted : StepCount.distance.steps a args = a.position.stepsTo goal := by
    simp only [StepCount.steps, hgoal]
  rcases Arguments.target_eq_ok hgoal with ⟨hgx, hgy⟩
  have hfar : goal = a.position.offset (-2147483648) (-2147483648) ↔
      goal.x = a.position.x + -2147483648 ∧ goal.y = a.position.y + -2147483648 := by
    cases goal
    simp only [Position.offset, Position.mk.injEq]
  have hsteps : a.position.stepsTo goal ≤ Integer.maxAmount ↔
      (a.position.x - goal.x).natAbs + (a.position.y - goal.y).natAbs ≤ 4294967295 := Iff.rfl
  rw [Bounds.contains_iff] at ha
  rw [Integer.isCoordinate_iff] at hwidth hheight
  have hx : Integer.isCoordinate a.position.x = true :=
    (Integer.isCoordinate_iff _).mpr (by omega)
  have hy : Integer.isCoordinate a.position.y = true :=
    (Integer.isCoordinate_iff _).mpr (by omega)
  refine ⟨?_, reckons_iff_setsOut hx hy hgoal⟩
  have hnumbers := Position.reckoned_iff hx hy hgx hgy
  rw [Position.Reachable, Integer.isCoordinate_iff, Integer.isCoordinate_iff] at hnumbers
  rw [Integer.isCoordinate_iff] at hgx hgy
  rw [ne_eq, hfar]
  constructor
  · rintro ⟨hcount, hall⟩
    rw [hcounted, hsteps] at hcount
    rw [hnumbers] at hall
    omega
  · rintro ⟨hleft, hup, hcorner⟩
    refine ⟨?_, hnumbers.mpr (by omega)⟩
    rw [hcounted, hsteps]
    omega

/-- Everything that is not too far to the left or up can be counted with, wherever the world
    ends. -/
theorem reckons_beyond :
    let a := Actor.new "bot" ⟨2, 1⟩
    let args : Arguments := [.int 2147483647, .int (-2147483647)]
    args.target = .ok ⟨2147483647, -2147483647⟩ ∧ a.Reckons args ⟨2147483647, -2147483647⟩ ∧
      a.SetsOut args ⟨2147483647, -2147483647⟩ := by
  intro a args
  have hinside : (⟨3, 2⟩ : Bounds).contains a.position = true := rfl
  have htarget : args.target = .ok ⟨2147483647, -2147483647⟩ := rfl
  have hiff := reckons_iff rfl rfl hinside htarget
  have hreckons := hiff.1.mpr ⟨by decide, by decide, by decide⟩
  exact ⟨htarget, hreckons, hiff.2.mp hreckons⟩

/-- From the corner of the smallest world, the farthest goal of all is more steps away than can be
    counted, and the program breaks off when it counts them. -/
theorem not_always_reckons :
    ¬ (∀ (b : Bounds) (a : Actor) (args : Arguments) (goal : Position),
      0 < b.width → Integer.isCoordinate b.width = true → 0 < b.height →
        Integer.isCoordinate b.height = true → b.contains a.position = true →
          args.target = .ok goal → a.Reckons args goal) ∧
    Operation.moveTo.tariff.demand (Actor.new "bot" ⟨0, 0⟩)
      [.int (-2147483648), .int (-2147483648)] = .error .steps := by
  refine ⟨fun h => ?_, rfl⟩
  have hreckons := h ⟨1, 1⟩ (Actor.new "bot" ⟨0, 0⟩) [.int (-2147483648), .int (-2147483648)]
    ⟨-2147483648, -2147483648⟩ (by decide) rfl (by decide) rfl rfl rfl
  exact absurd hreckons.steps (by decide)

end Actor

end Farmhand
