import Farmhand.Capability.Run
import Farmhand.Proofs.Value.Integers
import Mathlib.Data.Set.Card

/-!
# Ranges Are Exact

A range is the list of the members of an arithmetic progression that come before its end, in the
direction of its step, unless they are too many. A loop collects them one by one. It is over when
the current member has passed the end, when there is no room for one more, and when the next member
is no integer of a script.

The last of these ends drops nothing and adds nothing. A member before the end lies between the
start of the progression and its end, and both are integers of a script. So where the next member is
none, it has passed the end, and the loop would have been over there. This leaves two ends, and
which of them is met depends on the number of members alone.

## Main definitions

* `Arguments.members`: The members of a progression before its end, by their places.
* `Arguments.progression`: The first members of a progression.
* `Arguments.progressionOf?`: The start, the end and the step that integers stand for.
* `Arguments.Collects`: The loop that collects members, with the number of its turns.

## Theorems

* `Arguments.exists_sized`: The members before the end are the first ones.
* `Arguments.fits_next`: The next member fits unless it has passed the end.
* `Arguments.collects_collect`: The loop and what it collects.
* `Arguments.Collects.unique`: A loop ends in one way.
* `Arguments.range_exact`: Ranges are exact.
-/

namespace Farmhand

namespace Arguments

open Integer (Fits checked?)

variable {start stop step current : Int} {n room : Nat} {collected : List Value}

/-! ## Progressions -/

/-- The members of a progression that come before its end in the direction of its step, by their
    places. -/
def members (start stop step : Int) : Set Nat :=
  {k | (0 < step ∧ start + k * step < stop) ∨ (step < 0 ∧ stop < start + k * step)}

/-- The first members of a progression. -/
def progression (start step : Int) (n : Nat) : List Value :=
  (List.range n).map fun k : Nat => .int (start + k * step)

/-- The members before the end are the first ones, so many of them. -/
def Sized (start stop step : Int) (n : Nat) : Prop :=
  ∀ k, k ∈ members start stop step ↔ k < n

theorem isBefore_iff : isBefore stop step current = true ↔ 0 ∈ members current stop step := by
  simp [isBefore, members]

-- The members from the second on are those of the progression that starts there.
theorem member_succ (start step : Int) (k : Nat) :
    start + ((k + 1 : Nat) : Int) * step = start + step + k * step := by
  rw [Nat.cast_add_one, add_one_mul]
  omega

theorem add_one_mem_members (k : Nat) :
    k + 1 ∈ members start stop step ↔ k ∈ members (start + step) stop step := by
  rw [members, Set.mem_ofPred_eq, member_succ]
  rfl

theorem members_neg : members (-start) (-stop) (-step) = members start stop step := by
  ext k
  have hmember : -start + k * -step = -(start + k * step) := by rw [mul_neg, neg_add]
  simp only [members, Set.mem_ofPred_eq, hmember, neg_lt_neg_iff, Left.neg_pos_iff,
    Left.neg_neg_iff]
  exact or_comm

theorem sized_of_pos (hstep : 0 < step) :
    Sized start stop step ((stop - start - 1) / step + 1).toNat := by
  intro k
  have hle := Int.le_ediv_iff_mul_le hstep (a := k) (b := stop - start - 1)
  simp only [members, Set.mem_ofPred_eq, hstep, true_and, hstep.not_gt, false_and, or_false]
  omega

/-- The members before the end are the first ones, whatever the direction. -/
theorem exists_sized (hstep : step ≠ 0) : ∃ n, Sized start stop step n := by
  rcases lt_or_gt_of_ne hstep with hneg | hpos
  · have hsized : Sized (-start) (-stop) (-step) _ := sized_of_pos (neg_pos.mpr hneg)
    rw [Sized, members_neg] at hsized
    exact ⟨_, hsized⟩
  · exact ⟨_, sized_of_pos hpos⟩

theorem Sized.succ (h : Sized start stop step (n + 1)) : Sized (start + step) stop step n := by
  intro k
  rw [← add_one_mem_members, h, Nat.add_lt_add_iff_right]

theorem Sized.eq_range (h : Sized start stop step n) :
    members start stop step = ↑(Finset.range n) := by
  ext k
  rw [Finset.mem_coe, Finset.mem_range, h]

theorem Sized.finite (h : Sized start stop step n) : (members start stop step).Finite :=
  h.eq_range ▸ Finset.finite_toSet _

theorem Sized.ncard (h : Sized start stop step n) : (members start stop step).ncard = n := by
  rw [h.eq_range, Set.ncard_coe_finset, Finset.card_range]

theorem progression_succ (start step : Int) (n : Nat) :
    progression start step (n + 1) = .int start :: progression (start + step) step n := by
  rw [progression, List.range_succ_eq_map, List.map_cons, List.map_map, Nat.cast_zero, zero_mul,
    add_zero, progression]
  exact congrArg _ (List.map_congr_left fun k _ => congrArg Value.int (member_succ start step k))

/-- The member after one that fits does so itself, unless it has passed the end. -/
theorem fits_next (hcurrent : Fits current) (hstop : Fits stop)
    (h : 1 ∈ members current stop step) : Fits (current + step) := by
  rw [members, Set.mem_ofPred_eq, Nat.cast_one, one_mul] at h
  unfold Fits at *
  omega

/-! ## The loop -/

/-- The loop that collects the members of a progression from the current one on is over after some
    turns, and gives a list, or nothing if there is no room. Each turn looks for room, adds the
    current member in front of those collected before, and goes on to the next. -/
inductive Collects (stop step : Int) : Nat → Int → List Value → Option (List Value) → Prop
  | passed {current : Int} {collected : List Value} (hbefore : isBefore stop step current = false) :
      Collects stop step 0 current collected (some collected.reverse)
  | full {current : Int} {collected : List Value} (hbefore : isBefore stop step current = true)
      (hroom : maxRange ≤ collected.length) : Collects stop step 1 current collected none
  | leaves {current : Int} {collected : List Value} (hbefore : isBefore stop step current = true)
      (hroom : collected.length < maxRange) (hnext : checked? (current + step) = none) :
      Collects stop step 1 current collected (some (.int current :: collected).reverse)
  | goes {current next : Int} {collected : List Value} {turns : Nat} {r : Option (List Value)}
      (hbefore : isBefore stop step current = true) (hroom : collected.length < maxRange)
      (hnext : checked? (current + step) = some next)
      (hrest : Collects stop step turns next (.int current :: collected) r) :
      Collects stop step (turns + 1) current collected r

/-- A loop ends in one way. -/
theorem Collects.unique {turns turns' : Nat} {r r' : Option (List Value)}
    (h : Collects stop step turns current collected r)
    (h' : Collects stop step turns' current collected r') : turns = turns' ∧ r = r' := by
  induction h generalizing turns' with
  | passed hbefore =>
      cases h' with
      | passed => exact ⟨rfl, rfl⟩
      | _ => simp_all
  | full hbefore hroom =>
      cases h' with
      | full => exact ⟨rfl, rfl⟩
      | passed => simp_all
      | _ => omega
  | leaves hbefore hroom hnext =>
      cases h' with
      | leaves => exact ⟨rfl, rfl⟩
      | full => omega
      | _ => simp_all
  | goes hbefore hroom hnext hrest ih =>
      cases h' with
      | goes _ _ hnext' hrest' =>
          cases hnext.symm.trans hnext'
          rcases ih hrest' with ⟨rfl, rfl⟩
          exact ⟨rfl, rfl⟩
      | full => omega
      | _ => simp_all

section

variable (hbefore : isBefore stop step current = true)
include hbefore

theorem collect_full : collect stop step 0 current collected = none :=
  if_pos hbefore

theorem collect_leaves (hnext : checked? (current + step) = none) :
    collect stop step (room + 1) current collected = some (.int current :: collected).reverse := by
  rw [collect, if_pos hbefore, hnext]

theorem collect_goes {next : Int} (hnext : checked? (current + step) = some next) :
    collect stop step (room + 1) current collected =
      collect stop step room next (.int current :: collected) := by
  rw [collect, if_pos hbefore, hnext]

end

theorem collect_passed (hbefore : isBefore stop step current = false) :
    collect stop step room current collected = some collected.reverse := by
  cases room <;> rw [collect, hbefore, if_neg Bool.false_ne_true]

/-- The loop collects all members before the end if there is room for them, one in each turn. -/
theorem collects_collect (hroom : collected.length + room = maxRange) (hcurrent : Fits current)
    (hstop : Fits stop) (hn : Sized current stop step n) :
    Collects stop step (min n (room + 1)) current collected
        (collect stop step room current collected) ∧
      collect stop step room current collected =
        if n ≤ room then some (collected.reverse ++ progression current step n) else none := by
  -- Induction on the number of members, of which a turn takes one away.
  induction n generalizing current collected room with
  | zero =>
      have hbefore : isBefore stop step current = false := by
        rw [Bool.eq_false_iff, ne_eq, isBefore_iff, hn]
        exact Nat.lt_irrefl 0
      rw [collect_passed hbefore, if_pos (Nat.zero_le room), Nat.zero_min]
      exact ⟨.passed hbefore, congrArg some (List.append_nil _).symm⟩
  | succ n ih =>
      have hbefore := isBefore_iff.mpr ((hn 0).mpr n.succ_pos)
      cases room with
      | zero =>
          rw [collect_full hbefore, if_neg (Nat.not_succ_le_zero n), Nat.min_eq_right (by omega)]
          exact ⟨.full hbefore hroom.ge, rfl⟩
      | succ room =>
          have hlt : collected.length < maxRange := by omega
          by_cases hfits : Fits (current + step)
          · have hnext := Integer.checked?_of_fits hfits
            have hrest : (Value.int current :: collected).length + room = maxRange := by
              rw [List.length_cons]
              omega
            rcases ih hrest hfits hn.succ with ⟨hloop, hlist⟩
            rw [collect_goes hbefore hnext, Nat.add_min_add_right]
            refine ⟨.goes hbefore hlt hnext hloop, ?_⟩
            simp only [hlist, Nat.add_le_add_iff_right, progression_succ, List.reverse_cons,
              List.append_assoc, List.singleton_append]
          · -- The next member has passed the end, so the current one is the last.
            have hnext := Integer.checked?_of_not_fits hfits
            have hlast : n = 0 := by
              have hmember := mt (fits_next hcurrent hstop) hfits
              rw [hn] at hmember
              omega
            subst hlast
            rw [collect_leaves hbefore hnext, Nat.min_eq_left (by omega), if_pos (by omega),
              progression_succ]
            exact ⟨.leaves hbefore hlt hnext, congrArg some List.reverse_cons⟩

/-! ## Arguments -/

/-- The start, the end and the step that integers stand for. -/
def progressionOf? : List Int → Option (Int × Int × Int)
  | [stop] => some (0, stop, 1)
  | [start, stop] => some (start, stop, 1)
  | [start, stop, step] => some (start, stop, step)
  | _ => none

theorem ints_map_int (name : String) (bounds : List Int) :
    ints name (bounds.map Value.int) = .ok bounds := by
  induction bounds with
  | nil => rfl
  | cons n rest ih =>
      rw [List.map_cons, ints, ih]
      rfl

theorem run_range {bounds : List Int} (h : progressionOf? bounds = some (start, stop, step)) :
    Operation.range.run (bounds.map Value.int) = Step.computed (boundedRange start stop step) := by
  have hrange : range (bounds.map Value.int) = boundedRange start stop step := by
    rw [range, ints_map_int]
    unfold progressionOf? at h
    split at h <;> cases h <;> rfl
  rw [Operation.run, hrange]

theorem fits_progressionOf? {bounds : List Int}
    (h : progressionOf? bounds = some (start, stop, step)) (hfits : ∀ n ∈ bounds, Fits n) :
    Fits start ∧ Fits stop := by
  unfold progressionOf? at h
  split at h <;> cases h <;> simp only [List.forall_mem_cons] at hfits
  · exact ⟨by decide, hfits.1⟩
  · exact ⟨hfits.1, hfits.2.1⟩
  · exact ⟨hfits.1, hfits.2.1⟩

/-- A range of integers is the list of the members of a progression before its end, in order. It
    fails exactly if there are more than a million of them, and its loop is over after a turn for
    each of them, or for the first million and one. -/
theorem range_exact {bounds : List Int} (h : progressionOf? bounds = some (start, stop, step))
    (hfits : ∀ n ∈ bounds, Fits n) (hstep : step ≠ 0) :
    (members start stop step).Finite ∧
    ((members start stop step).ncard ≤ 1000000 →
      Operation.range.run (bounds.map Value.int) = Step.pure
        { data := some (.list (progression start step (members start stop step).ncard)) }) ∧
    (1000000 < (members start stop step).ncard →
      Operation.range.run (bounds.map Value.int) =
        Step.fail (.argument (.rangeTooLong 1000000))) ∧
    ∀ turns r, Collects stop step turns start [] r ↔
      turns = min (members start stop step).ncard 1000001 ∧
        r = if (members start stop step).ncard ≤ 1000000
          then some (progression start step (members start stop step).ncard) else none := by
  have hsized : ∃ n, Sized start stop step n := exists_sized hstep
  have hroom : ([] : List Value).length + maxRange = maxRange := Nat.zero_add maxRange
  rcases hsized with ⟨n, hn⟩
  rcases fits_progressionOf? h hfits with ⟨hstart, hstop⟩
  rcases collects_collect hroom hstart hstop hn with ⟨hloop, hlist⟩
  have hmax : maxRange = 1000000 := rfl
  rw [hlist, List.reverse_nil, List.nil_append, hmax] at hloop
  rw [hn.ncard, run_range h, boundedRange, if_neg hstep, hlist, List.reverse_nil,
    List.nil_append, hmax]
  refine ⟨hn.finite, fun hle => ?_, fun hlt => ?_, fun turns r => ?_⟩
  · rw [if_pos hle]
    rfl
  · rw [if_neg hlt.not_ge]
    rfl
  · constructor
    · exact fun hcollects => hcollects.unique hloop
    · rintro ⟨rfl, rfl⟩
      exact hloop

/-- From the last integer but one, a step of any size leads out of the integers of a script, and the
    range has the one member. -/
theorem range_exact_end :
    progressionOf? [Integer.max64 - 1, Integer.max64, Integer.max64] =
        some (Integer.max64 - 1, Integer.max64, Integer.max64) ∧
      (∀ n ∈ [Integer.max64 - 1, Integer.max64, Integer.max64], Fits n) ∧ Integer.max64 ≠ 0 ∧
      Operation.range.run [.int (Integer.max64 - 1), .int Integer.max64, .int Integer.max64] =
        Step.pure { data := some (.list [.int (Integer.max64 - 1)]) } := by
  have hsized : Sized (Integer.max64 - 1) Integer.max64 Integer.max64 1 :=
    sized_of_pos (by decide)
  have hbounds : progressionOf? [Integer.max64 - 1, Integer.max64, Integer.max64] =
      some (Integer.max64 - 1, Integer.max64, Integer.max64) := rfl
  have hrange := (range_exact hbounds (by decide) (by decide)).2.1
  rw [hsized.ncard] at hrange
  exact ⟨hbounds, by decide, by decide, hrange (by omega)⟩

end Arguments

end Farmhand
