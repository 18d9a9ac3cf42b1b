import Farmhand.Value.Operate
import Mathlib.Data.Rat.Floor

/-!
# Exact Arithmetic on Integers

Arithmetic on the integers of a script is exact. A sum, a difference, a product, a quotient rounded
to the floor and a remainder are those of mathematics, or an overflow is reported because they are
no integers of a script. There is one exception. What remains of a division is computed together
with the quotient, so where the quotient overflows the remainder is not given, although it is zero.

Division comes to the floor in two steps. First it rounds towards zero, and what remains has the
sign of the dividend. Then, where something remains and the signs do not fit, one is taken off the
quotient, or the divisor is added to the remainder. The first step is checked and the second is not.
It need not be: nothing remains of a division by one or minus one, and any other divisor leaves a
quotient far inside the range, and a remainder is corrected by a divisor of the other sign.

## Main definitions

* `Integer.Fits`: An integer is one of a script.
* `Integer.quotient?`, `Integer.remainder?`: Division that rounds towards zero.
* `Value.stepwise`: Arithmetic on bounded integers step by step.
* `Value.exactValue`: The result that mathematics gives.
* `Value.Exact`: An operator is exact on two integers.

## Theorems

* `Integer.floor_div`: The floor of a quotient.
* `Integer.fits_tdiv_iff`: Which quotients fit.
* `Integer.corrected`: The floor by a correction.
* `Value.exact_iff`: Where arithmetic is exact.
* `Value.not_exact`: Where it is not.
-/

namespace Farmhand

open Script (BinaryOp)

namespace Integer

variable {a b n q r : Int}

/-- An integer is one of a script. -/
def Fits (n : Int) : Prop :=
  min64 ≤ n ∧ n ≤ max64

instance (n : Int) : Decidable (Fits n) :=
  inferInstanceAs (Decidable (_ ∧ _))

-- What the program checks, as a statement about bounds.
theorem inRange_iff : inRange n = true ↔ Fits n := by
  rw [inRange, Bool.and_eq_true, decide_eq_true_eq, decide_eq_true_eq, Fits]

theorem checked?_of_fits (h : Fits n) : checked? n = some n :=
  if_pos (inRange_iff.mpr h)

theorem checked?_of_not_fits (h : ¬ Fits n) : checked? n = none :=
  if_neg (mt inRange_iff.mp h)

/-- The quotient rounded towards zero, if there is one and it fits. -/
def quotient? (a b : Int) : Option Int :=
  if b = 0 then none else checked? (a.tdiv b)

/-- What remains of a quotient that is rounded towards zero, if there is that quotient. -/
def remainder? (a b : Int) : Option Int :=
  (quotient? a b).map fun _ => a.tmod b

/-! ## The floor of a quotient -/

/-- What remains of a division that rounds to the floor: less than the divisor, and of its sign
    unless it is zero. -/
def Remains (b r : Int) : Prop :=
  (0 ≤ r ∧ r < b) ∨ (b < r ∧ r ≤ 0)

-- The remainder is smaller than the divisor in size.
theorem Remains.abs_lt (h : Remains b r) : |r| < |b| := by
  rcases h with ⟨hr, hb⟩ | ⟨hb, hr⟩
  · rw [abs_of_nonneg hr, abs_of_nonneg (hr.trans hb.le)]
    exact hb
  · rw [abs_of_nonpos hr, abs_of_nonpos (hb.le.trans hr)]
    exact neg_lt_neg hb

-- The remainder has the sign of the divisor, unless it is zero.
theorem Remains.sign (h : Remains b r) : r = 0 ∨ r.sign = b.sign := by
  rcases h with ⟨hr, hb⟩ | ⟨hb, hr⟩
  · refine hr.eq_or_lt.imp Eq.symm fun hpos => ?_
    rw [Int.sign_eq_one_of_pos hpos, Int.sign_eq_one_of_pos (hpos.trans hb)]
  · refine hr.eq_or_lt.imp id fun hneg => ?_
    rw [Int.sign_eq_neg_one_of_neg hneg, Int.sign_eq_neg_one_of_neg (hb.trans hneg)]

/-- There is one quotient with such a remainder. -/
theorem fdiv_fmod_eq_iff (hb : b ≠ 0) :
    (a.fdiv b = q ∧ a.fmod b = r) ↔ r + b * q = a ∧ Remains b r := by
  rcases lt_or_gt_of_ne hb with hneg | hpos
  · rw [Int.fdiv_fmod_unique' hneg, Remains, or_iff_right (by omega)]
  · rw [Int.fdiv_fmod_unique hpos, Remains, or_iff_left (by omega)]

-- The remainder of the division that rounds to the floor is one of this kind.
theorem remains_fmod (hb : b ≠ 0) : Remains b (a.fmod b) :=
  ((fdiv_fmod_eq_iff hb).mp ⟨rfl, rfl⟩).2

theorem floor_div (hb : b ≠ 0) : ⌊(a : ℚ) / b⌋ = a.fdiv b := by
  have hsplit : (a : ℚ) / b = (a.fmod b : ℚ) / b + (a.fdiv b : ℤ) := by
    have ha : (a : ℚ) = a.fmod b + b * a.fdiv b := by
      exact_mod_cast ((fdiv_fmod_eq_iff hb).mp ⟨rfl, rfl⟩).1.symm
    have hb' : (b : ℚ) ≠ 0 := by exact_mod_cast hb
    rw [div_add' _ _ _ hb', ← mul_comm (b : ℚ), ← ha]
  -- The rest of the division lies between zero and one.
  have hrest : ⌊(a.fmod b : ℚ) / b⌋ = 0 := by
    rw [Int.floor_eq_zero_iff, Set.mem_Ico]
    rcases remains_fmod hb (a := a) with ⟨hr, hlt⟩ | ⟨hlt, hr⟩
    · have hpos : (0 : ℚ) < b := by exact_mod_cast hr.trans_lt hlt
      rw [div_lt_one hpos]
      exact ⟨div_nonneg (by exact_mod_cast hr) hpos.le, by exact_mod_cast hlt⟩
    · have hneg : (b : ℚ) < 0 := by exact_mod_cast hlt.trans_le hr
      rw [div_lt_one_of_neg hneg]
      exact ⟨div_nonneg_of_nonpos (by exact_mod_cast hr) hneg.le, by exact_mod_cast hlt⟩
  rw [hsplit, Int.floor_add_intCast, hrest, zero_add]

/-! ## Rounding towards zero -/

-- What remains has the sign of the dividend.
theorem tmod_neg_iff (hr : a.tmod b ≠ 0) : a.tmod b < 0 ↔ a < 0 := by
  have hsign := Int.sign_tmod a b
  rw [if_neg (mt Int.tmod_eq_zero_of_dvd hr)] at hsign
  rw [← Int.sign_eq_neg_one_iff_neg, hsign, Int.sign_eq_neg_one_iff_neg]

-- Rounding towards zero leaves less than the divisor as well, though with the other sign at times.
theorem abs_tmod_lt (hb : b ≠ 0) : |a.tmod b| < |b| := by
  rw [Int.abs_eq_natAbs, Int.abs_eq_natAbs, Int.natAbs_tmod]
  exact_mod_cast Nat.mod_lt _ (Int.natAbs_pos.mpr hb)

/-- A quotient rounded towards zero and what remains of it come to the floor by a correction: where
    something remains and the signs of dividend and divisor differ, the quotient is one less, and
    the divisor is added to the remainder. -/
theorem corrected (hb : b ≠ 0) :
    a.fdiv b = (if a.tmod b ≠ 0 ∧ ¬ (a < 0 ↔ b < 0) then a.tdiv b - 1 else a.tdiv b) ∧
      a.fmod b = if a.tmod b ≠ 0 ∧ ¬ (a < 0 ↔ b < 0) then a.tmod b + b else a.tmod b := by
  have hsplit := Int.mul_tdiv_add_tmod a b
  have hlt := abs_lt.mp (abs_tmod_lt hb (a := a))
  rw [fdiv_fmod_eq_iff hb, Remains]
  split
  · next hdiffer =>
      rcases hdiffer with ⟨hr, hsigns⟩
      have hneg := tmod_neg_iff hr
      refine ⟨by rw [mul_sub_one]; omega, ?_⟩
      rcases abs_cases b with ⟨habs, _⟩ | ⟨habs, _⟩ <;> omega
  · next hsame =>
      refine ⟨by omega, ?_⟩
      by_cases hr : a.tmod b = 0
      · rw [hr]
        omega
      · have hneg := tmod_neg_iff hr
        rcases abs_cases b with ⟨habs, _⟩ | ⟨habs, _⟩ <;> omega

/-! ## What fits -/

-- A divisor that is neither one nor minus one takes at least half of the dividend away.
theorem natAbs_tdiv_le (hb : 2 ≤ b.natAbs) : (a.tdiv b).natAbs ≤ a.natAbs / 2 := by
  rw [Int.natAbs_tdiv]
  exact Nat.div_le_div_left hb (by decide)

/-- All quotients fit but one. -/
theorem fits_tdiv_iff (ha : Fits a) (hb : b ≠ 0) :
    Fits (a.tdiv b) ↔ ¬ (a = min64 ∧ b = -1) := by
  unfold Fits min64 max64 at *
  by_cases htwo : 2 ≤ b.natAbs
  · have hle := natAbs_tdiv_le htwo (a := a)
    omega
  · have hone : b = 1 ∨ b = -1 := by omega
    rcases hone with rfl | rfl
    · rw [Int.tdiv_one]
      omega
    · rw [Int.tdiv_neg, Int.tdiv_one]
      omega

/-- Where something remains of a division, the quotient can be corrected. -/
theorem fits_tdiv_sub_one (ha : Fits a) (hb : b ≠ 0) (hr : a.tmod b ≠ 0) :
    Fits (a.tdiv b - 1) := by
  have htwo : 2 ≤ b.natAbs := by
    by_contra hsmall
    have hone : b = 1 ∨ b = -1 := by omega
    rcases hone with rfl | rfl
    · exact hr (Int.tmod_one a)
    · exact hr (by rw [Int.tmod_neg, Int.tmod_one])
  have hle := natAbs_tdiv_le htwo (a := a)
  unfold Fits min64 max64 at *
  omega

-- A remainder lies between zero and the divisor, so it always fits.
theorem fits_fmod (hfits : Fits b) (hb : b ≠ 0) : Fits (a.fmod b) := by
  have hremains := remains_fmod hb (a := a)
  unfold Remains at hremains
  unfold Fits min64 max64 at *
  omega

-- Only the least integer by minus one has a quotient that does not fit, and then there is no
-- remainder either.
theorem quotient?_eq (ha : Fits a) (hb : b ≠ 0) (h : ¬ (a = min64 ∧ b = -1)) :
    quotient? a b = some (a.tdiv b) := by
  rw [quotient?, if_neg hb, checked?_of_fits ((fits_tdiv_iff ha hb).mpr h)]

theorem remainder?_eq (ha : Fits a) (hb : b ≠ 0) (h : ¬ (a = min64 ∧ b = -1)) :
    remainder? a b = some (a.tmod b) := by
  rw [remainder?, quotient?_eq ha hb h, Option.map_some]

end Integer

namespace Value

open Integer

variable {op : BinaryOp} {a b n : Int}

/-! ## Arithmetic step by step -/

/-- The result of a step that is checked. -/
def checkedStep (n : Option Int) : Except OperationError Int :=
  match n with
  | some n => .ok n
  | Option.none => .error .overflow

/-- Arithmetic on bounded integers step by step. Sums, differences, products and the division that
    rounds towards zero are checked, and what comes out of the range is an overflow. The corrections
    of a quotient and of a remainder are not checked: if one of them left the range, there would be
    no result. -/
def stepwise (op : BinaryOp) (a b : Int) : Option (Except OperationError Int) :=
  match op with
  | .add => some (checkedStep (checked? (a + b)))
  | .sub => some (checkedStep (checked? (a - b)))
  | .mul => some (checkedStep (checked? (a * b)))
  | .floorDiv =>
    if b = 0 then some (.error .divisionByZero)
    else
      match quotient? a b, remainder? a b with
      | some q, some r =>
        if r ≠ 0 ∧ ¬ (a < 0 ↔ b < 0) then (checked? (q - 1)).map .ok else some (.ok q)
      | _, _ => some (.error .overflow)
  | .mod =>
    if b = 0 then some (.error .divisionByZero)
    else
      match remainder? a b with
      | some r => if r ≠ 0 ∧ ¬ (r < 0 ↔ b < 0) then (checked? (r + b)).map .ok else some (.ok r)
      | Option.none => some (.error .overflow)
  | _ => some (.error .overflow)

-- A checked result is the number itself or an overflow.
theorem checkedInt_of_fits (h : Fits n) : checkedInt n = .ok (.int n) := by
  rw [checkedInt, checked?_of_fits h]

theorem checkedInt_of_not_fits (h : ¬ Fits n) : checkedInt n = .error .overflow := by
  rw [checkedInt, checked?_of_not_fits h]

-- A checked step gives the same, before it is made a value.
theorem map_checkedStep (n : Int) : (checkedStep (checked? n)).map Value.int = checkedInt n := by
  rw [checkedInt]
  cases checked? n <;> rfl

/-- The quotient is the floor in every case, without an overflow on the way. -/
theorem stepwise_floorDiv (ha : Fits a) (hb : b ≠ 0) :
    stepwise .floorDiv a b = some (checkedStep (checked? (a.fdiv b))) := by
  by_cases h : a = min64 ∧ b = -1
  · rcases h with ⟨rfl, rfl⟩
    decide
  · have hfloor := (corrected hb (a := a)).1
    simp only [stepwise, if_neg hb, quotient?_eq ha hb h, remainder?_eq ha hb h]
    split
    · next hdiffer =>
        rw [if_pos hdiffer] at hfloor
        rw [hfloor, checked?_of_fits (fits_tdiv_sub_one ha hb hdiffer.1)]
        rfl
    · next hsame =>
        rw [if_neg hsame] at hfloor
        rw [hfloor, checked?_of_fits ((fits_tdiv_iff ha hb).mpr h)]
        rfl

/-- The remainder is the one of the floor wherever the quotient fits, without an overflow on the
    way. -/
theorem stepwise_mod (ha : Fits a) (hfits : Fits b) (hb : b ≠ 0) (h : ¬ (a = min64 ∧ b = -1)) :
    stepwise .mod a b = some (.ok (a.fmod b)) := by
  have hfloor := (corrected hb (a := a)).2
  simp only [stepwise, if_neg hb, remainder?_eq ha hb h]
  by_cases hr : a.tmod b = 0
  · rw [if_neg fun hne => hne.1 hr] at hfloor ⊢
    rw [hfloor]
  · simp only [tmod_neg_iff hr]
    split
    · next hdiffer =>
        rw [if_pos hdiffer] at hfloor
        rw [← hfloor, checked?_of_fits (fits_fmod hfits hb)]
        rfl
    · next hsame =>
        rw [if_neg hsame] at hfloor
        rw [hfloor]

/-! ## Exactness -/

/-- The operators that give integers for integers. -/
def integerOps : List BinaryOp :=
  [.add, .sub, .mul, .floorDiv, .mod]

/-- The operator divides by zero. -/
def ByZero (op : BinaryOp) (b : Int) : Prop :=
  (op = .floorDiv ∨ op = .mod) ∧ b = 0

/-- The result that mathematics gives: sum, difference, product, the floor of a quotient, and what
    this quotient leaves of the dividend. -/
def exactValue (op : BinaryOp) (a b : Int) : Int :=
  match op with
  | .add => a + b
  | .sub => a - b
  | .mul => a * b
  | .floorDiv => ⌊(a : ℚ) / b⌋
  | .mod => a - b * ⌊(a : ℚ) / b⌋
  | _ => 0

/-- An operator is exact on two integers: a division by zero is reported, and only that; any other
    result is the one of mathematics if it fits, and an overflow exactly if it does not. The steps
    that lead to it never leave the range unnoticed. A remainder is less than the divisor and has
    its sign, unless it is zero. -/
structure Exact (op : BinaryOp) (a b : Int) : Prop where
  byZero : binary op (.int a) (.int b) = .error .divisionByZero ↔ ByZero op b
  value : ¬ ByZero op b → Fits (exactValue op a b) →
    binary op (.int a) (.int b) = .ok (.int (exactValue op a b))
  overflow : binary op (.int a) (.int b) = .error .overflow ↔
    ¬ ByZero op b ∧ ¬ Fits (exactValue op a b)
  steps : ∃ r, stepwise op a b = some r ∧ binary op (.int a) (.int b) = r.map Value.int
  remainder : b ≠ 0 → a = b * exactValue .floorDiv a b + exactValue .mod a b ∧
    |exactValue .mod a b| < |b| ∧
    (exactValue .mod a b = 0 ∨ (exactValue .mod a b).sign = b.sign)

-- By a divisor that is not zero, these are the floor and the remainder of the library.
theorem exactValue_floorDiv (hb : b ≠ 0) : exactValue .floorDiv a b = a.fdiv b :=
  floor_div hb

theorem exactValue_mod (hb : b ≠ 0) : exactValue .mod a b = a.fmod b := by
  rw [exactValue, floor_div hb, Int.fmod_def]

/-- Quotient and remainder together give the dividend back. -/
theorem exactValue_remainder (hb : b ≠ 0) :
    a = b * exactValue .floorDiv a b + exactValue .mod a b ∧ |exactValue .mod a b| < |b| ∧
      (exactValue .mod a b = 0 ∨ (exactValue .mod a b).sign = b.sign) := by
  rw [exactValue_floorDiv hb, exactValue_mod hb]
  have hremains := remains_fmod hb (a := a)
  exact ⟨(Int.mul_fdiv_add_fmod a b).symm, hremains.abs_lt, hremains.sign⟩

-- An operator whose result is checked is exact.
theorem exact_of_checked (hzero : ¬ ByZero op b)
    (hbinary : binary op (.int a) (.int b) = checkedInt (exactValue op a b))
    (hsteps : stepwise op a b = some (checkedStep (checked? (exactValue op a b)))) :
    Exact op a b := by
  have hresult : (Fits (exactValue op a b) ∧
        binary op (.int a) (.int b) = .ok (.int (exactValue op a b))) ∨
      (¬ Fits (exactValue op a b) ∧ binary op (.int a) (.int b) = .error .overflow) := by
    rw [hbinary]
    by_cases hfits : Fits (exactValue op a b)
    · exact .inl ⟨hfits, checkedInt_of_fits hfits⟩
    · exact .inr ⟨hfits, checkedInt_of_not_fits hfits⟩
  refine ⟨?_, ?_, ?_, ⟨_, hsteps, by rw [map_checkedStep, hbinary]⟩, exactValue_remainder⟩
  · rcases hresult with ⟨_, h⟩ | ⟨_, h⟩ <;> rw [h] <;> simp [hzero]
  · intro _ hfits
    exact (hresult.resolve_right fun h => h.1 hfits).2
  · rcases hresult with ⟨hfits, h⟩ | ⟨hfits, h⟩ <;> rw [h] <;> simp [hzero, hfits]

-- A division by zero is reported, by both operators.
theorem exact_of_byZero (h : ByZero op b) : Exact op a b := by
  rcases h with ⟨rfl | rfl, rfl⟩ <;>
  exact ⟨by simp [binary, arithmetic, integerArithmetic, ByZero],
    fun hzero => absurd ⟨by simp, rfl⟩ hzero,
    by simp [binary, arithmetic, integerArithmetic, ByZero], ⟨_, rfl, rfl⟩,
    fun hb => absurd rfl hb⟩

-- The quotient overflows exactly where its floor does not fit.
theorem exact_floorDiv (ha : Fits a) (hb : b ≠ 0) : Exact .floorDiv a b := by
  refine exact_of_checked (fun h => hb h.2) ?_ ?_
  · rw [exactValue_floorDiv hb]
    exact if_neg hb
  · rw [exactValue_floorDiv hb, stepwise_floorDiv ha hb]

-- The remainder is given only where the quotient fits, whatever the remainder is.
theorem binary_mod (hb : b ≠ 0) : binary .mod (.int a) (.int b) =
    if inRange (a.tdiv b) then .ok (.int (a.fmod b)) else .error .overflow :=
  if_neg hb

-- The remainder is exact apart from the one pair whose quotient does not fit.
theorem exact_mod (ha : Fits a) (hfits : Fits b) (hb : b ≠ 0) (h : ¬ (a = min64 ∧ b = -1)) :
    Exact .mod a b := by
  refine exact_of_checked (fun h => hb h.2) ?_ ?_
  · rw [exactValue_mod hb, checkedInt_of_fits (fits_fmod hfits hb), binary_mod hb,
      if_pos (inRange_iff.mpr ((fits_tdiv_iff ha hb).mpr h))]
  · rw [exactValue_mod hb, stepwise_mod ha hfits hb h, checked?_of_fits (fits_fmod hfits hb)]
    rfl

-- Nothing remains of the least integer divided by minus one, but there is no quotient.
theorem not_exact_mod : ¬ Exact .mod min64 (-1) := by
  intro h
  have hvalue : exactValue .mod min64 (-1) = 0 := by
    rw [exactValue_mod (by decide)]
    decide
  have hresult := h.value (fun hzero => absurd hzero.2 (by decide)) (by rw [hvalue]; decide)
  rw [binary_mod (by decide), if_neg (by decide)] at hresult
  cases hresult

/-- Sums, differences, products, quotients and remainders of the integers of a script are exact, up
    to one remainder: that of the least integer by minus one, whose quotient does not fit. -/
theorem exact_iff (hop : op ∈ integerOps) (ha : Fits a) (hb : Fits b) :
    Exact op a b ↔ ¬ (op = .mod ∧ a = min64 ∧ b = -1) := by
  constructor
  · rintro h ⟨rfl, rfl, rfl⟩
    exact not_exact_mod h
  · intro h
    by_cases hzero : ByZero op b
    · exact exact_of_byZero hzero
    · simp only [integerOps, List.mem_cons, List.not_mem_nil, or_false] at hop
      rcases hop with rfl | rfl | rfl | rfl | rfl
      · exact exact_of_checked hzero rfl rfl
      · exact exact_of_checked hzero rfl rfl
      · exact exact_of_checked hzero rfl rfl
      · exact exact_floorDiv ha fun hb => hzero ⟨.inl rfl, hb⟩
      · exact exact_mod ha hb (fun hb => hzero ⟨.inr rfl, hb⟩) fun hleast => h ⟨rfl, hleast⟩

/-- The quotient of the least integer by the greatest is corrected to minus two. -/
theorem exact_iff_ends :
    (BinaryOp.floorDiv ∈ integerOps ∧ Fits min64 ∧ Fits max64) ∧
      ¬ (BinaryOp.floorDiv = .mod ∧ min64 = min64 ∧ max64 = -1) ∧ Exact .floorDiv min64 max64 ∧
      binary .floorDiv (.int min64) (.int max64) = .ok (.int (-2)) := by
  have hother : ¬ (BinaryOp.floorDiv = .mod ∧ min64 = min64 ∧ max64 = -1) := by decide
  exact ⟨by decide, hother, (exact_iff (by decide) (by decide) (by decide)).mpr hother, rfl⟩

/-- The least integer leaves nothing when it is divided by minus one, and zero is an integer of a
    script. The result is an overflow. -/
theorem not_exact :
    Fits min64 ∧ Fits (-1) ∧ exactValue .mod min64 (-1) = 0 ∧ Fits 0 ∧
      binary .mod (.int min64) (.int (-1)) = .error .overflow ∧ ¬ Exact .mod min64 (-1) := by
  refine ⟨by decide, by decide, ?_, by decide, ?_, not_exact_mod⟩
  · rw [exactValue_mod (by decide)]
    decide
  · rw [binary_mod (by decide), if_neg (by decide)]

end Value

end Farmhand
