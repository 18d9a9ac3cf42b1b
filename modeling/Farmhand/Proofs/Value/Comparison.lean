import Farmhand.Proofs.Value.Order

/-!
# Where Comparisons Agree

Two recursions stand behind the six comparison operators: one for the order of two values and one
for their equality. The order counts truth values and integers as floats wherever it meets them. The
equality does so with an integer and a float that are compared themselves, and neither with truth
values nor inside lists. So the operators agree as long as two values differ in their order. Where
the order takes two values for equal, they agree exactly if both are numbers or if their types are
the same down to the last item.

## Main definitions

* `Value.Holds`: A comparison comes out true.
* `Value.Concordant`: The comparisons of two values agree with each other.
* `Value.sameTypes`: Values of the same types, in lists as well.

## Theorems

* `Value.identical_iff_sameTypes`: What the order takes for equal is equal if the types are.
* `Value.concordant_iff`: Which comparisons agree.
* `Value.not_concordant`: Not all do.
-/

namespace Farmhand

open Script (BinaryOp)

namespace Value

/-- A comparison comes out true. -/
def Holds (op : BinaryOp) (a b : Value) : Prop :=
  binary op a b = .ok (.bool true)

/-- The comparisons of two values agree with each other: each gives a truth value, exactly one of
    `<`, `==` and `>` is true, and `<=`, `>=` and `!=` are what these three make them. -/
structure Concordant (a b : Value) : Prop where
  answers : ∀ op ∈ [BinaryOp.eq, .ne, .lt, .le, .gt, .ge], ∃ t, binary op a b = .ok (.bool t)
  one : (Holds .lt a b ∧ ¬ Holds .eq a b ∧ ¬ Holds .gt a b) ∨
    (¬ Holds .lt a b ∧ Holds .eq a b ∧ ¬ Holds .gt a b) ∨
    (¬ Holds .lt a b ∧ ¬ Holds .eq a b ∧ Holds .gt a b)
  le : Holds .le a b ↔ Holds .lt a b ∨ Holds .eq a b
  ge : Holds .ge a b ↔ Holds .gt a b ∨ Holds .eq a b
  ne : Holds .ne a b ↔ ¬ Holds .eq a b

/-! ## The operators by order and equality -/

section

variable {a b : Value} {o : Ordering}

theorem holds_eq : Holds .eq a b ↔ a.equal b = true := by
  simp only [Holds, binary, Except.ok.injEq, bool.injEq]

theorem holds_ne : Holds .ne a b ↔ a.equal b = false := by
  simp only [Holds, binary, Except.ok.injEq, bool.injEq, Bool.not_eq_true']

theorem ordered_eq (h : a.compare? b = some o) (op : BinaryOp) (wanted : Ordering → Bool) :
    ordered op wanted a b = .ok (.bool (wanted o)) := by
  unfold ordered
  rw [h]

theorem answers_of_compare? (h : a.compare? b = some o) :
    ∀ op ∈ [BinaryOp.eq, .ne, .lt, .le, .gt, .ge], ∃ t, binary op a b = .ok (.bool t) := by
  simp only [List.forall_mem_cons, binary, ordered_eq h, Except.ok.injEq, bool.injEq,
    exists_eq', true_and]
  exact List.forall_mem_nil _

theorem holds_lt (h : a.compare? b = some o) : Holds .lt a b ↔ o = .lt := by
  simp only [Holds, binary, ordered_eq h, Except.ok.injEq, bool.injEq, beq_iff_eq]

theorem holds_gt (h : a.compare? b = some o) : Holds .gt a b ↔ o = .gt := by
  simp only [Holds, binary, ordered_eq h, Except.ok.injEq, bool.injEq, beq_iff_eq]

theorem holds_le (h : a.compare? b = some o) : Holds .le a b ↔ o ≠ .gt := by
  simp only [Holds, binary, ordered_eq h, Except.ok.injEq, bool.injEq, bne_iff_ne]

theorem holds_ge (h : a.compare? b = some o) : Holds .ge a b ↔ o ≠ .lt := by
  simp only [Holds, binary, ordered_eq h, Except.ok.injEq, bool.injEq, bne_iff_ne]

/-- The comparisons of two values agree if the order and the equality do. -/
theorem concordant_iff_equal (h : a.compare? b = some o) :
    Concordant a b ↔ (a.equal b = true ↔ o = .eq) := by
  constructor
  · intro hc
    have hone := hc.one
    rw [holds_lt h, holds_gt h, holds_eq] at hone
    cases o <;> simp_all
  · intro heq
    refine ⟨answers_of_compare? h, ?_, ?_, ?_, ?_⟩
    · rw [holds_lt h, holds_gt h, holds_eq, heq]
      cases o <;> simp
    · rw [holds_le h, holds_lt h, holds_eq, heq]
      cases o <;> simp
    · rw [holds_ge h, holds_gt h, holds_eq, heq]
      cases o <;> simp
    · rw [holds_ne, holds_eq, Bool.not_eq_true]

end

/-! ## Types -/

mutual

/-- Values of the same types, in lists item by item. -/
def sameTypes : Value → Value → Bool
  | .list as, .list bs => sameTypesOfItems as bs
  | a, b => a.typeName == b.typeName

/-- Lists whose items have the same types, as far as both go. -/
def sameTypesOfItems : List Value → List Value → Bool
  | a :: as, b :: bs => sameTypes a b && sameTypesOfItems as bs
  | _, _ => true

end

-- Truth values as floats.
theorem truth_eq_iff : ∀ p q : Bool,
    Decimal.compare? (if p then 1.0 else 0.0) (if q then 1.0 else 0.0) = some .eq ↔ p = q := by
  decide

-- Truth values and floats, and what else has an order as numbers have.
theorem identical_iff_of_numbers {a b : Value} {o : Ordering}
    (hints : ∀ m n, a = .int m → b = .int n → False) (h : a.compareNumbers? b = some o) :
    a.identical b = true ↔ o = .eq ∧ a.sameTypes b = true := by
  have hmixed : a.identical b = false → a.typeName ≠ b.typeName →
      (a.sameTypes b = (a.typeName == b.typeName)) →
        (a.identical b = true ↔ o = .eq ∧ a.sameTypes b = true) := by
    intro hother htypes hsame
    rw [hother, hsame, beq_eq_false_iff_ne.mpr htypes]
    refine iff_of_false Bool.false_ne_true fun h => ?_
    cases h.2
  cases a with
  | bool p =>
      cases b with
      | bool q =>
          have hsame : (Value.bool p).identical (.bool q) = true ↔ p = q := beq_iff_eq
          have horder : Decimal.compare? (if p then 1.0 else 0.0) (if q then 1.0 else 0.0) =
              some o := h
          rw [hsame, ← truth_eq_iff p q, horder, Option.some.injEq]
          exact (and_iff_left rfl).symm
      | int n => exact hmixed rfl (by simp [typeName]) rfl
      | float y => exact hmixed rfl (by simp [typeName]) rfl
      | _ => cases h
  | int m =>
      cases b with
      | int n => exact (hints m n rfl rfl).elim
      | bool q => exact hmixed rfl (by simp [typeName]) rfl
      | float y => exact hmixed rfl (by simp [typeName]) rfl
      | _ => cases h
  | float x =>
      cases b with
      | float y =>
          have horder : Decimal.compare? x y = some o := h
          rw [identical, Decimal.same, horder, beq_iff_eq, Option.some.injEq]
          exact (and_iff_left rfl).symm
      | bool q => exact hmixed rfl (by simp [typeName]) rfl
      | int n => exact hmixed rfl (by simp [typeName]) rfl
      | _ => cases h
  | _ => cases h

/-- Values that have an order are built alike if they have the same place in it and their types are
    the same. -/
theorem identical_iff_sameTypes (a b : Value) :
    ∀ o, a.compare? b = some o → (a.identical b = true ↔ o = .eq ∧ a.sameTypes b = true) := by
  refine compare?.induct
    (fun a b => ∀ o, a.compare? b = some o →
      (a.identical b = true ↔ o = .eq ∧ a.sameTypes b = true))
    (fun as bs => ∀ o, compareLists? as bs = some o →
      (identicalItems as bs = true ↔ o = .eq ∧ sameTypesOfItems as bs = true))
    ?ints ?texts ?lists ?others ?empty ?shorter ?longer ?same ?differ a b
  case ints =>
    intro m n o h
    rw [compare?, Option.some.injEq] at h
    rw [identical, beq_iff_eq, ← h, Std.LawfulEqCmp.compare_eq_iff_eq]
    exact (and_iff_left rfl).symm
  case texts =>
    intro s t o h
    rw [compare?, Option.some.injEq] at h
    rw [identical, beq_iff_eq, ← h, compareTexts_eq_eq]
    exact (and_iff_left rfl).symm
  case lists =>
    intro as bs ih o h
    rw [compare?] at h
    rw [identical, sameTypes, ih o h]
  case others =>
    intro a b hints htexts hlists o h
    rw [compare?.eq_4 a b hints htexts hlists] at h
    exact identical_iff_of_numbers hints h
  case empty =>
    intro o h
    exact iff_of_true rfl ⟨(Option.some.inj h).symm, rfl⟩
  case shorter =>
    intro b bs o h
    rw [← Option.some.inj h]
    refine iff_of_false Bool.false_ne_true fun h => ?_
    cases h.1
  case longer =>
    intro a as o h
    rw [← Option.some.inj h]
    refine iff_of_false Bool.false_ne_true fun h => ?_
    cases h.1
  case same =>
    intro a as b bs heq ih ihs o h
    rw [compareLists?_cons, heq] at h
    rw [identicalItems, sameTypesOfItems, Bool.and_eq_true, Bool.and_eq_true, ih _ heq, ihs o h,
      eq_self, true_and]
    exact and_left_comm
  case differ =>
    -- The first items are not built alike, since their places differ.
    intro a as b bs hne ih o h
    rw [compareLists?_cons] at h
    rcases hab : a.compare? b with _ | p
    · rw [hab] at h; cases h
    · rw [hab] at h hne
      have hp : p ≠ .eq := fun hp => hne (congrArg some hp)
      rw [Option.bind_some, if_neg hp, Option.some.injEq] at h
      rw [identicalItems, Bool.and_eq_true, ih p hab, ← h]
      exact iff_of_false (fun h => hp h.1.1) fun h => hp h.1

/-- The comparisons of two values that have an order agree with each other exactly if the values
    differ in their order, or both are numbers, or their types are the same in lists as well. -/
theorem concordant_iff {a b : Value} {o : Ordering} (h : a.compare? b = some o) :
    Concordant a b ↔
      (o = .eq → (a.isNumber = true ∧ b.isNumber = true) ∨ a.sameTypes b = true) := by
  rw [concordant_iff_equal h, equal]
  by_cases hnumbers : (a.isNumber && b.isNumber) = true
  · rw [if_pos hnumbers, h, beq_iff_eq, Option.some.injEq]
    exact iff_of_true Iff.rfl fun _ => .inl (Bool.and_eq_true_iff.mp hnumbers)
  · rw [if_neg hnumbers, identical_iff_sameTypes a b o h]
    rw [Bool.and_eq_true] at hnumbers
    rw [or_iff_right hnumbers]
    exact and_iff_left_iff_imp

/-- Lists of the same types in which the second items differ. -/
theorem concordant_iff_rows :
    Value.compare? (.list [.int 1, .float 0.5]) (.list [.int 1, .float 2.0]) = some .lt ∧
      Concordant (.list [.int 1, .float 0.5]) (.list [.int 1, .float 2.0]) := by
  have hless : Value.compare? (.list [.int 1, .float 0.5]) (.list [.int 1, .float 2.0]) =
      some .lt := by decide
  exact ⟨hless, (concordant_iff hless).mpr nofun⟩

/-- An integer and a float that are equal by themselves are not equal in lists, where the order
    still takes them for the same. And a truth value has the place of a number without being equal
    to it. -/
theorem not_concordant :
    (Value.compare? (.list [.int 1]) (.list [.float 1.0]) = some .eq ∧
      ¬ Concordant (.list [.int 1]) (.list [.float 1.0])) ∧
    Value.compare? (.bool true) (.int 1) = some .eq ∧ ¬ Concordant (.bool true) (.int 1) := by
  have hlists : Value.compare? (.list [.int 1]) (.list [.float 1.0]) = some .eq := by decide
  have htruth : Value.compare? (.bool true) (.int 1) = some .eq := by decide
  refine ⟨⟨hlists, ?_⟩, htruth, ?_⟩
  · rw [concordant_iff_equal hlists]
    decide
  · rw [concordant_iff_equal htruth]
    decide

end Value

end Farmhand
