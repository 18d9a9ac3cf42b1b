import Farmhand.Capability.Compute
import Mathlib.Order.Compare

/-!
# The Order of Values

Two values have an order, or they have none, and which of them comes first is seen from either side.
This much holds of all values. That the order can be relied on further, so that the first of many
can be found by looking at each of them once, holds of values without truth values and floats.
Integers and floats are compared as floats, which do not tell all integers apart.

Among integers, strings and lists of such values, only a value itself is neither before nor behind
it. So two lists have the order of the first place at which they differ, and that is what carries
transitivity through lists in lists: of two such places, the earlier one decides between the outer
two lists as well.

## Main definitions

* `Value.Plain`: Integers, strings, and lists of such values.

## Theorems

* `Value.compare?_swap`: The order from the other side.
* `Value.compare?_eq_some_eq`: Plain values have the same place only if they are the same.
* `Value.compare?_trans`: The order of plain values is transitive.
* `Arguments.extremeFrom_spec`: Nothing comes before what a scan has found.
* `Value.plain_order`: The least and the greatest rest on an order.
-/

namespace Farmhand

namespace Value

/-! ## Strings and numbers -/

/-- Strings have the lexicographic order of the numbers of their characters. -/
theorem compareTexts_eq (cs ds : List Char) :
    compareTexts cs ds = compare (cs.map Char.toNat) (ds.map Char.toNat) := by
  induction cs generalizing ds with
  | nil => cases ds <;> rfl
  | cons c cs ih =>
      cases ds with
      | nil => rfl
      | cons d ds =>
          rw [compareTexts, List.map_cons, List.map_cons, List.compare_cons_cons, ih]
          rcases Nat.lt_trichotomy c.toNat d.toNat with hlt | heq | hgt
          · rw [if_pos hlt, Nat.compare_eq_lt.mpr hlt]
            rfl
          · rw [if_neg (by omega), if_neg (by omega), Nat.compare_eq_eq.mpr heq]
            rfl
          · rw [if_neg (by omega), if_pos hgt, Nat.compare_eq_gt.mpr hgt]
            rfl

theorem compareTexts_swap (cs ds : List Char) :
    compareTexts ds cs = (compareTexts cs ds).swap := by
  rw [compareTexts_eq, compareTexts_eq]
  exact Std.OrientedCmp.eq_swap

theorem compareTexts_eq_eq (a b : String) :
    compareTexts a.toList b.toList = .eq ↔ a = b := by
  rw [compareTexts_eq, Std.LawfulEqCmp.compare_eq_iff_eq,
    List.map_inj_right fun _ _ => Char.toNat_inj.mp, String.toList_inj]

theorem compareTexts_trans {cs ds es : List Char} (h : compareTexts cs ds = .lt)
    (h' : compareTexts ds es = .lt) : compareTexts cs es = .lt := by
  rw [compareTexts_eq] at h h' ⊢
  exact Std.TransCmp.lt_trans h h'

-- Comparing numbers the other way round turns the answer round, for floats as for integers.
theorem compareNumbers?_swap (a b : Value) :
    b.compareNumbers? a = (a.compareNumbers? b).map Ordering.swap := by
  unfold compareNumbers?
  cases a.toFloat? with
  | none => cases b.toFloat? <;> rfl
  | some x =>
      cases b.toFloat? with
      | none => rfl
      | some y =>
          simp only [Decimal.compare?]
          cases Decimal.rank? x with
          | none => cases Decimal.rank? y <;> rfl
          | some m =>
              cases Decimal.rank? y with
              | none => rfl
              | some n => exact congrArg some Std.OrientedCmp.eq_swap

/-! ## The other side -/

-- The order of two lists by that of their first items.
theorem compareLists?_cons (a b : Value) (as bs : List Value) :
    compareLists? (a :: as) (b :: bs) =
      (a.compare? b).bind fun o => if o = .eq then compareLists? as bs else some o := by
  rw [compareLists?]
  cases a.compare? b with
  | none => rfl
  | some o => cases o <;> rfl

/-- The order of two values, seen from the other side. -/
theorem compare?_swap (a b : Value) : b.compare? a = (a.compare? b).map Ordering.swap := by
  refine compare?.induct (fun a b => b.compare? a = (a.compare? b).map Ordering.swap)
    (fun as bs => compareLists? bs as = (compareLists? as bs).map Ordering.swap)
    ?ints ?texts ?lists ?others ?empty ?shorter ?longer ?same ?differ a b
  case ints => exact fun a b => congrArg some Std.OrientedCmp.eq_swap
  case texts => exact fun a b => congrArg some (compareTexts_swap a.toList b.toList)
  case lists => exact fun as bs ih => by rw [compare?, compare?, ih]
  case others =>
    intro a b hints htexts hlists
    rw [compare?.eq_4 a b hints htexts hlists, compare?.eq_4 b a (fun m n h h' => hints n m h' h)
      (fun s t h h' => htexts t s h' h) (fun xs ys h h' => hlists ys xs h' h),
      compareNumbers?_swap]
  case empty => rfl
  case shorter => exact fun _ _ => rfl
  case longer => exact fun _ _ => rfl
  case same =>
    intro a as b bs heq ih ihs
    rw [compareLists?_cons, compareLists?_cons, ih, heq]
    exact ihs
  case differ =>
    intro a as b bs hne ih
    rw [compareLists?_cons, compareLists?_cons, ih]
    rcases hab : a.compare? b with _ | o
    · rfl
    · cases o with
      | eq => exact absurd hab hne
      | lt => rfl
      | gt => rfl

theorem compare?_eq_some_swap {a b : Value} {o : Ordering} :
    b.compare? a = some o.swap ↔ a.compare? b = some o := by
  rw [compare?_swap a b, Option.map_eq_some_iff]
  constructor
  · rintro ⟨p, hp, hswap⟩
    rw [hp, ← Ordering.swap_swap (o := p), hswap, Ordering.swap_swap]
  · exact fun h => ⟨o, h, rfl⟩

/-! ## Plain values -/

/-- Integers, strings, and lists of such values. -/
inductive Plain : Value → Prop
  | int (n : Int) : Plain (.int n)
  | str (text : String) : Plain (.str text)
  | list {items : List Value} (h : ∀ v ∈ items, Plain v) : Plain (.list items)

-- Two lists of items of which the order tells whether they are the same.
theorem compareLists?_eq_some_eq {as : List Value}
    (has : ∀ a ∈ as, ∀ b, Plain b → (a.compare? b = some .eq ↔ a = b)) {bs : List Value}
    (hbs : ∀ b ∈ bs, Plain b) : compareLists? as bs = some .eq ↔ as = bs := by
  induction as generalizing bs with
  | nil =>
      cases bs with
      | nil => simp only [compareLists?]
      | cons b bs => simp only [compareLists?, Option.some.injEq, reduceCtorEq]
  | cons a as ih =>
      cases bs with
      | nil => simp only [compareLists?, Option.some.injEq, reduceCtorEq]
      | cons b bs =>
          rcases List.forall_mem_cons.mp has with ⟨ha, has⟩
          rcases List.forall_mem_cons.mp hbs with ⟨hb, hbs⟩
          rw [compareLists?_cons, List.cons.injEq, ← ha b hb, ← ih has hbs]
          rcases a.compare? b with _ | o
          · simp only [Option.bind_none, reduceCtorEq, false_and]
          · cases o <;> simp

/-- A plain value has the same place in the order as another one only if they are the same. -/
theorem compare?_eq_some_eq {a b : Value} (ha : Plain a) (hb : Plain b) :
    a.compare? b = some .eq ↔ a = b := by
  induction ha generalizing b with
  | int m =>
      cases hb with
      | int n => rw [compare?, Option.some.injEq, Std.LawfulEqCmp.compare_eq_iff_eq, int.injEq]
      | str text => exact iff_of_false nofun nofun
      | list h => exact iff_of_false nofun nofun
  | str s =>
      cases hb with
      | int n => exact iff_of_false nofun nofun
      | str t => rw [compare?, Option.some.injEq, compareTexts_eq_eq, str.injEq]
      | list h => exact iff_of_false nofun nofun
  | list has ih =>
      cases hb with
      | int n => exact iff_of_false nofun nofun
      | str t => exact iff_of_false nofun nofun
      | list hbs =>
          rw [compare?, compareLists?_eq_some_eq (fun a ha b hb => ih a ha hb) hbs, list.injEq]

-- Lists are identical item by item, by the equality of the language.
theorem identicalItems_iff {as : List Value}
    (has : ∀ a ∈ as, ∀ b, Plain b → (a.identical b = true ↔ a = b)) {bs : List Value}
    (hbs : ∀ b ∈ bs, Plain b) : identicalItems as bs = true ↔ as = bs := by
  induction as generalizing bs with
  | nil =>
      cases bs with
      | nil => simp only [identicalItems]
      | cons b bs => simp only [identicalItems, Bool.false_eq_true, reduceCtorEq]
  | cons a as ih =>
      cases bs with
      | nil => simp only [identicalItems, Bool.false_eq_true, reduceCtorEq]
      | cons b bs =>
          rcases List.forall_mem_cons.mp has with ⟨ha, has⟩
          rcases List.forall_mem_cons.mp hbs with ⟨hb, hbs⟩
          rw [identicalItems, Bool.and_eq_true, ha b hb, ih has hbs, List.cons.injEq]

/-- Plain values are identical only if they are equal. Lists are compared item by item. -/
theorem identical_iff {a b : Value} (ha : Plain a) (hb : Plain b) :
    a.identical b = true ↔ a = b := by
  induction ha generalizing b with
  | int m =>
      cases hb with
      | int n => rw [identical, beq_iff_eq, int.injEq]
      | str text => exact iff_of_false nofun nofun
      | list h => exact iff_of_false nofun nofun
  | str s =>
      cases hb with
      | int n => exact iff_of_false nofun nofun
      | str t => rw [identical, beq_iff_eq, str.injEq]
      | list h => exact iff_of_false nofun nofun
  | list has ih =>
      cases hb with
      | int n => exact iff_of_false nofun nofun
      | str t => exact iff_of_false nofun nofun
      | list hbs => rw [identical, identicalItems_iff (fun a ha b hb => ih a ha hb) hbs, list.injEq]

/-- Equality and order agree on plain values. -/
theorem equal_iff {a b : Value} (ha : Plain a) (hb : Plain b) :
    a.equal b = true ↔ a.compare? b = some .eq := by
  unfold equal
  split
  · exact beq_iff_eq
  · rw [identical_iff ha hb, compare?_eq_some_eq ha hb]

/-! ## Transitivity -/

theorem compareLists?_cons_lt {a b : Value} {as bs : List Value} :
    compareLists? (a :: as) (b :: bs) = some .lt ↔
      a.compare? b = some .lt ∨ a.compare? b = some .eq ∧ compareLists? as bs = some .lt := by
  rw [compareLists?_cons]
  rcases a.compare? b with _ | o
  · simp only [Option.bind_none, reduceCtorEq, false_and, or_self]
  · cases o <;> simp

-- Of the two places at which three lists differ, the earlier one decides.
theorem compareLists?_trans {as : List Value}
    (htrans : ∀ a ∈ as, ∀ b c, Plain b → Plain c → a.compare? b = some .lt →
      b.compare? c = some .lt → a.compare? c = some .lt) {bs cs : List Value}
    (has : ∀ a ∈ as, Plain a) (hbs : ∀ b ∈ bs, Plain b) (hcs : ∀ c ∈ cs, Plain c)
    (hab : compareLists? as bs = some .lt) (hbc : compareLists? bs cs = some .lt) :
    compareLists? as cs = some .lt := by
  induction as generalizing bs cs with
  | nil =>
      cases cs with
      | nil => cases bs <;> simp only [compareLists?, Option.some.injEq, reduceCtorEq] at hab hbc
      | cons c cs => rfl
  | cons a as ih =>
      cases bs with
      | nil => simp only [compareLists?, Option.some.injEq, reduceCtorEq] at hab
      | cons b bs =>
          cases cs with
          | nil => simp only [compareLists?, Option.some.injEq, reduceCtorEq] at hbc
          | cons c cs =>
              rcases List.forall_mem_cons.mp htrans with ⟨hfirst, htrans⟩
              rcases List.forall_mem_cons.mp has with ⟨ha, has⟩
              rcases List.forall_mem_cons.mp hbs with ⟨hb, hbs⟩
              rcases List.forall_mem_cons.mp hcs with ⟨hc, hcs⟩
              rw [compareLists?_cons_lt] at hab hbc ⊢
              rcases hab with hab | ⟨hab, hrest⟩
              · rcases hbc with hbc | ⟨hbc, _⟩
                · exact .inl (hfirst b c hb hc hab hbc)
                · rw [compare?_eq_some_eq hb hc] at hbc
                  exact .inl (hbc ▸ hab)
              · rw [compare?_eq_some_eq ha hb] at hab
                rw [hab]
                exact hbc.imp_right fun hbc => ⟨hbc.1, ih htrans has hbs hcs hrest hbc.2⟩

/-- The order of plain values is transitive. -/
theorem compare?_trans {a b c : Value} (ha : Plain a) (hb : Plain b) (hc : Plain c)
    (hab : a.compare? b = some .lt) (hbc : b.compare? c = some .lt) :
    a.compare? c = some .lt := by
  induction ha generalizing b c with
  | int l =>
      cases hb with
      | int m =>
          cases hc with
          | int n =>
              simp only [compare?, Option.some.injEq] at hab hbc ⊢
              exact Std.TransCmp.lt_trans hab hbc
          | _ => exact absurd hbc nofun
      | _ => exact absurd hab nofun
  | str s =>
      cases hb with
      | str t =>
          cases hc with
          | str u =>
              simp only [compare?, Option.some.injEq] at hab hbc ⊢
              exact compareTexts_trans hab hbc
          | _ => exact absurd hbc nofun
      | _ => exact absurd hab nofun
  | list has ih =>
      cases hb with
      | list hbs =>
          cases hc with
          | list hcs =>
              rw [compare?] at hab hbc ⊢
              exact compareLists?_trans (fun a ha b c hb hc => ih a ha hb hc) has hbs hcs hab hbc
          | _ => exact absurd hbc nofun
      | _ => exact absurd hab nofun

-- The other two orders are transitive for the same reason.
theorem compare?_trans_of {o : Ordering} (ho : o ≠ .eq) {a b c : Value} (ha : Plain a)
    (hb : Plain b) (hc : Plain c) (hab : a.compare? b = some o) (hbc : b.compare? c = some o) :
    a.compare? c = some o := by
  cases o with
  | lt => exact compare?_trans ha hb hc hab hbc
  | eq => exact absurd rfl ho
  | gt =>
      rw [← compare?_eq_some_swap] at hab hbc ⊢
      exact compare?_trans hc hb ha hbc hab

end Value

/-! ## Scans -/

namespace Arguments

open Value (Plain)

/-- What a scan finds is one of the values, and none of them comes before it in the wanted
    direction. -/
theorem extremeFrom_spec {wanted : Ordering} (hwanted : wanted ≠ .eq) {best r : Value}
    {vs : List Value} (hplain : ∀ v ∈ best :: vs, Plain v)
    (h : extremeFrom wanted best vs = .ok r) :
    r ∈ best :: vs ∧ ∀ v ∈ best :: vs, v.compare? r ≠ some wanted := by
  induction vs generalizing best with
  | nil =>
      have hbest : Plain best := List.forall_mem_singleton.mp hplain
      rw [extremeFrom, Except.ok.injEq] at h
      have hself : best.compare? best = some .eq := (Value.compare?_eq_some_eq hbest hbest).mpr rfl
      subst h
      refine ⟨List.mem_singleton_self best, List.forall_mem_singleton.mpr ?_⟩
      rw [hself]
      exact fun heq => hwanted (Option.some.inj heq).symm
  | cons v vs ih =>
      rw [List.forall_mem_cons, List.forall_mem_cons] at hplain
      rcases hplain with ⟨hbest, hv, hvs⟩
      rw [extremeFrom] at h
      cases hfound : v.compare? best with
      | none => rw [hfound] at h; cases h
      | some o =>
          rw [hfound] at h
          simp only at h
          by_cases ho : o = wanted
          · -- The value takes the place of the best one, which comes behind it.
            rw [if_pos ho] at h
            rcases ih (List.forall_mem_cons.mpr ⟨hv, hvs⟩) h with ⟨hmem, hnone⟩
            refine ⟨List.mem_cons_of_mem _ hmem,
              List.forall_mem_cons.mpr ⟨fun hbefore => ?_, hnone⟩⟩
            have hr : Plain r := List.forall_mem_cons.mpr ⟨hv, hvs⟩ r hmem
            exact hnone v List.mem_cons_self
              (Value.compare?_trans_of hwanted hv hbest hr (ho ▸ hfound) hbefore)
          · -- The value is the best one, or it comes behind it and so behind what is found.
            rw [if_neg ho] at h
            rcases ih (List.forall_mem_cons.mpr ⟨hbest, hvs⟩) h with ⟨hmem, hnone⟩
            rw [List.forall_mem_cons] at hnone
            refine ⟨?_, ?_⟩
            · rcases List.mem_cons.mp hmem with hr | hr
              · exact hr ▸ List.mem_cons_self
              · exact List.mem_cons_of_mem _ (List.mem_cons_of_mem _ hr)
            · refine List.forall_mem_cons.mpr ⟨hnone.1, List.forall_mem_cons.mpr ⟨?_, hnone.2⟩⟩
              intro hbefore
              have hr : Plain r := List.forall_mem_cons.mpr ⟨hbest, hvs⟩ r hmem
              have hplace : o = .eq ∨ o = wanted.swap := by
                cases o <;> cases wanted <;> simp_all
              rcases hplace with rfl | rfl
              · rw [Value.compare?_eq_some_eq hv hbest] at hfound
                exact hnone.1 (hfound ▸ hbefore)
              · rw [Value.compare?_eq_some_swap] at hfound
                exact hnone.1 (Value.compare?_trans_of hwanted hbest hv hr hfound hbefore)

/-- The same of a call with some values, in a list of their own or not. -/
theorem extreme_spec {wanted : Ordering} (hwanted : wanted ≠ .eq) {args : Arguments} {r : Value}
    (hplain : ∀ v ∈ args.spread, Plain v) (h : args.extreme wanted = .ok r) :
    r ∈ args.spread ∧ ∀ v ∈ args.spread, v.compare? r ≠ some wanted := by
  unfold extreme at h
  cases hvalues : args.spread with
  | nil => rw [hvalues] at h; cases h
  | cons best vs =>
      rw [hvalues] at h hplain
      exact extremeFrom_spec hwanted hplain h

/-- The arguments of a call that is about some values: these values, or the list of them. -/
def Gives (args : Arguments) (vs : List Value) : Prop :=
  args = [.list vs] ∨ args = vs ∧ ∀ items, vs ≠ [.list items]

theorem Gives.spread {args : Arguments} {vs : List Value} (h : args.Gives vs) :
    args.spread = vs := by
  rcases h with rfl | ⟨rfl, hlist⟩
  · rfl
  · unfold Arguments.spread
    split
    · next items => exact absurd rfl (hlist items)
    · rfl

end Arguments

/-- The least and the greatest of some values rest on an order. Among integers, strings and lists of
    such values, the order is seen from both sides, only equal values have the same place in it, and
    it is transitive. So what is found among such values is one of them, and none of them is less
    than the least one or greater than the greatest one. -/
theorem Value.plain_order :
    (∀ a b : Value, a.Plain → b.Plain → ∀ o,
      a.compare? b = some o ↔ b.compare? a = some o.swap) ∧
    (∀ a b : Value, a.Plain → b.Plain → (a.compare? b = some .eq ↔ a.equal b = true)) ∧
    (∀ a b c : Value, a.Plain → b.Plain → c.Plain → a.compare? b = some .lt →
      b.compare? c = some .lt → a.compare? c = some .lt) ∧
    ∀ (args : Arguments) (vs : List Value) (r : Value), args.Gives vs → (∀ v ∈ vs, v.Plain) →
        (args.least = .ok r → r ∈ vs ∧ ∀ v ∈ vs, v.compare? r ≠ some .lt) ∧
        (args.greatest = .ok r → r ∈ vs ∧ ∀ v ∈ vs, v.compare? r ≠ some .gt) := by
  refine ⟨fun a b _ _ o => compare?_eq_some_swap.symm, fun a b ha hb => (equal_iff ha hb).symm,
    fun a b c => compare?_trans, fun args vs r hgives hplain => ?_⟩
  rw [← hgives.spread] at hplain ⊢
  exact ⟨Arguments.extreme_spec (by decide) hplain, Arguments.extreme_spec (by decide) hplain⟩

/-- Lists of different lengths, with a string in one of them. -/
def Value.ladder : List Value :=
  [.list [.int 2], .list [.int 1, .str "b"], .list [.int 1]]

/-- The least of these lists is the shorter one of those that begin with the smaller number. -/
theorem Value.plain_order_ladder :
    Arguments.least [.list ladder] = .ok (.list [.int 1]) ∧
      ∀ v ∈ ladder, v.compare? (.list [.int 1]) ≠ some .lt := by
  have hleast : Arguments.least [.list ladder] = .ok (.list [.int 1]) := by rfl
  have hnumber : ∀ n, (Value.list [.int n]).Plain :=
    fun n => .list (List.forall_mem_singleton.mpr (.int n))
  have hpair : (Value.list [.int 1, .str "b"]).Plain :=
    .list (List.forall_mem_cons.mpr ⟨.int 1, List.forall_mem_singleton.mpr (.str "b")⟩)
  have hplain : ∀ v ∈ ladder, v.Plain :=
    List.forall_mem_cons.mpr ⟨hnumber 2, List.forall_mem_cons.mpr ⟨hpair,
      List.forall_mem_singleton.mpr (hnumber 1)⟩⟩
  exact ⟨hleast, ((plain_order.2.2.2 _ ladder _ (.inl rfl) hplain).1 hleast).2⟩

end Farmhand
