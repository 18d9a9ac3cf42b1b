import Farmhand.Table

/-!
# Reading a Table after a Write

What a look-up finds after a write, and how a sum over the values of a table moves when one of them
is replaced. A write touches one name only, so both come down to the same walk along the entries:
the first entry of the name is the one that a look-up finds and that a write replaces.

## Main definitions

* `Table.total`: A sum over the values of a table.
* `Table.Filed`: Everything is filed under its own name.

## Theorems

* `Entries.get?_insert_self`, `Entries.get?_insert_of_ne`: A look-up after a write.
* `Entries.get?_eq_none_iff`: A look-up finds nothing exactly when the name is not there.
* `Entries.mem_of_get?`, `Entries.get?_of_mem`: What is found is an entry, and an entry of a list
  without repeated names is found.
* `Entries.read_foldl`: What is left of steps that each touch their own name only.
* `Table.get?_insert_self`, `Table.get?_insert_of_ne`: The same for tables.
* `Table.get?_modify_self`, `Table.get?_modify_of_ne`: A look-up after a change in place.
* `Table.entries_ofList`, `Table.entries_ofList_iff`: Pairs are all kept exactly when their names
  are distinct.
* `Table.total_insert`, `Table.total_modify`: Replacing a value moves a sum by the difference.
* `Table.Filed.insert`, `Table.Filed.modify`: Things stay filed under their own names.
* `Table.All.insert`: What all values of a table have.
-/

namespace Farmhand

namespace Entries

variable {α : Type}

-- The first entry of the name is replaced, or one is put behind all others.
theorem get?_insert_self (key : String) (value : α) (entries : List (String × α)) :
    get? key (insert key value entries) = some value := by
  induction entries with
  | nil => simp only [insert, get?, if_pos]
  | cons entry rest ih =>
      rcases entry with ⟨k, v⟩
      by_cases h : k = key
      · simp only [insert, if_pos h, get?]
      · simp only [insert, if_neg h, get?, ih]

-- Other names are passed by.
theorem get?_insert_of_ne (key other : String) (value : α) (h : other ≠ key)
    (entries : List (String × α)) : get? other (insert key value entries) = get? other entries := by
  have hk : ¬ key = other := fun e => h e.symm
  induction entries with
  | nil => simp only [insert, get?, if_neg hk]
  | cons entry rest ih =>
      rcases entry with ⟨k, v⟩
      by_cases hkey : k = key
      · simp only [insert, hkey, if_true, get?, if_neg hk]
      · simp only [insert, if_neg hkey, get?, ih]

/-- A look-up finds nothing exactly when the name is not there. -/
theorem get?_eq_none_iff (key : String) (entries : List (String × α)) :
    get? key entries = none ↔ key ∉ entries.map Prod.fst := by
  induction entries with
  | nil => simp only [get?, List.map_nil, List.not_mem_nil, not_false_eq_true]
  | cons entry rest ih =>
      rcases entry with ⟨k, v⟩
      by_cases h : k = key
      · simp [get?, h]
      · have h' : ¬ key = k := fun e => h e.symm
        simp only [get?, if_neg h, ih, List.map_cons, List.mem_cons, h', false_or]

-- A name that is new comes last.
theorem insert_of_not_mem {key : String} {entries : List (String × α)}
    (h : key ∉ entries.map Prod.fst) (value : α) :
    insert key value entries = entries ++ [(key, value)] := by
  induction entries with
  | nil => rfl
  | cons entry rest ih =>
      rcases entry with ⟨k, v⟩
      rw [List.map_cons, List.mem_cons, not_or] at h
      have hk : ¬ k = key := fun e => h.1 e.symm
      simp only [insert, if_neg hk, ih h.2, List.cons_append]

-- What is found was there.
theorem mem_of_get? {key : String} {value : α} {entries : List (String × α)}
    (h : get? key entries = some value) : (key, value) ∈ entries := by
  induction entries with
  | nil => simp only [get?, reduceCtorEq] at h
  | cons entry rest ih =>
      rcases entry with ⟨k, v⟩
      by_cases hk : k = key
      · simp only [get?, if_pos hk, Option.some.injEq] at h
        rw [hk, h]
        exact List.mem_cons_self
      · simp only [get?, if_neg hk] at h
        exact List.mem_cons_of_mem _ (ih h)

/-- An entry of a list without repeated names is the one that a look-up finds. -/
theorem get?_of_mem {key : String} {value : α} {entries : List (String × α)}
    (hnodup : (entries.map Prod.fst).Nodup) (hmem : (key, value) ∈ entries) :
    get? key entries = some value := by
  induction entries with
  | nil => exact absurd hmem List.not_mem_nil
  | cons entry rest ih =>
      rcases entry with ⟨k, v⟩
      rw [List.map_cons, List.nodup_cons] at hnodup
      rcases List.mem_cons.mp hmem with heq | hrest
      · simp only [Prod.mk.injEq] at heq
        simp only [get?, heq.1, if_true, heq.2]
      · have hne : ¬ k = key := by
          intro e
          exact hnodup.1 (List.mem_map.mpr ⟨(key, value), hrest, e.symm⟩)
        simp only [get?, if_neg hne]
        exact ih hnodup.2 hrest

/-- Steps that each touch their own name only leave a name with its own step, or as it was. -/
theorem read_foldl {σ β : Type} (read : σ → String → β) (step : σ → String × α → σ)
    (g : β → α → β) (hself : ∀ s k v, read (step s (k, v)) k = g (read s k) v)
    (hother : ∀ s k v name, name ≠ k → read (step s (k, v)) name = read s name)
    {entries : List (String × α)} (hnodup : (entries.map Prod.fst).Nodup) (s : σ) (name : String) :
    read (entries.foldl step s) name =
      (get? name entries).elim (read s name) (g (read s name)) := by
  induction entries generalizing s with
  | nil => rfl
  | cons entry rest ih =>
      rcases entry with ⟨k, v⟩
      rw [List.map_cons, List.nodup_cons] at hnodup
      rw [List.foldl_cons, ih hnodup.2, get?]
      by_cases hk : k = name
      · -- The name has had its step, and does not come again.
        have hrest : get? name rest = none := (get?_eq_none_iff name rest).mpr (hk ▸ hnodup.1)
        rw [hrest, if_pos hk, ← hk, Option.elim_none, Option.elim_some, hself]
      · rw [if_neg hk, hother s k v name fun h => hk h.symm]

/-- A number for each value, summed over the values. -/
def total (f : α → Int) : List (String × α) → Int
  | [] => 0
  | (_, v) :: rest => f v + total f rest

/-- A value that replaces another one moves a sum by the difference. The induction is on the entries
    in front of the name. -/
theorem total_insert (f : α → Int) (key : String) (value old : α) (entries : List (String × α))
    (h : get? key entries = some old) :
    total f (insert key value entries) + f old = total f entries + f value := by
  induction entries with
  | nil => simp only [get?, reduceCtorEq] at h
  | cons entry rest ih =>
      rcases entry with ⟨k, v⟩
      by_cases hk : k = key
      · simp only [get?, if_pos hk, Option.some.injEq] at h
        simp only [insert, if_pos hk, total, h]
        omega
      · simp only [get?, if_neg hk] at h
        have hrest := ih h
        simp only [insert, if_neg hk, total]
        omega

end Entries

namespace Table

variable {α : Type}

@[simp] theorem get?_insert_self (t : Table α) (key : String) (value : α) :
    (t.insert key value).get? key = some value :=
  Entries.get?_insert_self key value t.entries

theorem get?_insert_of_ne (t : Table α) (key other : String) (value : α) (h : other ≠ key) :
    (t.insert key value).get? other = t.get? other :=
  Entries.get?_insert_of_ne key other value h t.entries

-- A change in place is a write of what was changed, if there was anything.
theorem get?_modify_self (t : Table α) (key : String) (f : α → α) :
    (t.modify key f).get? key = (t.get? key).map f := by
  unfold modify
  cases h : t.get? key with
  | none => exact h
  | some v => exact get?_insert_self t key (f v)

theorem get?_modify_of_ne (t : Table α) (key other : String) (f : α → α) (h : other ≠ key) :
    (t.modify key f).get? other = t.get? other := by
  unfold modify
  cases t.get? key with
  | none => rfl
  | some v => exact get?_insert_of_ne t key other (f v) h

-- What a change in place leaves alone is read as before.
theorem map_get?_modify {β : Type} {f : α → α} {g : α → β} (hf : ∀ a, g (f a) = g a) (t : Table α)
    (key other : String) : ((t.modify key f).get? other).map g = (t.get? other).map g := by
  by_cases hother : other = key
  · rw [hother, get?_modify_self, Option.map_map]
    exact congrArg (Option.map · _) (funext hf)
  · rw [get?_modify_of_ne t key other f hother]

-- What a change in place leaves at a name is what was there, changed or not.
theorem exists_of_get?_modify {t : Table α} {key other : String} {f : α → α} {value : α}
    (h : (t.modify key f).get? other = some value) :
    ∃ old, t.get? other = some old ∧ (value = old ∨ value = f old) := by
  by_cases hother : other = key
  · rw [hother, get?_modify_self, Option.map_eq_some_iff] at h
    rcases h with ⟨old, hold, hvalue⟩
    exact ⟨old, hother ▸ hold, Or.inr hvalue.symm⟩
  · rw [get?_modify_of_ne t key other f hother] at h
    exact ⟨value, h, Or.inl rfl⟩

-- A change in place adds no name and takes none away.
theorem contains_modify (t : Table α) (key other : String) (f : α → α) :
    (t.modify key f).contains other = t.contains other := by
  unfold contains
  by_cases h : other = key
  · rw [h, get?_modify_self, Option.isSome_map]
  · rw [get?_modify_of_ne t key other f h]

-- The names of a table are those of its entries.
theorem contains_eq_true_iff (t : Table α) (key : String) :
    t.contains key = true ↔ key ∈ t.keys := by
  have hnone := Entries.get?_eq_none_iff key t.entries
  unfold contains
  rw [← Option.ne_none_iff_isSome, Ne, get?, hnone, Decidable.not_not]
  rfl

/-- A number for each value, summed over the values. -/
def total (f : α → Int) (t : Table α) : Int :=
  Entries.total f t.entries

/-- Replacing the value at a name moves a sum over all values by the difference. -/
theorem total_insert (f : α → Int) (t : Table α) (key : String) (value old : α)
    (h : t.get? key = some old) :
    (t.insert key value).total f + f old = t.total f + f value :=
  Entries.total_insert f key value old t.entries h

/-- A change in place that leaves a number as it was leaves the sum of the numbers as it was. -/
theorem total_modify (f : α → Int) (t : Table α) (key : String) (g : α → α)
    (h : ∀ v, f (g v) = f v) : (t.modify key g).total f = t.total f := by
  unfold modify
  cases hget : t.get? key with
  | none => rfl
  | some v =>
      have hsum := total_insert f t key (g v) v hget
      rw [h v] at hsum
      simp only
      omega

/-- Pairs with new and distinct names are all kept, in their order. -/
theorem entries_insertAll (t : Table α) (pairs : List (String × α))
    (h : (t.keys ++ pairs.map Prod.fst).Nodup) :
    (t.insertAll pairs).entries = t.entries ++ pairs := by
  induction pairs generalizing t with
  | nil => exact (List.append_nil t.entries).symm
  | cons pair rest ih =>
      rcases pair with ⟨key, value⟩
      have hkey : key ∉ t.entries.map Prod.fst := fun hmem =>
        (List.nodup_append.mp h).2.2 key hmem key List.mem_cons_self rfl
      have hentries : (t.insert key value).entries = t.entries ++ [(key, value)] :=
        Entries.insert_of_not_mem hkey value
      have hkeys : (t.insert key value).keys = t.keys ++ [key] := by
        simp only [keys, hentries, List.map_append, List.map_cons, List.map_nil]
      have hrest := ih (t.insert key value) (by
        rw [hkeys, List.append_assoc]
        exact h)
      rw [hentries, List.append_assoc] at hrest
      exact hrest

/-- Pairs with distinct names are kept as they are. -/
theorem entries_ofList (pairs : List (String × α)) (h : (pairs.map Prod.fst).Nodup) :
    (ofList pairs).entries = pairs :=
  entries_insertAll empty pairs h

/-- Pairs are all kept exactly when their names are distinct. -/
theorem entries_ofList_iff (pairs : List (String × α)) :
    (ofList pairs).entries = pairs ↔ (pairs.map Prod.fst).Nodup := by
  constructor
  · intro h
    have hkeys := (ofList pairs).nodup_keys
    rwa [h] at hkeys
  · exact entries_ofList pairs

-- What is found after several writes was written, or was there.
theorem get?_insertAll_of_eq_some {t : Table α} {pairs : List (String × α)} {key : String}
    {value : α} (h : (t.insertAll pairs).get? key = some value) :
    (key, value) ∈ pairs ∨ t.get? key = some value := by
  induction pairs generalizing t with
  | nil => exact Or.inr h
  | cons pair rest ih =>
      rcases pair with ⟨k, v⟩
      have hrest : (key, value) ∈ rest ∨ (t.insert k v).get? key = some value := ih h
      rcases hrest with hmem | hfirst
      · exact Or.inl (List.mem_cons_of_mem _ hmem)
      · by_cases hk : key = k
        · rw [hk, get?_insert_self, Option.some.injEq] at hfirst
          rw [hk, hfirst]
          exact Or.inl List.mem_cons_self
        · rw [get?_insert_of_ne _ _ _ _ hk] at hfirst
          exact Or.inr hfirst

-- Nothing is found after several writes exactly when none was to the name and nothing was there.
theorem get?_insertAll_eq_none_iff (t : Table α) (pairs : List (String × α)) (key : String) :
    (t.insertAll pairs).get? key = none ↔ key ∉ pairs.map Prod.fst ∧ t.get? key = none := by
  induction pairs generalizing t with
  | nil => simp only [insertAll, List.foldl_nil, List.map_nil, List.not_mem_nil,
      not_false_eq_true, true_and]
  | cons pair rest ih =>
      rcases pair with ⟨k, v⟩
      have hrest : ((t.insert k v).insertAll rest).get? key = none ↔ _ := ih (t.insert k v)
      refine hrest.trans ?_
      rw [List.map_cons, List.mem_cons, not_or]
      by_cases hk : key = k
      · rw [hk, get?_insert_self]
        simp only [reduceCtorEq, and_false, not_true_eq_false, false_and]
      · rw [get?_insert_of_ne _ _ _ _ hk]
        simp only [hk, not_false_eq_true, true_and]

/-! ## Tables of things that know their names -/

/-- Everything in a table is filed under its own name. -/
def Filed (name : α → String) (t : Table α) : Prop :=
  ∀ key value, t.get? key = some value → name value = key

variable {name : α → String} {t : Table α}

theorem filed_empty : Filed name (empty : Table α) := by
  intro key value h
  simp only [get?, empty, Entries.get?, reduceCtorEq] at h

-- A thing that is written under its own name is filed.
theorem Filed.insert (h : Filed name t) (value : α) : Filed name (t.insert (name value) value) := by
  intro key v hv
  by_cases hkey : key = name value
  · rw [hkey, get?_insert_self, Option.some.injEq] at hv
    rw [← hv, hkey]
  · rw [get?_insert_of_ne _ _ _ _ hkey] at hv
    exact h key v hv

-- A change in place keeps everything filed if it keeps the names.
theorem Filed.modify (h : Filed name t) (key : String) {f : α → α}
    (hf : ∀ v, name (f v) = name v) : Filed name (t.modify key f) := by
  intro other v hv
  rcases exists_of_get?_modify hv with ⟨old, hold, heq | heq⟩
  · rw [heq]
    exact h other old hold
  · rw [heq, hf]
    exact h other old hold

/-! ## What all values have -/

/-- Every value of a table has a property. -/
def All (P : α → Prop) (t : Table α) : Prop :=
  ∀ key value, t.get? key = some value → P value

variable {P : α → Prop}

-- There is nothing in an empty table.
theorem all_empty : All P (empty : Table α) := by
  intro key value h
  simp only [get?, empty, Entries.get?, reduceCtorEq] at h

/-- A look-up finds what was written or what was there before. -/
theorem All.insert (h : All P t) (key : String) {value : α} (hvalue : P value) :
    All P (t.insert key value) := by
  intro other v hv
  by_cases hother : other = key
  · rw [hother, get?_insert_self, Option.some.injEq] at hv
    exact hv ▸ hvalue
  · rw [get?_insert_of_ne _ _ _ _ hother] at hv
    exact h other v hv

end Table

end Farmhand
