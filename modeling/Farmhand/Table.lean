/-!
# Ordered Tables

Finite maps from names to values that remember in which order their names were first written.
Writing to a name that is already there replaces the value and keeps the name's place, so an order
that was shown once never changes under later writes.

## Main definitions

* `Entries.get?`, `Entries.insert`: Look-up and writing on a list of pairs.
* `Table`: A list of pairs in which no name occurs twice.
* `Table.get?`, `Table.insert`, `Table.keys`: The operations of the type.

## Theorems

* `Entries.keys_insert`: A write leaves the names alone, or puts the new one last.
* `Entries.nodup_insert`: A write keeps the names distinct.
-/

namespace Farmhand

namespace Entries

variable {α : Type}

/-- The value at a name, the first one if the name occurs again. -/
def get? (key : String) : List (String × α) → Option α
  | [] => none
  | (k, v) :: rest => if k = key then some v else get? key rest

/-- Writes a value at a name: in the name's place if it is there, at the end otherwise. -/
def insert (key : String) (value : α) : List (String × α) → List (String × α)
  | [] => [(key, value)]
  | (k, v) :: rest => if k = key then (k, value) :: rest else (k, v) :: insert key value rest

/-- A write leaves the names alone, or puts the new one last. -/
theorem keys_insert (key : String) (value : α) (entries : List (String × α)) :
    (insert key value entries).map Prod.fst =
      if key ∈ entries.map Prod.fst then entries.map Prod.fst
      else entries.map Prod.fst ++ [key] := by
  induction entries with
  | nil => simp [insert]
  | cons entry rest ih =>
    rcases entry with ⟨k, v⟩
    by_cases h : k = key
    · simp [insert, h]
    · have h' : key ≠ k := fun e => h e.symm
      simp only [insert, h, if_false, List.map_cons, ih, List.mem_cons, h', false_or]
      split <;> rfl

/-- A write keeps the names distinct. -/
theorem nodup_insert (key : String) (value : α) {entries : List (String × α)}
    (h : (entries.map Prod.fst).Nodup) : ((insert key value entries).map Prod.fst).Nodup := by
  rw [keys_insert]
  split
  · exact h
  · next hkey =>
    rw [List.nodup_append]
    refine ⟨h, List.nodup_cons.2 ⟨List.not_mem_nil, List.nodup_nil⟩, ?_⟩
    intro a ha b hb
    rw [List.mem_singleton] at hb
    exact fun e => hkey (hb ▸ e ▸ ha)

end Entries

/-- A finite map that remembers the order in which its names were first written. -/
structure Table (α : Type) where
  /-- The names and their values, in order. -/
  entries : List (String × α)
  /-- No name occurs twice. -/
  nodup_keys : (entries.map Prod.fst).Nodup

namespace Table

variable {α : Type}

/-- The table without names. -/
def empty : Table α :=
  ⟨[], List.nodup_nil⟩

instance : EmptyCollection (Table α) :=
  ⟨empty⟩

instance : Inhabited (Table α) :=
  ⟨empty⟩

/-- The value at a name. -/
def get? (t : Table α) (key : String) : Option α :=
  Entries.get? key t.entries

/-- Whether a name is there. -/
def contains (t : Table α) (key : String) : Bool :=
  (t.get? key).isSome

/-- Writes a value at a name, which keeps its place if it is there and goes last otherwise. -/
def insert (t : Table α) (key : String) (value : α) : Table α :=
  ⟨Entries.insert key value t.entries, Entries.nodup_insert key value t.nodup_keys⟩

/-- Applies a function to the value at a name, if the name is there. -/
def modify (t : Table α) (key : String) (f : α → α) : Table α :=
  match t.get? key with
  | some v => t.insert key (f v)
  | none => t

/-- The names, in order. -/
def keys (t : Table α) : List String :=
  t.entries.map Prod.fst

/-- The values, in the order of their names. -/
def values (t : Table α) : List α :=
  t.entries.map Prod.snd

/-- The number of names. -/
def size (t : Table α) : Nat :=
  t.entries.length

/-- Writes pairs one after the other. -/
def insertAll (t : Table α) (pairs : List (String × α)) : Table α :=
  pairs.foldl (fun t (k, v) => t.insert k v) t

/-- The table of a list of pairs: a name has the place of its first pair and the value of its
    last one. -/
def ofList (pairs : List (String × α)) : Table α :=
  empty.insertAll pairs

end Table

end Farmhand
