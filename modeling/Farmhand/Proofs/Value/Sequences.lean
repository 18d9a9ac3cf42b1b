import Farmhand.Value.Operate
import Mathlib.Logic.Function.Iterate

/-!
# Operators on Sequences Are Exact

Lists and strings are the two kinds of sequences, one of values and the other of characters. What
the operators do with them is the same for both: a sum joins them, a product with an integer repeats
them, and an index takes one element out. The only limit is on the length of what is built, and it
is the length itself that is held against it. A machine computes this length in a word and repeats a
sequence turn by turn; since a length that leaves the word is refused as one that is too long, the
word does not show.

An element of a repeated sequence is found by its place modulo the length of the sequence, and this
is an induction on the number of repetitions, the first of which is a front of the rest.

## Main definitions

* `Value.Sequence`: The two kinds of sequences, by their elements.
* `Value.joinedByWords`, `Value.repeatedByWords`: Joining and repeating with lengths in words.
* `Value.Sequence.Exact`: The operators are exact on sequences.

## Theorems

* `Value.repeated_eq_byWords`: Repeating turn by turn.
* `Value.getElem?_flatten_replicate`: The elements of a repeated sequence.
* `Value.itemAt_front`, `Value.itemAt_back`, `Value.itemAt_outside`: Positions.
* `Value.Sequence.operators_exact`: The operators are exact.
-/

namespace Farmhand

namespace Value

/-- The two kinds of sequences. -/
inductive Sequence where
  | list
  | text

namespace Sequence

/-- What a sequence consists of. -/
def Element : Sequence → Type
  | list => Value
  | text => Char

/-- The sequence of some elements. Each list and each string is one. -/
def of : (k : Sequence) → List k.Element → Value
  | list, items => .list items
  | text, cs => .str (String.ofList cs)

/-- An element as a value of its own. -/
def one : (k : Sequence) → k.Element → Value
  | list, item => item
  | text, c => .str (String.singleton c)

end Sequence

section

variable {α : Type}

/-! ## Lengths in words -/

/-- A length that a machine word can hold. -/
def wordLength? (n : Nat) : Option Nat :=
  if n ≤ Integer.maxCounter then some n else Option.none

/-- A length that was computed, unless it has left the word or is too long. -/
def checkedLength (length : Option Nat) : Except OperationError Nat :=
  match length with
  | some n => if n ≤ maxLength then .ok n else .error (.tooLarge maxLength)
  | Option.none => .error (.tooLarge maxLength)

/-- Joins two sequences if the sum of their lengths, computed in a word, is not too long. -/
def joinedByWords (a b : List α) : Except OperationError (List α) :=
  (checkedLength (wordLength? (a.length + b.length))).map fun _ => a ++ b

/-- Repeats a sequence if the product of its length and the count, computed in a word, is not too
    long. The result grows turn by turn. -/
def repeatedByWords (items : List α) (times : Int) : Except OperationError (List α) :=
  (checkedLength (wordLength? (items.length * times.toNat))).map fun _ =>
    (· ++ items)^[times.toNat] []

/-- A length in a word is too long exactly if the length is. -/
theorem checkedLength_wordLength? (n : Nat) : checkedLength (wordLength? n) =
    if n ≤ maxLength then .ok n else .error (.tooLarge maxLength) := by
  unfold wordLength?
  split
  · rfl
  · next hword =>
      have hlong : ¬ n ≤ maxLength := by
        unfold Integer.maxCounter at hword
        unfold maxLength
        omega
      rw [if_neg hlong]
      rfl

theorem joined_eq_byWords (a b : List α) : joined a b = joinedByWords a b := by
  rw [joined, joinedByWords, checkedLength_wordLength?]
  split <;> rfl

/-! ## Repetition -/

theorem length_flatten_replicate (items : List α) (times : Nat) :
    (List.replicate times items).flatten.length = items.length * times := by
  rw [List.length_flatten, List.map_replicate, List.sum_replicate_nat, Nat.mul_comm]

/-- An element of a repeated sequence is the one at its place modulo the length of the sequence. -/
theorem getElem?_flatten_replicate (items : List α) (times j : Nat)
    (h : j < items.length * times) :
    (List.replicate times items).flatten[j]? = items[j % items.length]? := by
  induction times generalizing j with
  | zero => omega
  | succ times ih =>
      rw [List.replicate_succ, List.flatten_cons]
      by_cases hfirst : j < items.length
      · rw [List.getElem?_append_left hfirst, Nat.mod_eq_of_lt hfirst]
      · rw [Nat.mul_succ] at h
        rw [List.getElem?_append_right (by omega), ih _ (by omega),
          Nat.mod_eq_sub_mod (Nat.not_lt.mp hfirst)]

/-- Growing turn by turn comes to the same as one repetition after the other. -/
theorem iterate_append (items front : List α) (times : Nat) :
    (· ++ items)^[times] front = front ++ (List.replicate times items).flatten := by
  induction times generalizing front with
  | zero => exact (List.append_nil front).symm
  | succ times ih =>
      rw [Function.iterate_succ_apply, ih, List.replicate_succ, List.flatten_cons,
        List.append_assoc]

theorem repeated_eq_ite (items : List α) (times : Int) : repeated items times =
    if items.length * times.toNat ≤ maxLength
    then .ok (List.replicate times.toNat items).flatten else .error (.tooLarge maxLength) := by
  unfold repeated
  cases items with
  | nil => simp
  | cons item rest => rfl

theorem repeated_eq_byWords (items : List α) (times : Int) :
    repeated items times = repeatedByWords items times := by
  rw [repeated_eq_ite, repeatedByWords, checkedLength_wordLength?, iterate_append,
    List.nil_append]
  split <;> rfl

/-! ## Positions -/

variable {items : List α} {i : Int}

theorem place_eq_of_front (hfirst : 0 ≤ i) (hlast : i < items.length) :
    place i items.length = .ok i.toNat := by
  simp [place, Int.not_lt.mpr hfirst, hfirst, hlast]

theorem place_eq_of_back (hfirst : -items.length ≤ i) (hlast : i < 0) :
    place i items.length = .ok (items.length + i).toNat := by
  have hpos : 0 ≤ i + items.length := by omega
  have hlt : i + (items.length : Int) < items.length := by omega
  rw [place, if_pos hlast, decide_eq_true hpos, decide_eq_true hlt, Int.add_comm]
  rfl

theorem itemAt_of_place {p : Nat} (hplace : place i items.length = .ok p)
    (hp : p < items.length) : itemAt items i = .ok items[p] := by
  simp only [itemAt, hplace, List.getElem?_eq_getElem hp]

/-- Positions from zero on are places. -/
theorem itemAt_front (hfirst : 0 ≤ i) (hlast : i < items.length) :
    ∃ item, items[i.toNat]? = some item ∧ itemAt items i = .ok item := by
  have hp : i.toNat < items.length := by omega
  exact ⟨_, List.getElem?_eq_getElem hp, itemAt_of_place (place_eq_of_front hfirst hlast) hp⟩

/-- Positions below zero count from the end. -/
theorem itemAt_back (hfirst : -items.length ≤ i) (hlast : i < 0) :
    ∃ item, items[(items.length + i).toNat]? = some item ∧ itemAt items i = .ok item := by
  have hp : (items.length + i).toNat < items.length := by omega
  exact ⟨_, List.getElem?_eq_getElem hp, itemAt_of_place (place_eq_of_back hfirst hlast) hp⟩

/-- There are no other positions. -/
theorem itemAt_outside (h : i < -items.length ∨ items.length ≤ i) :
    itemAt items i = .error (.indexOutOfRange i items.length) := by
  have hplace : place i items.length = .error (.indexOutOfRange i items.length) := by
    unfold place
    split <;> simp <;> omega
  rw [itemAt, hplace]

end

/-! ## The operators -/

namespace Sequence

variable {k : Sequence} {s t : List k.Element} {n i : Int}

theorem binary_add_texts (cs ds : List Char) :
    binary .add (.str (String.ofList cs)) (.str (String.ofList ds)) =
      (joined cs ds).map fun cs => .str (String.ofList cs) := by
  rw [binary, String.toList_ofList, String.toList_ofList, ofChars]

theorem binary_mul_text (cs : List Char) (n : Int) :
    binary .mul (.str (String.ofList cs)) (.int n) =
      (repeated cs n).map fun cs => .str (String.ofList cs) := by
  rw [binary, String.toList_ofList, ofChars]

theorem index_text (cs : List Char) (i : Int) :
    index (.str (String.ofList cs)) (.int i) =
      (itemAt cs i).map fun c => .str (String.singleton c) := by
  rw [index, String.toList_ofList]
  rfl

theorem binary_add : binary .add (k.of s) (k.of t) = (joined s t).map k.of := by
  cases k with
  | list => rfl
  | text => exact binary_add_texts s t

theorem binary_mul : binary .mul (k.of s) (.int n) = (repeated s n).map k.of := by
  cases k with
  | list => rfl
  | text => exact binary_mul_text s n

theorem binary_int_mul : binary .mul (.int n) (k.of s) = binary .mul (k.of s) (.int n) := by
  cases k <;> rfl

theorem index_eq : index (k.of s) (.int i) = (itemAt s i).map k.one := by
  cases k with
  | list =>
      change itemAt s i = (itemAt s i).map id
      cases itemAt s i <;> rfl
  | text => exact index_text s i

/-- The operators are exact on two sequences, a count and a position. The sum is their
    concatenation, unless it is too long. The product with the count, from either side, has the
    length of one times the count, or none for a negative count, unless that is too long, and its
    elements are those of the sequence in turn. The element at a position is counted from the front,
    or from the end if the position is negative, and there is none elsewhere. -/
structure Exact (k : Sequence) (s t : List k.Element) (n i : Int) : Prop where
  joins : s.length + t.length ≤ maxLength →
    binary .add (k.of s) (k.of t) = .ok (k.of (s ++ t))
  tooLong : maxLength < s.length + t.length →
    binary .add (k.of s) (k.of t) = .error (.tooLarge maxLength)
  joinsByWords : binary .add (k.of s) (k.of t) = (joinedByWords s t).map k.of
  eitherSide : binary .mul (.int n) (k.of s) = binary .mul (k.of s) (.int n)
  repeats : s.length * max n 0 ≤ maxLength →
    ∃ r : List k.Element, binary .mul (k.of s) (.int n) = .ok (k.of r) ∧
      r.length = s.length * max n 0 ∧ ∀ j < r.length, r[j]? = s[j % s.length]?
  tooOften : maxLength < s.length * max n 0 →
    binary .mul (k.of s) (.int n) = .error (.tooLarge maxLength)
  repeatsByWords : binary .mul (k.of s) (.int n) = (repeatedByWords s n).map k.of
  front : 0 ≤ i → i < s.length →
    ∃ x, s[i.toNat]? = some x ∧ index (k.of s) (.int i) = .ok (k.one x)
  back : -s.length ≤ i → i < 0 →
    ∃ x, s[(s.length + i).toNat]? = some x ∧ index (k.of s) (.int i) = .ok (k.one x)
  outside : i < -s.length ∨ s.length ≤ i →
    index (k.of s) (.int i) = .error (.indexOutOfRange i s.length)

/-- The operators are exact on all lists and on all strings. -/
theorem operators_exact (k : Sequence) (s t : List k.Element) (n i : Int) : Exact k s t n i := by
  have hcount : (s.length : Int) * max n 0 = (s.length * n.toNat : Nat) := by
    rw [Int.natCast_mul, Int.ofNat_toNat]
  refine ⟨fun hle => ?_, fun hlt => ?_, ?_, binary_int_mul, fun hle => ?_, fun hlt => ?_, ?_,
    fun hfirst hlast => ?_, fun hfirst hlast => ?_, fun h => ?_⟩
  · rw [binary_add, joined, if_pos hle]
    rfl
  · rw [binary_add, joined, if_neg (Nat.not_le.mpr hlt)]
    rfl
  · rw [binary_add, joined_eq_byWords]
  · rw [hcount, Int.ofNat_le] at hle
    refine ⟨(List.replicate n.toNat s).flatten, ?_, ?_, fun j hj => ?_⟩
    · rw [binary_mul, repeated_eq_ite, if_pos hle]
      rfl
    · rw [length_flatten_replicate, hcount]
    · rw [length_flatten_replicate] at hj
      exact getElem?_flatten_replicate s n.toNat j hj
  · rw [hcount, Int.ofNat_lt] at hlt
    rw [binary_mul, repeated_eq_ite, if_neg (Nat.not_le.mpr hlt)]
    rfl
  · rw [binary_mul, repeated_eq_byWords]
  · rcases itemAt_front hfirst hlast with ⟨x, hx, hitem⟩
    exact ⟨x, hx, by rw [index_eq, hitem]; rfl⟩
  · rcases itemAt_back hfirst hlast with ⟨x, hx, hitem⟩
    exact ⟨x, hx, by rw [index_eq, hitem]; rfl⟩
  · rw [index_eq, itemAt_outside h]
    rfl

-- Twice a text from the left, and its last character.
example : binary .mul (.int 2) (.str "ab") = .ok (.str "abab") ∧
    index (.str "ab") (.int (-1)) = .ok (.str "b") :=
  ⟨rfl, rfl⟩

end Sequence

end Value

end Farmhand
