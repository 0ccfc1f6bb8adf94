import Mathlib.Data.Finset.Range
import Mathlib.Order.Interval.Finset.Nat

/-! Bit vectors of a size that changes. -/

namespace OpenRace

structure BitVector where
  size : ℕ
  bits : Finset ℕ
  lt_size : ∀ index ∈ bits, index < size

namespace BitVector

def empty : BitVector := ⟨0, ∅, by simp⟩

/-- None is an access out of bounds. -/
def test (vector : BitVector) (index : ℕ) : Option Bool :=
  if index < vector.size then some (decide (index ∈ vector.bits)) else none

def cleared (vector : BitVector) (index : ℕ) : BitVector where
  size := vector.size
  bits := vector.bits.erase index
  lt_size other h := vector.lt_size other (Finset.mem_of_mem_erase h)

def reset (vector : BitVector) (index : ℕ) : Option BitVector :=
  if index < vector.size then some (vector.cleared index) else none

def setAll (vector : BitVector) : BitVector where
  size := vector.size
  bits := Finset.range vector.size
  lt_size _ h := Finset.mem_range.mp h

def resize (vector : BitVector) (size : ℕ) (value : Bool) : BitVector where
  size := size
  bits := (Finset.range size).filter fun index => index ∈ vector.bits ∨ (value = true ∧ vector.size ≤ index)
  lt_size _ h := Finset.mem_range.mp (Finset.mem_filter.mp h).1

def all (vector : BitVector) : Bool := decide (Finset.range vector.size ⊆ vector.bits)

/-- The bits that are not set, as `find_first_unset` and `find_next_unset` give them. -/
def unset (vector : BitVector) : List ℕ := (List.range vector.size).filter fun index => decide (index ∉ vector.bits)

variable {vector : BitVector} {index other : ℕ}

lemma test_eq (h : index < vector.size) : vector.test index = some (decide (index ∈ vector.bits)) := if_pos h

lemma reset_eq (h : index < vector.size) : vector.reset index = some (vector.cleared index) := if_pos h

@[simp] lemma size_cleared : (vector.cleared index).size = vector.size := rfl

lemma mem_cleared : other ∈ (vector.cleared index).bits ↔ other ≠ index ∧ other ∈ vector.bits := Finset.mem_erase

lemma all_iff : vector.all = true ↔ ∀ index < vector.size, index ∈ vector.bits := by
  rw [all, decide_eq_true_eq, Finset.subset_iff]
  exact forall_congr' fun index => by rw [Finset.mem_range]

lemma mem_unset : index ∈ vector.unset ↔ index < vector.size ∧ index ∉ vector.bits := by
  rw [unset, List.mem_filter, List.mem_range, decide_eq_true_eq]

@[simp] lemma size_setAll : vector.setAll.size = vector.size := rfl

lemma mem_setAll : index ∈ vector.setAll.bits ↔ index < vector.size := Finset.mem_range

@[simp] lemma size_resize {size : ℕ} {value : Bool} : (vector.resize size value).size = size := rfl

lemma mem_resize {size : ℕ} {value : Bool} : index ∈ (vector.resize size value).bits ↔
    index < size ∧ (index ∈ vector.bits ∨ (value = true ∧ vector.size ≤ index)) := by
  rw [resize, Finset.mem_filter, Finset.mem_range]

end BitVector

end OpenRace
