import Mathlib.Data.PNat.Basic
import Mathlib.Data.List.DropRight
import Mathlib.Data.List.Rotate
import Mathlib.Data.List.ReduceOption
import Mathlib.Tactic.Common

/-! Ring buffers of pointers and the iteration from their oldest slot. -/

namespace OpenRace

/-- `last` is the slot written next, thus the oldest one. -/
structure PtrRingBuffer (α : Type) (N : ℕ+) where
  buffer : Vector (Option α) N
  last : Fin N

structure RingBufferIterator (α : Type) (N : ℕ+) where
  buffer : PtrRingBuffer α N
  index : ℕ

namespace RingBufferIterator

variable {α : Type} {N : ℕ+}

def next (it : RingBufferIterator α N) : RingBufferIterator α N :=
  if (it.index + 1) % N = it.buffer.last then { it with index := N }
  else { it with index := (it.index + 1) % N }

/-- The end iterator has no slot to read. -/
def deref (it : RingBufferIterator α N) : Option (Option α) := it.buffer.buffer[it.index]?

def slots : ℕ → RingBufferIterator α N → Option (List (Option α))
  | fuel, it =>
    if it.index = N then some []
    else match fuel with
      | 0 => none
      | fuel + 1 => do
        let slot ← it.deref
        let rest ← slots fuel it.next
        return slot :: rest

/-- The loop of `operator==`, which ends with the assertion that the second iterator has ended too. -/
def equal [DecidableEq α] : ℕ → RingBufferIterator α N → RingBufferIterator α N → Option Bool
  | fuel, it1, it2 =>
    if it1.index = N then if it2.index = N then some true else none
    else match fuel with
      | 0 => none
      | fuel + 1 => do
        let slot1 ← it1.deref
        let slot2 ← it2.deref
        if slot1 ≠ slot2 then
          return false
        equal fuel it1.next it2.next

end RingBufferIterator

namespace PtrRingBuffer

variable {α : Type} {N : ℕ+}

def empty : PtrRingBuffer α N where
  buffer := Vector.replicate N none
  last := ⟨0, N.pos⟩

def push (ring : PtrRingBuffer α N) (value : α) : Option α × PtrRingBuffer α N :=
  (ring.buffer[ring.last], {
    buffer := ring.buffer.set ring.last (some value)
    last := ⟨(ring.last + 1) % N, Nat.mod_lt _ N.pos⟩ })

def begin (ring : PtrRingBuffer α N) : RingBufferIterator α N := ⟨ring, ring.last⟩

def slots (ring : PtrRingBuffer α N) : Option (List (Option α)) := RingBufferIterator.slots N ring.begin

def equal [DecidableEq α] (ring other : PtrRingBuffer α N) : Option Bool :=
  RingBufferIterator.equal N ring.begin other.begin

def elements (ring : PtrRingBuffer α N) : List (Option α) := ring.buffer.toList.rotate ring.last

@[simp] lemma length_elements (ring : PtrRingBuffer α N) : ring.elements.length = N := by
  simp [elements]

lemma elements_getElem (ring : PtrRingBuffer α N) {k : ℕ} (hk : k < N) :
    ring.buffer[(ring.last + k) % N]? = some (ring.elements.get ⟨k, by simpa using hk⟩) := by
  have hlt : (ring.last + k) % N < N := Nat.mod_lt _ N.pos
  simp [elements, List.getElem_rotate, Nat.add_comm]

/-- The iterator `k` steps after the beginning, `k` up to the number of slots. -/
def iteratorAt (ring : PtrRingBuffer α N) (k : ℕ) : RingBufferIterator α N :=
  ⟨ring, if k < N then (ring.last + k) % N else N⟩

lemma iteratorAt_zero (ring : PtrRingBuffer α N) : ring.iteratorAt 0 = ring.begin := by
  simp [iteratorAt, begin, Nat.mod_eq_of_lt ring.last.isLt]

lemma iteratorAt_index (ring : PtrRingBuffer α N) (k : ℕ) : (ring.iteratorAt k).index = N ↔ N ≤ k := by
  have hlt : (ring.last + k) % N < N := Nat.mod_lt _ N.pos
  unfold iteratorAt
  dsimp only
  split <;> omega

lemma iteratorAt_deref (ring : PtrRingBuffer α N) {k : ℕ} (hk : k < N) :
    (ring.iteratorAt k).deref = some (ring.elements.get ⟨k, by simpa using hk⟩) := by
  simp only [iteratorAt, RingBufferIterator.deref, if_pos hk]
  exact ring.elements_getElem hk

lemma iteratorAt_next (ring : PtrRingBuffer α N) {k : ℕ} (hk : k < N) :
    (ring.iteratorAt k).next = ring.iteratorAt (k + 1) := by
  have hlast := ring.last.isLt
  have hstep : ((ring.last + k) % N + 1) % N = (ring.last + (k + 1)) % N := by
    rw [Nat.mod_add_mod, Nat.add_assoc]
  have hback : (ring.last + (k + 1)) % N = ring.last ↔ k + 1 = N := by
    constructor
    · intro h
      by_contra hne
      rcases Nat.lt_or_ge (ring.last + (k + 1)) N with hlt | hge
      · rw [Nat.mod_eq_of_lt hlt] at h
        omega
      · rw [Nat.mod_eq_sub_mod hge, Nat.mod_eq_of_lt (by omega)] at h
        omega
    · intro h
      rw [h, Nat.add_mod_right, Nat.mod_eq_of_lt hlast]
  simp only [iteratorAt, RingBufferIterator.next, if_pos hk, hstep, hback]
  by_cases h : k + 1 = N
  · rw [if_pos h, if_neg (by omega)]
  · rw [if_neg h, if_pos (by omega)]

lemma drop_elements (ring : PtrRingBuffer α N) {k : ℕ} (hk : k < N) :
    ring.elements.drop k = ring.elements.get ⟨k, by simpa using hk⟩ :: ring.elements.drop (k + 1) :=
  List.drop_eq_getElem_cons _

lemma slots_iteratorAt (ring : PtrRingBuffer α N) (fuel k : ℕ) (hf : N ≤ k + fuel) :
    RingBufferIterator.slots fuel (ring.iteratorAt k) = some (ring.elements.drop k) := by
  induction fuel generalizing k with
  | zero =>
    rw [RingBufferIterator.slots, if_pos ((ring.iteratorAt_index k).mpr hf),
      List.drop_eq_nil_of_le (by simpa using hf)]
  | succ fuel ih =>
    rcases Nat.lt_or_ge k N with hk | hk
    · have hne : ¬ (ring.iteratorAt k).index = N := by rw [ring.iteratorAt_index]; omega
      rw [RingBufferIterator.slots, if_neg hne]
      simp only [ring.iteratorAt_deref hk, ring.iteratorAt_next hk, ih (k + 1) (by omega)]
      rw [ring.drop_elements hk]
      rfl
    · rw [RingBufferIterator.slots, if_pos ((ring.iteratorAt_index k).mpr hk),
        List.drop_eq_nil_of_le (by simpa using hk)]

lemma slots_eq (ring : PtrRingBuffer α N) : ring.slots = some ring.elements := by
  rw [slots, ← iteratorAt_zero, ring.slots_iteratorAt N 0 (by omega), List.drop_zero]

lemma equal_iteratorAt [DecidableEq α] (ring other : PtrRingBuffer α N) (fuel k : ℕ) (hf : N ≤ k + fuel) :
    RingBufferIterator.equal fuel (ring.iteratorAt k) (other.iteratorAt k) =
      some (decide (ring.elements.drop k = other.elements.drop k)) := by
  have hend (k : ℕ) (hk : (N : ℕ) ≤ k) : ring.elements.drop k = [] ∧ other.elements.drop k = [] :=
    ⟨List.drop_eq_nil_of_le (by simpa using hk), List.drop_eq_nil_of_le (by simpa using hk)⟩
  induction fuel generalizing k with
  | zero =>
    rw [RingBufferIterator.equal, if_pos ((ring.iteratorAt_index k).mpr hf),
      if_pos ((other.iteratorAt_index k).mpr hf), (hend k hf).1, (hend k hf).2]
    rfl
  | succ fuel ih =>
    rcases Nat.lt_or_ge k N with hk | hk
    · have hne : ¬ (ring.iteratorAt k).index = N := by rw [ring.iteratorAt_index]; omega
      have hih := ih (k + 1) (by omega)
      rw [RingBufferIterator.equal, if_neg hne]
      simp only [ring.iteratorAt_deref hk, other.iteratorAt_deref hk, ring.iteratorAt_next hk,
        other.iteratorAt_next hk, hih]
      rw [ring.drop_elements hk, other.drop_elements hk]
      by_cases h : ring.elements.get ⟨k, by simpa using hk⟩ = other.elements.get ⟨k, by simpa using hk⟩
      · simp only [h, List.cons.injEq, true_and]
        exact if_neg (not_not.mpr rfl)
      · simp only [h, List.cons.injEq, false_and, decide_false]
        exact if_pos h
    · rw [RingBufferIterator.equal, if_pos ((ring.iteratorAt_index k).mpr hk),
        if_pos ((other.iteratorAt_index k).mpr hk), (hend k hk).1, (hend k hk).2]
      rfl

lemma equal_eq [DecidableEq α] (ring other : PtrRingBuffer α N) :
    ring.equal other = some (decide (ring.elements = other.elements)) := by
  have h := ring.equal_iteratorAt other N 0 (by omega)
  rwa [iteratorAt_zero, iteratorAt_zero, List.drop_zero, List.drop_zero] at h

lemma elements_empty : (empty : PtrRingBuffer α N).elements = List.replicate N none := by
  simp [elements, empty]

lemma elements_push (ring : PtrRingBuffer α N) (value : α) :
    (ring.push value).2.elements = ring.elements.tail ++ [some value] := by
  have hlast : ring.last < ring.buffer.toList.length := by simp
  have hnew : (ring.push value).2.elements =
      (ring.buffer.toList.set ring.last (some value)).rotate (ring.last + 1) := by
    rw [← List.rotate_mod _ (ring.last + 1)]
    simp [elements, push, Vector.toList_set]
  have hset : ring.buffer.toList.set ring.last (some value) =
      (ring.buffer.toList.take ring.last ++ [some value]) ++ ring.buffer.toList.drop (ring.last + 1) := by
    rw [List.set_eq_take_append_cons_drop, if_pos hlast, List.append_assoc]
    rfl
  have hlen : (ring.buffer.toList.take ring.last ++ [some value]).length = ring.last + 1 := by
    simp [Nat.le_of_lt ring.last.isLt]
  have hold : ring.elements.tail =
      ring.buffer.toList.drop (ring.last + 1) ++ ring.buffer.toList.take ring.last := by
    rw [elements, List.rotate_eq_drop_append_take hlast.le, List.drop_eq_getElem_cons hlast]
    rfl
  calc (ring.push value).2.elements
      = ((ring.buffer.toList.take ring.last ++ [some value]) ++ ring.buffer.toList.drop (ring.last + 1)).rotate
          (ring.buffer.toList.take ring.last ++ [some value]).length := by rw [hnew, hset, hlen]
    _ = ring.elements.tail ++ [some value] := by rw [List.rotate_append_length_eq, hold, List.append_assoc]

def Holds (ring : PtrRingBuffer α N) (pushed : List α) : Prop :=
  ring.elements = (List.replicate N none ++ pushed.map some).rtake N

lemma holds_empty : (empty : PtrRingBuffer α N).Holds [] := by
  simp [Holds, elements_empty, List.rtake]

lemma rtake_append_singleton {β : Type} (l : List β) (x : β) (n : ℕ) (hn : 0 < n) (hl : n ≤ l.length) :
    (l ++ [x]).rtake n = (l.rtake n).tail ++ [x] := by
  obtain ⟨m, rfl⟩ : ∃ m, n = m + 1 := ⟨n - 1, by omega⟩
  rw [List.rtake_concat_succ]
  congr 1
  rw [List.rtake, List.rtake, List.tail_drop]
  congr 1
  omega

lemma Holds.push {ring : PtrRingBuffer α N} {pushed : List α} (h : ring.Holds pushed) (value : α) :
    (ring.push value).2.Holds (pushed ++ [value]) := by
  rw [Holds] at h ⊢
  rw [elements_push, h, List.map_append, ← List.append_assoc]
  exact (rtake_append_singleton _ _ N N.pos (by simp)).symm

lemma Holds.elements_eq {ring : PtrRingBuffer α N} {pushed : List α} (h : ring.Holds pushed) :
    ring.elements = List.replicate (N - (pushed.rtake N).length) none ++ (pushed.rtake N).map some := by
  rw [h, List.rtake, List.rtake, List.drop_append, List.drop_replicate, List.map_drop]
  simp only [List.length_append, List.length_replicate, List.length_map, List.length_drop,
    Nat.add_sub_cancel_left]
  congr 2
  omega

lemma Holds.reduceOption_elements {ring : PtrRingBuffer α N} {pushed : List α} (h : ring.Holds pushed) :
    ring.elements.reduceOption = pushed.rtake N := by
  rw [h.elements_eq, List.reduceOption_append, List.reduceOption_replicate_none, List.nil_append]
  simp [List.reduceOption]

lemma Holds.elements_eq_iff {ring other : PtrRingBuffer α N} {pushed pushed' : List α}
    (h : ring.Holds pushed) (h' : other.Holds pushed') :
    ring.elements = other.elements ↔ pushed.rtake N = pushed'.rtake N := by
  constructor
  · intro heq
    rw [← h.reduceOption_elements, heq, h'.reduceOption_elements]
  · intro heq
    rw [h.elements_eq, h'.elements_eq, heq]

end PtrRingBuffer

end OpenRace
