import Mathlib.Data.List.Sort

/-! Multisets kept in order, and the search of two of them for a common element. -/

namespace OpenRace.Library

structure OrderedMultiset (α : Type) [LinearOrder α] where
  elems : List α
  sorted : elems.Pairwise (· ≤ ·)

namespace OrderedMultiset

variable {α : Type} [LinearOrder α]

def empty : OrderedMultiset α := ⟨[], .nil⟩

def insert (set : OrderedMultiset α) (a : α) : OrderedMultiset α :=
  ⟨set.elems.orderedInsert (· ≤ ·) a, set.sorted.orderedInsert a _⟩

/-- Of several equal elements one is taken out, and nothing if there is none. -/
def eraseOne (set : OrderedMultiset α) (a : α) : OrderedMultiset α :=
  ⟨set.elems.erase a, set.sorted.sublist List.erase_sublist⟩

def count (set : OrderedMultiset α) (a : α) : ℕ := set.elems.count a

/-- Both lists are in order; the smaller of the two first elements is passed over. -/
def meetIn : List α → List α → Bool
  | [], _ => false
  | _, [] => false
  | a :: left, b :: right =>
    if a < b then meetIn left (b :: right)
    else if b < a then meetIn (a :: left) right
    else true
termination_by left right => left.length + right.length

def meet (left right : OrderedMultiset α) : Bool := meetIn left.elems right.elems

section Count

variable (set : OrderedMultiset α) {a b : α}

@[simp] lemma count_empty (a : α) : (empty : OrderedMultiset α).count a = 0 := rfl

@[simp] lemma count_insert_self (a : α) : (set.insert a).count a = set.count a + 1 := by
  rw [count, insert, (List.perm_orderedInsert _ a set.elems).count_eq, List.count_cons_self]
  rfl

lemma count_insert_ne (h : b ≠ a) : (set.insert a).count b = set.count b := by
  rw [count, insert, (List.perm_orderedInsert _ a set.elems).count_eq, List.count_cons_of_ne h.symm]
  rfl

@[simp] lemma count_eraseOne_self (a : α) : (set.eraseOne a).count a = set.count a - 1 :=
  List.count_erase_self

lemma count_eraseOne_ne (h : b ≠ a) : (set.eraseOne a).count b = set.count b :=
  List.count_erase_of_ne h

lemma count_pos : 0 < set.count a ↔ a ∈ set.elems := List.count_pos_iff

end Count

lemma not_mem_of_lt {a b : α} {rest : List α} (hlt : a < b) (h : (b :: rest).Pairwise (· ≤ ·)) :
    a ∉ b :: rest := by
  intro hm
  rcases List.mem_cons.mp hm with heq | hm
  · exact hlt.ne heq
  · exact (hlt.trans_le (List.rel_of_pairwise_cons h hm)).ne rfl

lemma meetIn_iff {left right : List α} (hleft : left.Pairwise (· ≤ ·)) (hright : right.Pairwise (· ≤ ·)) :
    meetIn left right = true ↔ ∃ a, a ∈ left ∧ a ∈ right := by
  induction left, right using meetIn.induct with
  | case1 right => simp [meetIn]
  | case2 left hne => cases left <;> simp [meetIn]
  | case3 a left b right hlt ih =>
    rw [meetIn, if_pos hlt, ih hleft.of_cons hright]
    constructor
    · rintro ⟨c, hc, hc'⟩
      exact ⟨c, List.mem_cons_of_mem _ hc, hc'⟩
    · rintro ⟨c, hc, hc'⟩
      rcases List.mem_cons.mp hc with rfl | hc
      · exact absurd hc' (not_mem_of_lt hlt hright)
      · exact ⟨c, hc, hc'⟩
  | case4 a left b right hle hlt ih =>
    rw [meetIn, if_neg hle, if_pos hlt, ih hleft hright.of_cons]
    constructor
    · rintro ⟨c, hc, hc'⟩
      exact ⟨c, hc, List.mem_cons_of_mem _ hc'⟩
    · rintro ⟨c, hc, hc'⟩
      rcases List.mem_cons.mp hc' with rfl | hc'
      · exact absurd hc (not_mem_of_lt hlt hleft)
      · exact ⟨c, hc, hc'⟩
  | case5 a left b right hle hge =>
    rw [meetIn, if_neg hle, if_neg hge]
    obtain rfl : a = b := le_antisymm (not_lt.mp hge) (not_lt.mp hle)
    exact iff_of_true rfl ⟨a, List.mem_cons_self, List.mem_cons_self⟩

lemma meet_iff (left right : OrderedMultiset α) :
    left.meet right = true ↔ ∃ a, 0 < left.count a ∧ 0 < right.count a := by
  simp only [count_pos]
  exact meetIn_iff left.sorted right.sorted

end OrderedMultiset

end OpenRace.Library
