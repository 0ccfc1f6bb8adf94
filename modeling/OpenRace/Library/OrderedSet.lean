import Mathlib.Order.RelClasses
import Mathlib.Tactic.Common

/-! Sets kept in the order of a strict order, in which incomparable elements count as one. -/

namespace OpenRace.Library

/-- Of two incomparable elements, the first that was inserted is kept. -/
structure OrderedSet (α : Type) (lt : α → α → Prop) where
  elems : List α
  sorted : elems.Pairwise lt

namespace OrderedSet

variable {α : Type} {lt : α → α → Prop}

def empty : OrderedSet α lt := ⟨[], .nil⟩

instance : Membership α (OrderedSet α lt) := ⟨fun set a => a ∈ set.elems⟩

lemma not_mem_empty (a : α) : a ∉ (empty : OrderedSet α lt) := List.not_mem_nil

variable [DecidableRel lt]

def insertIn (lt : α → α → Prop) [DecidableRel lt] (a : α) : List α → List α
  | [] => [a]
  | b :: rest => if lt b a then b :: insertIn lt a rest else if lt a b then a :: b :: rest else b :: rest

lemma mem_insertIn_of_mem {a b : α} {elems : List α} (h : b ∈ elems) : b ∈ insertIn lt a elems := by
  induction elems with
  | nil => exact absurd h List.not_mem_nil
  | cons head rest ih =>
    rw [insertIn]
    split
    · cases List.mem_cons.mp h with
      | inl heq => exact heq ▸ List.mem_cons_self
      | inr hm => exact List.mem_cons_of_mem _ (ih hm)
    · split
      · exact List.mem_cons_of_mem _ h
      · exact h

lemma of_mem_insertIn {a b : α} {elems : List α} (h : b ∈ insertIn lt a elems) : b = a ∨ b ∈ elems := by
  induction elems with
  | nil => exact Or.inl (List.mem_singleton.mp h)
  | cons head rest ih =>
    rw [insertIn] at h
    split at h
    · cases List.mem_cons.mp h with
      | inl heq => exact Or.inr (heq ▸ List.mem_cons_self)
      | inr hm => exact (ih hm).imp_right (List.mem_cons_of_mem _)
    · split at h
      · exact List.mem_cons.mp h
      · exact Or.inr h

lemma exists_mem_insertIn [Std.Irrefl lt] (a : α) (elems : List α) :
    ∃ b ∈ insertIn lt a elems, ¬ lt b a ∧ ¬ lt a b := by
  have hself : ¬ lt a a := Std.Irrefl.irrefl a
  induction elems with
  | nil => exact ⟨a, List.mem_cons_self, hself, hself⟩
  | cons head rest ih =>
    rw [insertIn]
    split
    · obtain ⟨b, hm, hb⟩ := ih
      exact ⟨b, List.mem_cons_of_mem _ hm, hb⟩
    · rename_i hle
      split
      · exact ⟨a, List.mem_cons_self, hself, hself⟩
      · rename_i hge
        exact ⟨head, List.mem_cons_self, hle, hge⟩

variable [IsTrans α lt]

lemma insertIn_sorted (a : α) {elems : List α} (h : elems.Pairwise lt) : (insertIn lt a elems).Pairwise lt := by
  induction elems with
  | nil => exact List.pairwise_singleton _ _
  | cons head rest ih =>
    obtain ⟨hhead, hrest⟩ := List.pairwise_cons.mp h
    rw [insertIn]
    split
    · rename_i hlt
      refine List.pairwise_cons.mpr ⟨?_, ih hrest⟩
      intro b hm
      cases of_mem_insertIn hm with
      | inl heq => exact heq ▸ hlt
      | inr hm => exact hhead b hm
    · split
      · rename_i hlt
        refine List.pairwise_cons.mpr ⟨?_, h⟩
        intro b hm
        cases List.mem_cons.mp hm with
        | inl heq => exact heq ▸ hlt
        | inr hm => exact IsTrans.trans _ _ _ hlt (hhead b hm)
      · exact h

def insert (set : OrderedSet α lt) (a : α) : OrderedSet α lt := ⟨insertIn lt a set.elems, insertIn_sorted a set.sorted⟩

lemma mem_insert_of_mem {set : OrderedSet α lt} {a b : α} (h : b ∈ set) : b ∈ set.insert a :=
  mem_insertIn_of_mem h

lemma of_mem_insert {set : OrderedSet α lt} {a b : α} (h : b ∈ set.insert a) : b = a ∨ b ∈ set :=
  of_mem_insertIn h

lemma exists_mem_insert [Std.Irrefl lt] (set : OrderedSet α lt) (a : α) :
    ∃ b ∈ set.insert a, ¬ lt b a ∧ ¬ lt a b := exists_mem_insertIn a set.elems

end OrderedSet

end OpenRace.Library
