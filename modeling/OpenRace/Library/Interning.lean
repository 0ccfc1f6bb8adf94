import Mathlib.Data.List.Infix
import Mathlib.Tactic.Common

/-! Hash sets that own one object for each content and hand out its address. -/

namespace OpenRace.Library.Interning

variable {α β H : Type} [DecidableEq H] (hash : α → H) (equal : α → α → Option Bool)

/-- Addresses are positions in the order of insertion: an element of a node based set never moves. -/
def emplace : List α → α → Option (ℕ × List α)
  | [], new => some (0, [new])
  | old :: rest, new =>
    match if hash old = hash new then equal old new else some false with
    | none => none
    | some true => some (0, old :: rest)
    | some false => (emplace rest new).map fun r => (r.1 + 1, old :: r.2)

/-- What makes interning canonical: equality decides whether the contents agree, hashing sees nothing else. -/
structure Canonical [DecidableEq β] (content : α → β) : Prop where
  equal_eq : ∀ a b, equal a b = some (decide (content a = content b))
  hash_congr : ∀ a b, content a = content b → hash a = hash b

def Distinct (content : α → β) (objects : List α) : Prop :=
  objects.Pairwise fun a b => content a ≠ content b

variable {hash equal} {content : α → β}

lemma Distinct.address_eq_iff {objects : List α} (hd : Distinct content objects) {i j : ℕ} {a b : α}
    (ha : objects[i]? = some a) (hb : objects[j]? = some b) : i = j ↔ content a = content b := by
  obtain ⟨hi, rfl⟩ := List.getElem?_eq_some_iff.mp ha
  obtain ⟨hj, rfl⟩ := List.getElem?_eq_some_iff.mp hb
  constructor
  · rintro rfl
    rfl
  · intro h
    rcases Nat.lt_trichotomy i j with hlt | heq | hlt
    · exact absurd h (List.pairwise_iff_getElem.mp hd i j hi hj hlt)
    · exact heq
    · exact absurd h.symm (List.pairwise_iff_getElem.mp hd j i hj hi hlt)

lemma getElem?_of_prefix {objects objects' : List α} (hpre : objects <+: objects') {i : ℕ} {a : α}
    (ha : objects[i]? = some a) : objects'[i]? = some a := by
  obtain ⟨more, rfl⟩ := hpre
  rw [List.getElem?_append_left (List.getElem?_eq_some_iff.mp ha).choose, ha]

variable [DecidableEq β]

lemma Canonical.same (hc : Canonical hash equal content) (a b : α) :
    (if hash a = hash b then equal a b else some false) = some (decide (content a = content b)) := by
  split
  · exact hc.equal_eq a b
  · next hne => simpa using fun h => hne (hc.hash_congr a b h)

lemma Canonical.emplace_cons (hc : Canonical hash equal content) (old new : α) (rest : List α) :
    emplace hash equal (old :: rest) new =
      if content old = content new then some (0, old :: rest)
      else (emplace hash equal rest new).map fun r => (r.1 + 1, old :: r.2) := by
  rw [emplace, hc.same]
  by_cases h : content old = content new
  · simp [h]
  · simp [h]

lemma Canonical.emplace_eq (hc : Canonical hash equal content) (objects : List α) (new : α) :
    ∃ address objects', emplace hash equal objects new = some (address, objects') ∧
      objects <+: objects' ∧ (Distinct content objects → Distinct content objects') ∧
      (∀ a ∈ objects', a ∈ objects ∨ a = new) ∧
      ∃ a, objects'[address]? = some a ∧ content a = content new := by
  induction objects with
  | nil => exact ⟨0, [new], rfl, List.nil_prefix, fun _ => List.pairwise_singleton _ _, by simp, new, rfl, rfl⟩
  | cons old rest ih =>
    rw [hc.emplace_cons]
    by_cases h : content old = content new
    · exact ⟨0, old :: rest, if_pos h, List.prefix_refl _, id, fun a ha => .inl ha, old, rfl, h⟩
    · obtain ⟨address, objects', heq, hpre, hdis, hmem, a, ha, hca⟩ := ih
      refine ⟨address + 1, old :: objects', by rw [if_neg h, heq]; rfl,
        (List.prefix_cons_inj old).mpr hpre, ?_, ?_, a, by simpa using ha, hca⟩
      · intro hd
        rw [Distinct, List.pairwise_cons] at hd
        refine List.pairwise_cons.mpr ⟨fun b hb => ?_, hdis hd.2⟩
        rcases hmem b hb with hb | rfl
        · exact hd.1 b hb
        · exact h
      · intro b hb
        rcases List.mem_cons.mp hb with rfl | hb
        · exact .inl List.mem_cons_self
        · exact (hmem b hb).imp_left (List.mem_cons_of_mem _)

end OpenRace.Library.Interning
