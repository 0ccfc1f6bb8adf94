import Mathlib.Data.List.Pairwise
import Mathlib.Data.List.Induction

/-! Pairs of markers in a list, which do not nest: one opens, and the next marker closes. -/

namespace OpenRace.Library

variable {α : Type} (opens closes : α → Prop)

def LastOpen (l : List α) (start : α) : Prop :=
  ∃ before between, l = before ++ start :: between ∧ opens start ∧ ∀ a ∈ between, ¬ opens a ∧ ¬ closes a

def MarkerPair (l : List α) (start stop : α) : Prop :=
  ∃ front back, l = front ++ stop :: back ∧ closes stop ∧ LastOpen opens closes front start

section Alternate

variable [DecidablePred opens] [DecidablePred closes]

def marker (a : α) : Option Bool := if opens a then some true else if closes a then some false else none

def AlternateFrom (last : Bool) (l : List α) : Prop := List.IsChain (· ≠ ·) (last :: l.filterMap (marker opens closes))

def Alternate (l : List α) : Prop := AlternateFrom opens closes false l

end Alternate

variable {opens closes} {l front back : List α} {a start start' stop stop' : α}

section Alternate

variable [DecidablePred opens] [DecidablePred closes] {last : Bool}

lemma alternateFrom_nil : AlternateFrom opens closes last [] := List.IsChain.singleton last

lemma alternateFrom_opens (ha : opens a) :
    AlternateFrom opens closes last (a :: l) ↔ last = false ∧ AlternateFrom opens closes true l := by
  have hmarker : marker opens closes a = some true := if_pos ha
  rw [AlternateFrom, List.filterMap_cons_some hmarker, List.isChain_cons_cons, AlternateFrom, ne_eq, Bool.not_eq_true]

lemma alternateFrom_closes (ha : ¬ opens a) (hcloses : closes a) :
    AlternateFrom opens closes last (a :: l) ↔ last = true ∧ AlternateFrom opens closes false l := by
  have hmarker : marker opens closes a = some false := (if_neg ha).trans (if_pos hcloses)
  rw [AlternateFrom, List.filterMap_cons_some hmarker, List.isChain_cons_cons, AlternateFrom, ne_eq, Bool.not_eq_false]

lemma alternateFrom_other (ha : ¬ opens a) (hcloses : ¬ closes a) :
    AlternateFrom opens closes last (a :: l) ↔ AlternateFrom opens closes last l := by
  have hmarker : marker opens closes a = none := (if_neg ha).trans (if_neg hcloses)
  rw [AlternateFrom, List.filterMap_cons_none hmarker, AlternateFrom]

end Alternate

lemma not_lastOpen_nil : ¬ LastOpen opens closes [] start := by
  rintro ⟨before, between, h, -⟩
  simp at h

lemma not_markerPair_nil : ¬ MarkerPair opens closes [] start stop := by
  rintro ⟨front, back, h, -⟩
  simp at h

lemma lastOpen_concat : LastOpen opens closes (l ++ [a]) start ↔
    start = a ∧ opens a ∨ LastOpen opens closes l start ∧ ¬ opens a ∧ ¬ closes a := by
  constructor
  · rintro ⟨before, between, h, hopens, hbetween⟩
    rcases List.eq_nil_or_concat between with rfl | ⟨between, last, rfl⟩
    · obtain ⟨rfl, rfl⟩ := List.append_singleton_inj.mp h
      exact Or.inl ⟨rfl, hopens⟩
    · rw [List.concat_eq_append, ← List.cons_append, ← List.append_assoc] at h
      obtain ⟨rfl, rfl⟩ := List.append_singleton_inj.mp h
      simp only [List.concat_eq_append, List.mem_append, List.mem_singleton] at hbetween
      exact Or.inr ⟨⟨before, between, rfl, hopens, fun b hb => hbetween b (Or.inl hb)⟩, hbetween a (Or.inr rfl)⟩
  · rintro (⟨rfl, hopens⟩ | ⟨⟨before, between, rfl, hopens, hbetween⟩, ha⟩)
    · exact ⟨l, [], rfl, hopens, by simp⟩
    · refine ⟨before, between ++ [a], by simp, hopens, fun b hb => ?_⟩
      rcases List.mem_append.mp hb with hb | hb
      · exact hbetween b hb
      · rw [List.mem_singleton.mp hb]
        exact ha

lemma markerPair_concat : MarkerPair opens closes (l ++ [a]) start stop ↔
    MarkerPair opens closes l start stop ∨ stop = a ∧ closes a ∧ LastOpen opens closes l start := by
  constructor
  · rintro ⟨front, back, h, hcloses, hopen⟩
    rcases List.eq_nil_or_concat back with rfl | ⟨back, last, rfl⟩
    · obtain ⟨rfl, rfl⟩ := List.append_singleton_inj.mp h
      exact Or.inr ⟨rfl, hcloses, hopen⟩
    · rw [List.concat_eq_append, ← List.cons_append, ← List.append_assoc] at h
      obtain ⟨rfl, rfl⟩ := List.append_singleton_inj.mp h
      exact Or.inl ⟨front, back, rfl, hcloses, hopen⟩
  · rintro (⟨front, back, rfl, hcloses, hopen⟩ | ⟨rfl, hcloses, hopen⟩)
    · exact ⟨front, back ++ [a], by simp, hcloses, hopen⟩
    · exact ⟨l, [], rfl, hcloses, hopen⟩

lemma MarkerPair.mem_start (h : MarkerPair opens closes l start stop) : start ∈ l := by
  obtain ⟨front, back, rfl, -, before, between, rfl, -⟩ := h
  simp

lemma LastOpen.mem_back (h : LastOpen opens closes (front ++ a :: back) start) (ha : closes a) (hno : ¬ opens a) :
    start ∈ back := by
  obtain ⟨before, between, heq, hopens, hbetween⟩ := h
  rcases List.append_eq_append_iff.mp heq with ⟨rest, rfl, hrest⟩ | ⟨rest, rfl, hrest⟩
  · cases rest with
    | nil =>
      obtain ⟨rfl, -⟩ := List.cons.inj hrest
      exact absurd hopens hno
    | cons first rest =>
      obtain ⟨-, rfl⟩ := List.cons.inj hrest
      simp
  · cases rest with
    | nil =>
      obtain ⟨rfl, -⟩ := List.cons.inj hrest
      exact absurd hopens hno
    | cons first rest =>
      obtain ⟨-, rfl⟩ := List.cons.inj hrest
      exact absurd ha (hbetween a (by simp)).2

lemma LastOpen.unique (h : LastOpen opens closes l start) (h' : LastOpen opens closes l start') : start = start' := by
  induction l using List.reverseRecOn with
  | nil => exact absurd h not_lastOpen_nil
  | append_singleton l a ih =>
    rcases lastOpen_concat.mp h with ⟨rfl, hopens⟩ | ⟨h, hno, -⟩
    · rcases lastOpen_concat.mp h' with ⟨rfl, -⟩ | ⟨-, hno, -⟩
      · rfl
      · exact absurd hopens hno
    · rcases lastOpen_concat.mp h' with ⟨rfl, hopens⟩ | ⟨h', -, -⟩
      · exact absurd hopens hno
      · exact ih h h'

lemma MarkerPair.unique {id : α → ℕ} {i : ℕ} (hdisjoint : ∀ a, closes a → ¬ opens a)
    (hl : l.Pairwise fun a b => id a < id b) (h : MarkerPair opens closes l start stop)
    (h' : MarkerPair opens closes l start' stop') (hi : id start ≤ i ∧ i ≤ id stop)
    (hi' : id start' ≤ i ∧ i ≤ id stop') : start = start' ∧ stop = stop' := by
  obtain ⟨front, back, rfl, hcloses, hopen⟩ := h
  obtain ⟨front', back', heq, hcloses', hopen'⟩ := h'
  rcases List.append_eq_append_iff.mp heq with ⟨rest, rfl, hrest⟩ | ⟨rest, rfl, hrest⟩
  · cases rest with
    | nil =>
      obtain ⟨rfl, -⟩ := List.cons.inj hrest
      rw [List.append_nil] at hopen'
      exact ⟨hopen.unique hopen', rfl⟩
    | cons first rest =>
      obtain ⟨rfl, rfl⟩ := List.cons.inj hrest
      have hm := hopen'.mem_back hcloses (hdisjoint stop hcloses)
      have hlt := List.rel_of_pairwise_cons (List.pairwise_append.mp hl).2.1 (List.mem_append_left _ hm)
      omega
  · cases rest with
    | nil =>
      obtain ⟨rfl, -⟩ := List.cons.inj hrest
      rw [List.append_nil] at hopen
      exact ⟨hopen.unique hopen', rfl⟩
    | cons first rest =>
      obtain ⟨rfl, rfl⟩ := List.cons.inj hrest
      have hm := hopen.mem_back hcloses' (hdisjoint stop' hcloses')
      rw [heq] at hl
      have hlt := List.rel_of_pairwise_cons (List.pairwise_append.mp hl).2.1 (List.mem_append_left _ hm)
      omega

end OpenRace.Library
