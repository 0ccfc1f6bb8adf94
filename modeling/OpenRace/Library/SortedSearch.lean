import Mathlib.Data.List.TakeWhile
import Mathlib.Logic.Relation
import Mathlib.Order.Basic
import Mathlib.Tactic

/-! Binary-search queries on a strictly ascending list. -/

namespace OpenRace.Library.SortedSearch

variable {α : Type*} [LinearOrder α]

abbrev Ascending (l : List α) : Prop := l.Pairwise (· < ·)

def lowerBound (l : List α) (a : α) : Option α := (l.dropWhile (· < a)).head?

def upperBound (l : List α) (a : α) : Option α := (l.dropWhile (· ≤ a)).head?

def lastAtMost (l : List α) (a : α) : Option α := l.reverse.find? (· ≤ a)

def insertAt (l : List α) (a : α) : List α :=
  if lowerBound l a = some a then l else l.takeWhile (· < a) ++ a :: l.dropWhile (· < a)

lemma find_least {l : List α} (hl : Ascending l) {p : α → Bool} {b : α} (h : l.find? p = some b) :
    b ∈ l ∧ p b ∧ ∀ c ∈ l, p c → b ≤ c := by
  obtain ⟨hp, front, back, rfl, hf⟩ := List.find?_eq_some_iff_append.mp h
  refine ⟨by simp, hp, fun c hc hpc => ?_⟩
  rcases List.mem_append.mp hc with hc | hc
  · exact absurd hpc (by simpa using hf c hc)
  · rcases List.mem_cons.mp hc with rfl | hc
    · exact le_rfl
    · exact le_of_lt ((List.pairwise_cons.mp (List.pairwise_append.mp hl).2.1).1 c hc)

lemma lowerBound_some {l : List α} (hl : Ascending l) {a b : α} (h : lowerBound l a = some b) :
    b ∈ l ∧ a ≤ b ∧ ∀ c ∈ l, a ≤ c → b ≤ c := by
  rw [lowerBound, ← List.find?_not_eq_head?_dropWhile] at h
  simpa using find_least hl h

lemma lowerBound_none {l : List α} {a : α} (h : lowerBound l a = none) : ∀ c ∈ l, c < a := by
  rw [lowerBound, ← List.find?_not_eq_head?_dropWhile] at h
  simpa using h

lemma upperBound_some {l : List α} (hl : Ascending l) {a b : α} (h : upperBound l a = some b) :
    b ∈ l ∧ a < b ∧ ∀ c ∈ l, a < c → b ≤ c := by
  rw [upperBound, ← List.find?_not_eq_head?_dropWhile] at h
  simpa using find_least hl h

lemma upperBound_none {l : List α} {a : α} (h : upperBound l a = none) : ∀ c ∈ l, c ≤ a := by
  rw [upperBound, ← List.find?_not_eq_head?_dropWhile] at h
  simpa using h

lemma lastAtMost_some {l : List α} (hl : Ascending l) {a b : α} (h : lastAtMost l a = some b) :
    b ∈ l ∧ b ≤ a ∧ ∀ c ∈ l, c ≤ a → c ≤ b := by
  obtain ⟨hp, front, back, hr, hf⟩ := List.find?_eq_some_iff_append.mp h
  have hdesc : (front ++ b :: back).Pairwise (· > ·) := hr ▸ List.pairwise_reverse.mpr hl
  have hmem : ∀ c, c ∈ l ↔ c ∈ front ++ b :: back := fun c => by rw [← hr, List.mem_reverse]
  refine ⟨(hmem b).mpr (by simp), by simpa using hp, fun c hc hca => ?_⟩
  rcases List.mem_append.mp ((hmem c).mp hc) with hc | hc
  · simp at hf
    exact absurd hca (not_le.mpr (hf c hc))
  · rcases List.mem_cons.mp hc with rfl | hc
    · exact le_rfl
    · exact le_of_lt ((List.pairwise_cons.mp (List.pairwise_append.mp hdesc).2.1).1 c hc)

lemma lastAtMost_none {l : List α} {a : α} (h : lastAtMost l a = none) : ∀ c ∈ l, a < c := by
  simpa [lastAtMost] using h

lemma mem_insertAt {l : List α} {a b : α} (hl : Ascending l) : b ∈ insertAt l a ↔ b = a ∨ b ∈ l := by
  rw [insertAt]
  split
  · rename_i h
    have ha := (lowerBound_some hl h).1
    exact ⟨Or.inr, fun hb => hb.elim (fun hb => hb ▸ ha) id⟩
  · conv_rhs => rw [← List.takeWhile_append_dropWhile (p := (· < a)) (l := l)]
    simp only [List.mem_append, List.mem_cons]
    tauto

lemma insertAt_ascending {l : List α} (hl : Ascending l) (a : α) : Ascending (insertAt l a) := by
  rw [insertAt]
  split
  · exact hl
  · rename_i hne
    have hsplit := hl
    rw [← List.takeWhile_append_dropWhile (p := (· < a)) (l := l), Ascending,
      List.pairwise_append] at hsplit
    have hbelow : ∀ b ∈ l.takeWhile (· < a), b < a := fun b hb => by
      simpa using List.mem_takeWhile_imp hb
    have habove : ∀ b ∈ l.dropWhile (· < a), a < b := by
      cases hd : l.dropWhile (· < a) with
      | nil => simp
      | cons c rest =>
        have hlow : lowerBound l a = some c := by simp [lowerBound, hd]
        have hc : a < c := lt_of_le_of_ne (lowerBound_some hl hlow).2.1 (by rintro rfl; exact hne hlow)
        intro b hb
        rcases List.mem_cons.mp hb with rfl | hb
        · exact hc
        · exact hc.trans ((List.pairwise_cons.mp (hd ▸ hsplit.2.1)).1 b hb)
    refine List.pairwise_append.mpr ⟨hsplit.1, List.pairwise_cons.mpr ⟨habove, hsplit.2.1⟩, ?_⟩
    intro b hb c hc
    rcases List.mem_cons.mp hc with rfl | hc
    · exact hbelow b hb
    · exact (hbelow b hb).trans (habove c hc)

theorem upperBound_reaches {l : List α} (hl : Ascending l) {b : α} (hb : b ∈ l) (a : α) (h : a ≤ b) :
    Relation.ReflTransGen (fun x y => upperBound l x = some y) a b := by
  induction hn : (l.filter (a < ·)).length using Nat.strong_induction_on generalizing a with
  | _ n ih =>
    rcases h.eq_or_lt with rfl | hab
    · exact .refl
    · cases hu : upperBound l a with
      | none => exact absurd (upperBound_none hu b hb) (not_le.mpr hab)
      | some c =>
        obtain ⟨hc, hac, hleast⟩ := upperBound_some hl hu
        have hshrink : (l.filter (c < ·)).length < (l.filter (a < ·)).length := by
          have hsub : (l.filter (c < ·)).Sublist (l.filter (a < ·)) :=
            List.monotone_filter_right l (fun x hx => by simp at hx ⊢; exact hac.trans hx)
          refine lt_of_le_of_ne hsub.length_le (fun he => ?_)
          have heq := hsub.eq_of_length he
          have hmem : c ∈ l.filter (a < ·) := by simp [hc, hac]
          simp [← heq] at hmem
        exact .head hu (ih _ (hn ▸ hshrink) c (hleast b hb hab) rfl)

end OpenRace.Library.SortedSearch
