import Mathlib.Data.List.Pairwise
import Mathlib.Order.Basic
import Mathlib.Order.Nat
import Mathlib.Tactic.Set

/-! Binary search in a list that a predicate splits in two. -/

namespace OpenRace.Library

variable {α : Type}

/-- The halving loop: `count` positions from `first` on are left. -/
def searchFrom (before : ℕ → Bool) (first count : ℕ) : ℕ :=
  if count = 0 then first
  else if before (first + count / 2) then searchFrom before (first + count / 2 + 1) (count - count / 2 - 1)
  else searchFrom before first (count / 2)
termination_by count

def lowerBoundBy (before : α → Bool) (l : List α) : Option α := l[searchFrom (fun i => l[i]?.any before) 0 l.length]?

lemma searchFrom_spec {before : ℕ → Bool} {first count : ℕ}
    (hmono : ∀ i j, i ≤ j → j < first + count → before j = true → before i = true)
    (hfirst : ∀ i < first, before i = true) :
    searchFrom before first count ≤ first + count ∧ (∀ i < searchFrom before first count, before i = true) ∧
      (searchFrom before first count < first + count → before (searchFrom before first count) = false) := by
  induction count using Nat.strong_induction_on generalizing first with
  | _ count ih =>
    rw [searchFrom]
    split
    · rename_i hzero
      subst hzero
      exact ⟨le_rfl, hfirst, fun h => absurd h (lt_irrefl first)⟩
    · rename_i hzero
      split
      · rename_i hmid
        have hend : first + count / 2 + 1 + (count - count / 2 - 1) = first + count := by omega
        obtain ⟨hle, hbelow, hat⟩ := @ih (count - count / 2 - 1) (by omega) (first + count / 2 + 1)
          (fun i j hij hj => hmono i j hij (by omega))
          (fun i hi => hmono i (first + count / 2) (by omega) (by omega) hmid)
        rw [hend] at hle hat
        exact ⟨hle, hbelow, hat⟩
      · rename_i hmid
        obtain ⟨hle, hbelow, hat⟩ := @ih (count / 2) (by omega) first
          (fun i j hij hj => hmono i j hij (by omega)) hfirst
        refine ⟨by omega, hbelow, fun _ => ?_⟩
        rcases hle.lt_or_eq with hlt | heq
        · exact hat hlt
        · rw [heq]
          simpa using hmid

theorem lowerBoundBy_eq_find? {before : α → Bool} {l : List α}
    (hmono : l.Pairwise fun a b => before b = true → before a = true) :
    lowerBoundBy before l = l.find? (fun a => !before a) := by
  obtain ⟨hle, hbelow, hat⟩ := @searchFrom_spec (fun i => l[i]?.any before) 0 l.length (by
    intro i j hij hj hbefore
    rw [Nat.zero_add] at hj
    rw [List.getElem?_eq_getElem hj] at hbefore
    rw [List.getElem?_eq_getElem (hij.trans_lt hj)]
    rcases hij.eq_or_lt with rfl | hlt
    · exact hbefore
    · exact List.pairwise_iff_getElem.mp hmono i j (hij.trans_lt hj) hj hlt hbefore) (by simp)
  rw [Nat.zero_add] at hle hat
  rw [lowerBoundBy]
  set found := searchFrom (fun i => l[i]?.any before) 0 l.length
  have hfront : ∀ a ∈ l.take found, before a = true := by
    intro a ha
    obtain ⟨i, hi, rfl⟩ := List.mem_take_iff_getElem.mp ha
    have hi' := hbelow i (by omega)
    rwa [List.getElem?_eq_getElem (by omega)] at hi'
  rcases hle.lt_or_eq with hlt | heq
  · rw [List.getElem?_eq_getElem hlt]
    refine (List.find?_eq_some_iff_append.mpr ⟨?_, l.take found, l.drop (found + 1), ?_, ?_⟩).symm
    · have hfound := hat hlt
      rw [List.getElem?_eq_getElem hlt] at hfound
      exact congrArg not hfound
    · rw [← List.drop_eq_getElem_cons hlt, List.take_append_drop]
    · intro a ha
      rw [hfront a ha]
      rfl
  · rw [heq, List.getElem?_eq_none le_rfl]
    refine (List.find?_eq_none.mpr fun a ha => ?_).symm
    rw [heq, List.take_length] at hfront
    simp [hfront a ha]

end OpenRace.Library
