import Mathlib.Tactic.Common

/-! Loops that are left after their body, and the rule that shows that they end. -/

namespace OpenRace.Library

variable {State : Type*} {body : State → Option State} {again : State → Bool}

/-- None is a loop that fails, or is not left within this many rounds. -/
def doWhile (body : State → Option State) (again : State → Bool) : ℕ → State → Option State
  | 0, _ => none
  | fuel + 1, state => do
    let state ← body state
    if again state then doWhile body again fuel state else some state

/-- The invariant is needed only where the loop goes on, and each round that goes on makes progress. -/
theorem doWhile_ends (Inv Post : State → Prop) (progress : State → ℕ) (bound : ℕ)
    (hround : ∀ state, Inv state → ∃ state', body state = some state' ∧
      (again state' = true → Inv state' ∧ progress state < progress state' ∧ progress state' ≤ bound) ∧
      (again state' = false → Post state')) (fuel : ℕ) :
    ∀ {state}, Inv state → bound ≤ fuel + progress state →
      ∃ state', doWhile body again (fuel + 1) state = some state' ∧ Post state' := by
  induction fuel with
  | zero =>
    intro state h hfuel
    obtain ⟨next, heq, hagain, hpost⟩ := hround state h
    cases hnext : again next with
    | true =>
      obtain ⟨-, hlt, hle⟩ := hagain hnext
      omega
    | false => exact ⟨next, by simp [doWhile, heq, hnext], hpost hnext⟩
  | succ fuel ih =>
    intro state h hfuel
    obtain ⟨next, heq, hagain, hpost⟩ := hround state h
    rw [doWhile, heq]
    cases hnext : again next with
    | true =>
      obtain ⟨hinv, hlt, hle⟩ := hagain hnext
      obtain ⟨last, hlast, hend⟩ := ih hinv (by omega)
      exact ⟨last, by simpa [hnext] using hlast, hend⟩
    | false => exact ⟨next, by simp [hnext], hpost hnext⟩

end OpenRace.Library
