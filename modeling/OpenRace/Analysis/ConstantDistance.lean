import OpenRace.Analysis.NonOverlap
import Mathlib.Tactic.Ring
import Mathlib.Tactic.Linarith

/-! The test on a constant distance: its arithmetic, and the iterations that it tells apart. -/

namespace OpenRace

open LLVM SimpleArrayAnalysis

/-- All iterations are possible where a bound is unknown. -/
def InLoop : Option ℤ × Option ℤ → ℤ → Prop
  | (some lower, some upper), i => lower ≤ i ∧ i ≤ upper
  | _, _ => True

/-- The test is computed without error, and accesses that it tells apart meet in no two iterations. -/
structure DistanceSound (body : LoopFunction) (loop : ℕ) (diff step : ℤ) : Prop where
  computes : ∃ answer, distanceTest (OpenMPLoopManager.resolveOMPLoopBound body loop) diff step = .ok answer
  apart : ∀ diffType stepType, checkDistance body loop (.constant step stepType) (.constant diff diffType) = .ok false →
    ∀ i j, InLoop (OpenMPLoopManager.resolveOMPLoopBound body loop) i →
      InLoop (OpenMPLoopManager.resolveOMPLoopBound body loop) j → i ≠ j → step * i + diff ≠ step * j

/-- Where the distance is greater than a step and both bounds are known, these have an absolute value, and a distance
of more steps than either bound tells is also longer than the loop. -/
def DistanceBounded (bounds : Option ℤ × Option ℤ) (diff step : ℤ) : Prop :=
  limitedAbs step < limitedAbs diff → ∀ lower upper, bounds = (some lower, some upper) →
    lower ≠ Int64.minValue.toInt ∧ upper ≠ Int64.minValue.toInt ∧
      (step ∣ diff → max lower.natAbs upper.natAbs < limitedAbs diff / limitedAbs step →
        upper - lower < diff.natAbs / step.natAbs)

section Distance

variable {bounds : Option ℤ × Option ℤ} {diff step : ℤ} {body : LoopFunction} {loop : ℕ}

lemma limitedAbs_mono {a b : ℤ} (h : a.natAbs ≤ b.natAbs) : limitedAbs a ≤ limitedAbs b :=
  min_le_min h le_rfl

lemma limitedAbs_pos {a : ℤ} (h : a ≠ 0) : 0 < limitedAbs a :=
  lt_min (Int.natAbs_pos.mpr h) (by decide)

lemma test_computes_iff (hs : step ≠ 0) : (∃ answer, distanceTest bounds diff step = .ok answer) ↔
    (limitedAbs step < limitedAbs diff → ∀ lower upper, bounds = (some lower, some upper) →
      lower ≠ Int64.minValue.toInt ∧ upper ≠ Int64.minValue.toInt) := by
  have hzero : limitedAbs step ≠ 0 := (limitedAbs_pos hs).ne'
  rw [distanceTest_computes_iff]
  simp only [DistanceComputed, ne_eq, hzero, not_false_eq_true, and_true]

lemma steps_of_meeting {i j : ℤ} (hs : step ≠ 0) (h : step * i + diff = step * j) :
    step ∣ diff ∧ diff.natAbs = step.natAbs * (j - i).natAbs ∧ diff.natAbs / step.natAbs = (j - i).natAbs := by
  have hdiff : diff = step * (j - i) := by
    rw [mul_sub]
    omega
  have habs : diff.natAbs = step.natAbs * (j - i).natAbs := by rw [hdiff, Int.natAbs_mul]
  refine ⟨⟨j - i, hdiff⟩, habs, ?_⟩
  rw [habs, Nat.mul_div_cancel_left _ (Int.natAbs_pos.mpr hs)]

lemma exists_meeting {lower upper : ℤ} (hs : step ≠ 0) (hd : step ∣ diff) (hne : diff ≠ 0)
    (hle : ((diff.natAbs / step.natAbs : ℕ) : ℤ) ≤ upper - lower) :
    ∃ i j, (lower ≤ i ∧ i ≤ upper) ∧ (lower ≤ j ∧ j ≤ upper) ∧ i ≠ j ∧ step * i + diff = step * j := by
  obtain ⟨steps, rfl⟩ := hd
  have hsteps : steps ≠ 0 := by
    rintro rfl
    exact hne (mul_zero step)
  rw [Int.natAbs_mul, Nat.mul_div_cancel_left _ (Int.natAbs_pos.mpr hs)] at hle
  rcases lt_or_gt_of_ne hsteps with hneg | hpos
  · refine ⟨lower - steps, lower, ⟨by omega, by omega⟩, ⟨by omega, by omega⟩, by omega, ?_⟩
    rw [mul_sub]
    omega
  · refine ⟨lower, lower + steps, ⟨by omega, by omega⟩, ⟨by omega, by omega⟩, by omega, ?_⟩
    rw [mul_add]

/-- The test is right about a loop just where the bounds tell its length. -/
theorem distance_sound_iff (body : LoopFunction) (loop : ℕ) (diff step : ℤ) (hs : step ≠ 0) :
    DistanceSound body loop diff step ↔
      DistanceBounded (OpenMPLoopManager.resolveOMPLoopBound body loop) diff step := by
  constructor
  · intro h hlt lower upper hbounds
    obtain ⟨hl, hu⟩ := (test_computes_iff hs).mp h.computes hlt lower upper hbounds
    refine ⟨hl, hu, fun hd hmax => ?_⟩
    by_contra hlong
    have hne : diff ≠ 0 := by
      rintro rfl
      exact absurd hlt (by simp [limitedAbs])
    obtain ⟨i, j, hi, hj, hij, hmeet⟩ := exists_meeting hs hd hne (not_lt.mp hlong)
    have hz : limitedAbs step ≠ 0 := (limitedAbs_pos hs).ne'
    refine h.apart 64 64 ?_ i j ?_ ?_ hij hmeet
    · rw [checkDistance, distanceTest_far hlt, hbounds, reachesDistance_bounded hl hu hz]
      simpa using hmax
    · rw [hbounds]
      exact hi
    · rw [hbounds]
      exact hj
  · intro h
    refine ⟨(test_computes_iff hs).mpr fun hlt lower upper hbounds => ?_, ?_⟩
    · obtain ⟨hl, hu, -⟩ := h hlt lower upper hbounds
      exact ⟨hl, hu⟩
    · intro diffType stepType hfalse i j hi hj hij hmeet
      obtain ⟨hd, habs, hsteps⟩ := steps_of_meeting hs hmeet
      obtain ⟨_, _, _, _, hdiff, hstep, htest⟩ := Comparison.checkDistance_false hfalse
      cases hdiff
      cases hstep
      have hle : limitedAbs step ≤ limitedAbs diff := by
        refine limitedAbs_mono ?_
        rw [habs]
        exact Nat.le_mul_of_pos_right _ (by omega)
      rcases htest with hless | ⟨hne, lower, upper, hbounds, hmax⟩
      · omega
      · obtain ⟨-, -, hlong⟩ := h (by omega) lower upper hbounds
        have hlt := hlong hd hmax
        rw [← Int.natCast_ediv, hsteps] at hlt
        rw [hbounds] at hi hj
        obtain ⟨hil, hiu⟩ := hi
        obtain ⟨hjl, hju⟩ := hj
        omega

end Distance

namespace StraddlingLoop

/-- A worksharing loop with constant bounds, which are stored before the runtime is called. -/
def body (lower upper : ℤ) : LoopFunction where
  blocks := [(0, [{ id := 9, calledFunction := some "__kmpc_for_static_init_8",
                    args := [none, none, none, none, some ⟨[⟨1, some lower⟩]⟩, some ⟨[⟨2, some upper⟩]⟩] }])]
  initBlock := fun _ => some 0
  dominates := fun _ _ => true

/-- From 0 to 9, accesses ten elements apart do not meet. -/
theorem counted_loop_sound : DistanceSound (body 0 9) 0 40 4 := by
  refine (distance_sound_iff (body 0 9) 0 40 4 (by decide)).mpr ?_
  intro _ lower upper hbounds
  cases hbounds
  exact ⟨by decide, by decide, fun _ _ => by decide⟩

/-- From -5 to 5, they do. -/
theorem straddling_unsound : ¬ ∀ (body : LoopFunction) (loop : ℕ) (diff step : ℤ), step ≠ 0 →
    DistanceSound body loop diff step := by
  intro h
  have hsound := h (body (-5) 5) 0 40 4 (by decide)
  have hfalse : checkDistance (body (-5) 5) 0 (.constant 4 64) (.constant 40 64) = .ok false := by decide +kernel
  exact hsound.apart 64 64 hfalse (-5) 5 ⟨by decide, by decide⟩ ⟨by decide, by decide⟩ (by decide) (by decide)

end StraddlingLoop

end OpenRace
