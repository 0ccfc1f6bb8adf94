import OpenRace.Analysis.IndexOverlap

/-! When the accesses of a parallel loop are told apart. -/

namespace OpenRace

open LLVM LanguageModel SimpleArrayAnalysis

section Rewriting

lemma mapM_mono {α β : Type} {f g : α → Option β} {l : List α} {result : List β}
    (h : ∀ x y, f x = some y → g x = some y) (hl : l.mapM f = some result) : l.mapM g = some result := by
  induction l generalizing result with
  | nil => simpa using hl
  | cons x rest ih =>
    simp only [List.mapM_cons, Option.bind_eq_bind, Option.bind_eq_some_iff, Option.pure_def,
      Option.some.injEq] at hl ⊢
    obtain ⟨y, hy, ys, hys, rfl⟩ := hl
    exact ⟨y, h x y hy, ys, ih hys, rfl⟩

namespace BitExtSCEVRewriter

variable (se : ScalarEvolution)

lemma visit_succ (fuel : ℕ) :
    (∀ expr result, visit se fuel expr = some result → visit se (fuel + 1) expr = some result) ∧
      (∀ expr result, superVisit se fuel expr = some result → superVisit se (fuel + 1) expr = some result) ∧
      ∀ kind operand type result, rewriteCastExpr se fuel kind operand type = some result →
        rewriteCastExpr se (fuel + 1) kind operand type = some result := by
  induction fuel with
  | zero => simp [visit, superVisit, rewriteCastExpr]
  | succ fuel ih =>
    obtain ⟨hvisit, hsuper, hcast⟩ := ih
    refine ⟨fun expr result h => ?_, fun expr result h => ?_, fun kind operand type result h => ?_⟩
    · simp only [visit, Option.bind_eq_bind, Option.bind_eq_some_iff] at h
      obtain ⟨once, honce, h⟩ := h
      rw [visit, hsuper _ _ honce]
      simp only [Option.bind_eq_bind, Option.bind_some]
      split_ifs at h ⊢
      · exact h
      · exact hvisit _ _ h
    · cases expr with
      | cast kind operand type =>
        cases kind with
        | truncate =>
          simp only [superVisit, Option.bind_eq_bind, Option.bind_eq_some_iff] at h ⊢
          obtain ⟨operands, hoperands, h⟩ := h
          exact ⟨operands, mapM_mono hvisit hoperands, h⟩
        | zeroExtend => exact hcast _ _ _ _ h
        | signExtend => exact hcast _ _ _ _ h
      | _ =>
        simp only [superVisit, Option.bind_eq_bind, Option.bind_eq_some_iff] at h ⊢
        obtain ⟨operands, hoperands, h⟩ := h
        exact ⟨operands, mapM_mono hvisit hoperands, h⟩
    · simp only [rewriteCastExpr, Option.bind_eq_bind, Option.bind_eq_some_iff] at h
      obtain ⟨visited, hvisited, h⟩ := h
      rw [rewriteCastExpr, hsuper _ _ hvisited]
      exact h

lemma visit_mono {fuel more : ℕ} {expr result : SCEV} (hle : fuel ≤ more)
    (h : visit se fuel expr = some result) : visit se more expr = some result := by
  induction hle with
  | refl => exact h
  | step _ ih => exact (visit_succ se _).1 _ _ ih

lemma visit_unique {fuel fuel' : ℕ} {expr result result' : SCEV} (h : visit se fuel expr = some result)
    (h' : visit se fuel' expr = some result') : result = result' := by
  have hmax := visit_mono se (Nat.le_max_left fuel fuel') h
  have hmax' := visit_mono se (Nat.le_max_right fuel fuel') h'
  rw [hmax] at hmax'
  exact Option.some.inj hmax'

end BitExtSCEVRewriter

end Rewriting

/-- The bounds have an absolute value and the step is no divisor zero, where the number of steps is asked for. -/
def DistanceComputed (bounds : Option ℤ × Option ℤ) (diff step : ℤ) : Prop :=
  limitedAbs step < limitedAbs diff → ∀ lower upper, bounds = (some lower, some upper) →
    lower ≠ Int64.minValue.toInt ∧ upper ≠ Int64.minValue.toInt ∧ limitedAbs step ≠ 0

section Distance

variable {bounds : Option ℤ × Option ℤ} {lower upper diff step : ℤ} {distance loopStep : ℕ}

lemma reachesDistance_bounded (hl : lower ≠ Int64.minValue.toInt) (hu : upper ≠ Int64.minValue.toInt)
    (hz : loopStep ≠ 0) : reachesDistance (some lower, some upper) distance loopStep =
      .ok !(max lower.natAbs upper.natAbs < distance / loopStep) := by
  rw [reachesDistance, absInt64, absInt64, divideUInt64, if_neg hl, if_neg hu, if_neg hz]
  rfl

lemma computed_of_reachesDistance {answer : Bool}
    (h : reachesDistance (some lower, some upper) distance loopStep = .ok answer) :
    lower ≠ Int64.minValue.toInt ∧ upper ≠ Int64.minValue.toInt ∧ loopStep ≠ 0 := by
  rw [reachesDistance, absInt64, absInt64, divideUInt64] at h
  by_cases hl : lower = Int64.minValue.toInt
  · rw [if_pos hl] at h
    cases h
  · by_cases hu : upper = Int64.minValue.toInt
    · rw [if_neg hl, if_pos hu] at h
      cases h
    · by_cases hz : loopStep = 0
      · rw [if_neg hl, if_neg hu, if_pos hz] at h
        cases h
      · exact ⟨hl, hu, hz⟩

lemma distanceTest_far (hlt : limitedAbs step < limitedAbs diff) :
    distanceTest bounds diff step = reachesDistance bounds (limitedAbs diff) (limitedAbs step) := by
  unfold distanceTest
  dsimp only
  rw [if_neg (Nat.ne_of_gt hlt), if_neg (Nat.lt_asymm hlt)]

lemma distanceTest_computes_iff :
    (∃ answer, distanceTest bounds diff step = .ok answer) ↔ DistanceComputed bounds diff step := by
  by_cases hlt : limitedAbs step < limitedAbs diff
  · rw [distanceTest_far hlt]
    constructor
    · rintro ⟨answer, h⟩ _ lower upper rfl
      exact computed_of_reachesDistance h
    · intro h
      rcases bounds with ⟨_ | lower, _ | upper⟩
      · exact ⟨true, rfl⟩
      · exact ⟨true, rfl⟩
      · exact ⟨true, rfl⟩
      · obtain ⟨hl, hu, hz⟩ := h hlt lower upper rfl
        exact ⟨_, reachesDistance_bounded hl hu hz⟩
  · refine iff_of_true ?_ fun h => absurd h hlt
    unfold distanceTest
    dsimp only
    split
    · exact ⟨true, rfl⟩
    · rw [if_pos (by omega)]
      exact ⟨false, rfl⟩

lemma distanceTest_false (h : distanceTest bounds diff step = .ok false) :
    limitedAbs diff < limitedAbs step ∨ limitedAbs diff ≠ limitedAbs step ∧
      ∃ lower upper, bounds = (some lower, some upper) ∧
        max lower.natAbs upper.natAbs < limitedAbs diff / limitedAbs step := by
  by_cases hlt : limitedAbs step < limitedAbs diff
  · rw [distanceTest_far hlt] at h
    refine Or.inr ⟨Nat.ne_of_gt hlt, ?_⟩
    rcases bounds with ⟨_ | lower, _ | upper⟩
    · cases h
    · cases h
    · cases h
    · obtain ⟨hl, hu, hz⟩ := computed_of_reachesDistance h
      rw [reachesDistance_bounded hl hu hz] at h
      exact ⟨lower, upper, rfl, by simpa using h⟩
  · unfold distanceTest at h
    dsimp only at h
    split at h
    · cases h
    · exact Or.inl (by omega)

end Distance

structure Comparison (fam : ℕ → FunctionAnalyses) (event1 event2 : ArrayEvent) where
  gep1 : ArrayAddress
  gep2 : ArrayAddress
  scev1 : SCEV
  scev2 : SCEV
  getGEP1 : getGEP event1 = some gep1
  getGEP2 : getGEP event2 = some gep2
  sameFunction : gep1.function = gep2.function
  rewritten1 : ∃ fuel,
    BitExtSCEVRewriter.visit (fam gep1.function).scev fuel ((fam gep1.function).scev.getSCEV gep1) = some scev1
  rewritten2 : ∃ fuel,
    BitExtSCEVRewriter.visit (fam gep1.function).scev fuel ((fam gep1.function).scev.getSCEV gep2) = some scev2

namespace Comparison

variable {fam : ℕ → FunctionAnalyses} {event1 event2 : ArrayEvent} (c : Comparison fam event1 event2)

def analyses : FunctionAnalyses := fam c.gep1.function

def diff : SCEV := c.analyses.scev.getMinusSCEV c.scev1 c.scev2

def Aligned : Prop :=
  (∃ type, c.diff = .constant 0 type) ∧ getAccessTypeFor c.gep1 = .ok .noRace ∧ getAccessTypeFor c.gep2 = .ok .noRace

structure Recurring (start1 step1 start2 step2 : SCEV) (loop : ℕ) : Prop where
  omp1 : OpenMPLoopManager.getOMPLoopSCEV c.analyses.body c.scev1 = some (.addRec [start1, step1] loop)
  omp2 : OpenMPLoopManager.getOMPLoopSCEV c.analyses.body c.scev2 = some (.addRec [start2, step2] loop)

/-- Nothing but the recurrence is left of the addresses without their bases. -/
def Bare (start1 step1 start2 step2 : SCEV) (loop : ℕ) (stripped1 stripped2 : SCEV) : Prop :=
  .addRec [start1, step1] loop = stripped1 ∧ .addRec [start2, step2] loop = stripped2

structure Stripped (stripped1 stripped2 : SCEV) : Prop where
  strip1 : stripSCEVBaseAddr c.scev1 = some stripped1
  strip2 : stripSCEVBaseAddr c.scev2 = some stripped2

def ConstantDistance : Prop :=
  ∃ start1 step1 start2 step2 loop stripped1 stripped2, c.Recurring start1 step1 start2 step2 loop ∧
    c.Stripped stripped1 stripped2 ∧ Bare start1 step1 start2 step2 loop stripped1 stripped2 ∧
    ∃ distance step distanceType stepType, c.diff = .constant distance distanceType ∧ step1 = .constant step stepType ∧
      (limitedAbs distance < limitedAbs step ∨ limitedAbs distance ≠ limitedAbs step ∧
        ∃ lower upper, OpenMPLoopManager.resolveOMPLoopBound c.analyses.body loop = (some lower, some upper) ∧
          max lower.natAbs upper.natAbs < limitedAbs distance / limitedAbs step)

def Gap : Prop :=
  ∃ start1 step1 start2 step2 loop stripped1 stripped2, c.Recurring start1 step1 start2 step2 loop ∧
    c.Stripped stripped1 stripped2 ∧ ¬Bare start1 step1 start2 step2 loop stripped1 stripped2 ∧
    (∃ value type, c.diff = .constant value type) ∧
    ∀ gap ∈ gaps c.analyses.scev loop (getNextIterSCEV c.analyses.scev start1 step1 loop)
      (getNextIterSCEV c.analyses.scev start2 step2 loop) stripped1 stripped2,
      ∃ value type, gap = .constant value type ∧ 0 < value

def LacksRecurrence : Prop :=
  OpenMPLoopManager.getOMPLoopSCEV c.analyses.body c.scev1 = none ∨
    OpenMPLoopManager.getOMPLoopSCEV c.analyses.body c.scev2 = none

def NonConstantDifference : Prop := ∀ value type, c.diff ≠ .constant value type

def Typed : Prop :=
  (∃ type, c.diff = .constant 0 type) → ∃ type1 type2, getAccessTypeFor c.gep1 = .ok type1 ∧
    getAccessTypeFor c.gep2 = .ok type2

def Computed : Prop :=
  ∀ start1 step1 start2 step2 loop stripped1 stripped2, c.Recurring start1 step1 start2 step2 loop →
    c.Stripped stripped1 stripped2 → Bare start1 step1 start2 step2 loop stripped1 stripped2 →
      ∀ distance step distanceType stepType, c.diff = .constant distance distanceType →
        step1 = .constant step stepType →
          DistanceComputed (OpenMPLoopManager.resolveOMPLoopBound c.analyses.body loop) distance step

def answer : Except IndexError Bool := canAddressesOverlap c.analyses c.gep1 c.gep2 c.scev1 c.scev2

lemma checkAligned_false {gep1 gep2 : ArrayAddress} (h : checkAligned gep1 gep2 = .ok (some false)) :
    getAccessTypeFor gep1 = .ok .noRace ∧ getAccessTypeFor gep2 = .ok .noRace := by
  cases h1 : getAccessTypeFor gep1 with
  | error error =>
    simp only [checkAligned, h1] at h
    cases h
  | ok type1 =>
    cases h2 : getAccessTypeFor gep2 with
    | error error =>
      simp only [checkAligned, h1, h2] at h
      cases h
    | ok type2 =>
      simp only [checkAligned, h1, h2] at h
      cases type1 <;> cases type2 <;> first | exact ⟨rfl, rfl⟩ | cases h

lemma checkAligned_ok {gep1 gep2 : ArrayAddress} {type1 type2 : AccessType} (h1 : getAccessTypeFor gep1 = .ok type1)
    (h2 : getAccessTypeFor gep2 = .ok type2) : ∃ answer, checkAligned gep1 gep2 = .ok answer := by
  simp only [checkAligned, h1, h2]
  cases type1 <;> cases type2 <;> exact ⟨_, rfl⟩

lemma checkDistance_false {body : LoopFunction} {loop : ℕ} {step diff : SCEV}
    (h : checkDistance body loop step diff = .ok false) :
    ∃ distance step' distanceType stepType, diff = .constant distance distanceType ∧ step = .constant step' stepType ∧
      (limitedAbs distance < limitedAbs step' ∨ limitedAbs distance ≠ limitedAbs step' ∧
        ∃ lower upper, OpenMPLoopManager.resolveOMPLoopBound body loop = (some lower, some upper) ∧
          max lower.natAbs upper.natAbs < limitedAbs distance / limitedAbs step') := by
  unfold checkDistance at h
  split at h
  case h_2 => cases h
  case h_1 distance distanceType step' stepType =>
    exact ⟨distance, step', distanceType, stepType, rfl, rfl, distanceTest_false h⟩

lemma checkDistance_computes_iff {body : LoopFunction} {loop : ℕ} {step diff : SCEV} :
    (∃ answer, checkDistance body loop step diff = .ok answer) ↔
      ∀ distance step' distanceType stepType, diff = .constant distance distanceType → step = .constant step' stepType →
        DistanceComputed (OpenMPLoopManager.resolveOMPLoopBound body loop) distance step' := by
  unfold checkDistance
  split
  case h_1 distance distanceType step' stepType =>
    rw [distanceTest_computes_iff]
    constructor
    · rintro h _ _ _ _ ⟨⟩ ⟨⟩
      exact h
    · exact fun h => h _ _ _ _ rfl rfl
  case h_2 hne =>
    refine iff_of_true ⟨true, rfl⟩ ?_
    rintro distance step' distanceType stepType rfl rfl
    exact absurd rfl (hne distance distanceType step' stepType rfl)

lemma isPositiveConstant_iff {expr : SCEV} :
    isPositiveConstant expr = true ↔ ∃ value type, expr = .constant value type ∧ 0 < value := by
  cases expr <;> simp [isPositiveConstant]

lemma checkRecurrences_false (hconstant : ∃ value type, c.diff = .constant value type)
    (h : checkRecurrences c.analyses c.scev1 c.scev2 c.diff = .ok false) : c.ConstantDistance ∨ c.Gap := by
  unfold checkRecurrences at h
  split at h
  case h_2 => cases h
  case h_1 start1 step1 loop1 start2 step2 loop2 stripped1 stripped2 homp1 homp2 hstrip1 hstrip2 =>
    split_ifs at h with hloop hbare
    · cases h
    · have hsame : loop1 = loop2 := by simpa using hloop
      subst hsame
      simp only [Bool.and_eq_true, beq_iff_eq] at hbare
      exact Or.inl ⟨start1, step1, start2, step2, loop1, stripped1, stripped2, ⟨homp1, homp2⟩, ⟨hstrip1, hstrip2⟩,
        hbare, checkDistance_false h⟩
    · have hsame : loop1 = loop2 := by simpa using hloop
      subst hsame
      simp only [Bool.and_eq_true, beq_iff_eq] at hbare
      refine Or.inr ⟨start1, step1, start2, step2, loop1, stripped1, stripped2, ⟨homp1, homp2⟩, ⟨hstrip1, hstrip2⟩,
        hbare, hconstant, fun gap hgap => ?_⟩
      have hall := Except.ok.inj h
      simp only [Bool.not_eq_false', List.all_eq_true] at hall
      exact isPositiveConstant_iff.1 (hall gap hgap)

lemma checkRecurrences_computes_iff :
    (∃ answer, checkRecurrences c.analyses c.scev1 c.scev2 c.diff = .ok answer) ↔ c.Computed := by
  unfold checkRecurrences
  split
  case h_2 hnone =>
    refine iff_of_true ⟨true, rfl⟩ ?_
    intro start1 step1 start2 step2 loop stripped1 stripped2 homp hstrip
    exact absurd hstrip.strip2 (hnone _ _ _ _ _ _ _ _ homp.omp1 homp.omp2 hstrip.strip1)
  case h_1 start1 step1 loop1 start2 step2 loop2 stripped1 stripped2 homp1 homp2 hstrip1 hstrip2 =>
    split_ifs with hloop hbare
    · refine iff_of_true ⟨true, rfl⟩ ?_
      intro start1' step1' start2' step2' loop _ _ homp
      have h1 := homp1.symm.trans homp.omp1
      have h2 := homp2.symm.trans homp.omp2
      cases h1
      cases h2
      simp at hloop
    · have hsame : loop1 = loop2 := by simpa using hloop
      subst hsame
      simp only [Bool.and_eq_true, beq_iff_eq] at hbare
      rw [checkDistance_computes_iff]
      constructor
      · intro h start1' step1' start2' step2' loop stripped1' stripped2' homp hstrip _
        have h1 := homp1.symm.trans homp.omp1
        cases h1
        exact h
      · exact fun h => h _ _ _ _ _ _ _ ⟨homp1, homp2⟩ ⟨hstrip1, hstrip2⟩ hbare
    · refine iff_of_true ⟨_, rfl⟩ ?_
      intro start1' step1' start2' step2' loop stripped1' stripped2' homp hstrip hbare'
      have h1 := homp1.symm.trans homp.omp1
      have h2 := homp2.symm.trans homp.omp2
      have h3 := hstrip1.symm.trans hstrip.strip1
      have h4 := hstrip2.symm.trans hstrip.strip2
      cases h1
      cases h2
      cases h3
      cases h4
      exact absurd hbare' (by simpa [Bare] using hbare)

lemma computed_of_zero {type : ℕ} (h : c.diff = .constant 0 type) : c.Computed := by
  intro _ _ _ _ _ _ _ _ _ _ distance step _ _ hdiff _ hlt
  rw [h] at hdiff
  cases hdiff
  exact absurd hlt (by simp [limitedAbs])

lemma computed_of_nonConstant (h : c.NonConstantDifference) : c.Computed := by
  intro _ _ _ _ _ _ _ _ _ _ distance step distanceType _ hdiff
  exact absurd hdiff (h distance distanceType)

lemma checkRecurrences_lacks (h : c.LacksRecurrence) (diff : SCEV) :
    checkRecurrences c.analyses c.scev1 c.scev2 diff = .ok true := by
  rcases h with h | h <;> simp [checkRecurrences, h]

lemma answer_of_nonConstant (h : c.NonConstantDifference) : c.answer = .ok true := by
  unfold answer canAddressesOverlap
  rw [← diff]
  cases hdiff : c.diff with
  | constant value type => exact absurd hdiff (h value type)
  | _ => rfl

lemma answer_of_ne {value : ℤ} {type : ℕ} (hdiff : c.diff = .constant value type) (hne : value ≠ 0) :
    c.answer = checkRecurrences c.analyses c.scev1 c.scev2 c.diff := by
  unfold answer canAddressesOverlap
  rw [← diff, hdiff]
  simp only [beq_iff_eq, hne, if_false]

lemma answer_of_eq {type : ℕ} (hdiff : c.diff = .constant 0 type) :
    c.answer = (do
      match ← checkAligned c.gep1 c.gep2 with
      | some answer => return answer
      | none => checkRecurrences c.analyses c.scev1 c.scev2 c.diff) := by
  unfold answer canAddressesOverlap
  rw [← diff, hdiff]
  rfl

lemma answered_iff : c.Typed ∧ c.Computed ↔ ∃ answer, c.answer = .ok answer := by
  by_cases hconstant : c.NonConstantDifference
  · refine iff_of_true ⟨?_, c.computed_of_nonConstant hconstant⟩ ⟨true, c.answer_of_nonConstant hconstant⟩
    exact fun ⟨type, h⟩ => absurd h (hconstant 0 type)
  obtain ⟨value, type, hdiff⟩ : ∃ value type, c.diff = .constant value type := by
    by_contra hnone
    exact hconstant fun value type h => hnone ⟨value, type, h⟩
  by_cases hzero : value = 0
  · subst hzero
    rw [c.answer_of_eq hdiff]
    constructor
    · rintro ⟨htyped, -⟩
      obtain ⟨type1, type2, h1, h2⟩ := htyped ⟨type, hdiff⟩
      obtain ⟨answer, hanswer⟩ := checkAligned_ok h1 h2
      rw [hanswer]
      cases answer with
      | some answer => exact ⟨answer, rfl⟩
      | none => exact c.checkRecurrences_computes_iff.mpr (c.computed_of_zero hdiff)
    · rintro ⟨answer, hanswer⟩
      refine ⟨fun _ => ?_, c.computed_of_zero hdiff⟩
      by_contra huntyped
      cases haligned : checkAligned c.gep1 c.gep2 with
      | error error =>
        rw [haligned] at hanswer
        cases hanswer
      | ok verdict =>
        apply huntyped
        cases h1 : getAccessTypeFor c.gep1 with
        | error error =>
          simp only [checkAligned, h1] at haligned
          cases haligned
        | ok type1 =>
          cases h2 : getAccessTypeFor c.gep2 with
          | error error =>
            simp only [checkAligned, h1, h2] at haligned
            cases haligned
          | ok type2 => exact ⟨type1, type2, rfl, rfl⟩
  · rw [c.answer_of_ne hdiff hzero, c.checkRecurrences_computes_iff]
    refine and_iff_right fun ⟨type', h⟩ => ?_
    rw [hdiff] at h
    cases h
    exact absurd rfl hzero

lemma answer_of_aligned (h : c.Aligned) : c.answer = .ok false := by
  obtain ⟨⟨type, hdiff⟩, h1, h2⟩ := h
  rw [c.answer_of_eq hdiff]
  simp only [checkAligned, h1, h2]
  rfl

lemma answer_false (h : c.answer = .ok false) : c.Aligned ∨ (c.ConstantDistance ∨ c.Gap) ∧ ¬c.LacksRecurrence := by
  by_cases hconstant : c.NonConstantDifference
  · rw [c.answer_of_nonConstant hconstant] at h
    cases h
  obtain ⟨value, type, hdiff⟩ : ∃ value type, c.diff = .constant value type := by
    by_contra hnone
    exact hconstant fun value type h => hnone ⟨value, type, h⟩
  have hrecurrences : checkRecurrences c.analyses c.scev1 c.scev2 c.diff = .ok false →
      (c.ConstantDistance ∨ c.Gap) ∧ ¬c.LacksRecurrence := by
    intro hfalse
    refine ⟨c.checkRecurrences_false ⟨value, type, hdiff⟩ hfalse, fun hlacks => ?_⟩
    rw [c.checkRecurrences_lacks hlacks] at hfalse
    cases hfalse
  by_cases hzero : value = 0
  · subst hzero
    rw [c.answer_of_eq hdiff] at h
    cases haligned : checkAligned c.gep1 c.gep2 with
    | error error =>
      rw [haligned] at h
      cases h
    | ok verdict =>
      rw [haligned] at h
      cases verdict with
      | some answer =>
        cases h
        exact Or.inl ⟨⟨type, hdiff⟩, checkAligned_false haligned⟩
      | none => exact Or.inr (hrecurrences h)
  · rw [c.answer_of_ne hdiff hzero] at h
    exact Or.inr (hrecurrences h)

lemma unique (c c' : Comparison fam event1 event2) : c = c' := by
  obtain ⟨gep1, gep2, scev1, scev2, hgep1, hgep2, hfunction, ⟨fuel1, h1⟩, fuel2, h2⟩ := c
  obtain ⟨gep1', gep2', scev1', scev2', hgep1', hgep2', hfunction', ⟨fuel1', h1'⟩, fuel2', h2'⟩ := c'
  obtain rfl : gep1 = gep1' := Option.some.inj (hgep1.symm.trans hgep1')
  obtain rfl : gep2 = gep2' := Option.some.inj (hgep2.symm.trans hgep2')
  obtain rfl := BitExtSCEVRewriter.visit_unique _ h1 h1'
  obtain rfl := BitExtSCEVRewriter.visit_unique _ h2 h2'
  rfl

end Comparison

section LoopAccesses

variable {fam : ℕ → FunctionAnalyses} {event1 event2 : ArrayEvent}

def DifferentFunctions (event1 event2 : ArrayEvent) : Prop :=
  ∃ gep1 gep2, getGEP event1 = some gep1 ∧ getGEP event2 = some gep2 ∧ gep1.function ≠ gep2.function

lemma exists_geps (hloop : isLoopArrayAccess event1 event2) : ∃ gep1 gep2, getGEP event1 = some gep1 ∧
    getGEP event2 = some gep2 ∧ isArrayAccess gep1.gep = true ∧ isArrayAccess gep2.gep = true := by
  unfold isLoopArrayAccess at hloop
  split at hloop
  · rename_i gep1 gep2 h1 h2
    rw [Bool.and_eq_true] at hloop
    exact ⟨gep1, gep2, h1, h2, hloop.1, hloop.2⟩
  · cases hloop

lemma canIndexOverlap_of_different (fuel : ℕ) (hloop : isLoopArrayAccess event1 event2)
    (h : DifferentFunctions event1 event2) : canIndexOverlap fam fuel event1 event2 = some (.ok false) := by
  obtain ⟨gep1, gep2, h1, h2, harray1, harray2⟩ := exists_geps hloop
  obtain ⟨gep1', gep2', h1', h2', hne⟩ := h
  obtain rfl : gep1 = gep1' := Option.some.inj (h1.symm.trans h1')
  obtain rfl : gep2 = gep2' := Option.some.inj (h2.symm.trans h2')
  simp [canIndexOverlap, h1, h2, harray1, harray2, hne]

lemma canIndexOverlap_of_same {gep1 gep2 : ArrayAddress} (fuel : ℕ) (hloop : isLoopArrayAccess event1 event2)
    (h1 : getGEP event1 = some gep1) (h2 : getGEP event2 = some gep2) (hsame : gep1.function = gep2.function) :
    canIndexOverlap fam fuel event1 event2 =
      (BitExtSCEVRewriter.visit (fam gep1.function).scev fuel ((fam gep1.function).scev.getSCEV gep1)).bind fun scev1 =>
        (BitExtSCEVRewriter.visit (fam gep1.function).scev fuel
          ((fam gep1.function).scev.getSCEV gep2)).bind fun scev2 =>
          some (canAddressesOverlap (fam gep1.function) gep1 gep2 scev1 scev2) := by
  obtain ⟨gep1', gep2', h1', h2', harray1, harray2⟩ := exists_geps hloop
  obtain rfl : gep1 = gep1' := Option.some.inj (h1.symm.trans h1')
  obtain rfl : gep2 = gep2' := Option.some.inj (h2.symm.trans h2')
  simp [canIndexOverlap, h1, h2, harray1, harray2, hsame]

lemma Comparison.answers (c : Comparison fam event1 event2) (hloop : isLoopArrayAccess event1 event2) :
    ∃ fuel, canIndexOverlap fam fuel event1 event2 = some c.answer := by
  obtain ⟨fuel1, hrewritten1⟩ := c.rewritten1
  obtain ⟨fuel2, hrewritten2⟩ := c.rewritten2
  refine ⟨max fuel1 fuel2, ?_⟩
  rw [canIndexOverlap_of_same _ hloop c.getGEP1 c.getGEP2 c.sameFunction,
    BitExtSCEVRewriter.visit_mono _ (Nat.le_max_left fuel1 fuel2) hrewritten1,
    BitExtSCEVRewriter.visit_mono _ (Nat.le_max_right fuel1 fuel2) hrewritten2]
  rfl

lemma canIndexOverlap_cases {fuel : ℕ} {result : Except IndexError Bool} (hloop : isLoopArrayAccess event1 event2)
    (h : canIndexOverlap fam fuel event1 event2 = some result) :
    DifferentFunctions event1 event2 ∨ ∃ c : Comparison fam event1 event2, c.answer = result := by
  obtain ⟨gep1, gep2, h1, h2, -, -⟩ := exists_geps hloop
  by_cases hsame : gep1.function = gep2.function
  · rw [canIndexOverlap_of_same _ hloop h1 h2 hsame, Option.bind_eq_some_iff] at h
    obtain ⟨scev1, hscev1, h⟩ := h
    rw [Option.bind_eq_some_iff] at h
    obtain ⟨scev2, hscev2, h⟩ := h
    exact Or.inr ⟨⟨gep1, gep2, scev1, scev2, h1, h2, hsame, ⟨fuel, hscev1⟩, fuel, hscev2⟩, Option.some.inj h⟩
  · exact Or.inl ⟨gep1, gep2, h1, h2, hsame⟩

def AnswersOverlap (fam : ℕ → FunctionAnalyses) (event1 event2 : ArrayEvent) (answer : Bool) : Prop :=
  ∃ fuel, canIndexOverlap fam fuel event1 event2 = some (.ok answer)

def DeclaredNonOverlapping (fam : ℕ → FunctionAnalyses) (event1 event2 : ArrayEvent) : Prop :=
  ∃ fuel, isNonOverlappingLoopAccess fam fuel event1 event2 = some (.ok true)

lemma declaredNonOverlapping_iff (hloop : isLoopArrayAccess event1 event2) :
    DeclaredNonOverlapping fam event1 event2 ↔ AnswersOverlap fam event1 event2 false := by
  refine exists_congr fun fuel => ?_
  rw [isNonOverlappingLoopAccess, if_pos hloop]
  cases canIndexOverlap fam fuel event1 event2 with
  | none => simp
  | some result => cases result <;> simp [Except.map]

/-- A pair of accesses is answered for, and is told apart only where a test proves it so. -/
structure OverlapSound (fam : ℕ → FunctionAnalyses) (event1 event2 : ArrayEvent) : Prop where
  answered : ∃ answer, AnswersOverlap fam event1 event2 answer
  unproved : (¬∃ c : Comparison fam event1 event2, c.Aligned ∨ c.ConstantDistance ∨ c.Gap) →
    AnswersOverlap fam event1 event2 true
  functions : DifferentFunctions event1 event2 → ¬DeclaredNonOverlapping fam event1 event2
  recurrence : ∀ c : Comparison fam event1 event2, c.LacksRecurrence → ¬DeclaredNonOverlapping fam event1 event2
  difference : ∀ c : Comparison fam event1 event2, c.NonConstantDifference → ¬DeclaredNonOverlapping fam event1 event2

/-- The accesses are in one function, their addresses are rewritten and typed, their distance is computed, and indices
are only taken for aligned where the addresses have the recurrence. -/
def OverlapHandled (fam : ℕ → FunctionAnalyses) (event1 event2 : ArrayEvent) : Prop :=
  ∃ c : Comparison fam event1 event2, c.Typed ∧ c.Computed ∧ ¬(c.Aligned ∧ c.LacksRecurrence)

lemma Comparison.not_different (c : Comparison fam event1 event2) : ¬DifferentFunctions event1 event2 := by
  rintro ⟨gep1, gep2, h1, h2, hne⟩
  rw [c.getGEP1] at h1
  rw [c.getGEP2] at h2
  cases h1
  cases h2
  exact hne c.sameFunction

lemma Comparison.answer_of_answers (c : Comparison fam event1 event2) {answer : Bool}
    (hloop : isLoopArrayAccess event1 event2) (h : AnswersOverlap fam event1 event2 answer) :
    c.answer = .ok answer := by
  obtain ⟨fuel, h⟩ := h
  rcases canIndexOverlap_cases hloop h with hdifferent | ⟨c', hc'⟩
  · exact absurd hdifferent c.not_different
  · rwa [c.unique c']

lemma OverlapSound.handled (h : OverlapSound fam event1 event2) (hloop : isLoopArrayAccess event1 event2) :
    OverlapHandled fam event1 event2 := by
  have hsame : ¬DifferentFunctions event1 event2 := fun hdifferent =>
    h.functions hdifferent ((declaredNonOverlapping_iff hloop).2 ⟨0, canIndexOverlap_of_different 0 hloop hdifferent⟩)
  obtain ⟨answer, fuel, hanswer⟩ := h.answered
  rcases canIndexOverlap_cases hloop hanswer with hdifferent | ⟨c, hc⟩
  · exact absurd hdifferent hsame
  obtain ⟨htyped, hcomputed⟩ := c.answered_iff.2 ⟨answer, hc⟩
  refine ⟨c, htyped, hcomputed, fun ⟨haligned, hlacks⟩ => ?_⟩
  obtain ⟨fuel', hfuel'⟩ := c.answers hloop
  rw [c.answer_of_aligned haligned] at hfuel'
  exact h.recurrence c hlacks ((declaredNonOverlapping_iff hloop).2 ⟨fuel', hfuel'⟩)

lemma OverlapHandled.overlapSound (h : OverlapHandled fam event1 event2) (hloop : isLoopArrayAccess event1 event2) :
    OverlapSound fam event1 event2 := by
  obtain ⟨c, htyped, hcomputed, hrecurring⟩ := h
  obtain ⟨answer, hanswer⟩ := c.answered_iff.1 ⟨htyped, hcomputed⟩
  obtain ⟨fuel, hfuel⟩ := c.answers hloop
  rw [hanswer] at hfuel
  have hdeclared : DeclaredNonOverlapping fam event1 event2 → c.answer = .ok false := fun hdeclared =>
    c.answer_of_answers hloop ((declaredNonOverlapping_iff hloop).1 hdeclared)
  constructor
  · exact ⟨answer, fuel, hfuel⟩
  · intro hnone
    cases answer with
    | true => exact ⟨fuel, hfuel⟩
    | false =>
      rcases c.answer_false hanswer with haligned | ⟨htest, -⟩
      · exact absurd ⟨c, Or.inl haligned⟩ hnone
      · exact absurd ⟨c, Or.inr htest⟩ hnone
  · exact fun hdifferent => absurd hdifferent c.not_different
  · intro c' hlacks hdecl
    obtain rfl := c.unique c'
    rcases c.answer_false (hdeclared hdecl) with haligned | ⟨-, hhas⟩
    · exact hrecurring ⟨haligned, hlacks⟩
    · exact hhas hlacks
  · intro c' hdiff hdecl
    obtain rfl := c.unique c'
    have hfalse := hdeclared hdecl
    rw [c.answer_of_nonConstant hdiff] at hfalse
    cases hfalse

/-- Accesses of a parallel loop are told apart soundly just where they are handled. -/
theorem canIndexOverlap_sound_iff (fam : ℕ → FunctionAnalyses) (event1 event2 : ArrayEvent)
    (hloop : isLoopArrayAccess event1 event2 = true) :
    OverlapSound fam event1 event2 ↔ OverlapHandled fam event1 event2 :=
  ⟨fun h => h.handled hloop, fun h => h.overlapSound hloop⟩

end LoopAccesses

namespace SameIndex

def address (function : ℕ) : ArrayAddress where
  function := function
  gep := { name := "arrayidx.i", pointee := .array, indices := [.constant 0], lastIndex := .phi "indvars.iv.i" }
  bases := []
  parent := { name := "omp.inner.for.body.i", frontPhi := some "indvars.iv.i" }
  earlier := []

/-- Addresses advance by the size of an element. -/
def scev : ScalarEvolution where
  getSCEV := fun _ => .addRec [.unknown 0, .constant 4 64] 0
  getMinusSCEV := fun lhs rhs => if lhs == rhs then .constant 0 64 else .couldNotCompute
  getCastExpr := .cast
  getNAryExpr := .nary
  getUDivExpr := .udiv
  getAddRecExpr := fun operands loop _ => .addRec operands loop
  getNoWrapFlags := fun _ => 0
  getBackedgeTakenCount := fun _ => .couldNotCompute

def body : LoopFunction where
  blocks := [(0, [{ id := 0, calledFunction := some "__kmpc_for_static_init_4", args := [] }])]
  initBlock := fun _ => some 0
  dominates := fun _ _ => false

def fam (_ : ℕ) : FunctionAnalyses := ⟨scev, body⟩

def access (function : ℕ) : ArrayEvent := ⟨some (address function)⟩

def comparison : Comparison fam (access 0) (access 0) where
  gep1 := address 0
  gep2 := address 0
  scev1 := .addRec [.unknown 0, .constant 4 64] 0
  scev2 := .addRec [.unknown 0, .constant 4 64] 0
  getGEP1 := rfl
  getGEP2 := rfl
  sameFunction := rfl
  rewritten1 := ⟨5, rfl⟩
  rewritten2 := ⟨5, rfl⟩

theorem sameIndex_sound : OverlapSound fam (access 0) (access 0) := by
  apply (canIndexOverlap_sound_iff fam (access 0) (access 0) (by decide +kernel)).2
  have hnoRace : getAccessTypeFor (address 0) = .ok .noRace := by decide +kernel
  have hdiff : comparison.diff = .constant 0 64 := by decide +kernel
  refine ⟨comparison, fun _ => ⟨_, _, hnoRace, hnoRace⟩, comparison.computed_of_zero hdiff, ?_⟩
  rintro ⟨-, hlacks⟩
  rcases hlacks with hlacks | hlacks <;> cases hlacks

/-- The loop body calls a function that touches the same array. -/
theorem overlap_missed : ¬OverlapSound fam (access 0) (access 1) := by
  intro h
  have hdeclared : DeclaredNonOverlapping fam (access 0) (access 1) := ⟨0, by decide +kernel⟩
  exact h.functions ⟨address 0, address 1, rfl, rfl, by decide⟩ hdeclared

end SameIndex

end OpenRace
