import OpenRace.Analysis.IndexComparison

/-! When the analysis of an array access comes to a verdict. -/

namespace OpenRace

open LLVM Library

structure IndexesAnswered (address : ArrayAddress) (geps : List GetElementPtr) (outer : Option String) : Prop where
  single : ¬ (ArrayAccess.of geps outer).isMultiDim → outer = none → ¬ Unanswered address.gep
  counted : (ArrayAccess.of geps outer).isMultiDim → ∀ n root gep, Collapses "" geps n root → geps[n]? = some gep →
    IsIdxprom gep → ¬ Unanswered gep
  apart : (ArrayAccess.of geps outer).isMultiDim → ∀ n root, Collapses "" geps n root → n < 2 →
    (∀ gep ∈ geps, ¬ Unanswered gep) ∧
      (outer.isSome → (∃ gep ∈ geps, isOmpRelevant gep = .ok true) → ∃ name, LoopNamed address name)
  collapsed : (ArrayAccess.of geps outer).isMultiDim → ∀ n root, Collapses "" geps n root → 2 ≤ n →
    ∃ name, LoopNamed address name ∧
      (name = root → InnerAnswered (geps.reverse.drop (if n = geps.length then n else n - 1)))

structure Answerable (address : ArrayAddress) : Prop where
  outermost : ∀ before gep after,
    ArrayAccess.findOuterMost (address.gep :: address.bases) = some (before, gep, after) → isMathOp gep.lastIndex →
    ¬ Aborts gep.lastIndex .loop
  front : getBasicBlockType address.parent.name = .ompInnerForBody → address.parent.frontPhi.isSome
  indexes : ∀ geps outer, Leaves (address.gep :: address.bases) geps outer → IndexesAnswered address geps outer

section Access

variable {address : ArrayAddress} {geps : List GetElementPtr} {outer parallelIdx : Option String} {n : ℕ}
  {root : String}

def indexed (geps : List GetElementPtr) (outer : Option String) : Except IndexError ArrayAccess := do
  let access ← (ArrayAccess.of geps outer).checkCollapse
  if access.hasCollapse then return access else access.removeOMPIrrelevantGEP

lemma not_fails_getAccessTypeFor : ¬ Fails (getAccessTypeFor address) ↔
    ∃ geps outer parallelIdx,
      ArrayAccess.computeOuterMostGEPIdxName (address.gep :: address.bases) = .ok (geps, outer) ∧
        getOMPParallelLoopIndex address = .ok parallelIdx ∧
        ∃ access, indexed geps outer = .ok access ∧ ¬ Fails (compared address access parallelIdx) := by
  rw [getAccessTypeFor, not_fails_bind]
  constructor
  · rintro ⟨access, haccess, h⟩
    obtain ⟨parallelIdx, hparallel, h⟩ := not_fails_bind.mp h
    obtain ⟨⟨geps, outer⟩, houter, haccess⟩ := Library.exists_of_bind haccess
    exact ⟨geps, outer, parallelIdx, houter, hparallel, access, haccess, h⟩
  · rintro ⟨geps, outer, parallelIdx, houter, hparallel, access, haccess, h⟩
    refine ⟨access, ?_, not_fails_bind.mpr ⟨parallelIdx, hparallel, h⟩⟩
    rw [getAllGEPIndexes, houter]
    exact haccess

lemma indexed_single (hmulti : ¬ (ArrayAccess.of geps outer).isMultiDim) :
    indexed geps outer = .ok (ArrayAccess.of geps outer) := by
  simp only [indexed, ArrayAccess.checkCollapse, hmulti]
  simp [ArrayAccess.removeOMPIrrelevantGEP, hmulti, pure, Except.pure, bind, Except.bind]

lemma checkCollapse_iff (hmulti : (ArrayAccess.of geps outer).isMultiDim) (h : Collapses "" geps n root)
    {access : ArrayAccess} : (ArrayAccess.of geps outer).checkCollapse = .ok access ↔
      (∀ gep, geps[n]? = some gep → IsIdxprom gep → ¬ Unanswered gep) ∧
        (if n < 2 then ArrayAccess.of geps outer else collapsedAt geps outer n root) = access := by
  have hcount : ∀ level final, ArrayAccess.countCollapsed "" 0 (ArrayAccess.of geps outer).geps = .ok (level, final) ↔
      (n, root) = (level, final) ∧ ∀ gep, geps[n]? = some gep → IsIdxprom gep → ¬ Unanswered gep := by
    intro level final
    rw [ArrayAccess.of, countCollapsed_iff h, Nat.zero_add]
  rw [ArrayAccess.checkCollapse, if_neg (by simp [hmulti])]
  constructor
  · intro haccess
    obtain ⟨⟨level, final⟩, hlevel, haccess⟩ := Library.exists_of_bind haccess
    obtain ⟨heq, hcounted⟩ := (hcount level final).mp hlevel
    cases heq
    refine ⟨hcounted, ?_⟩
    dsimp only at haccess
    by_cases hfew : n < 2
    · rw [if_pos hfew]
      rw [if_pos hfew] at haccess
      exact Except.ok.inj haccess
    · rw [if_neg hfew]
      rw [if_neg hfew] at haccess
      exact Except.ok.inj haccess
  · rintro ⟨hcounted, rfl⟩
    rw [(hcount n root).mpr ⟨rfl, hcounted⟩]
    by_cases hfew : n < 2
    · rw [if_pos hfew]
      exact if_pos hfew
    · rw [if_neg hfew]
      exact if_neg hfew

lemma indexed_apart (hmulti : (ArrayAccess.of geps outer).isMultiDim) (h : Collapses "" geps n root) (hfew : n < 2)
    {access : ArrayAccess} : indexed geps outer = .ok access ↔
      (∀ gep, geps[n]? = some gep → IsIdxprom gep → ¬ Unanswered gep) ∧
        ∃ kept, geps.filterM isOmpRelevant = .ok kept ∧ ArrayAccess.of kept outer = access := by
  have hremove : ((if (ArrayAccess.of geps outer).hasCollapse then return ArrayAccess.of geps outer
      else (ArrayAccess.of geps outer).removeOMPIrrelevantGEP : Except IndexError ArrayAccess) = .ok access ↔
      ∃ kept, geps.filterM isOmpRelevant = .ok kept ∧ ArrayAccess.of kept outer = access) := by
    rw [if_neg (by simp [ArrayAccess.of, ArrayAccess.hasCollapse]), ArrayAccess.removeOMPIrrelevantGEP,
      if_neg (by simp [hmulti])]
    constructor
    · intro haccess
      obtain ⟨kept, hkept, haccess⟩ := Library.exists_of_bind haccess
      exact ⟨kept, hkept, Except.ok.inj haccess⟩
    · rintro ⟨kept, hkept, rfl⟩
      rw [ArrayAccess.of, hkept]
      rfl
  rw [← hremove, indexed]
  constructor
  · intro haccess
    obtain ⟨checked, hchecked, haccess⟩ := Library.exists_of_bind haccess
    obtain ⟨hcounted, rfl⟩ := (checkCollapse_iff hmulti h).mp hchecked
    rw [if_pos hfew] at haccess
    exact ⟨hcounted, haccess⟩
  · rintro ⟨hcounted, haccess⟩
    rw [(checkCollapse_iff hmulti h).mpr ⟨hcounted, rfl⟩, if_pos hfew]
    exact haccess

lemma indexed_collapsed (hmulti : (ArrayAccess.of geps outer).isMultiDim) (h : Collapses "" geps n root)
    (hmany : 2 ≤ n) {access : ArrayAccess} : indexed geps outer = .ok access ↔
      (∀ gep, geps[n]? = some gep → IsIdxprom gep → ¬ Unanswered gep) ∧
        collapsedAt geps outer n root = access := by
  have hfew : ¬ n < 2 := Nat.not_lt.mpr hmany
  rw [indexed]
  constructor
  · intro haccess
    obtain ⟨checked, hchecked, haccess⟩ := Library.exists_of_bind haccess
    obtain ⟨hcounted, rfl⟩ := (checkCollapse_iff hmulti h).mp hchecked
    rw [if_neg hfew] at haccess
    exact ⟨hcounted, Except.ok.inj haccess⟩
  · rintro ⟨hcounted, rfl⟩
    rw [(checkCollapse_iff hmulti h).mpr ⟨hcounted, rfl⟩, if_neg hfew]
    rfl

end Access

lemma indexesAnswered_iff {address : ArrayAddress} {geps : List GetElementPtr} {outer parallelIdx : Option String}
    (hloop : getOMPParallelLoopIndex address = .ok parallelIdx) (hgep : outer = none → address.gep ∈ geps) :
    (∃ access, indexed geps outer = .ok access ∧ ¬ Fails (compared address access parallelIdx)) ↔
      IndexesAnswered address geps outer := by
  by_cases hmulti : (ArrayAccess.of geps outer).isMultiDim
  · obtain ⟨n, root, hcollapses⟩ := exists_collapses "" geps
    have hunique : ∀ m other, Collapses "" geps m other → m = n ∧ other = root :=
      fun m other h => h.unique hcollapses
    by_cases hfew : n < 2
    · simp only [indexed_apart hmulti hcollapses hfew]
      constructor
      · rintro ⟨_, ⟨hcounted, kept, hkept, rfl⟩, h⟩
        have hall : ∀ gep ∈ geps, ¬ Unanswered gep := by
          intro gep hmem
          exact not_fails_isOmpRelevant.mp (not_fails_filterM.mp (not_fails_iff.mpr ⟨kept, hkept⟩) gep hmem)
        rw [compared_apart (fun gep hmem => hall gep (ArrayAccess.filterM_subset hkept hmem))
            (fun hnone => hall _ (hgep hnone)),
          isSome_iff_loopNamed hloop] at h
        refine ⟨fun h' => absurd hmulti h', fun _ m other gep hm => ?_, fun _ m other hm _ => ⟨hall, ?_⟩,
          fun _ m other hm hmany => ?_⟩
        · obtain ⟨rfl, -⟩ := hunique m other hm
          exact hcounted gep
        · rintro hsome ⟨gep, hmem, hrelevant⟩
          exact h hsome (List.ne_nil_of_mem ((mem_filterM hkept gep).mpr ⟨hmem, hrelevant⟩))
        · obtain ⟨rfl, -⟩ := hunique m other hm
          omega
      · intro h
        obtain ⟨hall, hnamed⟩ := h.apart hmulti n root hcollapses hfew
        obtain ⟨kept, hkept⟩ := not_fails_iff.mp
          (not_fails_filterM.mpr fun gep hmem => not_fails_isOmpRelevant.mpr (hall gep hmem))
        refine ⟨_, ⟨fun gep => h.counted hmulti n root gep hcollapses, kept, hkept, rfl⟩, ?_⟩
        rw [compared_apart (fun gep hmem => hall gep (ArrayAccess.filterM_subset hkept hmem))
            (fun hnone => hall _ (hgep hnone)),
          isSome_iff_loopNamed hloop]
        intro hsome hne
        obtain ⟨gep, hmem⟩ := List.exists_mem_of_ne_nil kept hne
        exact hnamed hsome ⟨gep, (mem_filterM hkept gep).mp hmem⟩
    · have hmany : 2 ≤ n := Nat.not_lt.mp hfew
      simp only [indexed_collapsed hmulti hcollapses hmany]
      constructor
      · rintro ⟨_, ⟨hcounted, rfl⟩, h⟩
        obtain ⟨name, hname, hinner⟩ := (compared_collapsed hmulti).mp h
        refine ⟨fun h' => absurd hmulti h', fun _ m other gep hm => ?_, fun _ m other hm hless => ?_,
          fun _ m other hm _ => ⟨name, (loopNamed_iff hloop).mp hname, ?_⟩⟩
        · obtain ⟨rfl, -⟩ := hunique m other hm
          exact hcounted gep
        · obtain ⟨rfl, -⟩ := hunique m other hm
          omega
        · obtain ⟨rfl, rfl⟩ := hunique m other hm
          exact hinner
      · intro h
        obtain ⟨name, hnamed, hinner⟩ := h.collapsed hmulti n root hcollapses hmany
        refine ⟨_, ⟨fun gep => h.counted hmulti n root gep hcollapses, rfl⟩, ?_⟩
        exact (compared_collapsed hmulti).mpr ⟨name, (loopNamed_iff hloop).mpr hnamed, hinner⟩
  · simp only [indexed_single hmulti, Except.ok.injEq]
    constructor
    · rintro ⟨_, rfl, h⟩
      have hsingle := (compared_single hmulti).mp h
      exact ⟨fun _ => hsingle, fun h' => absurd h' hmulti, fun h' => absurd h' hmulti, fun h' => absurd h' hmulti⟩
    · intro h
      exact ⟨_, rfl, (compared_single hmulti).mpr (h.single hmulti)⟩

/-- The analysis comes to a verdict on just the accesses whose indices can all be asked for their names, where they are
asked, and whose parallel loop has a variable, where one is compared with. -/
theorem verdict_iff (address : ArrayAddress) :
    (∃ verdict, getAccessTypeFor address = .ok verdict) ↔ Answerable address := by
  rw [← not_fails_iff, not_fails_getAccessTypeFor]
  have hgep : ∀ geps outer, Leaves (address.gep :: address.bases) geps outer → outer = none → address.gep ∈ geps := by
    rintro geps outer hleaves rfl
    cases hleaves
    exact List.mem_cons_self
  constructor
  · rintro ⟨geps, outer, parallelIdx, hcompute, hloop, h⟩
    obtain ⟨hleaves, houtermost⟩ := computeOuterMost_iff.mp hcompute
    refine ⟨houtermost, loopIndex_iff.mp ⟨parallelIdx, hloop⟩, fun geps' outer' hleaves' => ?_⟩
    have heq := hcompute.symm.trans (computeOuterMost_iff.mpr ⟨hleaves', houtermost⟩)
    cases heq
    exact (indexesAnswered_iff hloop (hgep geps outer hleaves)).mp h
  · intro h
    obtain ⟨parallelIdx, hloop⟩ := loopIndex_iff.mpr h.front
    obtain ⟨geps, outer, hleaves⟩ := exists_leaves (address.gep :: address.bases)
    exact ⟨geps, outer, parallelIdx, computeOuterMost_iff.mpr ⟨hleaves, h.outermost⟩, hloop,
      (indexesAnswered_iff hloop (hgep geps outer hleaves)).mpr (h.indexes geps outer hleaves)⟩

namespace UnansweredIndexes

def zext : GetElementPtr :=
  { name := "arrayidx.i", pointee := .array, indices := [.constant 0],
    lastIndex := .cast "idxprom.i" .zext 64 (.phi ".omp.iv.i") }

def zextAddress : ArrayAddress where
  function := 0
  gep := zext
  bases := []
  parent := { name := "omp.inner.for.body.i", frontPhi := some ".omp.iv.i" }
  earlier := []

/-- An access `a[i][j]` in collapsed loops, under a condition. -/
def branchAddress : ArrayAddress where
  function := 0
  gep := CollapsedPair.inner
  bases := [CollapsedPair.outer]
  parent := { name := "if.then.i", frontPhi := none }
  earlier := [{ name := "omp.inner.for.body.i", frontPhi := some ".omp.iv.011.i" }]

theorem verdictless : getAccessTypeFor zextAddress = .error .notSExt ∧
    getAccessTypeFor branchAddress = .error .badOptionalAccess ∧
      ¬ ∀ address, ∃ verdict, getAccessTypeFor address = .ok verdict := by
  have hzext : getAccessTypeFor zextAddress = .error .notSExt := by decide +kernel
  refine ⟨hzext, by decide +kernel, fun h => ?_⟩
  obtain ⟨verdict, hverdict⟩ := h zextAddress
  rw [hzext] at hverdict
  cases hverdict

end UnansweredIndexes

end OpenRace
