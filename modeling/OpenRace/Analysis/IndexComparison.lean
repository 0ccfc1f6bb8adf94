import OpenRace.Analysis.NamedIndexes

/-! When the indices of an array access can be compared with the variable of the parallel loop. -/

namespace OpenRace

open LLVM Library

def InnerAnswered : List GetElementPtr → Prop
  | [] => True
  | gep :: rest => ¬ Unanswered gep ∧
      ((∃ name, getInductionVarName gep = .ok (some name) ∧ getNameType name = .indvars) → InnerAnswered rest)

/-- The block of the access names the variable of the parallel loop, or is in a loop after a block that does. -/
inductive LoopNamed (address : ArrayAddress) (name : String) : Prop
  | front : getBasicBlockType address.parent.name = .ompInnerForBody → address.parent.frontPhi = some name →
      LoopNamed address name
  | found : getBasicBlockType address.parent.name = .forBody →
      findLoopPhi (address.parent :: address.earlier) = some name → LoopNamed address name

section Steps

variable {gep : GetElementPtr} {geps : List GetElementPtr} {parallelIdx : Option String}

lemma not_fails_isOmpRelevant : ¬ Fails (isOmpRelevant gep) ↔ ¬ Unanswered gep := by
  rw [← not_fails_getInductionVarName, isOmpRelevant, not_fails_bind, not_fails_iff]
  refine exists_congr fun name => and_iff_left ?_
  cases name <;> exact not_fails_ok _

lemma not_fails_isPerfectlyAligned (isInnerIdx : Bool) :
    ¬ Fails (isPerfectlyAligned gep parallelIdx isInnerIdx) ↔ ¬ Unanswered gep := by
  rw [← not_fails_getInductionVarName, isPerfectlyAligned, not_fails_bind, not_fails_iff]
  refine exists_congr fun name => and_iff_left ?_
  cases name with
  | none => exact not_fails_ok _
  | some name =>
    cases parallelIdx with
    | none => exact not_fails_ok _
    | some parallelIdx => cases isInnerIdx <;> exact not_fails_ok _

lemma not_fails_checkInner (h : ∀ gep ∈ geps, ¬ Unanswered gep) : ¬ Fails (checkInner parallelIdx geps) := by
  induction geps with
  | nil => exact not_fails_ok _
  | cons gep rest ih =>
    obtain ⟨hgep, hrest⟩ := List.forall_mem_cons.mp h
    obtain ⟨aligned, haligned⟩ := not_fails_iff.mp ((not_fails_isPerfectlyAligned true).mpr hgep)
    rw [checkInner, not_fails_bind]
    refine ⟨aligned, haligned, ?_⟩
    cases aligned with
    | true => exact ih hrest
    | false => exact not_fails_ok _

lemma aligned_inner_iff (name : String) : isPerfectlyAligned gep (some name) true = .ok true ↔
    ∃ idxName, getInductionVarName gep = .ok (some idxName) ∧ getNameType idxName = .indvars := by
  rw [isPerfectlyAligned]
  cases hname : getInductionVarName gep with
  | error error => simp [bind, Except.bind]
  | ok idxName => cases idxName <;> simp [bind, Except.bind, isPerfectlyAlignedName, pure, Except.pure]

lemma innerAnswered_iff (name : String) : ¬ Fails (checkInner (some name) geps) ↔ InnerAnswered geps := by
  induction geps with
  | nil => exact iff_of_true (not_fails_ok _) trivial
  | cons gep rest ih =>
    rw [checkInner, not_fails_bind, InnerAnswered, ← aligned_inner_iff name, ← ih,
      ← not_fails_isPerfectlyAligned true]
    constructor
    · rintro ⟨aligned, haligned, h⟩
      rw [haligned]
      refine ⟨not_fails_ok _, fun htrue => ?_⟩
      cases htrue
      exact h
    · rintro ⟨hok, h⟩
      obtain ⟨aligned, haligned⟩ := not_fails_iff.mp hok
      refine ⟨aligned, haligned, ?_⟩
      cases aligned with
      | true => exact h haligned
      | false => exact not_fails_ok _

end Steps

section Loop

variable {address : ArrayAddress}

lemma loopNamed_iff {parallelIdx : Option String} (h : getOMPParallelLoopIndex address = .ok parallelIdx)
    {name : String} : parallelIdx = some name ↔ LoopNamed address name := by
  rw [getOMPParallelLoopIndex] at h
  constructor
  · rintro rfl
    cases htype : getBasicBlockType address.parent.name with
    | ompInnerForBody =>
      rw [htype] at h
      cases hfront : address.parent.frontPhi with
      | none => simp [hfront] at h
      | some phi =>
        simp only [hfront, Except.ok.injEq, Option.some.injEq] at h
        exact .front htype (by rw [hfront, h])
    | forBody =>
      rw [htype] at h
      exact .found htype (Except.ok.inj h)
    | forPreheader | unknown =>
      rw [htype] at h
      cases h
  · rintro (⟨htype, hfront⟩ | ⟨htype, hfound⟩)
    · simp only [htype, hfront, Except.ok.injEq] at h
      exact h.symm
    · simp only [htype, hfound, Except.ok.injEq] at h
      exact h.symm

lemma loopIndex_iff : (∃ parallelIdx, getOMPParallelLoopIndex address = .ok parallelIdx) ↔
    (getBasicBlockType address.parent.name = .ompInnerForBody → address.parent.frontPhi.isSome) := by
  rw [getOMPParallelLoopIndex]
  cases getBasicBlockType address.parent.name with
  | ompInnerForBody => cases address.parent.frontPhi <;> simp
  | _ => simp

lemma isSome_iff_loopNamed {parallelIdx : Option String} (h : getOMPParallelLoopIndex address = .ok parallelIdx) :
    parallelIdx.isSome ↔ ∃ name, LoopNamed address name := by
  rw [Option.isSome_iff_exists]
  exact exists_congr fun name => loopNamed_iff h

end Loop

section Compared

variable {address : ArrayAddress} {geps : List GetElementPtr} {outer parallelIdx : Option String} {n : ℕ}
  {root : String}

def ArrayAccess.of (geps : List GetElementPtr) (outer : Option String) : ArrayAccess :=
  { geps, outerMostIdxName := outer }

def collapsedAt (geps : List GetElementPtr) (outer : Option String) (n : ℕ) (root : String) : ArrayAccess where
  geps := geps
  outerMostIdxName := outer
  collapseLevel := if n == geps.length then n else n - 1
  collapseRootIdx := some root

def compared (address : ArrayAddress) (access : ArrayAccess) (parallelIdx : Option String) :
    Except IndexError AccessType := do
  if access.isMultiDim then getAccessTypeForMultiDim access parallelIdx
  else if access.outerMostIdxName.isSome then
    return if parallelIdx = access.outerMostIdxName then .noRace else .nd
  else
    return if ← isPerfectlyAligned address.gep parallelIdx false then .noRace else .nd

lemma compared_single (hmulti : ¬ (ArrayAccess.of geps outer).isMultiDim) :
    ¬ Fails (compared address (ArrayAccess.of geps outer) parallelIdx) ↔
      (outer = none → ¬ Unanswered address.gep) := by
  rw [compared, if_neg hmulti]
  cases outer with
  | some name => exact iff_of_true (not_fails_ok _) (fun h => by cases h)
  | none =>
    simp only [ArrayAccess.of, Option.isSome_none, Bool.false_eq_true, if_false, true_imp_iff]
    rw [not_fails_bind, ← not_fails_isPerfectlyAligned false, not_fails_iff]
    exact exists_congr fun aligned => and_iff_left (not_fails_ok _)

lemma compared_apart {kept : List GetElementPtr} (hkept : ∀ gep ∈ kept, ¬ Unanswered gep)
    (hgep : outer = none → ¬ Unanswered address.gep) :
    ¬ Fails (compared address (ArrayAccess.of kept outer) parallelIdx) ↔
      (outer.isSome → kept ≠ [] → parallelIdx.isSome) := by
  have hinner : ∀ inner, inner ⊆ kept → ¬ Fails (checkInner parallelIdx inner) :=
    fun inner hsub => not_fails_checkInner fun gep hmem => hkept gep (hsub hmem)
  by_cases hmulti : (ArrayAccess.of kept outer).isMultiDim
  · rw [compared, if_pos hmulti]
    cases outer with
    | some name =>
      have hne : kept ≠ [] := by
        rintro rfl
        cases hmulti
      have hverdict : getAccessTypeForMultiDim (ArrayAccess.of kept (some name)) parallelIdx = (do
          if !(← isPerfectlyAlignedName name parallelIdx false) then return .race
          checkInner parallelIdx kept.reverse) := rfl
      rw [hverdict, not_fails_bind]
      cases parallelIdx with
      | none => simp [isPerfectlyAlignedName, hne]
      | some idx =>
        refine iff_of_true ⟨_, rfl, ?_⟩ (fun _ _ => rfl)
        split_ifs
        · exact not_fails_ok _
        · exact hinner _ (by simp)
    | none =>
      refine iff_of_true ?_ (fun h => by cases h)
      simp only [getAccessTypeForMultiDim, ArrayAccess.of]
      cases hreverse : kept.reverse with
      | nil => exact not_fails_ok _
      | cons idx inner =>
        have hmem : ∀ gep ∈ idx :: inner, gep ∈ kept := by
          intro gep hgep
          rw [← hreverse] at hgep
          exact List.mem_reverse.mp hgep
        obtain ⟨aligned, haligned⟩ := not_fails_iff.mp ((not_fails_isPerfectlyAligned false).mpr
          (hkept idx (hmem idx List.mem_cons_self)))
        refine not_fails_bind.mpr ⟨aligned, haligned, ?_⟩
        cases aligned with
        | true => exact hinner inner (fun gep hgep => hmem gep (List.mem_cons_of_mem idx hgep))
        | false => exact not_fails_ok _
  · rw [compared_single hmulti]
    refine iff_of_true hgep fun hsome hne => absurd ?_ hmulti
    simpa [ArrayAccess.of, ArrayAccess.isMultiDim, hsome, List.length_pos_iff] using hne

lemma compared_collapsed (hmulti : (ArrayAccess.of geps outer).isMultiDim) :
    ¬ Fails (compared address (collapsedAt geps outer n root) parallelIdx) ↔ ∃ name, parallelIdx = some name ∧
      (name = root → InnerAnswered (geps.reverse.drop (if n = geps.length then n else n - 1))) := by
  have hverdict : compared address (collapsedAt geps outer n root) parallelIdx = (do
      if !(← isPerfectlyAlignedName root parallelIdx false) then return .race
      checkInner parallelIdx (geps.reverse.drop (if n == geps.length then n else n - 1))) := by
    rw [compared, if_pos]
    · rfl
    · exact hmulti
  rw [hverdict, not_fails_bind]
  cases parallelIdx with
  | none => simp [isPerfectlyAlignedName]
  | some name =>
    rw [← innerAnswered_iff name]
    by_cases heq : name = root
    · simp [isPerfectlyAlignedName, heq]
    · simp [isPerfectlyAlignedName, heq, pure, Except.pure]

end Compared

end OpenRace
