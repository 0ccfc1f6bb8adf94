import OpenRace.Analysis.IndexNames

/-! The indices that are left out of the check of an access in collapsed loops. -/

namespace OpenRace

open LLVM

def SharesRoot (root : String) (gep : GetElementPtr) : Prop :=
  getIndexType gep.lastIndex = .idxprom ∧ getInductionVarName gep = .ok (some root)

namespace ArrayAccess

/-- The position is among the last ones, which are popped before the inner indices are checked. -/
def Pops (access : ArrayAccess) (k : ℕ) : Prop := access.geps.length ≤ k + access.collapseLevel

structure ChecksAllOthers (access : ArrayAccess) (root : String) : Prop where
  popped : ∀ k gep, access.geps[k]? = some gep → (access.Pops k ↔ SharesRoot root gep)
  checked : ∀ parallelIdx, getAccessTypeForMultiDim access parallelIdx = .ok .noRace →
    ∀ gep ∈ access.geps, ¬ SharesRoot root gep → isPerfectlyAligned gep parallelIdx true = .ok true

def withOuterMost (access : ArrayAccess) (outerMostIdxName : Option String) : ArrayAccess :=
  { access with outerMostIdxName }

section Count

/-- The last index that is counted has the root, and the one that ends the count does not. -/
structure CountedFrom (geps : List GetElementPtr) (rootIdx : String) (i level : ℕ) (root : String) : Prop where
  le : i ≤ level
  bounded : level ≤ i + geps.length
  unchanged : level = i → root = rootIdx
  last : ∀ n, level = i + n + 1 → ∃ gep, geps[n]? = some gep ∧ SharesRoot root gep
  ended : ∀ gep, geps[level - i]? = some gep → ¬ SharesRoot root gep

lemma CountedFrom.stop {geps : List GetElementPtr} {rootIdx : String} {i : ℕ}
    (h : ∀ gep, geps.head? = some gep → ¬ SharesRoot rootIdx gep) : CountedFrom geps rootIdx i i rootIdx where
  le := Nat.le_refl i
  bounded := Nat.le_add_right _ _
  unchanged _ := rfl
  last n hn := by omega
  ended gep hgep := by
    rw [Nat.sub_self, ← List.head?_eq_getElem?] at hgep
    exact h gep hgep

lemma CountedFrom.next {gep : GetElementPtr} {rest : List GetElementPtr} {rootIdx idxName root : String}
    {i level : ℕ} (htype : getIndexType gep.lastIndex = .idxprom)
    (hname : getInductionVarName gep = .ok (some idxName))
    (h : CountedFrom rest idxName (i + 1) level root) : CountedFrom (gep :: rest) rootIdx i level root where
  le := Nat.le_of_succ_le h.le
  bounded := by
    have hbound := h.bounded
    rw [List.length_cons]
    omega
  unchanged hlevel := by
    have hle := h.le
    omega
  last n hn := by
    cases n with
    | zero =>
      refine ⟨gep, rfl, htype, ?_⟩
      rw [h.unchanged hn, hname]
    | succ n => exact h.last n (by omega)
  ended other hother := by
    obtain ⟨n, hn⟩ := Nat.exists_eq_add_of_le h.le
    apply h.ended other
    rw [show level - i = n + 1 by omega, List.getElem?_cons_succ] at hother
    rwa [show level - (i + 1) = n by omega]

lemma countedFrom_of_countCollapsed {geps : List GetElementPtr} {rootIdx root : String} {i level : ℕ}
    (h : countCollapsed rootIdx i geps = .ok (level, root)) : CountedFrom geps rootIdx i level root := by
  induction geps generalizing rootIdx i with
  | nil =>
    cases h
    exact CountedFrom.stop (fun gep hgep => by cases hgep)
  | cons gep rest ih =>
    have hstop : ¬ SharesRoot rootIdx gep → Except.ok (i, rootIdx) = Except.ok (ε := IndexError) (level, root) →
        CountedFrom (gep :: rest) rootIdx i level root := by
      rintro hgep heq
      cases heq
      apply CountedFrom.stop
      rintro _ ⟨⟩
      exact hgep
    rw [countCollapsed] at h
    by_cases htype : getIndexType gep.lastIndex = .idxprom
    · rw [if_neg (by simp [htype])] at h
      obtain ⟨answer, hanswer, h⟩ := Library.exists_of_bind h
      cases answer with
      | none => exact hstop (fun hgep => by simp [hgep.2] at hanswer) h
      | some idxName =>
        dsimp only at h
        by_cases hempty : (rootIdx == "") = true
        · rw [if_pos hempty] at h
          exact (ih h).next htype hanswer
        · rw [if_neg hempty] at h
          by_cases hroot : rootIdx = idxName
          · subst hroot
            rw [if_neg (by simp)] at h
            exact (ih h).next htype hanswer
          · rw [if_pos (by simpa using hroot)] at h
            exact hstop (fun hgep => hroot (by simpa [hanswer] using hgep.2.symm)) h
    · rw [if_pos (by simpa using htype)] at h
      exact hstop (fun hgep => htype hgep.1) h

end Count

section Checked

variable {geps : List GetElementPtr} {outerMostIdxName : Option String} {access : ArrayAccess} {root : String}

lemma collapse_of_check (h : ArrayAccess.checkCollapse { geps, outerMostIdxName } = .ok access)
    (hroot : access.collapseRootIdx = some root) : ∃ level, CountedFrom geps "" 0 level root ∧ 2 ≤ level ∧
      access.geps = geps ∧ access.collapseLevel = if level = geps.length then level else level - 1 := by
  rw [checkCollapse] at h
  split at h
  · cases h
    cases hroot
  · obtain ⟨⟨level, rootIdx⟩, hcount, h⟩ := Library.exists_of_bind h
    dsimp only at h
    split at h
    · cases h
      cases hroot
    · next hmany =>
      cases h
      cases hroot
      exact ⟨level, countedFrom_of_countCollapsed hcount, by omega, rfl, by simp⟩

lemma aligned_of_checkInner {parallelIdx : Option String} {inner : List GetElementPtr}
    (h : checkInner parallelIdx inner = .ok .noRace) {gep : GetElementPtr} (hgep : gep ∈ inner) :
    isPerfectlyAligned gep parallelIdx true = .ok true := by
  induction inner with
  | nil => cases hgep
  | cons innerIdx rest ih =>
    rw [checkInner] at h
    obtain ⟨aligned, haligned, h⟩ := Library.exists_of_bind h
    cases aligned with
    | false => cases h
    | true =>
      rcases List.mem_cons.mp hgep with rfl | hrest
      · exact haligned
      · exact ih h hrest

lemma aligned_of_not_pops (hroot : access.collapseRootIdx = some root) {parallelIdx : Option String}
    (h : getAccessTypeForMultiDim access parallelIdx = .ok .noRace) {k : ℕ} {gep : GetElementPtr}
    (hgep : access.geps[k]? = some gep) (hk : ¬ access.Pops k) :
    isPerfectlyAligned gep parallelIdx true = .ok true := by
  rw [getAccessTypeForMultiDim, hroot] at h
  obtain ⟨aligned, -, h⟩ := Library.exists_of_bind h
  cases aligned with
  | false => cases h
  | true =>
    apply aligned_of_checkInner h
    rw [Pops, Nat.not_le] at hk
    have hlast := List.getElem?_eq_some_iff.mp hgep
    rw [List.drop_reverse, List.mem_reverse, List.mem_iff_getElem?]
    exact ⟨k, by rw [List.getElem?_take_of_lt (by omega), hgep]⟩

end Checked

end ArrayAccess

/-- What is popped is what was counted only if all indices were; where there is a root, the outermost index that was
taken off the list is not looked at either. -/
theorem checks_all_others_iff {geps : List GetElementPtr} {outerMostIdxName : Option String} {access : ArrayAccess}
    {root : String} (h : ArrayAccess.checkCollapse { geps, outerMostIdxName } = .ok access)
    (hroot : access.collapseRootIdx = some root) :
    (access.ChecksAllOthers root ↔ ∀ gep ∈ geps, SharesRoot root gep) ∧
      ∀ name parallelIdx, getAccessTypeForMultiDim (access.withOuterMost name) parallelIdx =
        getAccessTypeForMultiDim access parallelIdx := by
  obtain ⟨level, hcount, hmany, rfl, hlevel⟩ := ArrayAccess.collapse_of_check h hroot
  constructor
  · constructor
    · intro hchecks
      by_cases hall : level = access.geps.length
      · rw [if_pos hall] at hlevel
        intro gep hgep
        obtain ⟨k, hk⟩ := List.mem_iff_getElem?.mp hgep
        exact (hchecks.popped k gep hk).mp (by rw [ArrayAccess.Pops]; omega)
      · -- the last counted index has to be popped, and the next one must not be
        rw [if_neg hall] at hlevel
        have hbound := hcount.bounded
        obtain ⟨gep, hgep, hshares⟩ := hcount.last (level - 1) (by omega)
        have hlt : level < access.geps.length := by omega
        have hended := hcount.ended _ (List.getElem?_eq_getElem hlt)
        have hpopped := (hchecks.popped _ _ hgep).mpr hshares
        have hkept := mt (hchecks.popped _ _ (List.getElem?_eq_getElem hlt)).mp hended
        rw [ArrayAccess.Pops] at hpopped hkept
        omega
    · intro hall
      have hlength : level = access.geps.length := by
        by_contra hne
        have hlt : level < access.geps.length := by
          have hbound := hcount.bounded
          omega
        exact hcount.ended _ (List.getElem?_eq_getElem hlt) (hall _ (List.getElem_mem hlt))
      rw [if_pos hlength] at hlevel
      have hpopped : ∀ k gep, access.geps[k]? = some gep → (access.Pops k ↔ SharesRoot root gep) := by
        intro k gep hgep
        exact iff_of_true (by rw [ArrayAccess.Pops]; omega) (hall gep (List.mem_of_getElem? hgep))
      refine ⟨hpopped, fun parallelIdx hnoRace gep hgep hother => ?_⟩
      obtain ⟨k, hk⟩ := List.mem_iff_getElem?.mp hgep
      exact ArrayAccess.aligned_of_not_pops hroot hnoRace hk (mt (hpopped k gep hk).mp hother)
  · intro name parallelIdx
    rw [getAccessTypeForMultiDim, getAccessTypeForMultiDim, ArrayAccess.withOuterMost, hroot]

namespace CollapsedPair

def omp : IndexValue := .phi ".omp.iv.011.i"

def div : IndexValue := .binary "div.i" (.sdiv false) 32 omp (.constant 100)

def sub : IndexValue :=
  .binary "sub.i" (.add false false) 32 (.binary "" (.mul false false) 32 div (.constant (-100))) omp

def index (lastIndex : IndexValue) : GetElementPtr :=
  { name := "", pointee := .array, indices := [.constant 0], lastIndex }

def inner : GetElementPtr := index (.cast "idxprom7.i" .sext 64 sub)

def outer : GetElementPtr := index (.cast "idxprom.i" .sext 64 div)

/-- The loop around the collapsed two. -/
def outermost : GetElementPtr := index (.phi "indvars.iv.i")

def access (geps : List GetElementPtr) (collapseLevel : ℕ) : ArrayAccess :=
  { geps, outerMostIdxName := none, collapseLevel, collapseRootIdx := some ".omp.iv.011.i" }

instance (root : String) (gep : GetElementPtr) : Decidable (SharesRoot root gep) :=
  inferInstanceAs (Decidable (_ ∧ _))

theorem pair_checked : (access [inner, outer] 2).ChecksAllOthers ".omp.iv.011.i" := by
  have hcheck : ArrayAccess.checkCollapse { geps := [inner, outer], outerMostIdxName := none } =
      .ok (access [inner, outer] 2) := by decide +kernel
  exact (checks_all_others_iff hcheck rfl).1.mpr (by decide +kernel)

/-- With a third index it is the outermost one that is popped, which the collapsed loops do not index. -/
theorem outermost_popped :
    ArrayAccess.checkCollapse { geps := [inner, outer, outermost], outerMostIdxName := none } =
      .ok (access [inner, outer, outermost] 1) ∧
    ¬ (access [inner, outer, outermost] 1).ChecksAllOthers ".omp.iv.011.i" := by
  refine ⟨by decide +kernel, fun h => ?_⟩
  have hshares := (h.popped 2 outermost rfl).mp (Nat.le_refl 3)
  exact absurd hshares (by decide +kernel)

end CollapsedPair

end OpenRace
