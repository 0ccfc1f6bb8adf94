import OpenRace.Library.Failure
import OpenRace.Analysis.ArrayIndex
import Mathlib.Data.List.TakeDrop

/-! The names that the analysis of an array index answers with are names of the values it is computed from. -/

namespace OpenRace

open LLVM

def Named (geps : List GetElementPtr) (name : String) : Prop :=
  ∃ gep ∈ geps, gep.lastIndex.isArithmetic → ∃ value ∈ gep.lastIndex.subvalues, value.getName = name

lemma Named.mono {geps more : List GetElementPtr} {name : String} (h : Named geps name) (hsub : geps ⊆ more) :
    Named more name := by
  obtain ⟨gep, hgep, hnamed⟩ := h
  exact ⟨gep, hsub hgep, hnamed⟩

lemma mem_subvalues_self (value : IndexValue) : value ∈ value.subvalues := by
  cases value <;> simp [IndexValue.subvalues]

section NameOf

def NameQuery.isPlain : NameQuery → Bool
  | .loadedFrom _ => false
  | _ => true

def NamesOneOf (values : List IndexValue) (answer : Except IndexError (Option String)) : Prop :=
  ∀ name, answer = .ok (some name) → ∃ value ∈ values, value.getName = name

lemma namesOneOf_error (values : List IndexValue) (error : IndexError) : NamesOneOf values (.error error) := by
  intro name h
  cases h

lemma namesOneOf_none (values : List IndexValue) : NamesOneOf values (.ok none) := by
  intro name h
  cases h

lemma namesOneOf_name {values : List IndexValue} {value : IndexValue} (h : value ∈ values) :
    NamesOneOf values (.ok (some value.getName)) := by
  intro name hname
  cases hname
  exact ⟨value, h, rfl⟩

lemma NamesOneOf.mono {values more : List IndexValue} {answer : Except IndexError (Option String)}
    (h : NamesOneOf values answer) (hsub : values ⊆ more) : NamesOneOf more answer := by
  intro name hname
  obtain ⟨value, hvalue, heq⟩ := h name hname
  exact ⟨value, hsub hvalue, heq⟩

lemma namesOneOf_step {values : List IndexValue} {ir operand : IndexValue}
    {next forIdxprom : Except IndexError (Option String)} (hir : ir ∈ values) (hnext : NamesOneOf values next)
    (hidxprom : NamesOneOf values forIdxprom) : NamesOneOf values
    (computeIdxNameStep ir operand next forIdxprom) := by
  unfold computeIdxNameStep
  split_ifs
  · exact hnext
  · exact namesOneOf_name hir
  · exact hidxprom
  · exact hnext

lemma namesOneOf_mathOp {values : List IndexValue} {ir : IndexValue}
    {loop forIdxprom : Except IndexError (Option String)}
    {query : NameQuery} (hplain : query.isPlain) (hir : ir ∈ values) (hloop : NamesOneOf values loop)
    (hidxprom : NamesOneOf values forIdxprom) : NamesOneOf values (nameOfMathOp ir loop forIdxprom query) := by
  cases query with
  | loop => exact hloop
  | lastOperand =>
    simp only [nameOfMathOp]
    split
    · exact hloop
    · exact hloop
    · exact namesOneOf_name hir
    · exact hidxprom
    · exact namesOneOf_none values
  | idxpromOperand =>
    simp only [nameOfMathOp]
    split_ifs
    · exact namesOneOf_name hir
    · exact hloop
  | loadedFrom name => cases hplain

lemma namesOneOf_other (value : IndexValue) {query : NameQuery} (hplain : query.isPlain) :
    NamesOneOf [value] (nameOfOther value query) := by
  have hname : NamesOneOf [value] (.ok (some value.getName)) := namesOneOf_name (List.mem_singleton.2 rfl)
  cases query with
  | loop =>
    simp only [nameOfOther]
    split_ifs
    · exact hname
    · exact namesOneOf_none _
  | lastOperand =>
    simp only [nameOfOther]
    split
    · exact hname
    · exact namesOneOf_error _ _
    · exact namesOneOf_none _
  | idxpromOperand =>
    simp only [nameOfOther]
    split_ifs
    · exact hname
    · exact namesOneOf_none _
  | loadedFrom name => cases hplain

lemma namesOneOf_nameOf (value : IndexValue) (query : NameQuery) (harith : value.isArithmetic)
    (hplain : query.isPlain) : NamesOneOf value.subvalues (nameOf value query) := by
  induction value generalizing query with
  | constant value => exact namesOneOf_other (.constant value) hplain
  | phi name => exact namesOneOf_other (.phi name) hplain
  | binary name op width lhs rhs ihlhs ihrhs =>
    simp only [IndexValue.isArithmetic, Bool.and_eq_true] at harith
    have hlhs : NamesOneOf (IndexValue.binary name op width lhs rhs).subvalues (nameOf lhs .loop) := by
      apply (ihlhs .loop harith.1 rfl).mono
      intro value hvalue
      simp [IndexValue.subvalues, hvalue]
    have hrhs : NamesOneOf (IndexValue.binary name op width lhs rhs).subvalues (nameOf rhs .loop) := by
      apply (ihrhs .loop harith.2 rfl).mono
      intro value hvalue
      simp [IndexValue.subvalues, hvalue]
    have hself := mem_subvalues_self (.binary name op width lhs rhs)
    simp only [nameOf]
    apply namesOneOf_mathOp hplain hself ?_ (namesOneOf_error _ _)
    split_ifs
    · exact namesOneOf_step hself hlhs (namesOneOf_error _ _)
    · exact namesOneOf_step hself hrhs (namesOneOf_error _ _)
    · exact namesOneOf_error _ _
  | cast name op width operand ih =>
    simp only [IndexValue.isArithmetic] at harith
    have hsub : operand.subvalues ⊆ (IndexValue.cast name op width operand).subvalues := by
      intro value hvalue
      simp [IndexValue.subvalues, hvalue]
    have hself := mem_subvalues_self (.cast name op width operand)
    have hidxprom : NamesOneOf (IndexValue.cast name op width operand).subvalues
        (if op == .sext then nameOf operand .idxpromOperand else .error .notSExt) := by
      split_ifs
      · exact (ih .idxpromOperand harith rfl).mono hsub
      · exact namesOneOf_error _ _
    have hmath : NamesOneOf (IndexValue.cast name op width operand).subvalues
        (nameOfMathOp (.cast name op width operand)
          (if !operand.isConstant then
            computeIdxNameStep (.cast name op width operand) operand (nameOf operand .loop)
              (if op == .sext then nameOf operand .idxpromOperand else .error .notSExt)
          else .error .constantOperands)
          (if op == .sext then nameOf operand .idxpromOperand else .error .notSExt) query) := by
      apply namesOneOf_mathOp hplain hself ?_ hidxprom
      by_cases hconstant : (!operand.isConstant) = true
      · rw [if_pos hconstant]
        exact namesOneOf_step hself ((ih .loop harith rfl).mono hsub) hidxprom
      · rw [if_neg hconstant]
        exact namesOneOf_error _ _
    cases query with
    | loadedFrom name => cases hplain
    | _ => simpa only [nameOf] using hmath
  | _ => cases harith

end NameOf

lemma named_of_inductionVarName {gep : GetElementPtr} {name : String}
    (h : getInductionVarName gep = .ok (some name)) : Named [gep] name :=
  ⟨gep, List.mem_singleton.2 rfl, fun harith => namesOneOf_nameOf gep.lastIndex .lastOperand harith rfl name h⟩

lemma named_of_computeIdxName {gep : GetElementPtr} {name : String}
    (h : computeIdxName gep.lastIndex = .ok (some name)) : Named [gep] name := by
  unfold computeIdxName at h
  split_ifs at h with hmath
  · exact ⟨gep, List.mem_singleton.2 rfl, fun harith => namesOneOf_nameOf gep.lastIndex .loop harith rfl name h⟩
  · cases h

structure ArrayAccess.NamedIn (access : ArrayAccess) (all : List GetElementPtr) : Prop where
  geps : access.geps ⊆ all
  outerMost : ∀ name, access.outerMostIdxName = some name → Named all name
  collapseRoot : ∀ name, access.collapseRootIdx = some name → Named all name

namespace ArrayAccess

lemma findOuterMost_eq {geps before after : List GetElementPtr} {gep : GetElementPtr}
    (h : findOuterMost geps = some (before, gep, after)) : geps = before ++ gep :: after := by
  unfold findOuterMost at h
  have hspan := List.span_eq_takeWhile_dropWhile (p := fun gep => getIndexType gep.lastIndex == .idxprom)
    geps.reverse
  rw [hspan] at h
  have happend := List.takeWhile_append_dropWhile (p := fun gep => getIndexType gep.lastIndex == .idxprom)
    (l := geps.reverse)
  split at h
  · cases h
  · rename_i taken gep' rest heq
    simp only [Option.some.injEq, Prod.mk.injEq] at h
    obtain ⟨rfl, rfl, rfl⟩ := h
    simp only [Prod.mk.injEq] at heq
    rw [heq.1, heq.2] at happend
    have hreverse := congrArg List.reverse happend
    simpa using hreverse.symm

lemma computeOuterMost_spec {geps left : List GetElementPtr} {outerMost : Option String}
    (h : computeOuterMostGEPIdxName geps = .ok (left, outerMost)) :
    left ⊆ geps ∧ ∀ name, outerMost = some name → Named geps name := by
  unfold computeOuterMostGEPIdxName at h
  cases hfind : findOuterMost geps with
  | none =>
    rw [hfind] at h
    cases h
    exact ⟨List.Subset.refl _, fun name hname => by cases hname⟩
  | some found =>
    obtain ⟨before, gep, after⟩ := found
    have heq := findOuterMost_eq hfind
    have hwhole : (geps, (none : Option String)) = (left, outerMost) →
        left ⊆ geps ∧ ∀ name, outerMost = some name → Named geps name := by
      intro h
      cases h
      exact ⟨List.Subset.refl _, fun name hname => by cases hname⟩
    rw [hfind] at h
    simp only at h
    by_cases hinstruction : (!gep.lastIndex.isInstruction) = true
    · rw [if_pos hinstruction] at h
      exact hwhole (by injection h)
    rw [if_neg hinstruction] at h
    obtain ⟨answer, hanswer, h⟩ := Library.exists_of_bind h
    cases answer with
    | none => exact hwhole (by injection h)
    | some name =>
      simp only at h
      split_ifs at h with hrelevant
      · cases h
        subst heq
        refine ⟨fun other hother => ?_, fun name' hname' => ?_⟩
        · rcases List.mem_append.1 hother with hbefore | hafter
          · exact List.mem_append_left _ hbefore
          · exact List.mem_append_right _ (List.mem_cons_of_mem _ hafter)
        · cases hname'
          exact (named_of_computeIdxName hanswer).mono (by simp)
      · exact hwhole (by injection h)

lemma countCollapsed_spec {all geps : List GetElementPtr} {rootIdx root : String} {i level : ℕ}
    (h : countCollapsed rootIdx i geps = .ok (level, root)) (hsub : geps ⊆ all)
    (hroot : i = 0 ∨ Named all rootIdx) : level = 0 ∨ Named all root := by
  induction geps generalizing rootIdx i with
  | nil =>
    cases h
    exact hroot
  | cons gep rest ih =>
    have hrest : rest ⊆ all := fun other hother => hsub (List.mem_cons_of_mem _ hother)
    have hstop : Except.ok (i, rootIdx) = Except.ok (ε := IndexError) (level, root) → level = 0 ∨ Named all root := by
      intro h
      cases h
      exact hroot
    unfold countCollapsed at h
    by_cases hidxprom : (getIndexType gep.lastIndex != .idxprom) = true
    · rw [if_pos hidxprom] at h
      exact hstop h
    rw [if_neg hidxprom] at h
    obtain ⟨answer, hanswer, h⟩ := Library.exists_of_bind h
    cases answer with
    | none => exact hstop h
    | some idxName =>
      have hnamed : Named all idxName := (named_of_inductionVarName hanswer).mono (by simpa using hsub (by simp))
      simp only at h
      split_ifs at h with hfirst hother
      · exact ih h hrest (Or.inr hnamed)
      · exact hstop h
      · have heq : rootIdx = idxName := by simpa using hother
        exact ih h hrest (Or.inr (heq ▸ hnamed))

lemma checkCollapse_spec {access checked : ArrayAccess} {all : List GetElementPtr}
    (h : checkCollapse access = .ok checked) (hnamed : access.NamedIn all) : checked.NamedIn all := by
  unfold checkCollapse at h
  by_cases hmulti : (!access.isMultiDim) = true
  · rw [if_pos hmulti] at h
    cases h
    exact hnamed
  rw [if_neg hmulti] at h
  obtain ⟨⟨i, rootIdx⟩, hcount, h⟩ := Library.exists_of_bind h
  by_cases hfew : i < 2
  · simp only [if_pos hfew] at h
    cases h
    exact hnamed
  · simp only [if_neg hfew] at h
    cases h
    refine ⟨hnamed.geps, hnamed.outerMost, fun name hname => ?_⟩
    cases hname
    rcases countCollapsed_spec hcount hnamed.geps (Or.inl rfl) with hzero | hnamed
    · omega
    · exact hnamed

lemma filterAuxM_subset {geps acc kept all : List GetElementPtr}
    (h : List.filterAuxM isOmpRelevant geps acc = .ok kept) (hgeps : geps ⊆ all) (hacc : acc ⊆ all) : kept ⊆ all := by
  induction geps generalizing acc with
  | nil =>
    cases h
    exact hacc
  | cons gep rest ih =>
    obtain ⟨relevant, -, h⟩ := Library.exists_of_bind h
    have hrest : rest ⊆ all := fun other hother => hgeps (List.mem_cons_of_mem _ hother)
    cases relevant with
    | true => exact ih h hrest (List.cons_subset.2 ⟨hgeps List.mem_cons_self, hacc⟩)
    | false => exact ih h hrest hacc

lemma filterM_subset {geps kept : List GetElementPtr} (h : geps.filterM isOmpRelevant = .ok kept) : kept ⊆ geps := by
  obtain ⟨reversed, hreversed, h⟩ := Library.exists_of_bind h
  cases h
  have hsub := filterAuxM_subset hreversed (List.Subset.refl _) (List.nil_subset _)
  exact fun gep hgep => hsub (List.mem_reverse.1 hgep)

lemma removeOMPIrrelevantGEP_spec {access kept : ArrayAccess} {all : List GetElementPtr}
    (h : removeOMPIrrelevantGEP access = .ok kept) (hnamed : access.NamedIn all) : kept.NamedIn all := by
  unfold removeOMPIrrelevantGEP at h
  by_cases hmulti : (!access.isMultiDim) = true
  · rw [if_pos hmulti] at h
    cases h
    exact hnamed
  rw [if_neg hmulti] at h
  obtain ⟨geps, hgeps, h⟩ := Library.exists_of_bind h
  cases h
  exact ⟨fun gep hgep => hnamed.geps (filterM_subset hgeps hgep), hnamed.outerMost, hnamed.collapseRoot⟩

end ArrayAccess

lemma getAllGEPIndexes_spec {address : ArrayAddress} {access : ArrayAccess}
    (h : getAllGEPIndexes address = .ok access) : access.NamedIn (address.gep :: address.bases) := by
  unfold getAllGEPIndexes at h
  obtain ⟨⟨geps, outerMost⟩, houterMost, h⟩ := Library.exists_of_bind h
  obtain ⟨checked, hchecked, h⟩ := Library.exists_of_bind h
  obtain ⟨hsub, hname⟩ := ArrayAccess.computeOuterMost_spec houterMost
  have hnamed := ArrayAccess.checkCollapse_spec hchecked ⟨hsub, hname, fun name hname => by cases hname⟩
  by_cases hcollapse : checked.hasCollapse = true
  · rw [if_pos hcollapse] at h
    cases h
    exact hnamed
  · rw [if_neg hcollapse] at h
    exact ArrayAccess.removeOMPIrrelevantGEP_spec h hnamed

section NoRace

variable {parallelIdx : Option String} {all : List GetElementPtr}

lemma named_of_alignedName {idxName : String} (h : isPerfectlyAlignedName idxName parallelIdx false = .ok true)
    (hnamed : Named all idxName) : ∃ name, parallelIdx = some name ∧ Named all name := by
  cases parallelIdx with
  | none => cases h
  | some name =>
    have heq : name = idxName := by simpa [isPerfectlyAlignedName] using h
    exact ⟨name, rfl, heq ▸ hnamed⟩

lemma named_of_aligned {gep : GetElementPtr} (h : isPerfectlyAligned gep parallelIdx false = .ok true)
    (hgep : gep ∈ all) : ∃ name, parallelIdx = some name ∧ Named all name := by
  unfold isPerfectlyAligned at h
  obtain ⟨answer, hanswer, h⟩ := Library.exists_of_bind h
  split at h
  · exact named_of_alignedName h ((named_of_inductionVarName hanswer).mono (by simpa using hgep))
  · cases h

lemma noRace_multiDim {access : ArrayAccess} (h : getAccessTypeForMultiDim access parallelIdx = .ok .noRace)
    (hmulti : access.isMultiDim) (hnamed : access.NamedIn all) :
    ∃ name, parallelIdx = some name ∧ Named all name := by
  unfold getAccessTypeForMultiDim at h
  cases hroot : access.collapseRootIdx with
  | some rootIdx =>
    rw [hroot] at h
    obtain ⟨aligned, haligned, h⟩ := Library.exists_of_bind h
    cases aligned with
    | true => exact named_of_alignedName haligned (hnamed.collapseRoot rootIdx hroot)
    | false => cases h
  | none =>
    rw [hroot] at h
    cases houterMost : access.outerMostIdxName with
    | some outerMostIdx =>
      rw [houterMost] at h
      obtain ⟨aligned, haligned, h⟩ := Library.exists_of_bind h
      cases aligned with
      | true => exact named_of_alignedName haligned (hnamed.outerMost outerMostIdx houterMost)
      | false => cases h
    | none =>
      rw [houterMost] at h
      simp only at h
      split at h
      · rename_i hgeps
        simp only [List.reverse_eq_nil_iff] at hgeps
        simp [ArrayAccess.isMultiDim, houterMost, hgeps] at hmulti
      · rename_i idx inner hgeps
        obtain ⟨aligned, haligned, h⟩ := Library.exists_of_bind h
        cases aligned with
        | true =>
          apply named_of_aligned haligned
          apply hnamed.geps
          rw [← List.mem_reverse, hgeps]
          exact List.mem_cons_self
        | false => cases h

lemma named_of_noRace {address : ArrayAddress} (h : getAccessTypeFor address = .ok .noRace) :
    ∃ name, getOMPParallelLoopIndex address = .ok (some name) ∧ Named (address.gep :: address.bases) name := by
  unfold getAccessTypeFor at h
  obtain ⟨access, haccess, h⟩ := Library.exists_of_bind h
  obtain ⟨parallelIdx, hparallel, h⟩ := Library.exists_of_bind h
  have hnamed := getAllGEPIndexes_spec haccess
  suffices hname : ∃ name, parallelIdx = some name ∧ Named (address.gep :: address.bases) name by
    obtain ⟨name, rfl, hname⟩ := hname
    exact ⟨name, hparallel, hname⟩
  by_cases hmulti : access.isMultiDim = true
  · rw [if_pos hmulti] at h
    exact noRace_multiDim h hmulti hnamed
  rw [if_neg hmulti] at h
  cases houterMost : access.outerMostIdxName with
  | some name =>
    rw [houterMost] at h
    simp only [Option.isSome_some, if_true] at h
    split_ifs at h with heq
    · exact ⟨name, heq, hnamed.outerMost name houterMost⟩
    · cases h
  | none =>
    rw [houterMost] at h
    obtain ⟨aligned, haligned, h⟩ := Library.exists_of_bind h
    cases aligned with
    | true => exact named_of_aligned haligned List.mem_cons_self
    | false => cases h

end NoRace

end OpenRace
