import OpenRace.Analysis.IndexNames
import OpenRace.LLVM.IndexEvaluation
import Mathlib.Data.BitVec
import Mathlib.Data.Fintype.Card

/-! Whether aligned indices keep the iterations of a parallel loop apart. -/

namespace OpenRace

open LLVM

variable {widthOf : String → ℕ}

section Operations

variable (widthOf) (parallelIdx : String)

def KeepsApart (width : ℕ) (operation : ℤ → Option ℤ) : Prop :=
  ∀ x x' : BitVec width, ∀ result, operation x.toInt = some result → operation x'.toInt = some result → x = x'

/-- The parallel loop's variable, with operations on it that separate their operands; other operands are constants. -/
inductive Lossless : IndexValue → Prop
  | phi : Lossless (.phi parallelIdx)
  | lhs {name : String} {op : BinaryOp} {width : ℕ} {lhs : IndexValue} {constant : ℤ} :
    Lossless lhs → KeepsApart (lhs.width widthOf) (fun x => op.apply width x constant) →
      Lossless (.binary name op width lhs (.constant constant))
  | rhs {name : String} {op : BinaryOp} {width : ℕ} {rhs : IndexValue} {constant : ℤ} :
    Lossless rhs → KeepsApart (rhs.width widthOf) (fun y => op.apply width constant y) →
      Lossless (.binary name op width (.constant constant) rhs)
  | cast {name : String} {op : CastOp} {width : ℕ} {operand : IndexValue} :
    Lossless operand → KeepsApart (operand.width widthOf)
      (fun x => some (op.apply (operand.width widthOf) width x)) → Lossless (.cast name op width operand)

inductive Total (variableName : String) : IndexValue → Prop
  | phi : Total variableName (.phi variableName)
  | lhs {name : String} {op : BinaryOp} {lhs : IndexValue} {constant : ℤ} : Total variableName lhs →
    (∀ x : BitVec (widthOf variableName), (op.eval x (BitVec.ofInt _ constant)).isSome) →
      Total variableName (.binary name op (widthOf variableName) lhs (.constant constant))
  | rhs {name : String} {op : BinaryOp} {rhs : IndexValue} {constant : ℤ} : Total variableName rhs →
    (∀ y : BitVec (widthOf variableName), (op.eval (BitVec.ofInt _ constant) y).isSome) →
      Total variableName (.binary name op (widthOf variableName) (.constant constant) rhs)

variable {widthOf} {parallelIdx} {valuation valuation' : Valuation widthOf} {index : IndexValue}

lemma separates_add (nuw nsw : Bool) (width : ℕ) (constant : ℤ) :
    KeepsApart width (fun x => (BinaryOp.add nuw nsw).apply width x constant) := by
  intro x x' result h h'
  simp only [BinaryOp.apply, BinaryOp.eval, definedUnless, BitVec.ofInt_toInt, Option.map_eq_some_iff,
    Option.ite_none_left_eq_some, Option.some.injEq] at h h'
  obtain ⟨_, ⟨-, rfl⟩, h⟩ := h
  obtain ⟨_, ⟨-, rfl⟩, h'⟩ := h'
  exact BitVec.add_left_inj _ |>.1 (BitVec.toInt_inj.1 (h.trans h'.symm))

lemma Lossless.eval_toInt (h : Lossless widthOf parallelIdx index) {result : ℤ}
    (heval : index.eval valuation = some result) : ∃ x : BitVec (index.width widthOf), result = x.toInt := by
  cases h with
  | phi =>
    cases heval
    exact ⟨_, rfl⟩
  | lhs _ _ | rhs _ _ =>
    simp only [IndexValue.eval, Option.bind_eq_bind, Option.bind_eq_some_iff, BinaryOp.apply,
      Option.map_eq_some_iff] at heval
    obtain ⟨_, -, _, -, x, -, rfl⟩ := heval
    exact ⟨x, rfl⟩
  | cast _ _ =>
    rename_i name op width operand _ _
    simp only [IndexValue.eval, Option.bind_eq_bind, Option.bind_eq_some_iff] at heval
    obtain ⟨x, -, hresult⟩ := heval
    cases op <;> exact ⟨_, (Option.some.inj hresult).symm⟩

lemma Lossless.eq_of_eval (h : Lossless widthOf parallelIdx index) {result : ℤ}
    (heval : index.eval valuation = some result) (heval' : index.eval valuation' = some result) :
    valuation parallelIdx = valuation' parallelIdx := by
  induction h generalizing result with
  | phi =>
    cases heval
    simpa [IndexValue.eval, BitVec.toInt_inj, eq_comm] using heval'
  | lhs hlhs hseparates ih | rhs hlhs hseparates ih =>
    simp only [IndexValue.eval, Option.bind_eq_bind, Option.bind_some, Option.bind_eq_some_iff] at heval heval'
    obtain ⟨x, hx, heval⟩ := heval
    obtain ⟨x', hx', heval'⟩ := heval'
    obtain ⟨operand, rfl⟩ := hlhs.eval_toInt hx
    obtain ⟨operand', rfl⟩ := hlhs.eval_toInt hx'
    rw [← hseparates operand operand' result heval heval'] at hx'
    exact ih hx hx'
  | cast hoperand hseparates ih =>
    simp only [IndexValue.eval, Option.bind_eq_bind, Option.bind_eq_some_iff] at heval heval'
    obtain ⟨x, hx, heval⟩ := heval
    obtain ⟨x', hx', heval'⟩ := heval'
    obtain ⟨operand, rfl⟩ := hoperand.eval_toInt hx
    obtain ⟨operand', rfl⟩ := hoperand.eval_toInt hx'
    rw [← hseparates operand operand' result heval heval'] at hx'
    exact ih hx hx'

lemma Total.width_eq (h : Total widthOf parallelIdx index) : index.width widthOf = widthOf parallelIdx := by
  cases h <;> rfl

lemma Total.mem_phi {name : String} (h : Total widthOf parallelIdx index) (hmem : .phi name ∈ index.subvalues) :
    name = parallelIdx := by
  induction h with
  | phi => simpa [IndexValue.subvalues] using hmem
  | lhs _ _ ih | rhs _ _ ih =>
    apply ih
    simpa [IndexValue.subvalues] using hmem

/-- The values of an operand are all values of its width where they differ for different variables, so that an
operation on it then has to separate them all. -/
lemma separates_of_injective {width : ℕ} {operand value : BitVec width → BitVec width} (operation : ℤ → Option ℤ)
    (hoperation : ∀ x, operation (operand x).toInt = some (value x).toInt) (hinjective : Function.Injective value) :
    Function.Injective operand ∧ KeepsApart width operation := by
  have hoperand : Function.Injective operand := by
    intro x x' hxx
    apply hinjective
    have hresult := hoperation x
    rw [hxx, hoperation x'] at hresult
    exact (BitVec.toInt_inj.1 (Option.some.inj hresult)).symm
  have hfinite : Finite (BitVec width) := Finite.of_equiv _ BitVec.equivFin.toEquiv.symm
  have hsurjective := Finite.surjective_of_injective hoperand
  refine ⟨hoperand, fun y y' result h h' => ?_⟩
  obtain ⟨x, rfl⟩ := hsurjective y
  obtain ⟨x', rfl⟩ := hsurjective y'
  rw [hoperation] at h h'
  rw [hinjective (BitVec.toInt_inj.1 (Option.some.inj (h.trans h'.symm)))]

lemma Total.exists_value (h : Total widthOf parallelIdx index) :
    ∃ value : BitVec (widthOf parallelIdx) → BitVec (widthOf parallelIdx),
      (∀ valuation : Valuation widthOf, index.eval valuation = some (value (valuation parallelIdx)).toInt) ∧
        (Function.Injective value → Lossless widthOf parallelIdx index) := by
  induction h with
  | phi => exact ⟨id, fun valuation => rfl, fun _ => Lossless.phi⟩
  | @lhs name op lhs constant hlhs hdefined ih =>
    obtain ⟨operand, heval, hlossless⟩ := ih
    have hoperation : ∀ x, op.apply (widthOf parallelIdx) (operand x).toInt constant =
        some ((op.eval (operand x) (BitVec.ofInt _ constant)).get (hdefined _)).toInt := by
      intro x
      simp only [BinaryOp.apply, BitVec.ofInt_toInt, Option.map_eq_some_iff]
      exact ⟨_, (Option.some_get _).symm, rfl⟩
    refine ⟨fun x => (op.eval (operand x) (BitVec.ofInt _ constant)).get (hdefined _), ?_, fun hinjective => ?_⟩
    · intro valuation
      simp only [IndexValue.eval, heval valuation, Option.bind_eq_bind, Option.bind_some]
      exact hoperation _
    · obtain ⟨hoperand, hseparates⟩ :=
        separates_of_injective (fun x => op.apply (widthOf parallelIdx) x constant) hoperation hinjective
      exact Lossless.lhs (hlossless hoperand) (by rw [hlhs.width_eq]; exact hseparates)
  | @rhs name op rhs constant hrhs hdefined ih =>
    obtain ⟨operand, heval, hlossless⟩ := ih
    have hoperation : ∀ y, op.apply (widthOf parallelIdx) constant (operand y).toInt =
        some ((op.eval (BitVec.ofInt _ constant) (operand y)).get (hdefined _)).toInt := by
      intro y
      simp only [BinaryOp.apply, BitVec.ofInt_toInt, Option.map_eq_some_iff]
      exact ⟨_, (Option.some_get _).symm, rfl⟩
    refine ⟨fun y => (op.eval (BitVec.ofInt _ constant) (operand y)).get (hdefined _), ?_, fun hinjective => ?_⟩
    · intro valuation
      simp only [IndexValue.eval, heval valuation, Option.bind_eq_bind, Option.bind_some]
      exact hoperation _
    · obtain ⟨hoperand, hseparates⟩ :=
        separates_of_injective (fun y => op.apply (widthOf parallelIdx) constant y) hoperation hinjective
      exact Lossless.rhs (hlossless hoperand) (by rw [hrhs.width_eq]; exact hseparates)

end Operations

section Iterations

variable {address : ArrayAddress} (parallelIdx : String) (accesses : Accesses widthOf address)

def NoSharedElement : Prop :=
  ∀ valuation ∈ accesses.valuations, ∀ valuation' ∈ accesses.valuations,
    valuation parallelIdx ≠ valuation' parallelIdx → address.element valuation ≠ address.element valuation'

def FaithfulName (address : ArrayAddress) (parallelIdx : String) : Prop :=
  ∀ index ∈ address.indexes, ∀ value ∈ index.subvalues, value.getName = parallelIdx → value = .phi parallelIdx

instance : Decidable (FaithfulName address parallelIdx) :=
  inferInstanceAs (Decidable (∀ index ∈ address.indexes, ∀ value ∈ index.subvalues, _ → _))

structure OneDimensional (widthOf : String → ℕ) (address : ArrayAddress) (index : IndexValue) : Prop where
  mem : index ∈ address.indexes
  others : ∀ other ∈ address.indexes, other = index ∨ other.isConstant = true
  total : ∃ name, Total widthOf name index

variable {parallelIdx accesses} {index : IndexValue}

lemma exists_parallelIndex (harith : ∀ index ∈ address.indexes, index.isArithmetic)
    (hname : FaithfulName address parallelIdx) (hnamed : Named address.geps parallelIdx) :
    ∃ index ∈ address.indexes, .phi parallelIdx ∈ index.subvalues := by
  obtain ⟨gep, hgep, hvalue⟩ := hnamed
  have hindex : gep.lastIndex ∈ address.indexes := List.mem_flatMap.2 ⟨gep, hgep, by simp⟩
  obtain ⟨value, hvalue, heq⟩ := hvalue (harith _ hindex)
  exact ⟨gep.lastIndex, hindex, hname _ hindex value hvalue heq ▸ hvalue⟩

lemma noSharedElement_of_lossless (hindex : index ∈ address.indexes) (h : Lossless widthOf parallelIdx index) :
    NoSharedElement parallelIdx accesses := by
  intro valuation hvaluation valuation' hvaluation' hne heq
  obtain ⟨result, hresult⟩ := Option.isSome_iff_exists.1 (accesses.defined valuation hvaluation index hindex)
  have hsame : index.eval valuation = index.eval valuation' := List.map_inj_left.1 heq index hindex
  exact hne (h.eq_of_eval hresult (hsame.symm.trans hresult))

lemma eval_of_isConstant {other : IndexValue} (h : other.isConstant = true) (valuation : Valuation widthOf) :
    ∃ value, other = .constant value ∧ other.eval valuation = some value := by
  cases other with
  | constant value => exact ⟨value, rfl, rfl⟩
  | _ => cases h

def OneDimensional.everyAccess (h : OneDimensional widthOf address index) : Accesses widthOf address where
  valuations := Set.univ
  defined := by
    intro valuation _ other hother
    rcases h.others other hother with rfl | hconstant
    · obtain ⟨name, htotal⟩ := h.total
      obtain ⟨value, heval, -⟩ := htotal.exists_value
      rw [heval]
      rfl
    · obtain ⟨value, -, heval⟩ := eval_of_isConstant hconstant valuation
      rw [heval]
      rfl

lemma OneDimensional.total_of_mem (h : OneDimensional widthOf address index)
    (hphi : ∃ index ∈ address.indexes, .phi parallelIdx ∈ index.subvalues) : Total widthOf parallelIdx index := by
  obtain ⟨name, htotal⟩ := h.total
  obtain ⟨other, hother, hmem⟩ := hphi
  rcases h.others other hother with rfl | hconstant
  · rw [htotal.mem_phi hmem]
    exact htotal
  · obtain ⟨value, rfl, -⟩ := eval_of_isConstant hconstant (fun name => 0 : Valuation widthOf)
    simp [IndexValue.subvalues] at hmem

lemma OneDimensional.lossless (h : OneDimensional widthOf address index) (htotal : Total widthOf parallelIdx index)
    (hapart : NoSharedElement parallelIdx h.everyAccess) : Lossless widthOf parallelIdx index := by
  obtain ⟨value, heval, hlossless⟩ := htotal.exists_value
  refine hlossless fun x x' hvalue => ?_
  by_contra hne
  let iteration (x : BitVec (widthOf parallelIdx)) : Valuation widthOf := Function.update (fun _ => 0) parallelIdx x
  have hiteration : ∀ x, iteration x parallelIdx = x := fun x => Function.update_self ..
  refine hapart (iteration x) (Set.mem_univ _) (iteration x') (Set.mem_univ _) (by simpa [hiteration] using hne) ?_
  refine List.map_inj_left.2 fun other hother => ?_
  rcases h.others other hother with rfl | hconstant
  · rw [heval, heval, hiteration, hiteration, hvalue]
  · obtain ⟨value, rfl, -⟩ := eval_of_isConstant hconstant (iteration x)
    rfl

end Iterations

namespace HalvedIndex

def parallel : IndexValue := .phi "indvars.iv.i"

def half : IndexValue := .binary "" (.lshr false) 64 parallel (.constant 1)

def next : IndexValue := .binary "" (.add false true) 64 parallel (.constant 1)

def address (index : IndexValue) : ArrayAddress where
  function := 0
  gep := { name := "arrayidx.i", pointee := .array, indices := [.constant 0], lastIndex := index }
  bases := []
  parent := { name := "omp.inner.for.body.i", frontPhi := some "indvars.iv.i" }
  earlier := []

def iteration (i : BitVec 64) : Valuation fun _ => 64 := fun _ => i

/-- The first two iterations access `a[i >> 1]`. -/
def halvedAccesses : Accesses (fun _ => 64) (address half) where
  valuations := fun valuation => valuation = iteration 0 ∨ valuation = iteration 1
  defined := by
    rintro valuation (rfl | rfl) <;> decide +kernel

end HalvedIndex

end OpenRace
