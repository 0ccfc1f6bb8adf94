import OpenRace.LLVM.GetElementPtr
import OpenRace.LLVM.DataLayout
import OpenRace.PointerAnalysis.MemoryModel.Layouts

/-! Geps with variable indices become chains of geps, cut at each variable index. -/

namespace OpenRace

open LLVM IndexOperand

structure GEPInst (T : Type) where
  sourceType : T
  indices : List IndexOperand

variable {T : Type} (layout : TypeLayout T)

section GetGEPStepSize

/-- The indices behind the first one, each with the type it leads to. -/
def indexedTypes (type : T) : List IndexOperand → List (IndexOperand × T)
  | [] => []
  | index :: rest => (layout.stepType type index).elim [] fun next => (index, next) :: indexedTypes next rest

def findStep : List (IndexOperand × T) → Option ℕ
  | [] => none
  | (operand, type) :: rest =>
    if operand.isUndef then some unbounded
    else if operand.isConstant then if operand.isZeroValue then findStep rest else none
    else some (layout.allocSize type)

/-- None where an assertion fails. -/
def getGEPStepSize (gep : GEPInst T) : Option ℕ :=
  match gep.indices with
  | [] => none
  | first :: rest =>
    if gep.indices.all isConstantInt then none
    else if rest.length = 0 ∨ rest.length = 1 ∨ rest.length = 2 ∧ rest.getLast?.any isUndef then
      findStep layout ((first, gep.sourceType) :: indexedTypes layout gep.sourceType rest)
    else none

end GetGEPStepSize

section Pass

def zeroIndex : IndexOperand := .constantInt 32 0

/-- The geps emitted so far, the type their last result points to, and the constant indices that wait. -/
structure SplitState (T : Type) where
  chain : List (GEPInst T) := []
  pointeeType : T
  consIndices : List IndexOperand

/-- The builder takes the source type from the pointer. -/
def createGEP (st : SplitState T) (indices : List IndexOperand) : Option (SplitState T) :=
  (layout.getIndexedType st.pointeeType indices).map fun pointee =>
    ⟨st.chain ++ [⟨st.pointeeType, indices⟩], pointee, st.consIndices⟩

def emitConstIndices (st : SplitState T) : Option (SplitState T) :=
  if st.consIndices.length ≠ 1 then createGEP layout st st.consIndices else some st

def splitIndex (st : SplitState T) (op : IndexOperand) : Option (SplitState T) :=
  if op.isConstant then some { st with consIndices := st.consIndices ++ [op] }
  else do
    let st ← emitConstIndices layout st
    let st ← createGEP layout st [zeroIndex, op]
    return { st with consIndices := [zeroIndex] }

def splitFirst (st : SplitState T) (first : IndexOperand) (rest : List IndexOperand) :
    Option (SplitState T × List IndexOperand) :=
  if !first.isConstant then
    (createGEP layout st [first]).map fun st => ({ st with consIndices := st.consIndices ++ [zeroIndex] }, rest)
  else if !first.isZeroValue then
    (createGEP layout st [first]).map fun st => ({ st with consIndices := st.consIndices ++ [zeroIndex] }, rest)
  else some (st, first :: rest)

/-- None where the builder or the closing assertion fails. -/
def splitGEP (consIndices : List IndexOperand) (gep : GEPInst T) : Option (SplitState T) :=
  match gep.indices with
  | [] => none
  | first :: rest => do
    let (st, rest) ← splitFirst layout ⟨[], gep.sourceType, consIndices⟩ first rest
    let st ← rest.foldlM (splitIndex layout) st
    if st.consIndices.length = 1 ∧ st.consIndices.head? ≠ some zeroIndex then none else emitConstIndices layout st

/-- The chain that takes the place of each gep of the function. The emitted geps stand before the
gep they come from, where the loops have already been. -/
def splitVariableGEP (consIndices : List IndexOperand) : List (GEPInst T) → Option (List (List (GEPInst T)))
  | [] => some []
  | gep :: rest =>
    if gep.indices.all isConstantInt then (splitVariableGEP consIndices rest).map ([gep] :: ·)
    else do
      let st ← splitGEP layout consIndices gep
      let chains ← splitVariableGEP [] rest
      return st.chain :: chains

end Pass

section Chains

def LinkedGEPs (type : T) : List (GEPInst T) → T → Prop
  | [], last => type = last
  | gep :: rest, last =>
    gep.sourceType = type ∧ ∃ next, layout.getIndexedType type gep.indices = some next ∧ LinkedGEPs next rest last

def gepAddress {w : ℕ} (valuation : IndexOperand → BitVec w) (base : BitVec w) (gep : GEPInst T) : BitVec w :=
  base + layout.gepOffset valuation gep.sourceType gep.indices

def chainAddress {w : ℕ} (valuation : IndexOperand → BitVec w) (base : BitVec w) (chain : List (GEPInst T)) :
    BitVec w :=
  chain.foldl (gepAddress layout valuation) base

/-- The two shapes that a step size is read from. -/
def VariableStep (gep : GEPInst T) : Prop :=
  ∃ id step, (gep.indices = [.variableIndex id] ∨ gep.indices = [zeroIndex, .variableIndex id]) ∧
    getGEPStepSize layout gep = some step

structure SplitsInto (gep : GEPInst T) (chain : List (GEPInst T)) : Prop where
  linked : ∃ last, layout.getIndexedType gep.sourceType gep.indices = some last ∧
    LinkedGEPs layout gep.sourceType chain last
  address : ∀ (w : ℕ) (valuation : IndexOperand → BitVec w) (base : BitVec w),
    chainAddress layout valuation base chain = gepAddress layout valuation base gep
  shape : ∀ part ∈ chain, part.indices.all isConstant ∨ VariableStep layout part

variable {layout}

lemma LinkedGEPs.append {type middle last : T} {xs ys : List (GEPInst T)} (h : LinkedGEPs layout type xs middle)
    (hys : LinkedGEPs layout middle ys last) : LinkedGEPs layout type (xs ++ ys) last := by
  induction xs generalizing type with
  | nil =>
    obtain rfl := h
    exact hys
  | cons gep rest ih =>
    obtain ⟨hsource, next, hnext, hrest⟩ := h
    exact ⟨hsource, next, hnext, ih hrest⟩

lemma variableStep_first {type : T} {id : ℕ} : VariableStep layout ⟨type, [.variableIndex id]⟩ := by
  refine ⟨id, layout.allocSize type, .inl rfl, ?_⟩
  simp [getGEPStepSize, isConstantInt, findStep, isUndef, isConstant]

lemma variableStep_second {type next : T} {id : ℕ} (h : layout.stepType type (.variableIndex id) = some next) :
    VariableStep layout ⟨type, [zeroIndex, .variableIndex id]⟩ := by
  refine ⟨id, layout.allocSize next, .inr rfl, ?_⟩
  simp [getGEPStepSize, isConstantInt, findStep, isUndef, isConstant, isZeroValue, zeroIndex, indexedTypes, h]

end Chains

section Invariant

variable {layout}

/-- What has been emitted computes the address of the indices that have been seen, but for the
constant ones that wait behind a zero. -/
structure Emitted (layout : TypeLayout T) (type : T) (seen : List IndexOperand) (st : SplitState T)
    (waiting : List IndexOperand) : Prop where
  started : seen ≠ []
  linked : LinkedGEPs layout type st.chain st.pointeeType
  typed : layout.followTypes st.pointeeType waiting = layout.getIndexedType type seen
  address : ∀ (w : ℕ) (valuation : IndexOperand → BitVec w) (base : BitVec w),
    chainAddress layout valuation base st.chain + layout.followOffset valuation st.pointeeType waiting =
      base + layout.gepOffset valuation type seen
  shape : ∀ part ∈ st.chain, part.indices.all isConstant ∨ VariableStep layout part
  constant : waiting.all isConstant

/-- The pending indices start with a zero: the pass's own, or the first index of the gep. -/
def Pending (layout : TypeLayout T) (type : T) (seen : List IndexOperand) (st : SplitState T) : Prop :=
  ∃ head waiting, st.consIndices = head :: waiting ∧ head.isZeroValue ∧ Emitted layout type seen st waiting ∧
    (head = zeroIndex ∨ seen = head :: waiting)

lemma createGEP_eq {st : SplitState T} {indices : List IndexOperand} {next : T}
    (h : layout.getIndexedType st.pointeeType indices = some next) :
    createGEP layout st indices =
      some ⟨st.chain ++ [⟨st.pointeeType, indices⟩], next, st.consIndices⟩ := by
  rw [createGEP, h, Option.map_some]

lemma Emitted.emit {type next : T} {seen waiting : List IndexOperand} {st : SplitState T}
    (h : Emitted layout type seen st waiting) (hnext : layout.getIndexedType type seen = some next)
    {head : IndexOperand} (hhead : head.isZeroValue) :
    ∃ st', createGEP layout st (head :: waiting) = some st' ∧ st'.consIndices = st.consIndices ∧
      st'.pointeeType = next ∧ Emitted layout type seen st' [] := by
  have hindexed : layout.getIndexedType st.pointeeType (head :: waiting) = some next := h.typed.trans hnext
  refine ⟨_, createGEP_eq hindexed, rfl, rfl, ?_⟩
  constructor
  · exact h.started
  · exact h.linked.append ⟨rfl, next, hindexed, rfl⟩
  · exact hnext.symm
  · intro w valuation base
    rw [← h.address, chainAddress, List.foldl_append]
    simp [gepAddress, chainAddress, TypeLayout.gepOffset_zero hhead, TypeLayout.followOffset]
  · intro part hpart
    rcases List.mem_append.mp hpart with hold | hnew
    · exact h.shape part hold
    · obtain rfl := List.mem_singleton.mp hnew
      left
      rw [List.all_cons, isConstant_of_isZeroValue hhead, h.constant, Bool.and_self]
  · rfl

lemma Emitted.typed_nil {type : T} {seen : List IndexOperand} {st : SplitState T}
    (h : Emitted layout type seen st []) : layout.getIndexedType type seen = some st.pointeeType :=
  h.typed.symm

lemma Emitted.step {type next : T} {seen : List IndexOperand} {st : SplitState T} {id : ℕ}
    (h : Emitted layout type seen st [])
    (hnext : layout.getIndexedType type (seen ++ [.variableIndex id]) = some next) :
    ∃ st', createGEP layout st [zeroIndex, .variableIndex id] = some st' ∧
      Emitted layout type (seen ++ [.variableIndex id]) { st' with consIndices := [zeroIndex] } [] := by
  have hindexed : layout.getIndexedType st.pointeeType [zeroIndex, .variableIndex id] = some next := by
    rw [← hnext, TypeLayout.getIndexedType_append h.started _ h.typed_nil]
    rfl
  have hstep : layout.stepType st.pointeeType (.variableIndex id) = some next := by
    simpa [TypeLayout.getIndexedType, TypeLayout.followTypes] using hindexed
  refine ⟨_, createGEP_eq hindexed, ?_⟩
  constructor
  · simp
  · exact h.linked.append ⟨rfl, next, hindexed, rfl⟩
  · exact hnext.symm
  · intro w valuation base
    rw [TypeLayout.gepOffset_append h.started _ h.typed_nil, ← BitVec.add_assoc, ← h.address, chainAddress,
      List.foldl_append]
    have hzero : zeroIndex.isZeroValue := rfl
    simp [gepAddress, chainAddress, TypeLayout.gepOffset_zero hzero, TypeLayout.followOffset]
  · intro part hpart
    rcases List.mem_append.mp hpart with hold | hnew
    · exact h.shape part hold
    · obtain rfl := List.mem_singleton.mp hnew
      exact .inr (variableStep_second hstep)
  · rfl

lemma Emitted.wait {type next : T} {seen waiting : List IndexOperand} {st : SplitState T} {op : IndexOperand}
    (h : Emitted layout type seen st waiting) (hseen : layout.getIndexedType type seen = some next)
    (hop : op.isConstant) (consIndices : List IndexOperand) :
    Emitted layout type (seen ++ [op]) { st with consIndices := consIndices } (waiting ++ [op]) where
  started := by simp
  linked := h.linked
  typed := by
    rw [TypeLayout.followTypes_append, h.typed, hseen, TypeLayout.getIndexedType_append h.started _ hseen]
    rfl
  address := by
    intro w valuation base
    rw [TypeLayout.followOffset_append _ (h.typed.trans hseen), TypeLayout.gepOffset_append h.started _ hseen,
      ← BitVec.add_assoc, ← BitVec.add_assoc, h.address]
  shape := h.shape
  constant := by rw [List.all_append, h.constant]; simp [hop]

lemma Pending.wait {type next : T} {seen : List IndexOperand} {st : SplitState T} {op : IndexOperand}
    (h : Pending layout type seen st) (hseen : layout.getIndexedType type seen = some next) (hop : op.isConstant) :
    Pending layout type (seen ++ [op]) { st with consIndices := st.consIndices ++ [op] } := by
  obtain ⟨head, waiting, hcons, hzero, hemitted, hhead⟩ := h
  refine ⟨head, waiting ++ [op], by rw [hcons]; rfl, hzero, hemitted.wait hseen hop _, ?_⟩
  rcases hhead with hhead | hhead
  · exact .inl hhead
  · exact .inr (by rw [hhead]; rfl)

lemma Pending.started {type : T} {seen : List IndexOperand} {st : SplitState T} (h : Pending layout type seen st) :
    seen ≠ [] := by
  obtain ⟨head, waiting, -, -, hemitted, -⟩ := h
  exact hemitted.started

lemma Pending.flush {type next : T} {seen : List IndexOperand} {st : SplitState T}
    (h : Pending layout type seen st) (hseen : layout.getIndexedType type seen = some next) :
    ∃ st', emitConstIndices layout st = some st' ∧ Emitted layout type seen st' [] := by
  obtain ⟨head, waiting, hcons, hzero, hemitted, -⟩ := h
  unfold emitConstIndices
  cases waiting with
  | nil => exact ⟨st, by rw [if_neg (by simp [hcons])], hemitted⟩
  | cons first rest =>
    obtain ⟨st', hst', -, -, hemitted'⟩ := hemitted.emit hseen hzero
    exact ⟨st', by rw [if_pos (by simp [hcons]), hcons, hst'], hemitted'⟩

/-- A pending first index alone would be a gep without variable indices. -/
lemma Pending.not_asserts {type : T} {indices : List IndexOperand} {st : SplitState T}
    (h : Pending layout type indices st) (hall : ¬indices.all isConstantInt) :
    ¬(st.consIndices.length = 1 ∧ st.consIndices.head? ≠ some zeroIndex) := by
  obtain ⟨head, waiting, hcons, hzero, -, hhead⟩ := h
  rintro ⟨hlength, hne⟩
  rw [hcons] at hlength hne
  obtain rfl : waiting = [] := List.length_eq_zero_iff.mp (by simpa using hlength)
  rcases hhead with rfl | rfl
  · exact hne rfl
  · apply hall
    cases head <;> simp [isZeroValue, isConstantInt] at hzero ⊢

lemma Pending.splitIndex {type next : T} {seen : List IndexOperand} {st : SplitState T} {op : IndexOperand}
    (h : Pending layout type seen st)
    (hnext : layout.getIndexedType type (seen ++ [op]) = some next) :
    ∃ st', splitIndex layout st op = some st' ∧ Pending layout type (seen ++ [op]) st' := by
  obtain ⟨middle, hseen, -⟩ := TypeLayout.exists_getIndexedType h.started hnext
  by_cases hop : op.isConstant
  · exact ⟨_, by rw [OpenRace.splitIndex, if_pos hop], h.wait hseen hop⟩
  · obtain ⟨id, rfl⟩ : ∃ id, op = .variableIndex id := by cases op <;> simp [isConstant] at hop ⊢
    obtain ⟨st₁, hst₁, hemitted₁⟩ := h.flush hseen
    obtain ⟨st₂, hst₂, hemitted₂⟩ := hemitted₁.step hnext
    refine ⟨{ st₂ with consIndices := [zeroIndex] }, ?_, zeroIndex, [], rfl, rfl, hemitted₂, .inl rfl⟩
    rw [OpenRace.splitIndex, if_neg hop, hst₁]
    simp [hst₂]

lemma Pending.foldlM {type last : T} {rest seen : List IndexOperand} {st : SplitState T}
    (h : Pending layout type seen st)
    (hlast : layout.getIndexedType type (seen ++ rest) = some last) :
    ∃ st', rest.foldlM (OpenRace.splitIndex layout) st = some st' ∧ Pending layout type (seen ++ rest) st' := by
  induction rest generalizing seen st with
  | nil => exact ⟨st, rfl, by rwa [List.append_nil]⟩
  | cons op rest ih =>
    rw [List.append_cons] at hlast ⊢
    obtain ⟨middle, hmiddle, -⟩ := TypeLayout.exists_getIndexedType (by simp) hlast
    obtain ⟨st₁, hst₁, h₁⟩ := h.splitIndex hmiddle
    obtain ⟨st₂, hst₂, h₂⟩ := ih h₁ hlast
    exact ⟨st₂, by rw [List.foldlM_cons, hst₁]; exact hst₂, h₂⟩

end Invariant

section Split

variable {layout}

lemma pending_emitted (type : T) (first : IndexOperand) :
    Pending layout type [first] ⟨[⟨type, [first]⟩], type, [zeroIndex]⟩ := by
  refine ⟨zeroIndex, [], rfl, rfl, ?_, .inl rfl⟩
  constructor
  · simp
  · exact ⟨rfl, type, rfl, rfl⟩
  · rfl
  · intro w valuation base
    simp [chainAddress, gepAddress, TypeLayout.followOffset]
  · intro part hpart
    obtain rfl := List.mem_singleton.mp hpart
    cases first with
    | variableIndex id => exact .inr variableStep_first
    | _ => exact .inl rfl
  · rfl

lemma pending_first {type : T} {first : IndexOperand} (hzero : first.isZeroValue) :
    Pending layout type [first] ⟨[], type, [first]⟩ := by
  refine ⟨first, [], rfl, hzero, ?_, .inr rfl⟩
  constructor
  · simp
  · rfl
  · rfl
  · intro w valuation base
    simp [chainAddress, TypeLayout.gepOffset_zero hzero]
  · simp
  · rfl

lemma splitFirst_pending {type last : T} {first : IndexOperand} {rest : List IndexOperand}
    (hlast : layout.getIndexedType type (first :: rest) = some last) :
    ∃ st rest' st', splitFirst layout ⟨[], type, []⟩ first rest = some (st, rest') ∧
      rest'.foldlM (splitIndex layout) st = some st' ∧ Pending layout type (first :: rest) st' := by
  have halone : createGEP layout ⟨[], type, []⟩ [first] = some ⟨[⟨type, [first]⟩], type, []⟩ := createGEP_eq rfl
  by_cases hzero : first.isZeroValue
  · have hconstant := isConstant_of_isZeroValue hzero
    obtain ⟨st', hst', h'⟩ := (pending_first hzero).foldlM hlast
    refine ⟨⟨[], type, []⟩, first :: rest, st', by simp [splitFirst, hconstant, hzero], ?_, h'⟩
    rw [List.foldlM_cons, splitIndex, if_pos hconstant]
    exact hst'
  · obtain ⟨st', hst', h'⟩ := (pending_emitted type first).foldlM hlast
    refine ⟨⟨[⟨type, [first]⟩], type, [zeroIndex]⟩, rest, st', ?_, hst', h'⟩
    cases hconstant : first.isConstant <;> simp [splitFirst, hconstant, hzero, halone]

theorem splitGEP_splits {gep : GEPInst T} {last : T}
    (hlast : layout.getIndexedType gep.sourceType gep.indices = some last)
    (hall : ¬gep.indices.all isConstantInt) :
    ∃ st, splitGEP layout [] gep = some st ∧ SplitsInto layout gep st.chain := by
  obtain ⟨type, indices⟩ := gep
  cases indices with
  | nil => exact absurd rfl hall
  | cons first rest =>
    obtain ⟨st₁, rest', st₂, hfirst, hloop, hpending⟩ := splitFirst_pending hlast
    obtain ⟨st, hflush, hemitted⟩ := hpending.flush hlast
    have hst : splitGEP layout [] ⟨type, first :: rest⟩ = some st := by
      simp only [splitGEP, hfirst, Option.bind_eq_bind, Option.bind_some, hloop]
      rw [if_neg (hpending.not_asserts hall), hflush]
    refine ⟨st, hst, ?_⟩
    constructor
    · exact ⟨last, hlast, by rw [← Option.some.inj (hemitted.typed_nil.symm.trans hlast)]; exact hemitted.linked⟩
    · intro w valuation base
      have haddress := hemitted.address w valuation base
      simpa [TypeLayout.followOffset, gepAddress] using haddress
    · exact hemitted.shape

lemma splitsInto_self {gep : GEPInst T} {last : T}
    (hlast : layout.getIndexedType gep.sourceType gep.indices = some last) (hall : gep.indices.all isConstantInt) :
    SplitsInto layout gep [gep] := by
  constructor
  · exact ⟨last, hlast, rfl, last, hlast, rfl⟩
  · intro w valuation base
    rfl
  · intro part hpart
    obtain rfl := List.mem_singleton.mp hpart
    left
    rw [List.all_eq_true] at hall ⊢
    intro operand hoperand
    have hint := hall operand hoperand
    cases operand with
    | constantInt width value => rfl
    | _ => cases hint

/-- Every gep becomes a chain for its address; where none of its indices is variable, itself. -/
theorem splitVariableGEP_splits (geps : List (GEPInst T))
    (hvalid : ∀ gep ∈ geps, ∃ last, layout.getIndexedType gep.sourceType gep.indices = some last) :
    ∃ chains, splitVariableGEP layout [] geps = some chains ∧ List.Forall₂ (SplitsInto layout) geps chains := by
  induction geps with
  | nil => exact ⟨[], rfl, .nil⟩
  | cons gep rest ih =>
    obtain ⟨last, hlast⟩ := hvalid gep (by simp)
    obtain ⟨chains, hchains, hsplits⟩ := ih fun gep hgep => hvalid gep (List.mem_cons_of_mem _ hgep)
    by_cases hall : gep.indices.all isConstantInt
    · refine ⟨[gep] :: chains, by rw [splitVariableGEP, if_pos hall, hchains]; rfl, .cons ?_ hsplits⟩
      exact splitsInto_self hlast hall
    · obtain ⟨st, hst, hsplit⟩ := splitGEP_splits hlast hall
      refine ⟨st.chain :: chains, ?_, .cons hsplit hsplits⟩
      rw [splitVariableGEP, if_neg hall, hst]
      simp [hchains]

end Split

section ArrayInStruct

def LLVMType.typeLayout : TypeLayout LLVMType where
  allocSize := allocSize
  elementType
    | array _ element => some element
    | _ => none
  structField
    | struct _ fields _, index => fields.get? index.toNat
    | _, _ => none

/-- `getelementptr {i64, [4 x i32]}, %p, %0, 1, %1`. -/
def gepIntoArray : GEPInst LLVMType :=
  ⟨.struct "" (.cons 0 (.scalar false "i64" 8) (.cons 8 (.array 4 (.scalar false "i32" 4)) .nil)) 24,
    [.variableIndex 0, .constantInt 32 1, .variableIndex 1]⟩

theorem splitVariableGEP_splits_gepIntoArray :
    ∃ chains, splitVariableGEP LLVMType.typeLayout [] [gepIntoArray] = some chains ∧
      List.Forall₂ (SplitsInto LLVMType.typeLayout) [gepIntoArray] chains := by
  apply splitVariableGEP_splits
  intro gep hgep
  obtain rfl := List.mem_singleton.mp hgep
  exact ⟨.scalar false "i32" 4, rfl⟩

example : (splitVariableGEP LLVMType.typeLayout [] [gepIntoArray]).map (·.map (·.map GEPInst.indices)) =
    some [[[.variableIndex 0], [zeroIndex, .constantInt 32 1], [zeroIndex, .variableIndex 1]]] := by
  rfl

end ArrayInStruct

end OpenRace
