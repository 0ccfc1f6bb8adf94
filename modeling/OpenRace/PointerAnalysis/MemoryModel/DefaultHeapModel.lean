import OpenRace.Library.Failure
import OpenRace.PointerAnalysis.MemoryModel.AnonymousObjects

/-! Types of heap objects, which are inferred from a cast of what the allocation returns. -/

namespace OpenRace

open Library

variable {n : ℕ}

/-- Allocation sizes are in bytes; those of arrays are computed in bits, in a word of 64 bits. -/
structure DataLayout (n : ℕ) where
  getTypeAllocSize : GraphType n → ℕ
  size_lt : ∀ type, getTypeAllocSize type < 2 ^ 61
  size_array : ∀ num element,
    getTypeAllocSize (.array num element) = num * (8 * getTypeAllocSize element) % 2 ^ 64 / 8

inductive HeapError
  | notPointer | noArgument | divisionByZero
deriving DecidableEq

structure ConstantInt where
  width : ℕ
  value : BitVec width
  width_le : width ≤ 64

namespace ConstantInt

def getSExtValue (c : ConstantInt) : BitVec 64 := c.value.signExtend 64

def getZExtValue (c : ConstantInt) : ℕ := c.value.toNat

def sizeT (c : ConstantInt) : ℕ := c.getSExtValue.toNat

end ConstantInt

inductive SizeOperand
  | constantInt (c : ConstantInt)
  | variable

inductive CastOrOther (n : ℕ)
  | bitcast (destPointee : Option (GraphType n))
  | other

/-- The next instruction is the one behind a call, or the first one in the normal destination of an invoke that is no
phi node, debug or lifetime intrinsic. -/
structure AllocSite (n : ℕ) where
  next : Option (CastOrOther n)
  /-- The debug location has one that it is inlined at. -/
  inlined : Bool
  users : List (CastOrOther n)
  args : List SizeOperand
  /-- What the result points to. -/
  resultPointee : GraphType n

namespace DefaultHeapModel

def sizedDest : Option (GraphType n) → Except HeapError (Option (GraphType n))
  | none => .error .notPointer
  | some destTy => .ok (if destTy.isSized then some destTy else none)

def bitcastDest : CastOrOther n → Option (Option (GraphType n))
  | .bitcast destPointee => some destPointee
  | .other => none

def nextCastDest (allocSite : AllocSite n) : Except HeapError (Option (GraphType n)) :=
  match allocSite.next.bind bitcastDest with
  | some dest => sizedDest dest
  | none => .ok none

/-- The cast that comes next, or else the only one of an inlined wrapper. -/
def getNextBitCastDestType (allocSite : AllocSite n) : Except HeapError (Option (GraphType n)) := do
  match ← nextCastDest allocSite with
  | some destTy => return some destTy
  | none =>
    if allocSite.inlined then
      match allocSite.users.filterMap bitcastDest with
      | [dest] => sizedDest dest
      | _ => return none
    else return none

def getArgOperand (allocSite : AllocSite n) (argNo : ℕ) : Except HeapError SizeOperand :=
  match allocSite.args[argNo]? with
  | some operand => .ok operand
  | none => .error .noArgument

/-- The converted struct, of one with a flexible array. That is known of sized structs only, as all casts are to. -/
def convertFlexible : GraphType n → Option (Option (GraphType n))
  | .struct _ isPacked elements =>
    if (isStructWithFlexibleArray elements).isSome then
      some ((getConvertedFlexibleArrayType elements).map (.struct none isPacked))
    else none
  | _ => none

variable (dl : DataLayout n)

def inferConstantSize (elemType : GraphType n) (memSize : ℕ) : Except HeapError (Option (GraphType n)) :=
  let elemSize := dl.getTypeAllocSize elemType
  if memSize = elemSize then .ok (some elemType)
  else if elemSize = 0 then .error .divisionByZero
  else if memSize % elemSize = 0 then .ok (getBoundedArrayTy elemType (memSize / elemSize))
  else .ok none

def inferMallocType (allocSite : AllocSite n) (sizeArgNo : ℤ) : Except HeapError (Option (GraphType n)) := do
  match ← getNextBitCastDestType allocSite with
  | some elemType =>
    match convertFlexible elemType with
    | some converted => return converted
    | none =>
      let totalSize ← if 0 ≤ sizeArgNo then some <$> getArgOperand allocSite sizeArgNo.toNat else .ok none
      match totalSize with
      | some (.constantInt constSize) => inferConstantSize dl elemType constSize.sizeT
      | _ => if dl.getTypeAllocSize elemType = 1 then return none else return getUnboundedArrayTy elemType
  | none =>
    if 0 ≤ sizeArgNo then
      match ← getArgOperand allocSite sizeArgNo.toNat with
      | .constantInt constSize => return if constSize.getSExtValue = 1 then some allocSite.resultPointee else none
      | .variable => return none
    else return none

def inferCallocType (allocSite : AllocSite n) (numArgNo sizeArgNo : ℕ) : Except HeapError (Option (GraphType n)) := do
  match ← getNextBitCastDestType allocSite with
  | some elemType =>
    let elementNum ← getArgOperand allocSite numArgNo
    match ← getArgOperand allocSite sizeArgNo with
    | .constantInt size =>
      if dl.getTypeAllocSize elemType = size.sizeT then
        match elementNum with
        | .constantInt elemNum =>
          if elemNum.getSExtValue = 1 then inferMallocType dl allocSite sizeArgNo
          else return getBoundedArrayTy elemType elemNum.sizeT
        | .variable => return getUnboundedArrayTy elemType
      else return getUnboundedArrayTy elemType
    | .variable => return none
  | none => return none

def isCalloc (funName : String) : Bool := funName == "calloc"

def inferHeapAllocType (funName : String) (allocSite : AllocSite n) : Except HeapError (Option (GraphType n)) :=
  if isCalloc funName then inferCallocType dl allocSite 0 1 else inferMallocType dl allocSite 0

end DefaultHeapModel

def GraphElements.last? : GraphElements n → Option (GraphType n)
  | .nil => none
  | .cons _ element .nil => some element
  | .cons _ _ rest => rest.last?

/-- Arrays of the length that stands for none, and structs that end in one. -/
inductive Unbounded : GraphType n → Prop
  | array {element : GraphType n} : Unbounded (.array (2 ^ 32 - 1) element)
  | flexible {name : Option String} {isPacked : Bool} {elements : GraphElements n} {last : GraphType n}
      (hlast : elements.last? = some last) (h : Unbounded last) : Unbounded (.struct name isPacked elements)

/-- The type that is answered, if any, is unbounded or has the number of bytes. -/
def FitsRequest (dl : DataLayout n) (bytes : ℕ) (answer : Except HeapError (Option (GraphType n))) : Prop :=
  ∃ inferred, answer = .ok inferred ∧ ∀ type, inferred = some type → Unbounded type ∨ dl.getTypeAllocSize type = bytes

inductive AllocRequest
  | malloc (size : ConstantInt)
  | calloc (num size : ConstantInt)

namespace AllocRequest

def bytes : AllocRequest → ℕ
  | malloc size => size.getZExtValue
  | calloc num size => num.getZExtValue * size.getZExtValue

/-- The call has the constants, and returns a pointer to bytes. -/
def MadeBy (dl : DataLayout n) (funName : String) (allocSite : AllocSite n) : AllocRequest → Prop
  | malloc size => DefaultHeapModel.isCalloc funName = false ∧ allocSite.args[0]? = some (.constantInt size) ∧
      dl.getTypeAllocSize allocSite.resultPointee = 1
  | calloc num size => DefaultHeapModel.isCalloc funName = true ∧ allocSite.args[0]? = some (.constantInt num) ∧
      allocSite.args[1]? = some (.constantInt size)

/-- What comes out in bytes of this element type. Where a request is not the element's own size, that must not be
zero, and a multiple of it has up to 61 bits and is not negative; so is a count of more elements than one. -/
def Exact (dl : DataLayout n) (elemType : GraphType n) : AllocRequest → Prop
  | malloc size => (DefaultHeapModel.convertFlexible elemType).isSome = true ∨
      size.sizeT = dl.getTypeAllocSize elemType ∨
        dl.getTypeAllocSize elemType ≠ 0 ∧ (dl.getTypeAllocSize elemType ∣ size.sizeT →
          size.sizeT = (2 ^ 32 - 1) * dl.getTypeAllocSize elemType ∨ size.sizeT % 2 ^ 61 = size.getZExtValue)
  | calloc num size => dl.getTypeAllocSize elemType ≠ size.sizeT ∨ num.sizeT = 1 ∨ num.sizeT = 2 ^ 32 - 1 ∨
      num.sizeT * dl.getTypeAllocSize elemType % 2 ^ 61 = num.getZExtValue * dl.getTypeAllocSize elemType

end AllocRequest

section Types

mutual
lemma getUnboundedArrayTy_unbounded {type : GraphType n} (h : type.isSized = true) :
    ∃ converted, getUnboundedArrayTy type = some converted ∧ Unbounded converted := by
  cases type with
  | unsized name => cases h
  | opaqueStruct name => cases h
  | primitive name => exact ⟨_, rfl, .array⟩
  | pointer pointee => exact ⟨_, rfl, .array⟩
  | array num element => exact ⟨_, rfl, .array⟩
  | struct name isPacked elements =>
    rw [getUnboundedArrayTy]
    split
    · rename_i hflexible
      obtain ⟨converted, last, hconverted, hlast, hunbounded⟩ := getConvertedFlexibleArrayType_unbounded h hflexible
      exact ⟨.struct none isPacked converted, by rw [hconverted]; rfl, .flexible hlast hunbounded⟩
    · exact ⟨_, rfl, .array⟩

lemma getConvertedFlexibleArrayType_unbounded {elements : GraphElements n} (h : elements.areSized = true)
    (hflexible : (isStructWithFlexibleArray elements).isSome = true) :
    ∃ converted last, getConvertedFlexibleArrayType elements = some converted ∧ converted.last? = some last ∧
      Unbounded last := by
  cases elements with
  | nil => cases hflexible
  | cons offset element rest =>
    rw [GraphElements.areSized, Bool.and_eq_true] at h
    cases rest with
    | nil =>
      cases element with
      | array num element =>
        have hsized : element.isSized = true := h.1
        obtain ⟨converted, hconverted, hunbounded⟩ := getUnboundedArrayTy_unbounded hsized
        refine ⟨.cons offset converted .nil, converted, ?_, rfl, hunbounded⟩
        rw [getConvertedFlexibleArrayType, hconverted]
        rfl
      | _ => cases hflexible
    | cons offset' element' rest =>
      have hrest : (isStructWithFlexibleArray (.cons offset' element' rest)).isSome = true := by
        rwa [isStructWithFlexibleArray] at hflexible
        simp
      obtain ⟨converted, last, hconverted, hlast, hunbounded⟩ := getConvertedFlexibleArrayType_unbounded h.2 hrest
      refine ⟨.cons offset element converted, last, ?_, ?_, hunbounded⟩
      · rw [getConvertedFlexibleArrayType, hconverted]
        rfl
      · cases converted with
        | nil => cases hlast
        | cons => exact hlast
end

end Types

section Sizes

variable {dl : DataLayout n} {bytes : ℕ} {type : GraphType n}

lemma ConstantInt.sizeT_cases (c : ConstantInt) : c.sizeT = c.getZExtValue ∨ 2 ^ 63 ≤ c.sizeT := by
  have hvalue : (c.value.setWidth 64).toNat = c.value.toNat := by
    rw [BitVec.toNat_setWidth]
    exact Nat.mod_eq_of_lt (c.value.isLt.trans_le (Nat.pow_le_pow_right Nat.two_pos c.width_le))
  rw [sizeT, getSExtValue, BitVec.toNat_signExtend, hvalue, getZExtValue]
  split
  · rename_i hmsb
    right
    have hhalf := BitVec.toNat_ge_of_msb_true hmsb
    have hpos : c.width ≠ 0 := by
      intro hzero
      have hsame : c.width - 1 = c.width := by omega
      rw [hsame] at hhalf
      exact absurd c.value.isLt (not_lt.mpr hhalf)
    have hpow : 2 ^ c.width = 2 * 2 ^ (c.width - 1) := by
      rw [← Nat.pow_succ', Nat.succ_eq_add_one, Nat.sub_add_cancel (Nat.pos_of_ne_zero hpos)]
    have hle : 2 ^ (c.width - 1) ≤ 2 ^ 63 := Nat.pow_le_pow_right Nat.two_pos (by have := c.width_le; omega)
    omega
  · exact Or.inl (Nat.add_zero _)

lemma ConstantInt.sizeT_eq {c : ConstantInt} (h : c.sizeT < 2 ^ 61) : c.sizeT = c.getZExtValue := by
  rcases c.sizeT_cases with heq | hle
  · exact heq
  · omega

lemma fitsRequest_none : FitsRequest dl bytes (.ok none) := ⟨none, rfl, by simp⟩

lemma not_fitsRequest_error (error : HeapError) : ¬ FitsRequest dl bytes (.error error) := by
  rintro ⟨inferred, h, -⟩
  cases h

lemma fitsRequest_some_iff :
    FitsRequest dl bytes (.ok (some type)) ↔ Unbounded type ∨ dl.getTypeAllocSize type = bytes := by
  constructor
  · rintro ⟨inferred, h, hfits⟩
    cases h
    exact hfits type rfl
  · rintro h
    refine ⟨some type, rfl, ?_⟩
    rintro _ ⟨⟩
    exact h

lemma fitsRequest_array_iff {num : ℕ} : FitsRequest dl bytes (.ok (some (.array num type))) ↔
    num = 2 ^ 32 - 1 ∨ num * dl.getTypeAllocSize type % 2 ^ 61 = bytes := by
  rw [fitsRequest_some_iff, dl.size_array]
  refine or_congr ⟨?_, ?_⟩ ?_
  · rintro ⟨⟩
    rfl
  · rintro rfl
    exact .array
  · rw [Nat.mul_left_comm]
    omega

lemma getBoundedArrayTy_sized (h : type.isSized = true) (num : ℕ) :
    getBoundedArrayTy type num = some (.array num type) := by
  cases type with
  | unsized name => cases h
  | _ => rfl

lemma fitsRequest_unbounded (h : type.isSized = true) : FitsRequest dl bytes (.ok (getUnboundedArrayTy type)) := by
  obtain ⟨converted, hconverted, hunbounded⟩ := getUnboundedArrayTy_unbounded h
  rw [hconverted]
  exact fitsRequest_some_iff.mpr (Or.inl hunbounded)

end Sizes

section Inference

open DefaultHeapModel

variable {dl : DataLayout n} {bytes : ℕ} {allocSite : AllocSite n} {elemType : GraphType n}

lemma sizedDest_sized {dest : Option (GraphType n)} (h : sizedDest dest = .ok (some elemType)) :
    elemType.isSized = true := by
  cases dest with
  | none => cases h
  | some destTy =>
    rw [sizedDest] at h
    split at h
    · rename_i hsized
      cases h
      exact hsized
    · cases h

lemma getNextBitCastDestType_sized (h : getNextBitCastDestType allocSite = .ok (some elemType)) :
    elemType.isSized = true := by
  obtain ⟨next, hnext, hrest⟩ := exists_of_bind h
  cases next with
  | some destTy =>
    cases hrest
    rw [nextCastDest] at hnext
    split at hnext
    · exact sizedDest_sized hnext
    · cases hnext
  | none =>
    dsimp only at hrest
    split at hrest
    · split at hrest
      · exact sizedDest_sized hrest
      · cases hrest
    · cases hrest

lemma convertFlexible_unbounded (h : elemType.isSized = true) {converted : Option (GraphType n)}
    (hconvert : convertFlexible elemType = some converted) : FitsRequest dl bytes (.ok converted) := by
  cases elemType with
  | struct name isPacked elements =>
    rw [convertFlexible] at hconvert
    split at hconvert
    · rename_i hflexible
      cases hconvert
      obtain ⟨elements', last, helements, hlast, hunbounded⟩ := getConvertedFlexibleArrayType_unbounded h hflexible
      rw [helements]
      exact fitsRequest_some_iff.mpr (Or.inl (.flexible hlast hunbounded))
    · cases hconvert
  | _ => cases hconvert

lemma inferConstantSize_fits_iff (h : elemType.isSized = true) (size : ConstantInt) :
    FitsRequest dl size.getZExtValue (inferConstantSize dl elemType size.sizeT) ↔
      size.sizeT = dl.getTypeAllocSize elemType ∨
        dl.getTypeAllocSize elemType ≠ 0 ∧ (dl.getTypeAllocSize elemType ∣ size.sizeT →
          size.sizeT = (2 ^ 32 - 1) * dl.getTypeAllocSize elemType ∨ size.sizeT % 2 ^ 61 = size.getZExtValue) := by
  rw [inferConstantSize]
  split
  · rename_i hsame
    refine iff_of_true (fitsRequest_some_iff.mpr (Or.inr ?_)) (Or.inl hsame)
    rw [← hsame]
    exact ConstantInt.sizeT_eq (hsame ▸ dl.size_lt elemType)
  · rename_i hsame
    split
    · rename_i hzero
      refine iff_of_false (not_fitsRequest_error _) ?_
      rintro (hsize | ⟨hne, -⟩)
      · exact hsame hsize
      · exact hne hzero
    · rename_i hzero
      split
      · rename_i hmod
        obtain ⟨count, hcount⟩ := Nat.dvd_of_mod_eq_zero hmod
        have hpos := Nat.pos_of_ne_zero hzero
        rw [getBoundedArrayTy_sized h, fitsRequest_array_iff, hcount, Nat.mul_div_cancel_left count hpos]
        rw [Nat.mul_comm count]
        constructor
        · rintro (rfl | hbytes)
          · exact Or.inr ⟨hzero, fun _ => Or.inl (Nat.mul_comm _ _)⟩
          · exact Or.inr ⟨hzero, fun _ => Or.inr hbytes⟩
        · rintro (hsize | ⟨-, hexact⟩)
          · exact absurd (hcount.trans hsize) hsame
          · refine (hexact (Nat.dvd_mul_right _ _)).imp (fun hcount => ?_) id
            exact Nat.eq_of_mul_eq_mul_left hpos (hcount.trans (Nat.mul_comm _ _))
      · rename_i hmod
        exact iff_of_true fitsRequest_none (Or.inr ⟨hzero, fun hdvd => absurd (Nat.mod_eq_zero_of_dvd hdvd) hmod⟩)

lemma getArgOperand_of_get {argNo : ℕ} {operand : SizeOperand} (h : allocSite.args[argNo]? = some operand) :
    getArgOperand allocSite argNo = .ok operand := by
  rw [getArgOperand, h]

lemma inferMallocType_cast (hcast : getNextBitCastDestType allocSite = .ok (some elemType)) {argNo : ℕ}
    {size : ConstantInt} (harg : allocSite.args[argNo]? = some (.constantInt size)) :
    inferMallocType dl allocSite argNo =
      (convertFlexible elemType).elim (inferConstantSize dl elemType size.sizeT) .ok := by
  cases hconvert : convertFlexible elemType with
  | some converted =>
    simp only [inferMallocType, hcast, bind, Except.bind, hconvert, Option.elim_some]
    rfl
  | none =>
    simp only [inferMallocType, hcast, bind, Except.bind, hconvert, Option.elim_none,
      if_pos (Int.natCast_nonneg argNo), Int.toNat_natCast, getArgOperand_of_get harg]
    rfl

lemma inferMallocType_fits_iff (hcast : getNextBitCastDestType allocSite = .ok (some elemType)) {argNo : ℕ}
    {size : ConstantInt} (harg : allocSite.args[argNo]? = some (.constantInt size)) :
    FitsRequest dl size.getZExtValue (inferMallocType dl allocSite argNo) ↔
      (AllocRequest.malloc size).Exact dl elemType := by
  have hsized := getNextBitCastDestType_sized hcast
  rw [inferMallocType_cast hcast harg, AllocRequest.Exact]
  cases hconvert : convertFlexible elemType with
  | some converted => exact iff_of_true (convertFlexible_unbounded hsized hconvert) (Or.inl rfl)
  | none =>
    rw [or_iff_right (by simp)]
    exact inferConstantSize_fits_iff hsized size

lemma inferMallocType_fits_of_no_cast (hcast : getNextBitCastDestType allocSite = .ok none) {argNo : ℕ}
    {size : ConstantInt} (harg : allocSite.args[argNo]? = some (.constantInt size))
    (hbyte : dl.getTypeAllocSize allocSite.resultPointee = 1) :
    FitsRequest dl size.getZExtValue (inferMallocType dl allocSite argNo) := by
  have heq : inferMallocType dl allocSite argNo =
      .ok (if size.getSExtValue = 1 then some allocSite.resultPointee else none) := by
    simp only [inferMallocType, hcast, bind, Except.bind, if_pos (Int.natCast_nonneg argNo), Int.toNat_natCast,
      getArgOperand_of_get harg]
    rfl
  rw [heq]
  split
  · rename_i hone
    have hsize : size.sizeT = 1 := congrArg BitVec.toNat hone
    rw [fitsRequest_some_iff, hbyte, ← ConstantInt.sizeT_eq (by omega), hsize]
    exact Or.inr rfl
  · exact fitsRequest_none

lemma inferCallocType_cast (hcast : getNextBitCastDestType allocSite = .ok (some elemType))
    {num size : ConstantInt} (hnum : allocSite.args[0]? = some (.constantInt num))
    (hsize : allocSite.args[1]? = some (.constantInt size)) :
    inferCallocType dl allocSite 0 1 =
      if dl.getTypeAllocSize elemType = size.sizeT then
        if num.getSExtValue = 1 then inferMallocType dl allocSite (1 : ℕ)
        else .ok (getBoundedArrayTy elemType num.sizeT)
      else .ok (getUnboundedArrayTy elemType) := by
  simp only [inferCallocType, hcast, bind, Except.bind, getArgOperand_of_get hnum, getArgOperand_of_get hsize]
  rfl

lemma inferCallocType_fits_iff (hcast : getNextBitCastDestType allocSite = .ok (some elemType))
    {num size : ConstantInt} (hnum : allocSite.args[0]? = some (.constantInt num))
    (hsize : allocSite.args[1]? = some (.constantInt size)) :
    FitsRequest dl (num.getZExtValue * size.getZExtValue) (inferCallocType dl allocSite 0 1) ↔
      (AllocRequest.calloc num size).Exact dl elemType := by
  have hsized := getNextBitCastDestType_sized hcast
  rw [inferCallocType_cast hcast hnum hsize, AllocRequest.Exact]
  split
  · rename_i hsame
    have hbytes : size.getZExtValue = dl.getTypeAllocSize elemType := by
      rw [hsame]
      exact (ConstantInt.sizeT_eq (hsame ▸ dl.size_lt elemType)).symm
    split
    · rename_i hone
      have hnum1 : num.sizeT = 1 := congrArg BitVec.toNat hone
      have hfits := (@inferMallocType_fits_iff n dl _ _ hcast _ _ hsize).mpr (Or.inr (Or.inl hsame.symm))
      rw [← ConstantInt.sizeT_eq (c := num) (by omega), hnum1, Nat.one_mul]
      exact iff_of_true hfits (Or.inr (Or.inl rfl))
    · rename_i hone
      have hnum1 : num.sizeT ≠ 1 := fun h => hone (BitVec.eq_of_toNat_eq h)
      rw [getBoundedArrayTy_sized hsized, fitsRequest_array_iff, hbytes, or_iff_right (not_not.mpr hsame),
        or_iff_right hnum1]
  · rename_i hne
    exact iff_of_true (fitsRequest_unbounded hsized) (Or.inl hne)

end Inference

open DefaultHeapModel in
/-- The type that is inferred for a request of constant size fits just where it comes out in bytes of the type that
the result is cast to, if it is cast. -/
theorem inferHeapAllocType_fits_iff {dl : DataLayout n} {funName : String} {allocSite : AllocSite n}
    {elemType : Option (GraphType n)} (hcast : getNextBitCastDestType allocSite = .ok elemType)
    {request : AllocRequest} (hmade : request.MadeBy dl funName allocSite) :
    FitsRequest dl request.bytes (inferHeapAllocType dl funName allocSite) ↔
      ∀ type, elemType = some type → request.Exact dl type := by
  rw [inferHeapAllocType]
  cases request with
  | malloc size =>
    obtain ⟨hname, hsize, hbyte⟩ := hmade
    rw [hname]
    cases elemType with
    | none => exact iff_of_true (@inferMallocType_fits_of_no_cast n dl _ hcast 0 _ hsize hbyte) (by simp)
    | some type =>
      refine (@inferMallocType_fits_iff n dl _ _ hcast 0 _ hsize).trans ?_
      simp
  | calloc num size =>
    obtain ⟨hname, hnum, hsize⟩ := hmade
    rw [hname]
    cases elemType with
    | none =>
      refine iff_of_true ?_ (by simp)
      rw [if_pos rfl, inferCallocType, hcast]
      exact fitsRequest_none
    | some type =>
      refine (inferCallocType_fits_iff hcast hnum hsize).trans ?_
      simp

namespace EmptyStruct

open DefaultHeapModel

mutual
/-- Sizes where no struct is padded behind its last element. -/
def typeSize : GraphType n → ℕ
  | .primitive name => if name = "i8" then 1 else 4
  | .pointer _ => 8
  | .array num element => num * (8 * typeSize element) % 2 ^ 64 / 8
  | .struct _ _ elements => endOffset elements % 2 ^ 61
  | .unsized _ => 0
  | .opaqueStruct _ => 0

def endOffset : GraphElements n → ℕ
  | .nil => 0
  | .cons offset element .nil => offset + typeSize element
  | .cons _ _ rest => endOffset rest
end

def layout : DataLayout 0 where
  getTypeAllocSize := typeSize
  size_lt type := by
    cases type with
    | primitive name =>
      rw [typeSize]
      split <;> decide
    | array num element =>
      rw [typeSize]
      omega
    | struct name isPacked elements =>
      rw [typeSize]
      omega
    | unsized name | opaqueStruct name | pointer pointee =>
      rw [typeSize]
      decide
  size_array num element := by rw [typeSize]

def bytes8 : ConstantInt := ⟨64, 8#64, le_rfl⟩

def castTo (type : GraphType 0) : AllocSite 0 where
  next := some (.bitcast (some type))
  inlined := false
  users := [.bitcast (some type)]
  args := [.constantInt bytes8]
  resultPointee := .primitive "i8"

theorem inferHeapAllocType_fits_iff_ints :
    FitsRequest layout 8 (inferHeapAllocType layout "malloc" (castTo (.primitive "i32"))) := by
  refine (@inferHeapAllocType_fits_iff 0 layout "malloc" (castTo (.primitive "i32")) (some (.primitive "i32")) rfl
    (.malloc bytes8) ⟨by decide, rfl, rfl⟩).mpr ?_
  rintro type ⟨⟩
  exact Or.inr (Or.inr ⟨by decide, fun _ => Or.inr (by decide)⟩)

/-- Eight bytes that are cast to a struct without elements are divided by zero. -/
theorem malloc_divided_by_zero :
    (AllocRequest.malloc bytes8).MadeBy layout "malloc" (castTo (.struct none false .nil)) ∧
      inferHeapAllocType layout "malloc" (castTo (.struct none false .nil)) = .error .divisionByZero ∧
        ¬ FitsRequest layout 8 (inferHeapAllocType layout "malloc" (castTo (.struct none false .nil))) := by
  have hanswer : inferHeapAllocType layout "malloc" (castTo (.struct none false .nil)) = .error .divisionByZero := by
    rfl
  refine ⟨⟨by decide, rfl, rfl⟩, hanswer, ?_⟩
  rw [hanswer]
  exact not_fitsRequest_error _

end EmptyStruct

end OpenRace
