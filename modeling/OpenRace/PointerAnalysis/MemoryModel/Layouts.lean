import OpenRace.LLVM.DataLayout
import Mathlib.Data.Finset.Image
import Mathlib.Data.UInt

/-! Memory layouts of types and the translation of physical offsets into layout offsets. -/

namespace OpenRace

mutual
inductive ArrayLayout
  | mk (elementNum elementSize layoutSize : ℕ) (subArrays : SubArrays)

/-- The arrays of a layout by their physical offsets, in increasing order. -/
inductive SubArrays
  | nil
  | cons (offset : ℕ) (layout : ArrayLayout) (rest : SubArrays)
end

/-- The greatest `size_t`, which also stands for the number of elements of an array without bound. -/
def unbounded : ℕ := UInt64.size - 1

namespace ArrayLayout

def elementSize : ArrayLayout → ℕ
  | mk _ elementSize _ _ => elementSize

def layoutSize : ArrayLayout → ℕ
  | mk _ _ layoutSize _ => layoutSize

def getArraySize : ArrayLayout → ℕ
  | mk elementNum elementSize _ _ => if elementNum = unbounded then unbounded else elementNum * elementSize

end ArrayLayout

namespace SubArrays

def isEmpty : SubArrays → Bool
  | nil => true
  | cons .. => false

/-- An offset that is taken keeps its array. -/
def insert (offset : ℕ) (layout : ArrayLayout) : SubArrays → SubArrays
  | nil => cons offset layout nil
  | cons other old rest =>
    if offset < other then cons offset layout (cons other old rest)
    else if other < offset then cons other old (insert offset layout rest)
    else cons other old rest

def insertAll (offset : ℕ) : SubArrays → SubArrays → SubArrays
  | nil, into => into
  | cons start layout rest, into => insertAll offset rest (into.insert (start + offset) layout)

end SubArrays

mutual
/-- Layout offset and offset within the first elements of the arrays passed; none is a failed assertion. -/
def indexBetweenArrays : SubArrays → (lOffset curOffset pOffset : ℕ) → Option (ℕ × ℕ)
  | .nil, lOffset, curOffset, pOffset => some (lOffset + (pOffset - curOffset), pOffset)
  | .cons arrayOffset arrayLayout rest, lOffset, curOffset, pOffset =>
    if pOffset ≤ arrayOffset then some (lOffset + (pOffset - curOffset), pOffset)
    else if arrayOffset < curOffset then none
    else if arrayOffset + arrayLayout.getArraySize ≤ pOffset then
      if arrayLayout.layoutSize = 0 then none
      else indexBetweenArrays rest (lOffset + (arrayOffset - curOffset) + arrayLayout.layoutSize)
        (arrayOffset + arrayLayout.getArraySize) pOffset
    else (arrayLayout.indexPhysicalOffset (pOffset - arrayOffset)).map fun result =>
      (result.1 + (lOffset + (arrayOffset - curOffset)), arrayOffset + result.2)

def ArrayLayout.indexPhysicalOffset : ArrayLayout → ℕ → Option (ℕ × ℕ)
  | .mk elementNum elementSize layoutSize subArrays, pOffset =>
    if !subArrays.isEmpty then indexBetweenArrays subArrays 0 0 (pOffset % elementSize)
    else if (ArrayLayout.mk elementNum elementSize layoutSize subArrays).getArraySize < pOffset then none
    else some (pOffset % elementSize, pOffset % elementSize)
end

structure MemLayout where
  type : LLVMType
  isArray : Bool := false
  pointerLayout : Finset ℕ := ∅
  elementLayout : Finset ℕ := ∅
  specialLayout : Finset ℕ := ∅
  subArrays : SubArrays := .nil
  maxLOffset : ℕ := 0
  maxPOffset : ℕ := 0

namespace MemLayout

def hasArray (layout : MemLayout) : Bool := !layout.subArrays.isEmpty

def indexPhysicalOffset (layout : MemLayout) (pOffset : ℕ) : Option (ℕ × ℕ) :=
  if !layout.hasArray then some (pOffset, pOffset)
  else if layout.maxPOffset ≤ pOffset then some (unbounded, pOffset)
  else indexBetweenArrays layout.subArrays 0 0 pOffset

def setMaxOffsets (layout : MemLayout) (lOffset pOffset : ℕ) : Option MemLayout :=
  if layout.maxLOffset = 0 ∧ layout.maxPOffset = 0 then
    some { layout with maxLOffset := lOffset, maxPOffset := pOffset }
  else none

def setElementOffset (layout : MemLayout) (offset : ℕ) : MemLayout :=
  { layout with elementLayout := insert offset layout.elementLayout }

def setPointerOffset (layout : MemLayout) (offset : ℕ) : Option MemLayout :=
  if offset ∈ layout.pointerLayout then none
  else if insert offset layout.pointerLayout ⊆ layout.elementLayout then
    some { layout with pointerLayout := insert offset layout.pointerLayout }
  else none

/-- The arrays of a layout for an array go into its own array. -/
def mergeSubArrays (layout : MemLayout) (arrays : SubArrays) (pOffset : ℕ) : Option SubArrays :=
  if layout.isArray then
    match layout.subArrays with
    | .cons 0 (.mk elementNum elementSize layoutSize subArrays) .nil =>
      some (.cons 0 (.mk elementNum elementSize layoutSize (arrays.insertAll 0 subArrays)) .nil)
    | _ => none
  else some (arrays.insertAll pOffset layout.subArrays)

def mergeMemoryLayout (layout subLayout : MemLayout) (pOffset lOffset : ℕ) : Option MemLayout :=
  let elementLayout := layout.elementLayout ∪ subLayout.elementLayout.image (· + lOffset)
  let pointerLayout := layout.pointerLayout ∪ subLayout.pointerLayout.image (· + lOffset)
  if pointerLayout ⊆ elementLayout then
    (layout.mergeSubArrays subLayout.subArrays pOffset).map fun subArrays => { layout with
      pointerLayout, elementLayout, subArrays,
      specialLayout := layout.specialLayout ∪ subLayout.specialLayout.image (· + pOffset) }
  else none

end MemLayout

end OpenRace
