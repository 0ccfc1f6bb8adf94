import OpenRace.PointerAnalysis.MemoryModel.Layouts

/-! Memory layouts built from type trees, each array folded onto one element, and cached by type. -/

namespace OpenRace

namespace MemLayoutManager

abbrev CollapsedLayoutMap := List (LLVMType × MemLayout)

structure Built where
  layout : MemLayout
  lOffset : ℕ
  pOffset : ℕ
  cache : CollapsedLayoutMap

/-- `visit` is `DFSTypeTree` on the type of the element. -/
def setElementLayout (elementType : LLVMType) (visit : CollapsedLayoutMap → Option Built)
    (parent : MemLayout) (lOffset pOffset : ℕ) (cache : CollapsedLayoutMap) : Option Built :=
  if pOffset < lOffset then none
  else match elementType with
  | .scalar pointer _ size => do
    let marked := parent.setElementOffset lOffset
    let layout ← if pointer then marked.setPointerOffset lOffset else some marked
    return ⟨layout, lOffset + size, pOffset + size, cache⟩
  | aggregate => do
    let sub ← visit cache
    let layout ← parent.mergeMemoryLayout sub.layout pOffset lOffset
    return ⟨layout, lOffset + sub.lOffset, pOffset + aggregate.allocSize, sub.cache⟩

lemma scalar_or_aggregate (type : LLVMType) :
    (∃ pointer name size, type = .scalar pointer name size) ∨ type.isAggregateType := by
  cases type with
  | scalar pointer name size => exact .inl ⟨pointer, name, size, rfl⟩
  | array numElements element => exact .inr rfl
  | struct name fields size => exact .inr rfl

lemma setElementLayout_aggregate {type : LLVMType} (ha : type.isAggregateType)
    (visit : CollapsedLayoutMap → Option Built) (parent : MemLayout) (lOffset pOffset : ℕ)
    (cache : CollapsedLayoutMap) :
    setElementLayout type visit parent lOffset pOffset cache =
      if pOffset < lOffset then none
      else (visit cache).bind fun sub => (parent.mergeMemoryLayout sub.layout pOffset lOffset).bind fun layout =>
        some ⟨layout, lOffset + sub.lOffset, pOffset + type.allocSize, sub.cache⟩ := by
  cases type with
  | scalar pointer name size => cases ha
  | array numElements element => rfl
  | struct name fields size => rfl

def remember (type : LLVMType) (built : Built) : Option Built :=
  if (built.cache.lookup type).isNone then some { built with cache := (type, built.layout) :: built.cache }
  else none

def getCollapsedArrayLayout (numElements : ℕ) (element : LLVMType) (visit : CollapsedLayoutMap → Option Built)
    (cache : CollapsedLayoutMap) : Option Built := do
  let layout : MemLayout := {
    type := .array numElements element, isArray := true
    subArrays := .cons 0 (.mk numElements element.allocSize 0 .nil) .nil }
  let built ← setElementLayout element visit layout 0 0 cache
  let pOffset := if numElements = unbounded then unbounded
    else built.pOffset + element.allocSize * (numElements - 1)
  let layout ← built.layout.setMaxOffsets built.lOffset pOffset
  match layout.subArrays with
  | .cons start (.mk elementNum elementSize 0 subArrays) rest =>
    remember (.array numElements element) ⟨{ layout with
      subArrays := .cons start (.mk elementNum elementSize built.lOffset subArrays) rest },
      built.lOffset, pOffset, built.cache⟩
  | _ => none

/-- Room after the last element is padding. -/
def finishStruct (type : LLVMType) (built : Built) : Option Built :=
  if built.pOffset ≤ type.allocSize then do
    let lOffset := built.lOffset + (type.allocSize - built.pOffset)
    let layout ← built.layout.setMaxOffsets lOffset type.allocSize
    remember type ⟨layout, lOffset, type.allocSize, built.cache⟩
  else none

/-- A type met before gives its cached layout, one without size a layout that has no array. -/
def lookup (type : LLVMType) (build : CollapsedLayoutMap → Option Built) (cache : CollapsedLayoutMap) :
    Option Built :=
  match cache.lookup type with
  | some layout => some ⟨layout, layout.maxLOffset, layout.maxPOffset, cache⟩
  | none =>
    if type.allocSize = 0 then
      remember type ⟨({ type, isArray := true } : MemLayout).setElementOffset 0, 0, 0, cache⟩
    else build cache

mutual
def DFSTypeTree : LLVMType → CollapsedLayoutMap → Option Built
  | .scalar .., _ => none
  | .array numElements element, cache =>
    lookup (.array numElements element) (getCollapsedArrayLayout numElements element (DFSTypeTree element)) cache
  | .struct name fields size, cache =>
    lookup (.struct name fields size) (fun cache => do
      let built ← getStructFields fields ⟨{ type := .struct name fields size }, 0, 0, cache⟩
      finishStruct (.struct name fields size) built) cache

def getStructFields : StructFields → Built → Option Built
  | .nil, built => some built
  | .cons elemOffset elementType rest, built =>
    if elemOffset < built.pOffset then none
    else do
      let padding := elemOffset - built.pOffset
      let next ← setElementLayout elementType (DFSTypeTree elementType) built.layout
        (built.lOffset + padding) (built.pOffset + padding) built.cache
      getStructFields rest next
end

def getLayoutForType (type : LLVMType) (cache : CollapsedLayoutMap) : Option (MemLayout × CollapsedLayoutMap) :=
  if type.isAggregateType then (DFSTypeTree type cache).map fun built => (built.layout, built.cache) else none

def getLayouts : List LLVMType → CollapsedLayoutMap → Option (List MemLayout)
  | [], _ => some []
  | type :: rest, cache => do
    let (layout, cache) ← getLayoutForType type cache
    let layouts ← getLayouts rest cache
    return layout :: layouts

end MemLayoutManager

end OpenRace
