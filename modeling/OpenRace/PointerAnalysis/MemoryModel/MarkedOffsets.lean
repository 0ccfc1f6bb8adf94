import OpenRace.PointerAnalysis.MemoryModel.FirstElements
import OpenRace.PointerAnalysis.MemoryModel.LayoutFolding

/-! The arrays and the marked offsets of a layout are those of its type. -/

namespace OpenRace

open SubArrays

namespace LLVMType

mutual
def arrays : LLVMType → SubArrays
  | scalar .. => .nil
  | array numElements element =>
    if numElements * element.allocSize = 0 then .nil
    else .cons 0 (.mk numElements element.allocSize element.foldedSize element.arrays) .nil
  | struct _ fields size => if size = 0 then .nil else fieldArrays fields

def fieldArrays : StructFields → SubArrays
  | .nil => .nil
  | .cons offset field rest => (field.arrays.shift offset).append (fieldArrays rest)
end

def startIf (marked : Bool) : Finset ℕ := if marked then {0} else ∅

mutual
def marks (pointers : Bool) : LLVMType → Finset ℕ
  | scalar pointer _ _ => startIf (pointer || !pointers)
  | array numElements element =>
    if numElements * element.allocSize = 0 then startIf !pointers else element.marks pointers
  | struct _ fields size => if size = 0 then startIf !pointers else fieldMarks pointers fields 0 0

def fieldMarks (pointers : Bool) : StructFields → (folded start : ℕ) → Finset ℕ
  | .nil, _, _ => ∅
  | .cons offset field rest, folded, start =>
    (field.marks pointers).image (· + (folded + (offset - start))) ∪
      fieldMarks pointers rest (folded + (offset - start) + field.foldedSize) (offset + field.allocSize)
end

mutual
theorem arrays_within : ∀ {type : LLVMType}, type.WellFormed → type.arrays.Within 0 type.allocSize
  | scalar .., _ => trivial
  | array numElements element, _ => by
    rw [arrays]
    split
    · trivial
    · next hp => exact ⟨le_rfl, Nat.pos_of_ne_zero hp, trivial⟩
  | struct _ fields size, hw => by
    rw [arrays]
    split
    · trivial
    · exact fieldArrays_within hw

theorem fieldArrays_within : ∀ {fields : StructFields} {start size : ℕ}, FieldsFrom start size fields →
    (fieldArrays fields).Within start size
  | .nil, _, _, _ => trivial
  | .cons offset field rest, start, size, ⟨hstart, hfield, hrest⟩ => by
    have hle := le_of_fieldsFrom hrest
    have hin := (arrays_within hfield).shift offset
    rw [fieldArrays]
    exact (fieldArrays_within hrest).append (by omega) hle (hin.mono (by omega) (by omega)) (by omega)
end

end LLVMType

namespace LLVMType

lemma eq_zero_of_mem_startIf {marked : Bool} {lOffset : ℕ} (hm : lOffset ∈ startIf marked) : lOffset = 0 := by
  rw [startIf] at hm
  split at hm
  · exact Finset.mem_singleton.mp hm
  · cases hm

mutual
theorem marks_le {pointers : Bool} : ∀ {type : LLVMType}, ∀ lOffset ∈ type.marks pointers, lOffset ≤ type.foldedSize
  | scalar pointer name size, lOffset, hm => by
    rw [marks] at hm
    rw [eq_zero_of_mem_startIf hm]
    exact Nat.zero_le _
  | array numElements element, lOffset, hm => by
    rw [marks] at hm
    split at hm
    · rw [eq_zero_of_mem_startIf hm]
      exact Nat.zero_le _
    · next hp =>
      rw [foldedSize, if_neg hp]
      exact marks_le lOffset hm
  | struct name fields size, lOffset, hm => by
    rw [marks] at hm
    split at hm
    · rw [eq_zero_of_mem_startIf hm]
      exact Nat.zero_le _
    · rw [foldedSize]
      exact fieldMarks_le lOffset hm

theorem fieldMarks_le {pointers : Bool} {size : ℕ} : ∀ {fields : StructFields} {folded start : ℕ},
    ∀ lOffset ∈ fieldMarks pointers fields folded start, lOffset ≤ foldedEnd size fields folded start
  | .nil, _, _, _, hm => absurd hm (Finset.notMem_empty _)
  | .cons offset field rest, folded, start, lOffset, hm => by
    rw [fieldMarks, Finset.mem_union] at hm
    rw [foldedEnd]
    rcases hm with hm | hm
    · obtain ⟨inner, hinner, rfl⟩ := Finset.mem_image.mp hm
      have hle := marks_le inner hinner
      have hend := le_foldedEnd size rest (folded + (offset - start) + field.foldedSize) (offset + field.allocSize)
      omega
    · exact fieldMarks_le lOffset hm
end

end LLVMType

open LLVMType

namespace MemLayoutManager

structure Laid (layout : MemLayout) (type : LLVMType) : Prop where
  typed : layout.type = type
  arrays : layout.subArrays = type.arrays
  elements : layout.elementLayout = type.marks false
  pointers : layout.pointerLayout = type.marks true

def AllLaid (cache : CollapsedLayoutMap) : Prop := ∀ entry ∈ cache, Laid entry.2 entry.1

lemma allLaid_nil : AllLaid [] := fun _ h => absurd h List.not_mem_nil

def Lays (visit : CollapsedLayoutMap → Option Built) (type : LLVMType) : Prop :=
  ∀ cache built, Known cache → AllLaid cache → visit cache = some built →
    Laid built.layout type ∧ AllLaid built.cache

lemma remember_laid {type : LLVMType} {built built' : Built} (h : remember type built = some built')
    (hl : Laid built.layout type) (hc : AllLaid built.cache) : Laid built'.layout type ∧ AllLaid built'.cache := by
  rw [remember] at h
  split at h
  · cases h
    refine ⟨hl, fun entry hm => ?_⟩
    rcases List.mem_cons.mp hm with rfl | hm
    · exact hl
    · exact hc entry hm
  · cases h

lemma marks_of_empty {type : LLVMType} (ha : type.isAggregateType) (hz : type.allocSize = 0) :
    type.arrays = .nil ∧ ∀ pointers, type.marks pointers = startIf !pointers := by
  cases type with
  | scalar pointer name size => cases ha
  | array numElements element =>
    have hsize : numElements * element.allocSize = 0 := hz
    refine ⟨?_, fun pointers => ?_⟩
    · rw [LLVMType.arrays, if_pos hsize]
    · rw [marks, if_pos hsize]
  | struct name fields size =>
    have hsize : size = 0 := hz
    refine ⟨?_, fun pointers => ?_⟩
    · rw [LLVMType.arrays, if_pos hsize]
    · rw [marks, if_pos hsize]

lemma laid_empty {type : LLVMType} (ha : type.isAggregateType) (hz : type.allocSize = 0) :
    Laid (({ type, isArray := true } : MemLayout).setElementOffset 0) type := by
  obtain ⟨harrays, hmarks⟩ := marks_of_empty ha hz
  constructor
  · rfl
  · rw [harrays]
    rfl
  · rw [hmarks]
    rfl
  · rw [hmarks]
    rfl

lemma lookup_laid {type : LLVMType} {build : CollapsedLayoutMap → Option Built} (ha : type.isAggregateType)
    (hb : type.allocSize ≠ 0 → Lays build type) : Lays (lookup type build) type := by
  intro cache built hk hc h
  rw [lookup] at h
  split at h
  · next layout hfound =>
    obtain ⟨before, after, heq, -⟩ := List.lookup_eq_some_iff.mp hfound
    cases h
    exact ⟨hc (type, layout) (by rw [heq]; simp), hc⟩
  · split at h
    · next hz => exact remember_laid h (laid_empty ha hz) hc
    · next hsize => exact hb hsize cache built hk hc h

lemma setMaxOffsets_eq {layout layout' : MemLayout} {lOffset pOffset : ℕ}
    (h : layout.setMaxOffsets lOffset pOffset = some layout') :
    layout' = { layout with maxLOffset := lOffset, maxPOffset := pOffset } := by
  rw [MemLayout.setMaxOffsets] at h
  split at h
  · exact (Option.some.inj h).symm
  · cases h

structure Added (layout : MemLayout) (type : LLVMType) (lOffset : ℕ) (layout' : MemLayout) : Prop where
  typed : layout'.type = layout.type
  elements : layout'.elementLayout = layout.elementLayout ∪ (type.marks false).image (· + lOffset)
  pointers : layout'.pointerLayout = layout.pointerLayout ∪ (type.marks true).image (· + lOffset)

lemma mergeMemoryLayout_laid {layout sub layout' : MemLayout} {type : LLVMType} {pOffset lOffset : ℕ}
    (hs : Laid sub type) (h : layout.mergeMemoryLayout sub pOffset lOffset = some layout') :
    Added layout type lOffset layout' ∧ layout.mergeSubArrays type.arrays pOffset = some layout'.subArrays := by
  rw [MemLayout.mergeMemoryLayout, hs.arrays] at h
  split at h
  · obtain ⟨arrays, harrays, rfl⟩ := Option.map_eq_some_iff.mp h
    refine ⟨⟨rfl, ?_, ?_⟩, harrays⟩
    · dsimp only
      rw [hs.elements]
    · dsimp only
      rw [hs.pointers]
  · cases h

lemma setElementLayout_scalar_laid {parent : MemLayout} {visit : CollapsedLayoutMap → Option Built}
    {pointer : Bool} {name : String} {size lOffset pOffset : ℕ} {cache : CollapsedLayoutMap} {next : Built}
    (h : setElementLayout (.scalar pointer name size) visit parent lOffset pOffset cache = some next) :
    Added parent (.scalar pointer name size) lOffset next.layout ∧ next.layout.subArrays = parent.subArrays ∧
      next.cache = cache := by
  have hstart : ({0} : Finset ℕ).image (· + lOffset) = {lOffset} := by simp
  have hinsert : ∀ marked : Finset ℕ, insert lOffset marked = marked ∪ {lOffset} := fun marked => by
    rw [Finset.insert_eq, Finset.union_comm]
  unfold setElementLayout at h
  split at h
  · cases h
  · cases pointer with
    | false =>
      cases h
      refine ⟨⟨rfl, ?_, ?_⟩, rfl, rfl⟩
      · rw [marks, startIf, if_pos (by rfl), hstart, ← hinsert]
        rfl
      · rw [marks, startIf, if_neg (by decide), Finset.image_empty, Finset.union_empty]
        rfl
    | true =>
      obtain ⟨layout, hl, hnext⟩ := Option.bind_eq_some_iff.mp h
      cases hnext
      dsimp only at hl ⊢
      rw [MemLayout.setPointerOffset] at hl
      split at hl
      · cases hl
      · split at hl
        · cases hl
          refine ⟨⟨rfl, ?_, ?_⟩, rfl, rfl⟩
          · rw [marks, startIf, if_pos (by rfl), hstart, ← hinsert]
            rfl
          · rw [marks, startIf, if_pos (by rfl), hstart, ← hinsert]
            rfl
        · cases hl

lemma setElementLayout_laid {type : LLVMType} {visit : CollapsedLayoutMap → Option Built} {parent : MemLayout}
    {lOffset pOffset : ℕ} {cache : CollapsedLayoutMap} {next : Built}
    (hv : type.isAggregateType → Lays visit type) (hm : Merges parent) (hk : Known cache) (hc : AllLaid cache)
    (h : setElementLayout type visit parent lOffset pOffset cache = some next) :
    Added parent type lOffset next.layout ∧
      parent.mergeSubArrays type.arrays pOffset = some next.layout.subArrays ∧ AllLaid next.cache := by
  rcases scalar_or_aggregate type with ⟨pointer, name, size, rfl⟩ | ha
  · obtain ⟨hadded, harrays, hcache⟩ := setElementLayout_scalar_laid h
    refine ⟨hadded, ?_, hcache ▸ hc⟩
    rw [LLVMType.arrays, mergeSubArrays_nil hm, harrays]
  · rw [setElementLayout_aggregate ha] at h
    split at h
    · cases h
    · simp only [Option.bind_eq_some_iff] at h
      obtain ⟨sub, hvisit, layout, hl, hnext⟩ := h
      cases hnext
      obtain ⟨hs, hc'⟩ := hv ha cache sub hk hc hvisit
      obtain ⟨hadded, harrays⟩ := mergeMemoryLayout_laid hs hl
      exact ⟨hadded, harrays, hc'⟩

structure ElementLaid (numElements : ℕ) (element : LLVMType) (next : Built) : Prop where
  lOffset : next.lOffset = element.foldedSize
  pOffset : next.pOffset = element.allocSize
  maxLOffset : next.layout.maxLOffset = 0
  maxPOffset : next.layout.maxPOffset = 0
  typed : next.layout.type = .array numElements element
  arrays : next.layout.subArrays = .cons 0 (.mk numElements element.allocSize 0 element.arrays) .nil
  elements : next.layout.elementLayout = element.marks false
  pointers : next.layout.pointerLayout = element.marks true
  known : Known next.cache
  laid : AllLaid next.cache

lemma setElementLayout_array {numElements : ℕ} {element : LLVMType} {visit : CollapsedLayoutMap → Option Built}
    {cache : CollapsedLayoutMap} (hw : element.WellFormed) (hb : element.isAggregateType → Builds visit element)
    (hv : element.isAggregateType → Lays visit element) (hk : Known cache) (hc : AllLaid cache) :
    ∃ next, setElementLayout element visit {
        type := .array numElements element, isArray := true
        subArrays := .cons 0 (.mk numElements element.allocSize 0 .nil) .nil } 0 0 cache = some next ∧
      ElementLaid numElements element next := by
  let start : MemLayout := {
    type := .array numElements element, isArray := true
    subArrays := .cons 0 (.mk numElements element.allocSize 0 .nil) .nil }
  have hmerges : Merges start := fun _ _ => rfl
  have hmarked : Marked start 0 := ⟨Finset.empty_subset _, fun _ hm => absurd hm (Finset.notMem_empty _)⟩
  obtain ⟨layout, cache', hset, hext, hk', -⟩ := setElementLayout_eq hw hb hmarked hmerges le_rfl hk
  obtain ⟨⟨htyped, helements, hpointers⟩, harrays, hc'⟩ := setElementLayout_laid hv hmerges hk hc hset
  have hnone : SubArrays.nil.Within 0 (0 + 0) := trivial
  have hinsert : element.arrays.insertAll 0 .nil = element.arrays := by
    rw [insertAll_eq (arrays_within hw) hnone (Nat.zero_le _), append, shift_zero]
  have hsome : start.mergeSubArrays element.arrays 0 =
      some (.cons 0 (.mk numElements element.allocSize 0 (element.arrays.insertAll 0 .nil)) .nil) := rfl
  rw [hsome, hinsert] at harrays
  have hshift : ∀ marked : Finset ℕ, ∅ ∪ marked.image (· + 0) = marked := by simp
  refine ⟨_, hset, ?_⟩
  exact {
    lOffset := Nat.zero_add _
    pOffset := Nat.zero_add _
    maxLOffset := hext.maxLOffset
    maxPOffset := hext.maxPOffset
    typed := htyped
    arrays := (Option.some.inj harrays).symm
    elements := helements.trans (hshift _)
    pointers := hpointers.trans (hshift _)
    known := hk'
    laid := hc' }

lemma getCollapsedArrayLayout_laid {numElements : ℕ} {element : LLVMType}
    {visit : CollapsedLayoutMap → Option Built} (hw : element.WellFormed)
    (hb : element.isAggregateType → Builds visit element) (hv : element.isAggregateType → Lays visit element)
    (hp : numElements * element.allocSize ≠ 0) :
    Lays (getCollapsedArrayLayout numElements element visit) (.array numElements element) := by
  intro cache built hk hc h
  obtain ⟨next, hset, hnext⟩ := setElementLayout_array hw hb hv hk hc
  rw [getCollapsedArrayLayout] at h
  simp only [Option.bind_eq_bind] at h
  rw [hset, Option.bind_some, Option.bind_eq_some_iff] at h
  obtain ⟨layout, hmax, h⟩ := h
  have hmaxed := setMaxOffsets_eq hmax
  split at h
  · next begin elementNum elementSize subArrays rest hsub =>
    rw [hmaxed, hnext.arrays] at hsub
    cases hsub
    refine remember_laid h ⟨?_, ?_, ?_, ?_⟩ hnext.laid
    · dsimp only
      rw [hmaxed]
      exact hnext.typed
    · dsimp only
      rw [hnext.lOffset, LLVMType.arrays, if_neg hp]
    · dsimp only
      rw [hmaxed, marks, if_neg hp]
      exact hnext.elements
    · dsimp only
      rw [hmaxed, marks, if_neg hp]
      exact hnext.pointers
  · cases h

lemma finishStruct_laid {name : String} {fields : StructFields} {size : ℕ} {built built' : Built}
    (hs : size ≠ 0) (htyped : built.layout.type = .struct name fields size)
    (harrays : built.layout.subArrays = fieldArrays fields)
    (helements : built.layout.elementLayout = fieldMarks false fields 0 0)
    (hpointers : built.layout.pointerLayout = fieldMarks true fields 0 0) (hc : AllLaid built.cache)
    (h : finishStruct (.struct name fields size) built = some built') :
    Laid built'.layout (.struct name fields size) ∧ AllLaid built'.cache := by
  rw [finishStruct] at h
  split at h
  · simp only [Option.bind_eq_bind, Option.bind_eq_some_iff] at h
    obtain ⟨layout, hmax, h⟩ := h
    have hmaxed := setMaxOffsets_eq hmax
    refine remember_laid h ⟨?_, ?_, ?_, ?_⟩ hc
    · dsimp only
      rw [hmaxed]
      exact htyped
    · dsimp only
      rw [hmaxed, LLVMType.arrays, if_neg hs]
      exact harrays
    · dsimp only
      rw [hmaxed, marks, if_neg hs]
      exact helements
    · dsimp only
      rw [hmaxed, marks, if_neg hs]
      exact hpointers
  · cases h

mutual
theorem DFSTypeTree_laid : ∀ {type : LLVMType}, type.WellFormed → type.allocSize < UInt64.size →
    type.isAggregateType → Lays (DFSTypeTree type) type
  | .scalar .., _, _, ha => nomatch ha
  | .array numElements element, hw, hb, ha => by
    intro cache built hk hc h
    rw [DFSTypeTree] at h
    refine lookup_laid ha (fun hp => ?_) cache built hk hc h
    have helement : element.WellFormed := hw
    have hnum : 0 < numElements := Nat.pos_of_ne_zero fun h => hp (by rw [allocSize, h, Nat.zero_mul])
    have hbound : element.allocSize < UInt64.size :=
      (Nat.le_mul_of_pos_left element.allocSize hnum).trans_lt hb
    exact getCollapsedArrayLayout_laid helement (DFSTypeTree_eq helement hbound)
      (fun ha' => DFSTypeTree_laid helement hbound ha') hp
  | .struct name fields size, hw, hb, ha => by
    intro cache built hk hc h
    rw [DFSTypeTree] at h
    refine lookup_laid ha (fun hp cache built hk hc h => ?_) cache built hk hc h
    simp only [Option.bind_eq_bind, Option.bind_eq_some_iff] at h
    obtain ⟨next, hfields, h⟩ := h
    obtain ⟨htyped, harrays, helements, hpointers, hc'⟩ := getStructFields_laid (partial_start _ hk) hc hw hb hfields
    exact finishStruct_laid hp htyped harrays (helements.trans (Finset.empty_union _))
      (hpointers.trans (Finset.empty_union _)) hc' h

theorem getStructFields_laid : ∀ {fields : StructFields} {built built' : Built} {size : ℕ}, Partial built →
    AllLaid built.cache → FieldsFrom built.pOffset size fields → size < UInt64.size →
    getStructFields fields built = some built' →
    built'.layout.type = built.layout.type ∧
      built'.layout.subArrays = built.layout.subArrays.append (fieldArrays fields) ∧
      built'.layout.elementLayout =
        built.layout.elementLayout ∪ fieldMarks false fields built.lOffset built.pOffset ∧
      built'.layout.pointerLayout =
        built.layout.pointerLayout ∪ fieldMarks true fields built.lOffset built.pOffset ∧
      AllLaid built'.cache
  | .nil, built, built', _, _, hc, _, _, h => by
    rw [getStructFields] at h
    cases h
    exact ⟨rfl, (append_nil _).symm, (Finset.union_empty _).symm, (Finset.union_empty _).symm, hc⟩
  | .cons offset field rest, built, built', size, hpartial, hc, ⟨hstart, hfield, hrest⟩, hb, h => by
    have hle := le_of_fieldsFrom hrest
    have hbound : field.allocSize < UInt64.size := by omega
    rw [getStructFields, if_neg (Nat.not_lt_of_le hstart)] at h
    simp only [Option.bind_eq_bind, Option.bind_eq_some_iff] at h
    obtain ⟨next, hset, h⟩ := h
    obtain ⟨found, arrays, heq, hnext, hlOffset, hpOffset, hdescribes, -, -⟩ :=
      hpartial.field hfield (DFSTypeTree_eq hfield hbound) hstart
    obtain rfl : found = next := Option.some.inj (heq.symm.trans hset)
    have hmerges : Merges built.layout := fun arrays pOffset =>
      Option.isSome_of_eq_some (merges_of_struct hpartial.isArray arrays pOffset)
    obtain ⟨⟨htyped, helements, hpointers⟩, hmerged, hc'⟩ :=
      setElementLayout_laid (fun ha => DFSTypeTree_laid hfield hbound ha) hmerges hpartial.known hc hset
    have hpad : built.pOffset + (offset - built.pOffset) = offset := by omega
    have hinto : built.layout.subArrays.Within 0 (0 + offset) := hpartial.within.mono le_rfl (by omega)
    have harrays : found.layout.subArrays = built.layout.subArrays.append (field.arrays.shift offset) := by
      rw [hpad, merges_of_struct hpartial.isArray,
        insertAll_eq (arrays_within hfield) hinto (Nat.zero_le _)] at hmerged
      exact (Option.some.inj hmerged).symm
    rw [← hpOffset] at hrest
    obtain ⟨htyped', harrays', helements', hpointers', hc''⟩ := getStructFields_laid hnext hc' hrest hb h
    refine ⟨htyped'.trans htyped, ?_, ?_, ?_, hc''⟩
    · rw [harrays', harrays, append_assoc, fieldArrays]
    · rw [helements', helements, hlOffset, hpOffset, fieldMarks, Finset.union_assoc]
    · rw [hpointers', hpointers, hlOffset, hpOffset, fieldMarks, Finset.union_assoc]
end

/-- A type whose layout offsets are indices of sparse bit vectors, the last of which is read as an int. -/
structure IndexedType extends AggregateType where
  indexed : type.foldedSize < 2 ^ 31

lemma getLayouts_laid (requests : List AggregateType) : ∀ {cache : CollapsedLayoutMap}, Known cache →
    AllLaid cache → ∃ layouts, getLayouts (requests.map (·.type)) cache = some layouts ∧
      List.Forall₂ (fun layout request => LayoutOf layout request.type ∧ Laid layout request.type)
        layouts requests := by
  induction requests with
  | nil => exact fun _ _ => ⟨[], rfl, .nil⟩
  | cons request rest ih =>
    intro cache hk hc
    obtain ⟨layout, cache', heq, hl, hk', -⟩ :=
      DFSTypeTree_eq request.wellFormed request.bounded request.aggregate cache hk
    obtain ⟨hlaid, hc'⟩ := DFSTypeTree_laid request.wellFormed request.bounded request.aggregate cache _ hk hc heq
    obtain ⟨layouts, hrest, hall⟩ := ih hk' hc'
    refine ⟨layout :: layouts, ?_, .cons ⟨hl, hlaid⟩ hall⟩
    simp [getLayouts, getLayoutForType, request.aggregate, heq, hrest]

end MemLayoutManager

end OpenRace
