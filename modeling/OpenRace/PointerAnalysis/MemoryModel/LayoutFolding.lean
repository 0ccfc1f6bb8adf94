import OpenRace.PointerAnalysis.MemoryModel.IndexedArrays
import OpenRace.PointerAnalysis.MemoryModel.MemLayoutManager

/-! The layouts built for type trees fold every array and number the offsets that remain. -/

namespace OpenRace

open LLVMType SubArrays

namespace MemLayoutManager

structure Marked (layout : MemLayout) (lOffset : ℕ) : Prop where
  subset : layout.pointerLayout ⊆ layout.elementLayout
  before : ∀ offset ∈ layout.pointerLayout, offset < lOffset

structure LayoutOf (layout : MemLayout) (type : LLVMType) : Prop where
  lOffset : layout.maxLOffset = type.foldedSize
  pOffset : layout.maxPOffset = type.allocSize
  marked : Marked layout type.foldedSize
  describes : Describes layout.subArrays type

def Known (cache : CollapsedLayoutMap) : Prop := ∀ entry ∈ cache, LayoutOf entry.2 entry.1

def Grown (bound : ℕ) (cache cache' : CollapsedLayoutMap) : Prop :=
  ∀ entry ∈ cache', entry ∈ cache ∨ sizeOf entry.1 ≤ bound

lemma known_nil : Known [] := fun _ h => absurd h List.not_mem_nil

lemma Grown.refl (bound : ℕ) (cache : CollapsedLayoutMap) : Grown bound cache cache := fun _ h => .inl h

lemma Grown.trans {bound bound' : ℕ} {cache cache' cache'' : CollapsedLayoutMap} (hb : bound ≤ bound')
    (h : Grown bound cache cache') (h' : Grown bound' cache' cache'') : Grown bound' cache cache'' := by
  intro entry hm
  rcases h' entry hm with hm | hs
  · exact (h entry hm).imp_right fun hs => hs.trans hb
  · exact .inr hs

lemma Grown.mono {bound bound' : ℕ} {cache cache' : CollapsedLayoutMap} (hb : bound ≤ bound')
    (h : Grown bound cache cache') : Grown bound' cache cache' :=
  fun entry hm => (h entry hm).imp_right fun hs => hs.trans hb

lemma lookup_eq_none {type : LLVMType} {cache : CollapsedLayoutMap} :
    cache.lookup type = none ↔ ∀ entry ∈ cache, entry.1 ≠ type := by
  rw [List.lookup_eq_none_iff]
  simp only [ne_comm, bne_iff_ne]

lemma remember_eq {type : LLVMType} {built : Built} (h : ∀ entry ∈ built.cache, entry.1 ≠ type)
    (hk : Known built.cache) (hl : LayoutOf built.layout type) :
    ∃ cache, remember type built = some { built with cache } ∧ Known cache ∧
      Grown (sizeOf type) built.cache cache := by
  refine ⟨(type, built.layout) :: built.cache, ?_, ?_, ?_⟩
  · rw [remember, lookup_eq_none.mpr h]
    rfl
  · intro entry hm
    rcases List.mem_cons.mp hm with rfl | hm
    · exact hl
    · exact hk entry hm
  · intro entry hm
    rcases List.mem_cons.mp hm with rfl | hm
    · exact .inr le_rfl
    · exact .inl hm

def Builds (visit : CollapsedLayoutMap → Option Built) (type : LLVMType) : Prop :=
  ∀ cache, Known cache → ∃ layout cache', visit cache = some ⟨layout, type.foldedSize, type.allocSize, cache'⟩ ∧
    LayoutOf layout type ∧ Known cache' ∧ Grown (sizeOf type) cache cache'

def Merges (layout : MemLayout) : Prop := ∀ arrays pOffset, (layout.mergeSubArrays arrays pOffset).isSome

lemma Marked.setElement {layout : MemLayout} {lOffset bound : ℕ} (h : Marked layout bound) :
    Marked (layout.setElementOffset lOffset) bound where
  subset := h.subset.trans (Finset.subset_insert _ _)
  before := h.before

lemma Marked.setPointer {layout : MemLayout} {lOffset size : ℕ} (h : Marked layout lOffset) (hp : 0 < size)
    (he : lOffset ∈ layout.elementLayout) :
    ∃ layout', layout.setPointerOffset lOffset = some layout' ∧ Marked layout' (lOffset + size) ∧
      layout' = { layout with pointerLayout := layout'.pointerLayout } := by
  have hnew : lOffset ∉ layout.pointerLayout := fun hm => Nat.lt_irrefl _ (h.before _ hm)
  have hsub : insert lOffset layout.pointerLayout ⊆ layout.elementLayout := Finset.insert_subset he h.subset
  refine ⟨{ layout with pointerLayout := insert lOffset layout.pointerLayout }, ?_, ⟨hsub, ?_⟩, rfl⟩
  · rw [MemLayout.setPointerOffset, if_neg hnew, if_pos hsub]
  · intro offset hm
    rcases Finset.mem_insert.mp hm with rfl | hm
    · omega
    · exact (h.before offset hm).trans (by omega)

lemma Marked.mono {layout : MemLayout} {bound bound' : ℕ} (h : Marked layout bound) (hb : bound ≤ bound') :
    Marked layout bound' where
  subset := h.subset
  before := fun offset hm => (h.before offset hm).trans_le hb

structure Extended (layout : MemLayout) (type : LLVMType) (lOffset pOffset : ℕ) (layout' : MemLayout) : Prop where
  marked : Marked layout' (lOffset + type.foldedSize)
  merged : ∃ arrays, Describes arrays type ∧ layout.mergeSubArrays arrays pOffset = some layout'.subArrays
  isArray : layout'.isArray = layout.isArray
  maxLOffset : layout'.maxLOffset = layout.maxLOffset
  maxPOffset : layout'.maxPOffset = layout.maxPOffset

lemma mergeSubArrays_nil {layout : MemLayout} (h : Merges layout) (pOffset : ℕ) :
    layout.mergeSubArrays .nil pOffset = some layout.subArrays := by
  have hm := h .nil pOffset
  rw [MemLayout.mergeSubArrays] at hm ⊢
  split
  · next harray =>
    rw [if_pos harray] at hm
    split at hm
    · next heq => rw [heq, insertAll]
    · exact absurd hm (by simp)
  · rw [insertAll]

lemma mergeMemoryLayout_eq {layout sub : MemLayout} {type : LLVMType} {lOffset : ℕ} (hm : Marked layout lOffset)
    (hmerge : Merges layout) (hs : LayoutOf sub type) (pOffset : ℕ) :
    ∃ layout', layout.mergeMemoryLayout sub pOffset lOffset = some layout' ∧
      Extended layout type lOffset pOffset layout' := by
  obtain ⟨arrays, harrays⟩ := Option.isSome_iff_exists.mp (hmerge sub.subArrays pOffset)
  have hsub : layout.pointerLayout ∪ sub.pointerLayout.image (· + lOffset) ⊆
      layout.elementLayout ∪ sub.elementLayout.image (· + lOffset) :=
    Finset.union_subset_union hm.subset (Finset.image_subset_image hs.marked.subset)
  refine ⟨{ layout with
    pointerLayout := layout.pointerLayout ∪ sub.pointerLayout.image (· + lOffset)
    elementLayout := layout.elementLayout ∪ sub.elementLayout.image (· + lOffset)
    specialLayout := layout.specialLayout ∪ sub.specialLayout.image (· + pOffset)
    subArrays := arrays }, ?_, ⟨hsub, ?_⟩, ⟨sub.subArrays, hs.describes, harrays⟩, rfl, rfl, rfl⟩
  · rw [MemLayout.mergeMemoryLayout, if_pos hsub, harrays, Option.map_some]
  · intro offset hmem
    rcases Finset.mem_union.mp hmem with hold | hnew
    · exact (hm.before offset hold).trans_le (Nat.le_add_right _ _)
    · obtain ⟨sub', hsub', rfl⟩ := Finset.mem_image.mp hnew
      have hlt := hs.marked.before sub' hsub'
      omega

lemma setElementLayout_scalar {layout : MemLayout} {lOffset pOffset size : ℕ} (pointer : Bool) (name : String)
    (hw : 0 < size) (hm : Marked layout lOffset) (hmerge : Merges layout) (hle : lOffset ≤ pOffset)
    (visit : CollapsedLayoutMap → Option Built) (cache : CollapsedLayoutMap) :
    ∃ layout', setElementLayout (.scalar pointer name size) visit layout lOffset pOffset cache =
        some ⟨layout', lOffset + size, pOffset + size, cache⟩ ∧
      Extended layout (.scalar pointer name size) lOffset pOffset layout' := by
  have harrays := mergeSubArrays_nil hmerge pOffset
  have hdescribes := describes_scalar pointer name size
  rw [setElementLayout, if_neg (Nat.not_lt_of_le hle)]
  cases pointer with
  | false =>
    refine ⟨layout.setElementOffset lOffset, rfl, ?_, ⟨.nil, hdescribes, harrays⟩, rfl, rfl, rfl⟩
    rw [foldedSize]
    exact hm.setElement.mono (Nat.le_add_right _ _)
  | true =>
    obtain ⟨layout', heq, hm', hsame⟩ :=
      hm.setElement.setPointer hw (Finset.mem_insert_self lOffset layout.elementLayout)
    refine ⟨layout', by simp [heq], ?_, ⟨.nil, hdescribes, ?_⟩, ?_, ?_, ?_⟩
    · rw [foldedSize]
      exact hm'
    all_goals rw [hsame]
    · exact harrays
    · rfl
    · rfl
    · rfl

lemma setElementLayout_eq {type : LLVMType} {visit : CollapsedLayoutMap → Option Built} {layout : MemLayout}
    {lOffset pOffset : ℕ} {cache : CollapsedLayoutMap} (hw : type.WellFormed)
    (hv : type.isAggregateType → Builds visit type) (hm : Marked layout lOffset) (hmerge : Merges layout)
    (hle : lOffset ≤ pOffset) (hk : Known cache) :
    ∃ layout' cache', setElementLayout type visit layout lOffset pOffset cache =
        some ⟨layout', lOffset + type.foldedSize, pOffset + type.allocSize, cache'⟩ ∧
      Extended layout type lOffset pOffset layout' ∧ Known cache' ∧ Grown (sizeOf type) cache cache' := by
  rcases scalar_or_aggregate type with ⟨pointer, name, size, rfl⟩ | ha
  · obtain ⟨layout', heq, hext⟩ := setElementLayout_scalar pointer name hw hm hmerge hle visit cache
    exact ⟨layout', cache, by rw [heq, foldedSize, allocSize], hext, hk, .refl _ _⟩
  · obtain ⟨sub, cache', hvisit, hsub, hk', hg⟩ := hv ha cache hk
    obtain ⟨layout', heq, hext⟩ := mergeMemoryLayout_eq hm hmerge hsub pOffset
    refine ⟨layout', cache', ?_, hext, hk', hg⟩
    rw [setElementLayout_aggregate ha, if_neg (Nat.not_lt_of_le hle), hvisit, Option.bind_some]
    dsimp only
    rw [heq, Option.bind_some]

lemma layoutOf_empty {type : LLVMType} (hw : type.WellFormed) (hz : type.allocSize = 0) :
    LayoutOf (({ type, isArray := true } : MemLayout).setElementOffset 0) type where
  lOffset := (Nat.le_zero.mp (hz ▸ foldedSize_le hw)).symm
  pOffset := hz.symm
  marked := ⟨Finset.empty_subset _, fun _ hm => absurd hm (Finset.notMem_empty _)⟩
  describes := describes_empty hw hz

lemma lookup_eq {type : LLVMType} {build : CollapsedLayoutMap → Option Built} (hw : type.WellFormed)
    (hb : type.allocSize ≠ 0 → ∀ cache, Known cache → (∀ entry ∈ cache, entry.1 ≠ type) →
      ∃ layout cache', build cache = some ⟨layout, type.foldedSize, type.allocSize, cache'⟩ ∧
        LayoutOf layout type ∧ Known cache' ∧ Grown (sizeOf type) cache cache') :
    Builds (lookup type build) type := by
  intro cache hk
  cases hc : cache.lookup type with
  | some layout =>
    obtain ⟨before, after, heq, -⟩ := List.lookup_eq_some_iff.mp hc
    have hl : LayoutOf layout type := hk (type, layout) (by rw [heq]; simp)
    refine ⟨layout, cache, ?_, hl, hk, .refl _ _⟩
    simp only [lookup, hc, hl.lOffset, hl.pOffset]
  | none =>
    have hnew := lookup_eq_none.mp hc
    by_cases hz : type.allocSize = 0
    · have hfolded : type.foldedSize = 0 := Nat.le_zero.mp (hz ▸ foldedSize_le hw)
      have hl := layoutOf_empty hw hz
      obtain ⟨cache', heq, hk', hg⟩ := @remember_eq type ⟨_, 0, 0, cache⟩ hnew hk hl
      refine ⟨_, cache', ?_, hl, hk', hg⟩
      rw [lookup, hc]
      dsimp only
      rw [if_pos hz, hfolded, hz]
      exact heq
    · obtain ⟨layout, cache', heq, hl, hk', hg⟩ := hb hz cache hk hnew
      refine ⟨layout, cache', ?_, hl, hk', hg⟩
      rw [lookup, hc]
      dsimp only
      rw [if_neg hz, heq]

lemma unknown_of_grown {type : LLVMType} {bound : ℕ} {cache cache' : CollapsedLayoutMap}
    (hnew : ∀ entry ∈ cache, entry.1 ≠ type) (hg : Grown bound cache cache') (hb : bound < sizeOf type) :
    ∀ entry ∈ cache', entry.1 ≠ type := by
  intro entry hm heq
  rcases hg entry hm with hold | hsize
  · exact hnew entry hold heq
  · rw [heq] at hsize
    omega

lemma arrayEnd_eq {numElements elementSize : ℕ} (hp : numElements * elementSize ≠ 0)
    (hb : numElements * elementSize < UInt64.size) :
    (if numElements = unbounded then unbounded else 0 + elementSize + elementSize * (numElements - 1)) =
      numElements * elementSize := by
  have hsize := getArraySize_eq 0 .nil hb (Nat.pos_of_ne_zero hp)
  rw [ArrayLayout.getArraySize] at hsize
  split
  · next h => rwa [if_pos h] at hsize
  · have hnum : numElements ≠ 0 := fun h => hp (by rw [h, Nat.zero_mul])
    obtain ⟨n, rfl⟩ := Nat.exists_eq_succ_of_ne_zero hnum
    rw [Nat.succ_sub_one, Nat.succ_mul, Nat.mul_comm elementSize]
    omega

lemma getCollapsedArrayLayout_eq {numElements : ℕ} {element : LLVMType} {visit : CollapsedLayoutMap → Option Built}
    (hw : element.WellFormed) (hv : element.isAggregateType → Builds visit element)
    (hp : numElements * element.allocSize ≠ 0) (hb : numElements * element.allocSize < UInt64.size)
    {cache : CollapsedLayoutMap} (hk : Known cache) (hnew : ∀ entry ∈ cache, entry.1 ≠ .array numElements element) :
    ∃ layout cache', getCollapsedArrayLayout numElements element visit cache =
        some ⟨layout, (LLVMType.array numElements element).foldedSize, numElements * element.allocSize, cache'⟩ ∧
      LayoutOf layout (.array numElements element) ∧ Known cache' ∧
      Grown (sizeOf (LLVMType.array numElements element)) cache cache' := by
  let start : MemLayout := {
    type := .array numElements element, isArray := true
    subArrays := .cons 0 (.mk numElements element.allocSize 0 .nil) .nil }
  have hmarked : Marked start 0 := ⟨Finset.empty_subset _, fun _ hm => absurd hm (Finset.notMem_empty _)⟩
  obtain ⟨layout, cache', heq, hext, hk', hg⟩ :=
    setElementLayout_eq hw hv hmarked (fun _ _ => rfl) le_rfl hk
  obtain ⟨arrays, hdescribes, hmerged⟩ := hext.merged
  have harrays : layout.subArrays = .cons 0 (.mk numElements element.allocSize 0 arrays) .nil := by
    have hnone : SubArrays.nil.Within 0 (0 + 0) := trivial
    have hall : arrays.insertAll 0 .nil = arrays := by
      rw [insertAll_eq hdescribes.within hnone (Nat.zero_le _), append, shift_zero]
    have hsome : start.mergeSubArrays arrays 0 =
        some (.cons 0 (.mk numElements element.allocSize 0 (arrays.insertAll 0 .nil)) .nil) := rfl
    rw [hsome, hall] at hmerged
    exact (Option.some.inj hmerged).symm
  have hfolded : (LLVMType.array numElements element).foldedSize = element.foldedSize := by
    rw [foldedSize, if_neg hp]
  let done : MemLayout := { layout with
    subArrays := .cons 0 (.mk numElements element.allocSize element.foldedSize arrays) .nil
    maxLOffset := element.foldedSize
    maxPOffset := numElements * element.allocSize }
  have hdone : LayoutOf done (.array numElements element) := {
    lOffset := hfolded.symm
    pOffset := rfl
    marked := by
      rw [hfolded]
      exact ⟨hext.marked.subset, fun offset hm => by simpa using hext.marked.before offset hm⟩
    describes := describes_array hw hdescribes hp hb }
  have hsize : sizeOf element < sizeOf (LLVMType.array numElements element) := by
    rw [LLVMType.array.sizeOf_spec]
    omega
  obtain ⟨cache'', hrem, hk'', hg'⟩ := @remember_eq _
    ⟨done, element.foldedSize, numElements * element.allocSize, cache'⟩ (unknown_of_grown hnew hg hsize) hk' hdone
  refine ⟨done, cache'', ?_, hdone, hk'', hg.trans hsize.le hg'⟩
  have hmax : layout.setMaxOffsets element.foldedSize (numElements * element.allocSize) =
      some { layout with maxLOffset := element.foldedSize, maxPOffset := numElements * element.allocSize } := by
    rw [MemLayout.setMaxOffsets, if_pos ⟨hext.maxLOffset, hext.maxPOffset⟩]
  have hstart : setElementLayout element visit start 0 0 cache =
      some ⟨layout, element.foldedSize, 0 + element.allocSize, cache'⟩ := by rw [heq, Nat.zero_add]
  rw [hfolded, getCollapsedArrayLayout]
  simp only [Option.bind_eq_bind]
  rw [hstart, Option.bind_some]
  dsimp only
  rw [arrayEnd_eq hp hb, hmax, Option.bind_some]
  dsimp only
  rw [harrays]
  exact hrem

structure Partial (built : Built) : Prop where
  marked : Marked built.layout built.lOffset
  le : built.lOffset ≤ built.pOffset
  isArray : built.layout.isArray = false
  maxLOffset : built.layout.maxLOffset = 0
  maxPOffset : built.layout.maxPOffset = 0
  within : built.layout.subArrays.Within 0 built.pOffset
  known : Known built.cache

lemma partial_start (type : LLVMType) {cache : CollapsedLayoutMap} (hk : Known cache) :
    Partial ⟨{ type }, 0, 0, cache⟩ where
  marked := ⟨Finset.empty_subset _, fun _ hm => absurd hm (Finset.notMem_empty _)⟩
  le := le_rfl
  isArray := rfl
  maxLOffset := rfl
  maxPOffset := rfl
  within := trivial
  known := hk

lemma merges_of_struct {layout : MemLayout} (h : layout.isArray = false) (arrays : SubArrays) (pOffset : ℕ) :
    layout.mergeSubArrays arrays pOffset = some (arrays.insertAll pOffset layout.subArrays) := by
  rw [MemLayout.mergeSubArrays, h]
  rfl

lemma Partial.field {built : Built} (h : Partial built) {offset : ℕ} {type : LLVMType}
    {visit : CollapsedLayoutMap → Option Built} (hw : type.WellFormed)
    (hv : type.isAggregateType → Builds visit type) (hle : built.pOffset ≤ offset) :
    ∃ next arrays, setElementLayout type visit built.layout (built.lOffset + (offset - built.pOffset))
        (built.pOffset + (offset - built.pOffset)) built.cache = some next ∧
      Partial next ∧ next.lOffset = built.lOffset + (offset - built.pOffset) + type.foldedSize ∧
      next.pOffset = offset + type.allocSize ∧ Describes arrays type ∧
      next.layout.subArrays = built.layout.subArrays.append (arrays.shift offset) ∧
      Grown (sizeOf type) built.cache next.cache := by
  have hpad : built.pOffset + (offset - built.pOffset) = offset := by omega
  have hl := h.le
  have hpadded : built.lOffset + (offset - built.pOffset) ≤ offset := by omega
  obtain ⟨layout, cache, heq, hext, hk, hg⟩ := setElementLayout_eq hw hv
    (h.marked.mono (Nat.le_add_right _ (offset - built.pOffset)))
    (fun arrays pOffset => Option.isSome_of_eq_some (merges_of_struct h.isArray arrays pOffset)) hpadded h.known
  obtain ⟨arrays, hdescribes, hmerged⟩ := hext.merged
  have hinto : built.layout.subArrays.Within 0 (0 + offset) := h.within.mono le_rfl (by omega)
  have harrays : layout.subArrays = built.layout.subArrays.append (arrays.shift offset) := by
    rw [merges_of_struct h.isArray, insertAll_eq hdescribes.within hinto (Nat.zero_le _)] at hmerged
    exact (Option.some.inj hmerged).symm
  refine ⟨⟨layout, built.lOffset + (offset - built.pOffset) + type.foldedSize, offset + type.allocSize, cache⟩,
    arrays, by rw [hpad, heq], ?_, rfl, rfl, hdescribes, harrays, hg⟩
  have hsize := foldedSize_le hw
  have hbehind : (arrays.shift offset).Within (0 + offset) (offset + type.allocSize) :=
    (hdescribes.within.shift offset).mono le_rfl (by omega)
  exact {
    marked := hext.marked
    le := by dsimp only; omega
    isArray := hext.isArray.trans h.isArray
    maxLOffset := hext.maxLOffset.trans h.maxLOffset
    maxPOffset := hext.maxPOffset.trans h.maxPOffset
    within := by
      rw [harrays]
      exact hbehind.append le_rfl (by omega) hinto (Nat.zero_le _)
    known := hk }

lemma Partial.finish {built : Built} (h : Partial built) {name : String} {fields : StructFields} {size : ℕ}
    (hdescribes : DescribesFields built.layout.subArrays fields 0 size 0)
    (hend : built.pOffset ≤ size ∧ foldedEnd size fields 0 0 = built.lOffset + (size - built.pOffset))
    (hnew : ∀ entry ∈ built.cache, entry.1 ≠ .struct name fields size) :
    ∃ layout cache, finishStruct (.struct name fields size) built =
        some ⟨layout, (LLVMType.struct name fields size).foldedSize, size, cache⟩ ∧
      LayoutOf layout (.struct name fields size) ∧ Known cache ∧
      Grown (sizeOf (LLVMType.struct name fields size)) built.cache cache := by
  obtain ⟨hle, hfolded⟩ := hend
  have hfolded' : (LLVMType.struct name fields size).foldedSize = built.lOffset + (size - built.pOffset) := by
    rw [foldedSize, hfolded]
  let done : MemLayout := { built.layout with
    maxLOffset := built.lOffset + (size - built.pOffset), maxPOffset := size }
  have hdone : LayoutOf done (.struct name fields size) := {
    lOffset := hfolded'.symm
    pOffset := rfl
    marked := by
      rw [hfolded']
      exact ⟨h.marked.subset, (h.marked.mono (Nat.le_add_right _ _)).before⟩
    describes := by
      refine hdescribes.congr (by rw [foldedSize]) fun offset _ _ => ?_
      rw [foldedOffset, fold]
      exact ⟨rfl, rfl⟩ }
  obtain ⟨cache, hrem, hk, hg⟩ := @remember_eq _
    ⟨done, built.lOffset + (size - built.pOffset), size, built.cache⟩ hnew h.known hdone
  refine ⟨done, cache, ?_, hdone, hk, hg⟩
  have hmax : built.layout.setMaxOffsets (built.lOffset + (size - built.pOffset)) size = some done := by
    rw [MemLayout.setMaxOffsets, if_pos ⟨h.maxLOffset, h.maxPOffset⟩]
  rw [finishStruct, allocSize, if_pos hle, hfolded']
  simp only [Option.bind_eq_bind]
  rw [hmax]
  exact hrem

mutual
theorem DFSTypeTree_eq : ∀ {type : LLVMType}, type.WellFormed → type.allocSize < UInt64.size →
    type.isAggregateType → Builds (DFSTypeTree type) type
  | .scalar .., _, _, ha => nomatch ha
  | .array numElements element, hw, hb, _ => by
    intro cache hk
    rw [DFSTypeTree]
    refine lookup_eq hw (fun hp cache hk hnew => ?_) cache hk
    have hnum : 0 < numElements := Nat.pos_of_ne_zero fun h => hp (by rw [allocSize, h, Nat.zero_mul])
    have hbound : element.allocSize < UInt64.size :=
      (Nat.le_mul_of_pos_left element.allocSize hnum).trans_lt hb
    have helement : element.WellFormed := hw
    exact getCollapsedArrayLayout_eq helement (DFSTypeTree_eq helement hbound) hp hb hk hnew
  | .struct name fields size, hw, hb, _ => by
    intro cache hk
    rw [DFSTypeTree]
    refine lookup_eq hw (fun hp cache hk hnew => ?_) cache hk
    obtain ⟨built, arrays, heq, hdone, harrays, hdescribes, hend, hg⟩ := getStructFields_eq (partial_start _ hk) hw hb
    have hsize : sizeOf fields < sizeOf (LLVMType.struct name fields size) := by
      rw [LLVMType.struct.sizeOf_spec]
      omega
    obtain ⟨layout, cache', hfinish, hl, hk', hg'⟩ :=
      hdone.finish (harrays ▸ hdescribes) hend (unknown_of_grown hnew hg hsize)
    refine ⟨layout, cache', ?_, hl, hk', hg.trans hsize.le hg'⟩
    simp only [Option.bind_eq_bind]
    rw [heq]
    exact hfinish

theorem getStructFields_eq : ∀ {fields : StructFields} {built : Built} {size : ℕ}, Partial built →
    FieldsFrom built.pOffset size fields → size < UInt64.size →
    ∃ built' arrays, getStructFields fields built = some built' ∧ Partial built' ∧
      built'.layout.subArrays = built.layout.subArrays.append arrays ∧
      DescribesFields arrays fields built.pOffset size built.lOffset ∧
      (built'.pOffset ≤ size ∧ foldedEnd size fields built.lOffset built.pOffset =
        built'.lOffset + (size - built'.pOffset)) ∧
      Grown (sizeOf fields) built.cache built'.cache
  | .nil, built, size, h, hw, _ => by
    exact ⟨built, .nil, by rw [getStructFields], h, (append_nil _).symm, describesFields_nil hw _,
      ⟨hw, by rw [foldedEnd]⟩, .refl _ _⟩
  | .cons offset field rest, built, size, h, ⟨hstart, hfield, hrest⟩, hb => by
    have hle := le_of_fieldsFrom hrest
    obtain ⟨next, arrays, heq, hnext, hlOffset, hpOffset, hdescribes, harrays, hg⟩ :=
      h.field hfield (DFSTypeTree_eq hfield (by omega)) hstart
    rw [← hpOffset] at hrest
    obtain ⟨built', more, heq', hdone, hmore, hdescribes', hend, hg'⟩ := getStructFields_eq hnext hrest hb
    refine ⟨built', (arrays.shift offset).append more, ?_, hdone, ?_, ?_, ?_, ?_⟩
    · rw [getStructFields, if_neg (Nat.not_lt_of_le hstart)]
      simp only [Option.bind_eq_bind]
      rw [heq]
      exact heq'
    · rw [hmore, harrays, append_assoc]
    · rw [hlOffset, hpOffset] at hdescribes'
      exact describesFields_cons hstart hle hdescribes hdescribes'
    · rw [hlOffset, hpOffset] at hend
      rw [foldedEnd]
      exact hend
    · refine (hg.mono ?_).trans le_rfl (hg'.mono ?_)
      · rw [StructFields.cons.sizeOf_spec]
        omega
      · rw [StructFields.cons.sizeOf_spec]
        omega
end

lemma LayoutOf.index {layout : MemLayout} {type : LLVMType} (h : LayoutOf layout type) {pOffset : ℕ}
    (hlt : pOffset < type.allocSize) :
    layout.indexPhysicalOffset pOffset = some (type.foldedOffset pOffset, type.fold pOffset) := by
  have hin : indexBetweenArrays ((layout.subArrays.shift 0).append .nil) 0 0 pOffset =
      some (0 + type.foldedOffset (pOffset - 0), 0 + type.fold (pOffset - 0)) :=
    h.describes.inside (Nat.zero_le 0) rfl trivial (Nat.zero_le _) (by rwa [Nat.zero_add])
  rw [shift_zero, append_nil, Nat.sub_zero, Nat.zero_add, Nat.zero_add] at hin
  rw [MemLayout.indexPhysicalOffset, MemLayout.hasArray, h.pOffset]
  cases harrays : layout.subArrays with
  | nil =>
    rw [harrays, indexBetweenArrays] at hin
    simpa [isEmpty] using hin
  | cons offset array rest =>
    rw [harrays] at hin
    simpa [isEmpty, Nat.not_le_of_lt hlt] using hin

end MemLayoutManager

open MemLayoutManager

/-- A type that a layout is asked for, laid out by the target in an address space of 64 bits. -/
structure AggregateType where
  type : LLVMType
  wellFormed : type.WellFormed
  aggregate : type.isAggregateType
  bounded : type.allocSize < UInt64.size

/-- Physical offsets are folded onto the first elements of their arrays, which are canonical offsets of the same place in
the same scalar and numbered apart. -/
structure MemLayout.Folds (layout : MemLayout) (type : LLVMType) : Prop where
  canonical : ∀ pOffset < type.allocSize, ∃ lOffset folded,
    layout.indexPhysicalOffset pOffset = some (lOffset, folded) ∧ folded = type.fold pOffset ∧
      folded < type.allocSize ∧ type.Canonical folded ∧ type.byteAt folded = type.byteAt pOffset ∧
      layout.indexPhysicalOffset folded = some (lOffset, folded)
  fixed : ∀ pOffset < type.allocSize, type.Canonical pOffset →
    (layout.indexPhysicalOffset pOffset).map Prod.snd = some pOffset
  injective : ∀ pOffset < type.allocSize, ∀ pOffset' < type.allocSize, type.Canonical pOffset →
    type.Canonical pOffset' →
    ((layout.indexPhysicalOffset pOffset).map Prod.fst = (layout.indexPhysicalOffset pOffset').map Prod.fst ↔
      pOffset = pOffset')

lemma folds_of_layoutOf {layout : MemLayout} {type : LLVMType} (hw : type.WellFormed)
    (h : MemLayoutManager.LayoutOf layout type) : layout.Folds type where
  canonical := by
    intro pOffset hlt
    have hcanonical := canonical_fold hw hlt
    have hfold := (fold_le type pOffset).trans_lt hlt
    refine ⟨type.foldedOffset pOffset, type.fold pOffset, h.index hlt, rfl, hfold, hcanonical, byteAt_fold hw hlt, ?_⟩
    rw [h.index hfold, foldedOffset_fold hw hlt, fold_of_canonical hcanonical]
  fixed := by
    intro pOffset hlt hc
    rw [h.index hlt, Option.map_some, fold_of_canonical hc]
  injective := by
    intro pOffset hlt pOffset' hlt' hc hc'
    rw [h.index hlt, h.index hlt', Option.map_some, Option.map_some, Option.some_inj]
    exact foldedOffset_inj hw hc hc' hlt hlt'

lemma getLayouts_of_known (requests : List AggregateType) : ∀ {cache : CollapsedLayoutMap}, Known cache →
    ∃ layouts, getLayouts (requests.map (·.type)) cache = some layouts ∧
      List.Forall₂ (fun layout request => layout.Folds request.type) layouts requests := by
  induction requests with
  | nil => exact fun _ => ⟨[], rfl, .nil⟩
  | cons request rest ih =>
    intro cache hk
    obtain ⟨layout, cache', heq, hl, hk', -⟩ :=
      DFSTypeTree_eq request.wellFormed request.bounded request.aggregate cache hk
    obtain ⟨layouts, hrest, hfolds⟩ := ih hk'
    refine ⟨layout :: layouts, ?_, .cons (folds_of_layoutOf request.wellFormed hl) hfolds⟩
    simp [getLayouts, getLayoutForType, request.aggregate, heq, hrest]

/-- Whatever layouts are asked for from one manager and in which order, each of them folds its type. -/
theorem getLayouts_folds (requests : List AggregateType) :
    ∃ layouts, getLayouts (requests.map (·.type)) [] = some layouts ∧
      List.Forall₂ (fun layout request => layout.Folds request.type) layouts requests :=
  getLayouts_of_known requests known_nil

end OpenRace
