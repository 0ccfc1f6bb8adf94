import OpenRace.PointerAnalysis.MemoryModel.ArraySearch
import Mathlib.Algebra.Ring.Nat

/-! Layouts of arrays that need not fit into the address space: sizes and ends of arrays wrap around as `size_t`. -/

namespace OpenRace

open LLVMType SubArrays

def LLVMType.getTypeAllocSize (type : LLVMType) : ℕ := type.allocSize % UInt64.size

def ArrayLayout.getArraySize64 : ArrayLayout → ℕ
  | mk elementNum elementSize _ _ =>
    if elementNum = unbounded then unbounded else elementNum * elementSize % UInt64.size

mutual
def indexBetweenArrays64 : SubArrays → (lOffset curOffset pOffset : ℕ) → Option (ℕ × ℕ)
  | .nil, lOffset, curOffset, pOffset => some (lOffset + (pOffset - curOffset), pOffset)
  | .cons arrayOffset arrayLayout rest, lOffset, curOffset, pOffset =>
    if pOffset ≤ arrayOffset then some (lOffset + (pOffset - curOffset), pOffset)
    else if arrayOffset < curOffset then none
    else if (arrayOffset + arrayLayout.getArraySize64) % UInt64.size ≤ pOffset then
      if arrayLayout.layoutSize = 0 then none
      else indexBetweenArrays64 rest (lOffset + (arrayOffset - curOffset) + arrayLayout.layoutSize)
        ((arrayOffset + arrayLayout.getArraySize64) % UInt64.size) pOffset
    else (arrayLayout.indexPhysicalOffset64 (pOffset - arrayOffset)).map fun result =>
      (result.1 + (lOffset + (arrayOffset - curOffset)), arrayOffset + result.2)

def ArrayLayout.indexPhysicalOffset64 : ArrayLayout → ℕ → Option (ℕ × ℕ)
  | .mk elementNum elementSize layoutSize subArrays, pOffset =>
    if !subArrays.isEmpty then indexBetweenArrays64 subArrays 0 0 (pOffset % elementSize)
    else if (ArrayLayout.mk elementNum elementSize layoutSize subArrays).getArraySize64 < pOffset then none
    else some (pOffset % elementSize, pOffset % elementSize)
end

def MemLayout.indexPhysicalOffset64 (layout : MemLayout) (pOffset : ℕ) : Option (ℕ × ℕ) :=
  if !layout.hasArray then some (pOffset, pOffset)
  else if layout.maxPOffset ≤ pOffset then some (unbounded, pOffset)
  else indexBetweenArrays64 layout.subArrays 0 0 pOffset

namespace MemLayoutManager

def getCollapsedArrayLayout64 (numElements : ℕ) (element : LLVMType) (visit : CollapsedLayoutMap → Option Built)
    (cache : CollapsedLayoutMap) : Option Built := do
  let layout : MemLayout := {
    type := .array numElements element, isArray := true
    subArrays := .cons 0 (.mk numElements element.allocSize 0 .nil) .nil }
  let built ← setElementLayout element visit layout 0 0 cache
  let pOffset := if numElements = unbounded then unbounded
    else (built.pOffset + element.allocSize * (numElements - 1)) % UInt64.size
  let layout ← built.layout.setMaxOffsets built.lOffset pOffset
  match layout.subArrays with
  | .cons start (.mk elementNum elementSize 0 subArrays) rest =>
    remember (.array numElements element) ⟨{ layout with
      subArrays := .cons start (.mk elementNum elementSize built.lOffset subArrays) rest },
      built.lOffset, pOffset, built.cache⟩
  | _ => none

def lookup64 (type : LLVMType) (build : CollapsedLayoutMap → Option Built) (cache : CollapsedLayoutMap) :
    Option Built :=
  match cache.lookup type with
  | some layout => some ⟨layout, layout.maxLOffset, layout.maxPOffset, cache⟩
  | none =>
    if type.getTypeAllocSize = 0 then
      remember type ⟨({ type, isArray := true } : MemLayout).setElementOffset 0, 0, 0, cache⟩
    else build cache

/-- Only the outermost array may be too large; inside its elements no size wraps around. -/
def DFSTypeTree64 : LLVMType → CollapsedLayoutMap → Option Built
  | .array numElements element, cache =>
    lookup64 (.array numElements element) (getCollapsedArrayLayout64 numElements element (DFSTypeTree element)) cache
  | .struct name fields size, cache => DFSTypeTree (.struct name fields size) cache
  | .scalar .., _ => none

def getLayoutForType64 (type : LLVMType) (cache : CollapsedLayoutMap) : Option (MemLayout × CollapsedLayoutMap) :=
  if type.isAggregateType then (DFSTypeTree64 type cache).map fun built => (built.layout, built.cache) else none

def cacheAfter : List LLVMType → CollapsedLayoutMap → Option CollapsedLayoutMap
  | [], cache => some cache
  | type :: rest, cache => (getLayoutForType64 type cache).bind fun result => cacheAfter rest result.2

end MemLayoutManager

namespace SubArrays

lemma getArraySize64_eq {layout : ArrayLayout} (h : layout.getArraySize < UInt64.size) :
    layout.getArraySize64 = layout.getArraySize := by
  cases layout with
  | mk elementNum elementSize layoutSize subArrays =>
    rw [ArrayLayout.getArraySize] at h ⊢
    rw [ArrayLayout.getArraySize64]
    split
    · rfl
    · next hnum =>
      rw [if_neg hnum] at h
      exact Nat.mod_eq_of_lt h

mutual
theorem indexBetweenArrays64_eq : ∀ {arrays : SubArrays} {start stop lOffset curOffset pOffset : ℕ},
    arrays.Nests start stop → stop < UInt64.size →
    indexBetweenArrays64 arrays lOffset curOffset pOffset = indexBetweenArrays arrays lOffset curOffset pOffset
  | .nil, _, _, _, _, _, _, _ => by rw [indexBetweenArrays64, indexBetweenArrays]
  | .cons offset layout rest, start, stop, _, _, _, ⟨_, hlayout, hend, hrest⟩, hb => by
    have hsize : layout.getArraySize < UInt64.size := by omega
    have hin : (offset + layout.getArraySize) % UInt64.size = offset + layout.getArraySize :=
      Nat.mod_eq_of_lt (hend.trans_lt hb)
    rw [indexBetweenArrays64, indexBetweenArrays, getArraySize64_eq hsize, hin, indexBetweenArrays64_eq hrest hb,
      indexPhysicalOffset64_eq hlayout hsize]

theorem indexPhysicalOffset64_eq : ∀ {layout : ArrayLayout} {pOffset : ℕ}, NestsIn layout →
    layout.getArraySize < UInt64.size → layout.indexPhysicalOffset64 pOffset = layout.indexPhysicalOffset pOffset
  | .mk elementNum elementSize layoutSize subArrays, pOffset, ⟨_, hle, hsub⟩, hb => by
    rw [ArrayLayout.indexPhysicalOffset64, ArrayLayout.indexPhysicalOffset, getArraySize64_eq hb,
      indexBetweenArrays64_eq hsub (hle.trans_lt hb)]
end

end SubArrays

namespace MemLayoutManager

lemma index64_of_laid {layout : MemLayout} {type : LLVMType} (hw : type.WellFormed)
    (hb : type.allocSize < UInt64.size) (h : Laid layout type) (pOffset : ℕ) :
    layout.indexPhysicalOffset64 pOffset = layout.indexPhysicalOffset pOffset := by
  rw [MemLayout.indexPhysicalOffset64, MemLayout.indexPhysicalOffset, h.arrays,
    indexBetweenArrays64_eq (arrays_nests hw hb) hb]

section Fitting

def fitting (cache : CollapsedLayoutMap) : CollapsedLayoutMap :=
  cache.filter fun entry => entry.1.allocSize < UInt64.size

lemma lookup_fitting {type : LLVMType} (hb : type.allocSize < UInt64.size) (cache : CollapsedLayoutMap) :
    (fitting cache).lookup type = cache.lookup type := by
  induction cache with
  | nil => rfl
  | cons entry rest ih =>
    obtain ⟨other, layout⟩ := entry
    by_cases heq : type = other
    · subst heq
      rw [fitting, List.filter_cons_of_pos (by simpa using hb), List.lookup_cons_self, List.lookup_cons_self]
    · have hne : (type == other) = false := by simpa using heq
      rw [List.lookup_cons, hne]
      by_cases hother : other.allocSize < UInt64.size
      · rw [fitting, List.filter_cons_of_pos (by simpa using hother), List.lookup_cons, hne]
        exact ih
      · rw [fitting, List.filter_cons_of_neg (by simpa using hother)]
        exact ih

lemma fitting_append {added : CollapsedLayoutMap} (h : ∀ entry ∈ added, entry.1.allocSize < UInt64.size)
    (cache : CollapsedLayoutMap) : fitting (added ++ cache) = added ++ fitting cache := by
  rw [fitting, List.filter_append, List.filter_eq_self.mpr fun entry hm => decide_eq_true (h entry hm)]
  rfl

def Frames (visit : CollapsedLayoutMap → Option Built) : Prop :=
  ∀ cache built, visit (fitting cache) = some built →
    ∃ added, (∀ entry ∈ added, entry.1.allocSize < UInt64.size) ∧ built.cache = added ++ fitting cache ∧
      visit cache = some { built with cache := added ++ cache }

lemma frames_some (layout : MemLayout) (lOffset pOffset : ℕ) :
    Frames fun cache => some ⟨layout, lOffset, pOffset, cache⟩ := by
  intro cache built h
  cases h
  exact ⟨[], fun _ hm => absurd hm List.not_mem_nil, rfl, rfl⟩

lemma frames_none : Frames fun _ => none := by
  intro cache built h
  cases h

lemma Frames.bind {visit : CollapsedLayoutMap → Option Built} {step : Built → Option Built} (h : Frames visit)
    (hs : ∀ layout lOffset pOffset, Frames fun cache => step ⟨layout, lOffset, pOffset, cache⟩) :
    Frames fun cache => (visit cache).bind step := by
  intro cache built heq
  obtain ⟨first, hfirst, hstep⟩ := Option.bind_eq_some_iff.mp heq
  obtain ⟨added, hadded, hcache, hvisit⟩ := h cache first hfirst
  obtain ⟨layout, lOffset, pOffset, known⟩ := first
  dsimp only at hcache hvisit
  rw [← fitting_append hadded] at hcache
  subst hcache
  obtain ⟨more, hmore, hcache', hstep'⟩ := hs layout lOffset pOffset (added ++ cache) built hstep
  refine ⟨more ++ added, ?_, ?_, ?_⟩
  · intro entry hm
    rcases List.mem_append.mp hm with hm | hm
    · exact hmore entry hm
    · exact hadded entry hm
  · rw [hcache', fitting_append hadded, List.append_assoc]
  · dsimp only at hstep' ⊢
    rw [hvisit, Option.bind_some, hstep', List.append_assoc]

lemma remember_frames {type : LLVMType} (hb : type.allocSize < UInt64.size) (layout : MemLayout)
    (lOffset pOffset : ℕ) : Frames fun cache => remember type ⟨layout, lOffset, pOffset, cache⟩ := by
  intro cache built h
  dsimp only at h ⊢
  rw [remember] at h
  split at h
  · next hnone =>
    cases h
    rw [lookup_fitting hb] at hnone
    refine ⟨[(type, layout)], fun entry hm => ?_, rfl, ?_⟩
    · rw [List.mem_singleton.mp hm]
      exact hb
    · rw [remember, if_pos hnone]
      rfl
  · cases h

lemma lookup_frames {type : LLVMType} {build : CollapsedLayoutMap → Option Built}
    (hb : type.allocSize < UInt64.size) (h : type.allocSize ≠ 0 → Frames build) : Frames (lookup type build) := by
  intro cache built heq
  rw [lookup, lookup_fitting hb] at heq
  rw [lookup]
  cases hfound : cache.lookup type with
  | some layout =>
    rw [hfound] at heq
    exact frames_some layout layout.maxLOffset layout.maxPOffset cache built heq
  | none =>
    rw [hfound] at heq
    dsimp only at heq ⊢
    split at heq
    · next hz =>
      rw [if_pos hz]
      exact remember_frames hb _ 0 0 cache built heq
    · next hz =>
      rw [if_neg hz]
      exact h hz cache built heq

lemma setElementLayout_frames {type : LLVMType} {visit : CollapsedLayoutMap → Option Built}
    (hv : type.isAggregateType → Frames visit) (parent : MemLayout) (lOffset pOffset : ℕ) :
    Frames (setElementLayout type visit parent lOffset pOffset) := by
  by_cases hlt : pOffset < lOffset
  · unfold setElementLayout
    simp only [if_pos hlt]
    exact frames_none
  · rcases scalar_or_aggregate type with ⟨pointer, name, size, rfl⟩ | ha
    · unfold setElementLayout
      simp only [if_neg hlt]
      cases pointer with
      | false => exact frames_some _ _ _
      | true =>
        simp only [if_true, Option.bind_eq_bind]
        cases (parent.setElementOffset lOffset).setPointerOffset lOffset with
        | none => exact frames_none
        | some layout => exact frames_some _ _ _
    · rw [funext (setElementLayout_aggregate ha visit parent lOffset pOffset)]
      simp only [if_neg hlt]
      refine (hv ha).bind fun layout _ _ => ?_
      dsimp only
      cases parent.mergeMemoryLayout layout pOffset lOffset with
      | none => exact frames_none
      | some merged => exact frames_some _ _ _

lemma getCollapsedArrayLayout_frames {numElements : ℕ} {element : LLVMType}
    {visit : CollapsedLayoutMap → Option Built} (hv : element.isAggregateType → Frames visit)
    (hb : numElements * element.allocSize < UInt64.size) :
    Frames (getCollapsedArrayLayout numElements element visit) := by
  refine (setElementLayout_frames hv _ 0 0).bind fun layout lOffset pOffset => ?_
  dsimp only
  generalize (if numElements = unbounded then unbounded else pOffset + element.allocSize * (numElements - 1)) = stop
  cases layout.setMaxOffsets lOffset stop with
  | none => exact frames_none
  | some layout =>
    simp only [Option.bind_eq_bind, Option.bind_some]
    split
    · exact @remember_frames (.array numElements element) hb _ _ _
    · exact frames_none

lemma finishStruct_frames {type : LLVMType} (hb : type.allocSize < UInt64.size) (layout : MemLayout)
    (lOffset pOffset : ℕ) : Frames fun cache => finishStruct type ⟨layout, lOffset, pOffset, cache⟩ := by
  unfold finishStruct
  by_cases hle : pOffset ≤ type.allocSize
  · simp only [if_pos hle, Option.bind_eq_bind]
    cases layout.setMaxOffsets (lOffset + (type.allocSize - pOffset)) type.allocSize with
    | none => exact frames_none
    | some layout => exact remember_frames hb _ _ _
  · simp only [if_neg hle]
    exact frames_none

mutual
theorem DFSTypeTree_frames : ∀ {type : LLVMType}, type.WellFormed → type.allocSize < UInt64.size →
    Frames (DFSTypeTree type)
  | .scalar .., _, _ => frames_none
  | .array numElements element, hw, hb => by
    have helement : element.WellFormed := hw
    have hvisit : DFSTypeTree (.array numElements element) = lookup (.array numElements element)
        (getCollapsedArrayLayout numElements element (DFSTypeTree element)) := funext fun _ => by rw [DFSTypeTree]
    rw [hvisit]
    refine lookup_frames hb fun hp => ?_
    have hnum : 0 < numElements := Nat.pos_of_ne_zero fun h => hp (by rw [allocSize, h, Nat.zero_mul])
    have hbound : element.allocSize < UInt64.size :=
      (Nat.le_mul_of_pos_left element.allocSize hnum).trans_lt hb
    exact getCollapsedArrayLayout_frames (fun _ => DFSTypeTree_frames helement hbound) hb
  | .struct name fields size, hw, hb => by
    have hvisit : DFSTypeTree (.struct name fields size) = lookup (.struct name fields size) (fun cache =>
        (getStructFields fields ⟨{ type := .struct name fields size }, 0, 0, cache⟩).bind
          (finishStruct (.struct name fields size))) := funext fun _ => by rw [DFSTypeTree]; rfl
    rw [hvisit]
    refine lookup_frames hb fun _ => ?_
    exact (getStructFields_frames hw hb _ 0 0).bind (finishStruct_frames hb)

theorem getStructFields_frames : ∀ {fields : StructFields} {start size : ℕ}, FieldsFrom start size fields →
    size < UInt64.size → ∀ layout lOffset pOffset,
    Frames fun cache => getStructFields fields ⟨layout, lOffset, pOffset, cache⟩
  | .nil, _, _, _, _, layout, lOffset, pOffset => by
    simp only [getStructFields]
    exact frames_some layout lOffset pOffset
  | .cons offset field rest, start, size, ⟨_, hfield, hrest⟩, hb, layout, lOffset, pOffset => by
    have hle := le_of_fieldsFrom hrest
    unfold getStructFields
    by_cases hlt : offset < pOffset
    · simp only [if_pos hlt]
      exact frames_none
    · simp only [if_neg hlt]
      exact (setElementLayout_frames (fun _ => DFSTypeTree_frames hfield (by omega)) layout _ _).bind
        (getStructFields_frames hrest hb)
end

end Fitting

structure ArrayLaid (layout : MemLayout) (numElements : ℕ) (element : LLVMType) : Prop where
  arrays : layout.subArrays = if numElements * element.allocSize % UInt64.size = 0 then .nil
    else .cons 0 (.mk numElements element.allocSize element.foldedSize element.arrays) .nil
  pOffset : layout.maxPOffset =
    if numElements = unbounded then unbounded else numElements * element.allocSize % UInt64.size

structure Held (cache : CollapsedLayoutMap) : Prop where
  known : Known (fitting cache)
  laid : AllLaid (fitting cache)
  large : ∀ numElements element layout, (LLVMType.array numElements element, layout) ∈ cache →
    UInt64.size ≤ numElements * element.allocSize → ArrayLaid layout numElements element

lemma held_nil : Held [] where
  known := known_nil
  laid := allLaid_nil
  large := fun _ _ _ hm => absurd hm List.not_mem_nil

lemma Held.append {added cache : CollapsedLayoutMap} (h : Held cache)
    (hadded : ∀ entry ∈ added, entry.1.allocSize < UInt64.size) (hk : Known (added ++ fitting cache))
    (hl : AllLaid (added ++ fitting cache)) : Held (added ++ cache) where
  known := by
    rw [fitting_append hadded]
    exact hk
  laid := by
    rw [fitting_append hadded]
    exact hl
  large := by
    intro numElements element layout hm hlarge
    rcases List.mem_append.mp hm with hm | hm
    · exact absurd (hadded _ hm) (Nat.not_lt_of_le hlarge)
    · exact h.large numElements element layout hm hlarge

lemma Held.cons {numElements : ℕ} {element : LLVMType} {layout : MemLayout} {cache : CollapsedLayoutMap}
    (h : Held cache) (hlarge : UInt64.size ≤ numElements * element.allocSize)
    (hl : ArrayLaid layout numElements element) : Held ((.array numElements element, layout) :: cache) := by
  have hsame : fitting ((.array numElements element, layout) :: cache) = fitting cache :=
    List.filter_cons_of_neg fun hfits => Nat.not_lt_of_le hlarge (of_decide_eq_true hfits)
  refine ⟨hsame ▸ h.known, hsame ▸ h.laid, fun numElements' element' layout' hm hlarge' => ?_⟩
  rcases List.mem_cons.mp hm with heq | hm
  · cases heq
    exact hl
  · exact h.large numElements' element' layout' hm hlarge'

lemma DFSTypeTree_held {type : LLVMType} (hw : type.WellFormed) (hb : type.allocSize < UInt64.size)
    (ha : type.isAggregateType) {cache : CollapsedLayoutMap} (h : Held cache) :
    ∃ built, DFSTypeTree type cache = some built ∧ LayoutOf built.layout type ∧ Laid built.layout type ∧
      Held built.cache := by
  obtain ⟨layout, cache', heq, hl, hk, -⟩ := DFSTypeTree_eq hw hb ha (fitting cache) h.known
  obtain ⟨hlaid, hall⟩ := DFSTypeTree_laid hw hb ha (fitting cache) _ h.known h.laid heq
  obtain ⟨added, hadded, hcache, hvisit⟩ := DFSTypeTree_frames hw hb cache _ heq
  dsimp only at hcache
  subst hcache
  exact ⟨_, hvisit, hl, hlaid, h.append hadded hk hall⟩

lemma setElementLayout_pOffset {type : LLVMType} {visit : CollapsedLayoutMap → Option Built} {parent : MemLayout}
    {lOffset pOffset : ℕ} {cache : CollapsedLayoutMap} {next : Built}
    (h : setElementLayout type visit parent lOffset pOffset cache = some next) :
    next.pOffset = pOffset + type.allocSize := by
  rcases scalar_or_aggregate type with ⟨pointer, name, size, rfl⟩ | ha
  · unfold setElementLayout at h
    split at h
    · cases h
    · cases pointer with
      | false =>
        cases h
        rfl
      | true =>
        obtain ⟨layout, -, hnext⟩ := Option.bind_eq_some_iff.mp h
        cases hnext
        rfl
  · rw [setElementLayout_aggregate ha] at h
    split at h
    · cases h
    · simp only [Option.bind_eq_some_iff] at h
      obtain ⟨sub, -, layout, -, hnext⟩ := h
      cases hnext
      rfl

lemma DFSTypeTree64_eq {type : LLVMType} (hb : type.allocSize < UInt64.size) (ha : type.isAggregateType)
    (cache : CollapsedLayoutMap) : DFSTypeTree64 type cache = DFSTypeTree type cache := by
  cases type with
  | scalar pointer name size => cases ha
  | struct name fields size => rw [DFSTypeTree64]
  | array numElements element =>
    have hsize : (LLVMType.array numElements element).getTypeAllocSize =
        (LLVMType.array numElements element).allocSize := Nat.mod_eq_of_lt hb
    rw [DFSTypeTree64, DFSTypeTree, lookup64, lookup, hsize]
    cases cache.lookup (.array numElements element) with
    | some layout => rfl
    | none =>
      dsimp only
      split
      · rfl
      · next hp =>
        have hnum : numElements ≠ 0 := fun h => hp (by rw [allocSize, h, Nat.zero_mul])
        obtain ⟨n, rfl⟩ := Nat.exists_eq_succ_of_ne_zero hnum
        have hfits : (n + 1) * element.allocSize < UInt64.size := hb
        rw [getCollapsedArrayLayout64, getCollapsedArrayLayout]
        simp only [Option.bind_eq_bind]
        cases hset : setElementLayout element (DFSTypeTree element) _ 0 0 cache with
        | none => rfl
        | some next =>
          have hend : next.pOffset + element.allocSize * (n.succ - 1) < UInt64.size := by
            rw [setElementLayout_pOffset hset, Nat.succ_sub_one, Nat.zero_add, Nat.mul_comm, Nat.add_comm]
            rwa [Nat.succ_mul] at hfits
          have hmod := Nat.mod_eq_of_lt hend
          dsimp only [Option.bind_some]
          generalize (next.pOffset + element.allocSize * (n.succ - 1)) % UInt64.size = stop at hmod ⊢
          subst hmod
          rfl

lemma unbounded_mod {size : ℕ} (hpos : 0 < size) (hb : size < UInt64.size) :
    unbounded * size % UInt64.size = UInt64.size - size := by
  have hsize : UInt64.size = 18446744073709551616 := rfl
  have hmax : unbounded = 18446744073709551615 := rfl
  rw [hsize] at hb
  rw [hsize, hmax]
  omega

lemma arrayLaid_of_laid {numElements : ℕ} {element : LLVMType} {layout : MemLayout} (hpos : 0 < element.allocSize)
    (hb : numElements * element.allocSize < UInt64.size) (hl : LayoutOf layout (.array numElements element))
    (h : Laid layout (.array numElements element)) : ArrayLaid layout numElements element where
  arrays := by
    rw [h.arrays, LLVMType.arrays, Nat.mod_eq_of_lt hb]
  pOffset := by
    rw [hl.pOffset, allocSize, Nat.mod_eq_of_lt hb]
    split
    · next hnum =>
      have hp : 0 < numElements * element.allocSize := Nat.mul_pos (by rw [hnum]; decide) hpos
      have hsize := getArraySize_eq 0 .nil hb hp
      rw [ArrayLayout.getArraySize, if_pos hnum] at hsize
      exact hsize.symm
    · rfl

lemma large_of_held {numElements : ℕ} {element : LLVMType} (hw : element.WellFormed)
    (hpos : 0 < element.allocSize) (hb : element.allocSize < UInt64.size)
    (hlarge : UInt64.size ≤ numElements * element.allocSize) {cache : CollapsedLayoutMap} (h : Held cache) :
    ∃ built, DFSTypeTree64 (.array numElements element) cache = some built ∧
      ArrayLaid built.layout numElements element ∧ Held built.cache := by
  rw [DFSTypeTree64, lookup64]
  cases hfound : cache.lookup (.array numElements element) with
  | some layout =>
    obtain ⟨before, after, heq, -⟩ := List.lookup_eq_some_iff.mp hfound
    exact ⟨_, rfl, h.large numElements element layout (by rw [heq]; simp) hlarge, h⟩
  | none =>
    have hsize : (LLVMType.array numElements element).getTypeAllocSize =
        numElements * element.allocSize % UInt64.size := rfl
    dsimp only
    split
    · next hz =>
      rw [hsize] at hz
      have hl : ArrayLaid (({ type := .array numElements element, isArray := true } : MemLayout).setElementOffset 0)
          numElements element := by
        constructor
        · rw [if_pos hz]
          rfl
        · rw [hz, if_neg]
          · rfl
          · intro hnum
            rw [hnum, unbounded_mod hpos hb] at hz
            omega
      refine ⟨_, by rw [remember, hfound]; rfl, hl, h.cons hlarge hl⟩
    · next hz =>
      rw [hsize] at hz
      obtain ⟨next, hset, hnext⟩ := @setElementLayout_array numElements element (DFSTypeTree element) (fitting cache)
        hw (DFSTypeTree_eq hw hb) (DFSTypeTree_laid hw hb) h.known h.laid
      obtain ⟨added, hadded, hcache, hset'⟩ :=
        setElementLayout_frames (fun _ => DFSTypeTree_frames hw hb) _ 0 0 cache next hset
      have hk := hnext.known
      have hc := hnext.laid
      rw [hcache] at hk hc
      have hheld : Held (added ++ cache) := h.append hadded hk hc
      have hnew : (added ++ cache).lookup (.array numElements element) = none := by
        rw [lookup_eq_none]
        intro entry hm heq
        rcases List.mem_append.mp hm with hm | hm
        · have hfits := hadded entry hm
          rw [heq] at hfits
          exact Nat.not_lt_of_le hlarge hfits
        · exact lookup_eq_none.mp hfound entry hm heq
      have hnum : numElements ≠ 0 := fun hnum => by
        rw [hnum, Nat.zero_mul] at hlarge
        exact absurd hlarge (by decide)
      have hend : next.pOffset + element.allocSize * (numElements - 1) = numElements * element.allocSize := by
        obtain ⟨n, rfl⟩ := Nat.exists_eq_succ_of_ne_zero hnum
        rw [hnext.pOffset, Nat.succ_sub_one, Nat.succ_mul, Nat.mul_comm, Nat.add_comm]
      let done : MemLayout := { next.layout with
        subArrays := .cons 0 (.mk numElements element.allocSize next.lOffset element.arrays) .nil
        maxLOffset := next.lOffset
        maxPOffset := if numElements = unbounded then unbounded
          else numElements * element.allocSize % UInt64.size }
      have hl : ArrayLaid done numElements element := by
        constructor
        · rw [if_neg hz, ← hnext.lOffset]
        · rfl
      have hrem : remember (.array numElements element) ⟨done, next.lOffset, done.maxPOffset, added ++ cache⟩ =
          some ⟨done, next.lOffset, done.maxPOffset, (.array numElements element, done) :: (added ++ cache)⟩ := by
        rw [remember, hnew]
        rfl
      refine ⟨⟨done, next.lOffset, done.maxPOffset, _⟩, ?_, hl, hheld.cons hlarge hl⟩
      rw [getCollapsedArrayLayout64]
      simp only [Option.bind_eq_bind]
      rw [hset', Option.bind_some]
      dsimp only
      rw [hend, MemLayout.setMaxOffsets, if_pos ⟨hnext.maxLOffset, hnext.maxPOffset⟩, Option.bind_some]
      dsimp only
      rw [hnext.arrays]
      exact hrem

lemma fits_held {type : LLVMType} (hw : type.WellFormed) (hb : type.allocSize < UInt64.size)
    (ha : type.isAggregateType) {cache : CollapsedLayoutMap} (h : Held cache) :
    ∃ layout cache', getLayoutForType64 type cache = some (layout, cache') ∧ LayoutOf layout type ∧
      Laid layout type ∧ Held cache' := by
  obtain ⟨built, heq, hl, hlaid, hheld⟩ := DFSTypeTree_held hw hb ha h
  refine ⟨built.layout, built.cache, ?_, hl, hlaid, hheld⟩
  rw [getLayoutForType64, if_pos ha, DFSTypeTree64_eq hb ha, heq, Option.map_some]

lemma array_held {element : LLVMType} (hw : element.WellFormed) (hpos : 0 < element.allocSize)
    (hb : element.allocSize < UInt64.size) (numElements : ℕ) {cache : CollapsedLayoutMap} (h : Held cache) :
    ∃ layout cache', getLayoutForType64 (.array numElements element) cache = some (layout, cache') ∧
      ArrayLaid layout numElements element ∧ Held cache' := by
  rcases Nat.lt_or_ge (numElements * element.allocSize) UInt64.size with hfits | hlarge
  · obtain ⟨layout, cache', heq, hl, hlaid, hheld⟩ := @fits_held (.array numElements element) hw hfits rfl cache h
    exact ⟨layout, cache', heq, arrayLaid_of_laid hpos hfits hl hlaid, hheld⟩
  · obtain ⟨built, heq, hl, hheld⟩ := large_of_held hw hpos hb hlarge h
    refine ⟨built.layout, built.cache, ?_, hl, hheld⟩
    have ha : (LLVMType.array numElements element).isAggregateType = true := rfl
    rw [getLayoutForType64, if_pos ha, heq, Option.map_some]

end MemLayoutManager

open MemLayoutManager

/-- A type that a layout is asked for: it fits into the address space, or it is an array of elements that do. -/
structure RequestedType where
  type : LLVMType
  wellFormed : type.WellFormed
  aggregate : type.isAggregateType
  bounded : type.allocSize < UInt64.size ∨
    ∃ numElements element, type = .array numElements element ∧ element.allocSize < UInt64.size

namespace MemLayoutManager

lemma requested_held (request : RequestedType) {cache : CollapsedLayoutMap} (h : Held cache) :
    ∃ layout cache', getLayoutForType64 request.type cache = some (layout, cache') ∧ Held cache' := by
  by_cases hfits : request.type.allocSize < UInt64.size
  · obtain ⟨layout, cache', heq, -, -, hheld⟩ := fits_held request.wellFormed hfits request.aggregate h
    exact ⟨layout, cache', heq, hheld⟩
  · obtain ⟨numElements, element, htype, hb⟩ := request.bounded.resolve_left hfits
    have hw := request.wellFormed
    rw [htype] at hfits hw
    have helement : element.WellFormed := hw
    have hpos : 0 < element.allocSize := Nat.pos_of_ne_zero fun hz => hfits (by rw [allocSize, hz]; simp)
    obtain ⟨layout, cache', heq, -, hheld⟩ := array_held helement hpos hb numElements h
    exact ⟨layout, cache', htype ▸ heq, hheld⟩

lemma cacheAfter_held (requests : List RequestedType) : ∀ {cache : CollapsedLayoutMap}, Held cache →
    ∃ cache', cacheAfter (requests.map (·.type)) cache = some cache' ∧ Held cache' := by
  induction requests with
  | nil => exact fun h => ⟨_, rfl, h⟩
  | cons request rest ih =>
    intro cache h
    obtain ⟨layout, next, heq, hnext⟩ := requested_held request h
    obtain ⟨cache', hrest, hheld⟩ := ih hnext
    refine ⟨cache', ?_, hheld⟩
    rw [List.map_cons, cacheAfter, heq, Option.bind_some, hrest]

lemma arrays_describes {type : LLVMType} (hw : type.WellFormed) (hb : type.allocSize < UInt64.size) :
    Describes type.arrays type := by
  cases type with
  | scalar pointer name size => exact describes_scalar pointer name size
  | array numElements element =>
    obtain ⟨layout, cache, -, hl, hlaid, -⟩ := fits_held hw hb rfl held_nil
    exact hlaid.arrays ▸ hl.describes
  | struct name fields size =>
    obtain ⟨layout, cache, -, hl, hlaid, -⟩ := fits_held hw hb rfl held_nil
    exact hlaid.arrays ▸ hl.describes

def arrayEnd (numElements elementSize : ℕ) : ℕ :=
  if numElements = unbounded then unbounded else numElements * elementSize % UInt64.size

lemma arrayEnd_lt (numElements elementSize : ℕ) : arrayEnd numElements elementSize < UInt64.size := by
  rw [arrayEnd]
  split
  · decide
  · exact Nat.mod_lt _ (by decide)

lemma index64_element {numElements : ℕ} {element : LLVMType} (hw : element.WellFormed)
    (hb : element.allocSize < UInt64.size) (hpos : 0 < element.allocSize) {pOffset : ℕ}
    (hlt : pOffset < arrayEnd numElements element.allocSize) :
    (ArrayLayout.mk numElements element.allocSize element.foldedSize element.arrays).indexPhysicalOffset64 pOffset =
      some (element.foldedOffset (pOffset % element.allocSize), element.fold (pOffset % element.allocSize)) := by
  have hmod := Nat.mod_lt pOffset hpos
  have hin : indexBetweenArrays ((element.arrays.shift 0).append .nil) 0 0 (pOffset % element.allocSize) =
      some (0 + element.foldedOffset (pOffset % element.allocSize - 0),
        0 + element.fold (pOffset % element.allocSize - 0)) :=
    (arrays_describes hw hb).inside (Nat.zero_le 0) rfl trivial (Nat.zero_le _) (by rwa [Nat.zero_add])
  rw [shift_zero, append_nil, Nat.sub_zero, Nat.zero_add, Nat.zero_add] at hin
  have hsize : (ArrayLayout.mk numElements element.allocSize element.foldedSize element.arrays).getArraySize64 =
      arrayEnd numElements element.allocSize := rfl
  rw [ArrayLayout.indexPhysicalOffset64, hsize, if_neg (Nat.not_lt_of_le hlt.le),
    indexBetweenArrays64_eq (arrays_nests hw hb) hb, hin]
  split
  · rfl
  · next hempty =>
    cases harrays : element.arrays with
    | nil =>
      rw [harrays, indexBetweenArrays] at hin
      rw [← hin, Nat.zero_add, Nat.sub_zero]
    | cons offset array rest =>
      rw [harrays] at hempty
      exact absurd rfl hempty

lemma ArrayLaid.index {layout : MemLayout} {numElements : ℕ} {element : LLVMType}
    (h : ArrayLaid layout numElements element) (hw : element.WellFormed) (hb : element.allocSize < UInt64.size)
    (hp : numElements * element.allocSize % UInt64.size ≠ 0) (pOffset : ℕ) :
    layout.indexPhysicalOffset64 pOffset =
      if arrayEnd numElements element.allocSize ≤ pOffset then some (unbounded, pOffset)
      else some (element.foldedOffset (pOffset % element.allocSize), element.fold (pOffset % element.allocSize)) := by
  have hpos : 0 < element.allocSize := Nat.pos_of_ne_zero fun hz => hp (by rw [hz, Nat.mul_zero, Nat.zero_mod])
  have harrays := h.arrays
  rw [if_neg hp] at harrays
  have harray : layout.hasArray = true := by rw [MemLayout.hasArray, harrays]; rfl
  have hend : layout.maxPOffset = arrayEnd numElements element.allocSize := h.pOffset
  have hsize : (0 + (ArrayLayout.mk numElements element.allocSize element.foldedSize element.arrays).getArraySize64) %
      UInt64.size = arrayEnd numElements element.allocSize := by
    rw [Nat.zero_add]
    exact Nat.mod_eq_of_lt (arrayEnd_lt numElements element.allocSize)
  rw [MemLayout.indexPhysicalOffset64, harray, if_neg (by decide), hend, harrays]
  split
  · rfl
  · next hin =>
    rw [indexBetweenArrays64, hsize]
    split
    · next hzero =>
      have hz : pOffset = 0 := Nat.le_zero.mp hzero
      rw [hz, Nat.zero_mod, foldedOffset_zero hw, Nat.le_zero.mp (fold_le element 0)]
    · rw [if_neg (Nat.lt_irrefl 0), Nat.sub_zero, Nat.sub_zero,
        index64_element hw hb hpos (Nat.lt_of_not_le hin), Option.map_some]
      dsimp only
      rw [Nat.zero_add, Nat.add_zero, Nat.zero_add]

end MemLayoutManager

end OpenRace
