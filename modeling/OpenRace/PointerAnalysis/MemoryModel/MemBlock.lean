import OpenRace.PointerAnalysis.MemoryModel.ArrayInstances
import OpenRace.PointerAnalysis.MemoryModel.FirstElements

/-! Memory blocks, whose field objects are created when a physical offset is first indexed. -/

namespace OpenRace

/-- The bits of a sparse bit vector, whose indices are unsigned, for some offsets. -/
def sparseBits (offsets : Finset ℕ) : Finset ℕ := offsets.image (· % 2 ^ 32)

namespace MemLayout

/-- The number of the field at a layout offset. Where `find_last`, an int, is negative, nothing is cached. -/
def getLogicalOffset (layout : MemLayout) (lOffset : ℕ) : Option ℕ :=
  if ∃ last ∈ sparseBits layout.elementLayout, 2 ^ 31 ≤ last then none
  else if lOffset ∈ sparseBits layout.elementLayout then
    some ((sparseBits layout.elementLayout).filter (· < lOffset)).card
  else none

def offsetIsPtr (layout : MemLayout) (lOffset : ℕ) : Bool :=
  decide (lOffset % 2 ^ 32 ∈ sparseBits layout.pointerLayout)

def getNumIndexableElem (layout : MemLayout) : ℕ := (sparseBits layout.elementLayout).card

end MemLayout

structure FSObject where
  pOffset : ℕ
  isImmutable : Bool := false

structure AggregateMemBlock where
  isImmutable : Bool
  layout : MemLayout
  fieldObjs : List (Option FSObject)

namespace AggregateMemBlock

/-- A block without elements has room for one object all the same. -/
def create (layout : MemLayout) : AggregateMemBlock where
  isImmutable := false
  layout := layout
  fieldObjs := List.replicate (if layout.getNumIndexableElem = 0 then 1 else layout.getNumIndexableElem) none

def objectAt (block : AggregateMemBlock) (fieldNum : ℕ) : Option FSObject := (block.fieldObjs[fieldNum]?).join

def setImmutable (block : AggregateMemBlock) : AggregateMemBlock where
  isImmutable := true
  layout := block.layout
  fieldObjs := block.fieldObjs.map (Option.map fun object => { object with isImmutable := true })

def store (block : AggregateMemBlock) (fieldNum : ℕ) (object : FSObject) : AggregateMemBlock :=
  { block with fieldObjs := block.fieldObjs.set fieldNum (some object) }

def cached (block : AggregateMemBlock) (fieldNum : ℕ) (object : FSObject) : AggregateMemBlock :=
  if (block.objectAt fieldNum).isNone then block.store fieldNum object else block

def indexMemoryBlock (block : AggregateMemBlock) (pOffset : ℕ) (ensurePtr : Bool) :
    Option (AggregateMemBlock × Option ℕ) :=
  if pOffset = 0 then
    if !ensurePtr || block.layout.offsetIsPtr 0 then some (block.cached 0 { pOffset := 0 }, some 0)
    else some (block, none)
  else (block.layout.indexPhysicalOffset pOffset).map fun (lOffset, folded) =>
    if lOffset = unbounded then (block, none)
    else match block.layout.getLogicalOffset lOffset with
    | none => (block, none)
    | some fieldNum =>
      if !ensurePtr || block.layout.offsetIsPtr lOffset then
        (block.cached fieldNum { pOffset := folded, isImmutable := block.isImmutable }, some fieldNum)
      else (block, none)

/-- A special object takes a field that has no object yet. -/
def initializeOffsetWith (block : AggregateMemBlock) (pOffset : ℕ) (object : FSObject) :
    Option AggregateMemBlock :=
  if pOffset = 0 then if (block.objectAt 0).isNone then some (block.store 0 object) else none
  else do
    let (lOffset, _) ← block.layout.indexPhysicalOffset pOffset
    let fieldNum ← block.layout.getLogicalOffset lOffset
    if 0 < fieldNum ∧ (block.objectAt fieldNum).isNone then some (block.store fieldNum object) else none

/-- The blocks of a layout after any uses of them; special objects lie where no array is folded. -/
inductive Reached (layout : MemLayout) : AggregateMemBlock → Prop
  | create : Reached layout (create layout)
  | setImmutable {block : AggregateMemBlock} (h : Reached layout block) : Reached layout block.setImmutable
  | special {block block' : AggregateMemBlock} {object : FSObject} {lOffset : ℕ} (h : Reached layout block)
      (canonical : layout.indexPhysicalOffset object.pOffset = some (lOffset, object.pOffset))
      (inside : lOffset ≠ unbounded)
      (eq : block.initializeOffsetWith object.pOffset object = some block') : Reached layout block'
  | index {block block' : AggregateMemBlock} {pOffset : ℕ} {ensurePtr : Bool} {fieldNum : Option ℕ}
      (h : Reached layout block) (eq : block.indexMemoryBlock pOffset ensurePtr = some (block', fieldNum)) :
      Reached layout block'

end AggregateMemBlock

namespace MemLayout

def fieldOf (layout : MemLayout) (ensurePtr : Bool) (pOffset : ℕ) : Option ℕ :=
  if pOffset = 0 then if !ensurePtr || layout.offsetIsPtr 0 then some 0 else none
  else (layout.indexPhysicalOffset pOffset).bind fun result =>
    if result.1 = unbounded then none
    else (layout.getLogicalOffset result.1).filter fun _ => !ensurePtr || layout.offsetIsPtr result.1

structure Separates (layout : MemLayout) : Prop where
  total : ∀ pOffset, ∃ lOffset folded, layout.indexPhysicalOffset pOffset = some (lOffset, folded)
  zero : layout.indexPhysicalOffset 0 = some (0, 0)
  first : 0 ∈ layout.elementLayout
  idem : ∀ {pOffset lOffset folded : ℕ}, layout.indexPhysicalOffset pOffset = some (lOffset, folded) →
    lOffset ≠ unbounded → layout.indexPhysicalOffset folded = some (lOffset, folded)
  injective : ∀ {pOffset pOffset' lOffset folded folded' : ℕ},
    layout.indexPhysicalOffset pOffset = some (lOffset, folded) →
    layout.indexPhysicalOffset pOffset' = some (lOffset, folded') → lOffset ≠ unbounded → folded = folded'

lemma getLogicalOffset_eq_some {layout : MemLayout} {lOffset fieldNum : ℕ} :
    layout.getLogicalOffset lOffset = some fieldNum ↔ (∀ last ∈ sparseBits layout.elementLayout, last < 2 ^ 31) ∧
      lOffset ∈ sparseBits layout.elementLayout ∧
        ((sparseBits layout.elementLayout).filter (· < lOffset)).card = fieldNum := by
  rw [getLogicalOffset]
  split
  · next hlast =>
    obtain ⟨last, hmem, hlast⟩ := hlast
    constructor
    · rintro ⟨⟩
    · rintro ⟨hall, -⟩
      exact absurd (hall last hmem) (Nat.not_lt_of_le hlast)
  · next hall =>
    rw [and_iff_right fun last hmem => Nat.lt_of_not_le fun hle => hall ⟨last, hmem, hle⟩]
    split
    · next hm => rw [Option.some.injEq, and_iff_right hm]
    · next hm => simp [hm]

lemma getLogicalOffset_lt {layout : MemLayout} {lOffset fieldNum : ℕ}
    (h : layout.getLogicalOffset lOffset = some fieldNum) : fieldNum < layout.getNumIndexableElem := by
  obtain ⟨-, hm, rfl⟩ := getLogicalOffset_eq_some.mp h
  exact Finset.card_lt_card (Finset.filter_ssubset.mpr ⟨lOffset, hm, Nat.lt_irrefl _⟩)

lemma card_filter_lt {elements : Finset ℕ} {first second : ℕ} (hm : first ∈ elements) (hlt : first < second) :
    (elements.filter (· < first)).card < (elements.filter (· < second)).card := by
  apply Finset.card_lt_card
  refine Finset.ssubset_iff_of_subset (Finset.monotone_filter_right _ fun x _ hx => ?_) |>.mpr ?_
  · exact Nat.lt_trans hx hlt
  · exact ⟨first, by simp [hm, hlt], by simp⟩

lemma getLogicalOffset_inj {layout : MemLayout} {first second fieldNum : ℕ}
    (h : layout.getLogicalOffset first = some fieldNum) (h' : layout.getLogicalOffset second = some fieldNum) :
    first = second := by
  obtain ⟨-, hm, hcount⟩ := getLogicalOffset_eq_some.mp h
  obtain ⟨-, hm', hcount'⟩ := getLogicalOffset_eq_some.mp h'
  rcases Nat.lt_trichotomy first second with hlt | heq | hlt
  · have hcard := card_filter_lt hm hlt
    omega
  · exact heq
  · have hcard := card_filter_lt hm' hlt
    omega

lemma zero_mem_sparseBits {offsets : Finset ℕ} (h : 0 ∈ offsets) : 0 ∈ sparseBits offsets :=
  Finset.mem_image.mpr ⟨0, h, rfl⟩

lemma Separates.logical_zero {layout : MemLayout} (h : layout.Separates) {lOffset fieldNum : ℕ}
    (hfield : layout.getLogicalOffset lOffset = some fieldNum) : lOffset = 0 ↔ fieldNum = 0 := by
  obtain ⟨-, -, hcount⟩ := getLogicalOffset_eq_some.mp hfield
  constructor
  · rintro rfl
    simpa using hcount.symm
  · rintro rfl
    by_contra hne
    have hmem : 0 ∈ (sparseBits layout.elementLayout).filter (· < lOffset) :=
      Finset.mem_filter.mpr ⟨zero_mem_sparseBits h.first, Nat.pos_of_ne_zero hne⟩
    rw [Finset.card_eq_zero.mp hcount] at hmem
    exact absurd hmem (Finset.notMem_empty 0)

/-- The field of an object: the first for the start of the block, whatever is cached. -/
def Numbers (layout : MemLayout) (pOffset lOffset fieldNum : ℕ) : Prop :=
  pOffset = 0 ∧ fieldNum = 0 ∨ layout.getLogicalOffset lOffset = some fieldNum

lemma Separates.unique {layout : MemLayout} (h : layout.Separates) {pOffset pOffset' lOffset lOffset' fieldNum : ℕ}
    (hindex : layout.indexPhysicalOffset pOffset = some (lOffset, pOffset)) (hinside : lOffset ≠ unbounded)
    (hnumbers : layout.Numbers pOffset lOffset fieldNum)
    (hindex' : layout.indexPhysicalOffset pOffset' = some (lOffset', pOffset'))
    (hnumbers' : layout.Numbers pOffset' lOffset' fieldNum) : pOffset = pOffset' := by
  have hstart : ∀ {place number : ℕ}, layout.indexPhysicalOffset place = some (number, place) →
      layout.getLogicalOffset number = some 0 → place = 0 := by
    intro place number hplace hnumber
    obtain rfl := (h.logical_zero hnumber).mpr rfl
    exact h.injective hplace h.zero (by decide)
  rcases hnumbers with ⟨rfl, rfl⟩ | hfield
  · rcases hnumbers' with ⟨rfl, -⟩ | hfield'
    · rfl
    · exact (hstart hindex' hfield').symm
  · rcases hnumbers' with ⟨rfl, rfl⟩ | hfield'
    · exact hstart hindex hfield
    · obtain rfl := getLogicalOffset_inj hfield hfield'
      exact h.injective hindex hindex' hinside

lemma fieldOf_eq_some {layout : MemLayout} {ensurePtr : Bool} {pOffset fieldNum : ℕ} (hne : pOffset ≠ 0) :
    layout.fieldOf ensurePtr pOffset = some fieldNum ↔ ∃ lOffset folded,
      layout.indexPhysicalOffset pOffset = some (lOffset, folded) ∧ lOffset ≠ unbounded ∧
        layout.getLogicalOffset lOffset = some fieldNum ∧ (!ensurePtr || layout.offsetIsPtr lOffset) = true := by
  rw [fieldOf, if_neg hne, Option.bind_eq_some_iff]
  constructor
  · rintro ⟨⟨lOffset, folded⟩, hindex, hfield⟩
    dsimp only at hfield
    split at hfield
    · cases hfield
    · next hinside =>
      obtain ⟨hlogical, hptr⟩ := Option.filter_eq_some_iff.mp hfield
      exact ⟨lOffset, folded, hindex, hinside, hlogical, hptr⟩
  · rintro ⟨lOffset, folded, hindex, hinside, hlogical, hptr⟩
    exact ⟨_, hindex, by rw [if_neg hinside]; exact Option.filter_eq_some_iff.mpr ⟨hlogical, hptr⟩⟩

end MemLayout

namespace AggregateMemBlock

structure Sound (layout : MemLayout) (block : AggregateMemBlock) : Prop where
  layout_eq : block.layout = layout
  room : layout.getNumIndexableElem ≤ block.fieldObjs.length
  start : 0 < block.fieldObjs.length
  placed : ∀ {fieldNum : ℕ} {object : FSObject}, block.objectAt fieldNum = some object →
    ∃ lOffset, layout.indexPhysicalOffset object.pOffset = some (lOffset, object.pOffset) ∧
      lOffset ≠ unbounded ∧ layout.Numbers object.pOffset lOffset fieldNum

variable {layout : MemLayout} {block block' : AggregateMemBlock}

lemma objectAt_store {fieldNum other : ℕ} {object : FSObject} (h : fieldNum < block.fieldObjs.length) :
    (block.store fieldNum object).objectAt other =
      if fieldNum = other then some object else block.objectAt other := by
  simp only [objectAt, store, List.getElem?_set]
  split
  · next heq =>
    subst heq
    rfl
  · rfl

lemma sound_create (layout : MemLayout) : Sound layout (create layout) where
  layout_eq := rfl
  room := by
    simp only [create, List.length_replicate]
    split <;> omega
  start := by
    simp only [create, List.length_replicate]
    split <;> omega
  placed := by
    intro fieldNum object h
    have hnone : ∀ room, (List.replicate room (none : Option FSObject))[fieldNum]?.join = none := by
      intro room
      rw [List.getElem?_replicate]
      split <;> rfl
    rw [objectAt, create, hnone] at h
    cases h

lemma Sound.setImmutable (h : Sound layout block) : Sound layout block.setImmutable where
  layout_eq := h.layout_eq
  room := by simpa [AggregateMemBlock.setImmutable] using h.room
  start := by simpa [AggregateMemBlock.setImmutable] using h.start
  placed := by
    intro fieldNum object hobject
    simp only [objectAt, AggregateMemBlock.setImmutable, List.getElem?_map, Option.join_eq_some_iff,
      Option.map_eq_some_iff] at hobject
    obtain ⟨field, hfield, old, hold, rfl⟩ := hobject
    have hat : block.objectAt fieldNum = some old := by
      rw [objectAt, hfield, hold]
      rfl
    exact @Sound.placed _ _ h _ old hat

lemma Sound.lt_length (h : Sound layout block) {pOffset lOffset fieldNum : ℕ}
    (hnumbers : layout.Numbers pOffset lOffset fieldNum) : fieldNum < block.fieldObjs.length := by
  rcases hnumbers with ⟨-, rfl⟩ | hfield
  · exact h.start
  · exact (MemLayout.getLogicalOffset_lt hfield).trans_le h.room

lemma Sound.store {fieldNum lOffset : ℕ} {object : FSObject} (h : Sound layout block)
    (hindex : layout.indexPhysicalOffset object.pOffset = some (lOffset, object.pOffset))
    (hinside : lOffset ≠ unbounded) (hnumbers : layout.Numbers object.pOffset lOffset fieldNum) :
    Sound layout (block.store fieldNum object) where
  layout_eq := h.layout_eq
  room := by simpa [AggregateMemBlock.store] using h.room
  start := by simpa [AggregateMemBlock.store] using h.start
  placed := by
    intro other found hfound
    rw [objectAt_store (h.lt_length hnumbers)] at hfound
    split at hfound
    · next heq =>
      cases hfound
      exact ⟨lOffset, hindex, hinside, heq ▸ hnumbers⟩
    · exact h.placed hfound

lemma Sound.cached {fieldNum lOffset : ℕ} {object : FSObject} (hs : layout.Separates) (h : Sound layout block)
    (hindex : layout.indexPhysicalOffset object.pOffset = some (lOffset, object.pOffset))
    (hinside : lOffset ≠ unbounded) (hnumbers : layout.Numbers object.pOffset lOffset fieldNum) :
    Sound layout (block.cached fieldNum object) ∧
      ∃ found, (block.cached fieldNum object).objectAt fieldNum = some found ∧ found.pOffset = object.pOffset := by
  rw [AggregateMemBlock.cached]
  split
  · refine ⟨h.store hindex hinside hnumbers, object, ?_, rfl⟩
    rw [objectAt_store (h.lt_length hnumbers), if_pos rfl]
  · next hsome =>
    rw [Option.isNone_iff_eq_none] at hsome
    obtain ⟨found, hfound⟩ := Option.ne_none_iff_exists'.mp hsome
    obtain ⟨other, hother, hinside', hnumbers'⟩ := h.placed hfound
    exact ⟨h, found, hfound, hs.unique hother hinside' hnumbers' hindex hnumbers⟩

lemma zero_ne_unbounded : 0 ≠ unbounded := by decide

lemma indexMemoryBlock_field (hs : layout.Separates) (hl : block.layout = layout) (pOffset : ℕ) (ensurePtr : Bool) :
    (block.indexMemoryBlock pOffset ensurePtr).map Prod.snd = some (layout.fieldOf ensurePtr pOffset) := by
  rw [indexMemoryBlock, MemLayout.fieldOf, hl]
  split
  · split <;> rfl
  · obtain ⟨lOffset, folded, hindex⟩ := hs.total pOffset
    simp only [hindex, Option.map_some, Option.bind_some]
    split
    · rfl
    · cases layout.getLogicalOffset lOffset with
      | none => rfl
      | some fieldNum =>
        simp only [Option.filter]
        split <;> rfl

lemma Sound.index {pOffset : ℕ} {ensurePtr : Bool} {field : Option ℕ} (hs : layout.Separates)
    (h : Sound layout block) (heq : block.indexMemoryBlock pOffset ensurePtr = some (block', field)) :
    Sound layout block' ∧ ∀ fieldNum ∈ field, ∃ object lOffset, block'.objectAt fieldNum = some object ∧
      layout.indexPhysicalOffset pOffset = some (lOffset, object.pOffset) := by
  rw [indexMemoryBlock, h.layout_eq] at heq
  split at heq
  · next hz =>
    split at heq
    · cases heq
      obtain ⟨hsound, found, hfound, hplace⟩ :=
        @Sound.cached _ _ _ _ { pOffset := 0 } hs h hs.zero zero_ne_unbounded (.inl ⟨rfl, rfl⟩)
      refine ⟨hsound, fun fieldNum hm => ?_⟩
      cases hm
      exact ⟨found, 0, hfound, by rw [hz, hs.zero, hplace]⟩
    · cases heq
      exact ⟨h, fun fieldNum hm => nomatch hm⟩
  · obtain ⟨⟨lOffset, folded⟩, hindex, hresult⟩ := Option.map_eq_some_iff.mp heq
    dsimp only at hresult
    split at hresult
    · cases hresult
      exact ⟨h, fun fieldNum hm => nomatch hm⟩
    · next hinside =>
      cases hfield : layout.getLogicalOffset lOffset with
      | none =>
        rw [hfield] at hresult
        cases hresult
        exact ⟨h, fun fieldNum hm => nomatch hm⟩
      | some fieldNum =>
        rw [hfield] at hresult
        dsimp only at hresult
        split at hresult
        · cases hresult
          obtain ⟨hsound, found, hfound, hplace⟩ := @Sound.cached _ _ _ _
            { pOffset := folded, isImmutable := block.isImmutable } hs h (hs.idem hindex hinside) hinside (.inr hfield)
          refine ⟨hsound, fun other hm => ?_⟩
          cases hm
          exact ⟨found, lOffset, hfound, by rw [hindex, hplace]⟩
        · cases hresult
          exact ⟨h, fun fieldNum hm => nomatch hm⟩

lemma Sound.special {object : FSObject} {lOffset : ℕ} (hs : layout.Separates) (h : Sound layout block)
    (hindex : layout.indexPhysicalOffset object.pOffset = some (lOffset, object.pOffset))
    (hinside : lOffset ≠ unbounded) (heq : block.initializeOffsetWith object.pOffset object = some block') :
    Sound layout block' := by
  rw [initializeOffsetWith, h.layout_eq] at heq
  split at heq
  · next hz =>
    split at heq
    · cases heq
      exact h.store (by rw [hz, hs.zero]) zero_ne_unbounded (.inl ⟨hz, rfl⟩)
    · cases heq
  · rw [hindex] at heq
    simp only [Option.bind_eq_bind, Option.bind_some, Option.bind_eq_some_iff] at heq
    obtain ⟨fieldNum, hfield, heq⟩ := heq
    split at heq
    · cases heq
      exact h.store hindex hinside (.inr hfield)
    · cases heq

theorem Reached.sound (hs : layout.Separates) (h : Reached layout block) : Sound layout block := by
  induction h with
  | create => exact sound_create layout
  | setImmutable _ ih => exact ih.setImmutable
  | special _ hindex hinside heq ih => exact ih.special hs hindex hinside heq
  | index _ heq ih => exact (ih.index hs heq).1

end AggregateMemBlock

namespace MemLayoutManager

lemma LayoutOf.index_beyond {layout : MemLayout} {type : LLVMType} (h : LayoutOf layout type) {pOffset : ℕ}
    (hge : type.allocSize ≤ pOffset) : ∃ lOffset, layout.indexPhysicalOffset pOffset = some (lOffset, pOffset) ∧
      (lOffset = unbounded ∨ layout.hasArray = false) := by
  cases harray : layout.hasArray with
  | false => exact ⟨pOffset, by simp [MemLayout.indexPhysicalOffset, harray], .inr rfl⟩
  | true => exact ⟨unbounded, by simp [MemLayout.indexPhysicalOffset, harray, h.pOffset, hge], .inl rfl⟩

lemma index_no_array {layout : MemLayout} (h : layout.hasArray = false) (pOffset : ℕ) :
    layout.indexPhysicalOffset pOffset = some (pOffset, pOffset) := by
  simp [MemLayout.indexPhysicalOffset, h]

end MemLayoutManager

open MemLayoutManager

lemma index_zero_of_layoutOf {layout : MemLayout} {type : LLVMType} (hw : type.WellFormed)
    (h : LayoutOf layout type) : layout.indexPhysicalOffset 0 = some (0, 0) := by
  rcases Nat.eq_zero_or_pos type.allocSize with hsize | hpos
  · have hnone : layout.hasArray = false := by
      have hwithin := h.describes.within
      rw [MemLayout.hasArray]
      cases harrays : layout.subArrays with
      | nil => rfl
      | cons offset array rest =>
        rw [harrays, hsize] at hwithin
        exact absurd hwithin.2.1 (Nat.not_lt_zero _)
    exact index_no_array hnone 0
  · rw [h.index hpos, LLVMType.foldedOffset_zero hw, Nat.le_zero.mp (LLVMType.fold_le type 0)]

lemma injective_of_layoutOf {layout : MemLayout} {type : LLVMType} (hw : type.WellFormed) (h : LayoutOf layout type)
    {pOffset pOffset' lOffset folded folded' : ℕ} (heq : layout.indexPhysicalOffset pOffset = some (lOffset, folded))
    (heq' : layout.indexPhysicalOffset pOffset' = some (lOffset, folded')) (hinside : lOffset ≠ unbounded) :
    folded = folded' := by
  cases harray : layout.hasArray with
  | false =>
    rw [index_no_array harray] at heq heq'
    cases heq
    cases heq'
    rfl
  | true =>
    have hbelow : ∀ {offset place : ℕ}, layout.indexPhysicalOffset offset = some (lOffset, place) →
        offset < type.allocSize := by
      intro offset place hindex
      by_contra hge
      obtain ⟨other, hother, hlost | hnone⟩ := h.index_beyond (Nat.le_of_not_lt hge)
      · rw [hother] at hindex
        cases hindex
        exact hinside hlost
      · rw [harray] at hnone
        cases hnone
    have hlt := hbelow heq
    have hlt' := hbelow heq'
    have hfold := LLVMType.fold_le type pOffset
    have hfold' := LLVMType.fold_le type pOffset'
    rw [h.index hlt] at heq
    rw [h.index hlt'] at heq'
    obtain ⟨hnumber, rfl⟩ := Prod.mk.inj (Option.some.inj heq)
    obtain ⟨hnumber', rfl⟩ := Prod.mk.inj (Option.some.inj heq')
    apply (LLVMType.foldedOffset_inj hw (LLVMType.canonical_fold hw hlt) (LLVMType.canonical_fold hw hlt')
      (by omega) (by omega)).mp
    rw [LLVMType.foldedOffset_fold hw hlt, LLVMType.foldedOffset_fold hw hlt', hnumber, hnumber']

lemma separates_of_layoutOf {layout : MemLayout} {type : LLVMType} (hw : type.WellFormed) (h : LayoutOf layout type)
    (hz : 0 ∈ layout.elementLayout) : layout.Separates where
  total := by
    intro pOffset
    rcases Nat.lt_or_ge pOffset type.allocSize with hlt | hge
    · exact ⟨_, _, h.index hlt⟩
    · obtain ⟨lOffset, heq, -⟩ := h.index_beyond hge
      exact ⟨_, _, heq⟩
  zero := index_zero_of_layoutOf hw h
  first := hz
  idem := by
    intro pOffset lOffset folded heq hinside
    rcases Nat.lt_or_ge pOffset type.allocSize with hlt | hge
    · have hfold := LLVMType.fold_le type pOffset
      rw [h.index hlt] at heq
      cases heq
      rw [h.index (by omega), LLVMType.foldedOffset_fold hw hlt,
        LLVMType.fold_of_canonical (LLVMType.canonical_fold hw hlt)]
    · obtain ⟨other, hother, -⟩ := h.index_beyond hge
      rw [hother] at heq
      cases heq
      exact hother
  injective := injective_of_layoutOf hw h

structure TargetType extends AggregateType where
  firstAtZero : type.FirstAtZero

open AggregateMemBlock

/-- Indexing in two steps that leave no array between is indexing once. -/
structure MemLayout.Composes (layout : MemLayout) (type : LLVMType) : Prop where
  offsets : ∀ pOffset < type.allocSize, ∀ b, type.SameArrays pOffset b → ∃ lOffset folded result,
    layout.indexPhysicalOffset pOffset = some (lOffset, folded) ∧
      layout.indexPhysicalOffset (folded + b) = some result ∧
      layout.indexPhysicalOffset (pOffset + b) = some result
  objects : ∀ block, Reached layout block → ∀ fieldNum object, block.objectAt fieldNum = some object →
    ∀ (a : ℤ) (pOffset b : ℕ), object.pOffset + a = pOffset → pOffset < type.allocSize →
    type.SameArrays pOffset b → ∀ block' fieldNum' ensurePtr ensurePtr',
    block.indexMemoryBlock pOffset ensurePtr = some (block', some fieldNum') →
    ∃ object' result, block'.objectAt fieldNum' = some object' ∧
      (block'.indexMemoryBlock (object'.pOffset + b) ensurePtr').map Prod.snd = some result ∧
      (block.indexMemoryBlock (pOffset + b) ensurePtr').map Prod.snd = some result

/-- The field is the same after a step from the folded offset, since a found field at a start is the first. -/
lemma fieldOf_folded {layout : MemLayout} {type : LLVMType} (hw : type.WellFormed) (h : LayoutOf layout type)
    (hs : layout.Separates) {pOffset b fieldNum : ℕ} {ensurePtr ensurePtr' : Bool} (hlt : pOffset < type.allocSize)
    (hsame : type.SameArrays pOffset b) (hfield : layout.fieldOf ensurePtr pOffset = some fieldNum) :
    layout.fieldOf ensurePtr' (type.fold pOffset + b) = layout.fieldOf ensurePtr' (pOffset + b) := by
  have hfold := LLVMType.fold_le type pOffset
  rcases Nat.eq_zero_or_pos (pOffset + b) with hz | hpos
  · rw [hz, Nat.le_zero.mp (by omega : type.fold pOffset + b ≤ 0)]
  · rcases Nat.eq_zero_or_pos (type.fold pOffset + b) with hzero | hpos'
    · obtain ⟨hstart, rfl⟩ := Nat.add_eq_zero_iff.mp hzero
      obtain ⟨lOffset, folded, hindex, hinside, hlogical, -⟩ := (MemLayout.fieldOf_eq_some hpos.ne').mp hfield
      rw [Nat.add_zero, h.index hlt, hstart] at hindex
      obtain ⟨rfl, rfl⟩ := Prod.mk.inj (Option.some.inj hindex)
      have hidem := hs.idem ((h.index hlt).trans (by rw [hstart])) hinside
      rw [hs.zero] at hidem
      have hnumber : 0 = type.foldedOffset pOffset := (Prod.mk.inj (Option.some.inj hidem)).1
      rw [← hnumber] at hlogical
      obtain rfl := (hs.logical_zero hlogical).mp rfl
      have hne : pOffset ≠ 0 := by omega
      rw [hstart, Nat.add_zero, Nat.add_zero, MemLayout.fieldOf, if_pos rfl, MemLayout.fieldOf, if_neg hne,
        h.index hlt, Option.bind_some, ← hnumber, if_neg zero_ne_unbounded, hlogical]
      rfl
    · rw [MemLayout.fieldOf, if_neg hpos'.ne', MemLayout.fieldOf, if_neg hpos.ne', h.index_add hw hlt hsame]

lemma composes_of_layoutOf {layout : MemLayout} {type : LLVMType} (hw : type.WellFormed)
    (h : LayoutOf layout type) (hz : 0 ∈ layout.elementLayout) : layout.Composes type where
  offsets := by
    intro pOffset hlt b hs
    have hseparates := separates_of_layoutOf hw h hz
    obtain ⟨lOffset, folded, hresult⟩ := hseparates.total (pOffset + b)
    refine ⟨_, _, (lOffset, folded), h.index hlt, ?_, hresult⟩
    rw [h.index_add hw hlt hs, hresult]
  objects := by
    intro block hreached fieldNum object _ a pOffset b _ hlt hs block' fieldNum' ensurePtr ensurePtr' heq
    have hseparates := separates_of_layoutOf hw h hz
    have hsound := hreached.sound hseparates
    obtain ⟨hsound', hfound⟩ := hsound.index hseparates heq
    obtain ⟨object', lOffset, hobject, hindex⟩ := hfound fieldNum' rfl
    rw [h.index hlt] at hindex
    have hplace : type.fold pOffset = object'.pOffset := (Prod.mk.inj (Option.some.inj hindex)).2
    refine ⟨object', layout.fieldOf ensurePtr' (pOffset + b), hobject, ?_,
      indexMemoryBlock_field hseparates hsound.layout_eq ..⟩
    rw [indexMemoryBlock_field hseparates hsound'.layout_eq, ← hplace]
    have hfield : layout.fieldOf ensurePtr pOffset = some fieldNum' := by
      have hread := indexMemoryBlock_field hseparates hsound.layout_eq pOffset ensurePtr
      rw [heq] at hread
      exact (Option.some.inj hread).symm
    rw [fieldOf_folded hw h hseparates hlt hs hfield]

lemma getLayouts_composes_of_known (requests : List TargetType) : ∀ {cache : CollapsedLayoutMap}, Known cache →
    AllStarted cache → ∃ layouts, getLayouts (requests.map (·.type)) cache = some layouts ∧
      List.Forall₂ (fun layout request => layout.Composes request.type) layouts requests := by
  induction requests with
  | nil => exact fun _ _ => ⟨[], rfl, .nil⟩
  | cons request rest ih =>
    intro cache hk hs
    obtain ⟨layout, cache', heq, hl, hk', -⟩ :=
      DFSTypeTree_eq request.wellFormed request.bounded request.aggregate cache hk
    obtain ⟨hz, hs'⟩ := DFSTypeTree_started cache _ hs heq
    obtain ⟨layouts, hrest, hcomposes⟩ := ih hk' hs'
    refine ⟨layout :: layouts, ?_,
      .cons (composes_of_layoutOf request.wellFormed hl (hz request.firstAtZero)) hcomposes⟩
    simp [getLayouts, getLayoutForType, request.aggregate, heq, hrest]

/-- Whatever layouts are asked for from one manager, steps through their types compose. -/
theorem getLayouts_composes (requests : List TargetType) :
    ∃ layouts, getLayouts (requests.map (·.type)) [] = some layouts ∧
      List.Forall₂ (fun layout request => layout.Composes request.type) layouts requests :=
  getLayouts_composes_of_known requests known_nil fun _ h => absurd h List.not_mem_nil

end OpenRace
