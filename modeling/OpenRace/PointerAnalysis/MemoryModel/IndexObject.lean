import OpenRace.PointerAnalysis.MemoryModel.ArraySearch
import OpenRace.PointerAnalysis.MemoryModel.MemBlock
import Mathlib.Algebra.Ring.Nat

/-! Indexing an object of a memory block with an instruction. -/

namespace OpenRace

open MemLayoutManager

/-- A gep with constant indices, with the sum of its offsets and the type that its pointer points to, or with a
variable one, with its step size. -/
inductive IndexInst
  | notGEP
  | constantGEP (offset : BitVec 64) (pointeeType : LLVMType)
  | variableGEP (stepSize : ℕ)

namespace AggregateMemBlock

def isInteger8 : LLVMType → Bool
  | .scalar pointer name size => !pointer && name == "i8" && size == 1
  | _ => false

section

-- the flag that turns the filter off, and whether a type stands at the start of the type of an offset
variable (useMemLayoutFiltering : Bool) (isZeroOffsetType : ℕ → LLVMType → Bool)

/-- The type filter on the indexed object; backward steps and pointers to bytes are not filtered. -/
def filtersOut (pOffset : ℕ) (offset : BitVec 64) (pointeeType : LLVMType) : Bool :=
  !useMemLayoutFiltering && 0 ≤ offset.toInt && !isInteger8 pointeeType && !isZeroOffsetType pOffset pointeeType

def indexObject (block : AggregateMemBlock) (fieldNum : ℕ) (object : FSObject) (idx : IndexInst) (ensurePtr : Bool) :
    Option (AggregateMemBlock × Option ℕ) :=
  match idx with
  | .notGEP => some (block, none)
  | .constantGEP offset pointeeType =>
    if filtersOut useMemLayoutFiltering isZeroOffsetType object.pOffset offset pointeeType then some (block, none)
    else
      let off := BitVec.ofNat 64 object.pOffset + offset
      if off.toInt < 0 then some (block, none)
      else block.indexMemoryBlock (off.setWidth 32).toNat ensurePtr
  | .variableGEP stepSize =>
    if stepSize = unbounded then some (block, none)
    else if block.layout.subArrays.isArrayExistAtOffset object.pOffset stepSize then some (block, some fieldNum)
    else some (block, none)

end

end AggregateMemBlock

def LLVMType.elementAt (type : LLVMType) (pointer : Bool) (place : ℤ) : Option ℕ :=
  if 0 ≤ place ∧ place < type.allocSize ∧ type.foldedOffset place.toNat ∈ type.marks pointer then
    some (type.fold place.toNat)
  else none

namespace MemLayout

def foundAt (layout : MemLayout) (ensurePtr : Bool) (pOffset : ℕ) : Option ℕ :=
  (layout.fieldOf ensurePtr pOffset).bind fun _ => (layout.indexPhysicalOffset pOffset).map Prod.snd

/-- Before the block nothing is found. In its first `2 ^ 32` bytes, if all elements of the layout lie below `2 ^ 31`, just
what is there is found, but for an element without size at the end of the block. Elsewhere what lies at the low 32 bits
is found. -/
def InReach (layout : MemLayout) (type : LLVMType) (ensurePtr : Bool) (place : ℤ) : Prop :=
  place < 0 ∨
    (∀ lOffset ∈ type.marks false, lOffset < 2 ^ 31) ∧ place < 2 ^ 32 ∧
      (place = type.allocSize → layout.fieldOf ensurePtr type.allocSize = none) ∨
    ((∃ lOffset ∈ type.marks false, 2 ^ 31 ≤ lOffset) ∨ 2 ^ 32 ≤ place) ∧ type.elementAt ensurePtr place =
      if 2 ^ 63 ≤ place ∧ place < 2 ^ 64 then none else layout.foundAt ensurePtr (place % 2 ^ 32).toNat

end MemLayout

/-- The object at the canonical offset of a place, and none where the place denotes no element. -/
def LLVMType.Indexes (type : LLVMType) (ensurePtr : Bool) (place : ℤ)
    (result : Option (AggregateMemBlock × Option ℕ)) : Prop :=
  ∃ block field, result = some (block, field) ∧
    field.map (fun fieldNum => (block.objectAt fieldNum).map FSObject.pOffset) =
      (type.elementAt ensurePtr place).map some

namespace LLVMType

lemma startIf_subset (marked : Bool) : startIf marked ⊆ {0} := by
  cases marked with
  | false => exact Finset.empty_subset _
  | true => exact Finset.Subset.refl _

mutual
theorem marks_subset {pointers : Bool} : ∀ {type : LLVMType}, type.marks pointers ⊆ type.marks false
  | scalar pointer _ _ => by
    have hall : startIf (pointer || !false) = {0} := by simp [startIf]
    rw [marks, marks, hall]
    exact startIf_subset _
  | array _ element => by
    rw [marks, marks]
    split
    · exact startIf_subset _
    · exact @marks_subset pointers element
  | struct _ fields size => by
    rw [marks, marks]
    split
    · exact startIf_subset _
    · exact fieldMarks_subset

theorem fieldMarks_subset {pointers : Bool} : ∀ {fields : StructFields} {folded start : ℕ},
    fieldMarks pointers fields folded start ⊆ fieldMarks false fields folded start
  | .nil, _, _ => Finset.Subset.refl _
  | .cons _ _ _, _, _ => by
    rw [fieldMarks, fieldMarks]
    exact Finset.union_subset_union (Finset.image_subset_image marks_subset) fieldMarks_subset
end

mutual
theorem zero_mem_marks : ∀ {type : LLVMType}, type.FirstAtZero → 0 ∈ type.marks false
  | scalar pointer _ _, _ => by
    rw [marks, startIf, if_pos (by simp)]
    exact Finset.mem_singleton_self 0
  | array _ element, h => by
    rw [marks]
    split
    · exact Finset.mem_singleton_self 0
    · exact @zero_mem_marks element h
  | struct _ fields size, h => by
    rw [marks]
    split
    · exact Finset.mem_singleton_self 0
    · next hsize => exact zero_mem_fieldMarks hsize h

theorem zero_mem_fieldMarks : ∀ {fields : StructFields} {size : ℕ}, size ≠ 0 → FirstFieldAtZero size fields →
    0 ∈ fieldMarks false fields 0 0
  | .nil, _, hsize, h => absurd h hsize
  | .cons offset field rest, _, _, ⟨hoffset, hfield⟩ => by
    subst hoffset
    rw [fieldMarks, Finset.mem_union]
    exact .inl (Finset.mem_image.mpr ⟨0, zero_mem_marks hfield, rfl⟩)
end

end LLVMType

section Arithmetic

variable {p : ℕ} {d : BitVec 64}

lemma negative_iff (hp : p < 2 ^ 64) : (BitVec.ofNat 64 p + d).toInt < 0 ↔
    (p + d.toInt : ℤ) < 0 ∨ 2 ^ 63 ≤ (p + d.toInt : ℤ) ∧ (p + d.toInt : ℤ) < 2 ^ 64 := by
  have hd := d.isLt
  rw [BitVec.toInt_eq_toNat_cond, BitVec.toInt_eq_toNat_cond, BitVec.toNat_add, BitVec.toNat_ofNat]
  split
  · split
    · omega
    · omega
  · split
    · omega
    · omega

lemma low_eq : (((BitVec.ofNat 64 p + d).setWidth 32).toNat : ℤ) = (p + d.toInt) % 2 ^ 32 := by
  have hd := d.isLt
  rw [BitVec.toInt_eq_toNat_cond, BitVec.toNat_setWidth, BitVec.toNat_add, BitVec.toNat_ofNat]
  split
  · omega
  · omega

end Arithmetic

open AggregateMemBlock

section Index

variable {layout : MemLayout} {type : LLVMType} {ensurePtr : Bool}

lemma le_of_logical (hm : Laid layout type) {lOffset fieldNum : ℕ}
    (h : layout.getLogicalOffset lOffset = some fieldNum) : lOffset ≤ type.foldedSize := by
  obtain ⟨-, hbit, -⟩ := MemLayout.getLogicalOffset_eq_some.mp h
  obtain ⟨element, helement, rfl⟩ := Finset.mem_image.mp hbit
  rw [hm.elements] at helement
  exact (Nat.mod_le _ _).trans (LLVMType.marks_le element helement)

lemma le_of_beyond (hw : type.WellFormed) (hl : LayoutOf layout type) (hm : Laid layout type)
    {pOffset lOffset folded fieldNum : ℕ} (hindex : layout.indexPhysicalOffset pOffset = some (lOffset, folded))
    (hinside : lOffset ≠ unbounded) (hlogical : layout.getLogicalOffset lOffset = some fieldNum) :
    pOffset ≤ type.allocSize := by
  by_contra hlt
  obtain ⟨other, hother, hlost | hnone⟩ := hl.index_beyond (Nat.le_of_not_le hlt)
  · rw [hindex] at hother
    cases hother
    exact hinside hlost
  · rw [index_no_array hnone] at hindex
    cases hindex
    have hle := le_of_logical hm hlogical
    have hsize := LLVMType.foldedSize_le hw
    omega

lemma fieldOf_beyond (hw : type.WellFormed) (hl : LayoutOf layout type) (hm : Laid layout type) {pOffset : ℕ}
    (hlt : type.allocSize < pOffset) : layout.fieldOf ensurePtr pOffset = none := by
  by_contra hsome
  obtain ⟨fieldNum, hfield⟩ := Option.ne_none_iff_exists'.mp hsome
  obtain ⟨lOffset, folded, hindex, hinside, hlogical, -⟩ := (MemLayout.fieldOf_eq_some (by omega)).mp hfield
  have hle := le_of_beyond hw hl hm hindex hinside hlogical
  omega

lemma foundAt_eq_none (hs : layout.Separates) {pOffset : ℕ} :
    layout.foundAt ensurePtr pOffset = none ↔ layout.fieldOf ensurePtr pOffset = none := by
  obtain ⟨lOffset, folded, hindex⟩ := hs.total pOffset
  rw [MemLayout.foundAt, hindex]
  cases layout.fieldOf ensurePtr pOffset with
  | none => simp
  | some fieldNum => simp

section Small

variable (hb : ∀ lOffset ∈ type.marks false, lOffset < 2 ^ 31) (hm : Laid layout type)

include hb in
lemma sparseBits_marks (pointers : Bool) : sparseBits (type.marks pointers) = type.marks pointers := by
  rw [sparseBits]
  conv_rhs => rw [← Finset.image_id (s := type.marks pointers)]
  refine Finset.image_congr fun lOffset hmem => Nat.mod_eq_of_lt ?_
  have hlt := hb lOffset (LLVMType.marks_subset hmem)
  omega

include hb hm

lemma logical_iff {lOffset : ℕ} :
    (∃ fieldNum, layout.getLogicalOffset lOffset = some fieldNum) ↔ lOffset ∈ type.marks false := by
  simp only [MemLayout.getLogicalOffset_eq_some, hm.elements, sparseBits_marks hb]
  constructor
  · rintro ⟨_, -, hmem, -⟩
    exact hmem
  · exact fun hmem => ⟨_, hb, hmem, rfl⟩

lemma offsetIsPtr_iff {lOffset : ℕ} (hlt : lOffset < 2 ^ 31) :
    layout.offsetIsPtr lOffset = true ↔ lOffset ∈ type.marks true := by
  rw [MemLayout.offsetIsPtr, decide_eq_true_eq, hm.pointers, sparseBits_marks hb, Nat.mod_eq_of_lt (by omega)]

lemma field_iff {lOffset : ℕ} : (∃ fieldNum, layout.getLogicalOffset lOffset = some fieldNum ∧
    (!ensurePtr || layout.offsetIsPtr lOffset) = true) ↔ lOffset ∈ type.marks ensurePtr := by
  rw [exists_and_right, logical_iff hb hm]
  cases ensurePtr with
  | false => simp
  | true =>
    simp only [Bool.not_true, Bool.false_or]
    constructor
    · rintro ⟨hmem, hptr⟩
      exact (offsetIsPtr_iff hb hm (hb _ hmem)).mp hptr
    · intro hmem
      have hmem' := LLVMType.marks_subset hmem
      exact ⟨hmem', (offsetIsPtr_iff hb hm (hb _ hmem')).mpr hmem⟩

lemma fieldOf_inside (hw : type.WellFormed) (hsize : type.allocSize < UInt64.size) (hz : type.FirstAtZero)
    (hl : LayoutOf layout type) {pOffset : ℕ} (hlt : pOffset < type.allocSize) :
    (∃ fieldNum, layout.fieldOf ensurePtr pOffset = some fieldNum) ↔
      type.foldedOffset pOffset ∈ type.marks ensurePtr := by
  rcases Nat.eq_zero_or_pos pOffset with rfl | hpos
  · rw [LLVMType.foldedOffset_zero hw, ← field_iff hb hm]
    obtain ⟨fieldNum, hlogical⟩ := (logical_iff hb hm).mpr (LLVMType.zero_mem_marks hz)
    simp [MemLayout.fieldOf, hlogical]
  · have hfolded := LLVMType.foldedOffset_lt hw hlt
    have hle := LLVMType.foldedSize_le hw
    have hinside : type.foldedOffset pOffset ≠ unbounded := by
      rw [unbounded]
      omega
    rw [← field_iff hb hm]
    constructor
    · rintro ⟨fieldNum, hfield⟩
      obtain ⟨lOffset, folded, hindex, -, hlogical⟩ := (MemLayout.fieldOf_eq_some hpos.ne').mp hfield
      rw [hl.index hlt] at hindex
      cases hindex
      exact ⟨fieldNum, hlogical⟩
    · rintro ⟨fieldNum, hlogical⟩
      exact ⟨fieldNum, (MemLayout.fieldOf_eq_some hpos.ne').mpr ⟨_, _, hl.index hlt, hinside, hlogical⟩⟩

lemma foundAt_eq (hw : type.WellFormed) (hsize : type.allocSize < UInt64.size) (hz : type.FirstAtZero)
    (hl : LayoutOf layout type) {place : ℤ} (hpos : 0 ≤ place)
    (hend : place = type.allocSize → layout.fieldOf ensurePtr type.allocSize = none) :
    layout.foundAt ensurePtr place.toNat = type.elementAt ensurePtr place := by
  have hs : layout.Separates := separates_of_layoutOf hw hl (hm.elements ▸ LLVMType.zero_mem_marks hz)
  rcases lt_or_ge place type.allocSize with hlt | hge
  · have hlt' : place.toNat < type.allocSize := by omega
    have hiff : (∃ fieldNum, layout.fieldOf ensurePtr place.toNat = some fieldNum) ↔ _ :=
      fieldOf_inside hb hm hw hsize hz hl hlt'
    have helement : type.elementAt ensurePtr place =
        if type.foldedOffset place.toNat ∈ type.marks ensurePtr then some (type.fold place.toNat) else none :=
      if_congr (by simp [hpos, hlt]) rfl rfl
    rw [helement]
    by_cases hmem : type.foldedOffset place.toNat ∈ type.marks ensurePtr
    · obtain ⟨fieldNum, hfield⟩ := hiff.mpr hmem
      rw [if_pos hmem, MemLayout.foundAt, hfield, Option.bind_some, hl.index hlt', Option.map_some]
    · rw [if_neg hmem, foundAt_eq_none hs]
      by_contra hsome
      exact hmem (hiff.mp (Option.ne_none_iff_exists'.mp hsome))
  · have hnone : type.elementAt ensurePtr place = none := by
      rw [LLVMType.elementAt, if_neg]
      rintro ⟨-, hlt, -⟩
      omega
    rw [hnone, foundAt_eq_none hs]
    rcases eq_or_lt_of_le hge with heq | hlt
    · rw [← heq, Int.toNat_natCast]
      exact hend heq.symm
    · exact fieldOf_beyond hw hl hm (by omega)

end Small

def readAt (layout : MemLayout) (ensurePtr : Bool) (place : ℤ) : Option ℕ :=
  if place < 0 ∨ 2 ^ 63 ≤ place ∧ place < 2 ^ 64 then none else layout.foundAt ensurePtr (place % 2 ^ 32).toNat

lemma inReach_iff (hw : type.WellFormed) (hsize : type.allocSize < UInt64.size) (hz : type.FirstAtZero)
    (hl : LayoutOf layout type) (hm : Laid layout type) (place : ℤ) :
    layout.InReach type ensurePtr place ↔ readAt layout ensurePtr place = type.elementAt ensurePtr place := by
  have hs : layout.Separates := separates_of_layoutOf hw hl (hm.elements ▸ LLVMType.zero_mem_marks hz)
  rcases lt_or_ge place 0 with hneg | hpos
  · have hread : readAt layout ensurePtr place = none := if_pos (.inl hneg)
    have hnone : type.elementAt ensurePtr place = none := by
      rw [LLVMType.elementAt, if_neg (by omega)]
    rw [hread, hnone]
    exact iff_of_true (.inl hneg) rfl
  · have hsame : (place < 0 ∨ 2 ^ 63 ≤ place ∧ place < 2 ^ 64) ↔ 2 ^ 63 ≤ place ∧ place < 2 ^ 64 :=
      or_iff_right (by omega)
    have hread : readAt layout ensurePtr place =
        if 2 ^ 63 ≤ place ∧ place < 2 ^ 64 then none else layout.foundAt ensurePtr (place % 2 ^ 32).toNat :=
      if_congr hsame rfl rfl
    rw [MemLayout.InReach, or_iff_right (by omega), ← hread]
    by_cases hnear : (∀ lOffset ∈ type.marks false, lOffset < 2 ^ 31) ∧ place < 2 ^ 32
    · obtain ⟨hb, hsmall⟩ := hnear
      have hfar : ¬ ((∃ lOffset ∈ type.marks false, 2 ^ 31 ≤ lOffset) ∨ 2 ^ 32 ≤ place) := by
        rintro (⟨lOffset, hmem, hge⟩ | hge)
        · have hlt := hb lOffset hmem
          omega
        · omega
      have hlow : place % 2 ^ 32 = place := Int.emod_eq_of_lt hpos hsmall
      rw [or_iff_left fun h => hfar h.1, and_iff_right hb, and_iff_right hsmall, hread, if_neg (by omega), hlow]
      constructor
      · exact foundAt_eq hb hm hw hsize hz hl hpos
      · rintro heq rfl
        have hnone : type.elementAt ensurePtr type.allocSize = none := by
          rw [LLVMType.elementAt, if_neg (by omega)]
        rw [hnone, Int.toNat_natCast] at heq
        exact (foundAt_eq_none hs).mp heq
    · have hfar : (∃ lOffset ∈ type.marks false, 2 ^ 31 ≤ lOffset) ∨ 2 ^ 32 ≤ place := by
        by_contra hnot
        rw [not_or, not_exists] at hnot
        refine hnear ⟨fun lOffset hmem => ?_, by omega⟩
        have hlt := hnot.1 lOffset
        simp only [not_and] at hlt
        exact Nat.lt_of_not_le (hlt hmem)
      rw [or_iff_right fun h => hnear ⟨h.1, h.2.1⟩, and_iff_right hfar]
      exact eq_comm

section Block

variable {useMemLayoutFiltering : Bool} {isZeroOffsetType : ℕ → LLVMType → Bool} {block : AggregateMemBlock}
  {fieldNum : ℕ} {object : FSObject} {offset : BitVec 64} {pointeeType : LLVMType}

lemma indexObject_constant
    (hf : filtersOut useMemLayoutFiltering isZeroOffsetType object.pOffset offset pointeeType = false)
    (hp : object.pOffset < 2 ^ 64) (ensurePtr : Bool) :
    block.indexObject useMemLayoutFiltering isZeroOffsetType fieldNum object (.constantGEP offset pointeeType)
        ensurePtr =
      if (object.pOffset + offset.toInt : ℤ) < 0 ∨ 2 ^ 63 ≤ (object.pOffset + offset.toInt : ℤ) ∧
        (object.pOffset + offset.toInt : ℤ) < 2 ^ 64 then some (block, none)
      else block.indexMemoryBlock ((object.pOffset + offset.toInt) % 2 ^ 32 : ℤ).toNat ensurePtr := by
  rw [indexObject, hf, if_neg Bool.false_ne_true, ← low_eq, Int.toNat_natCast]
  exact if_congr (negative_iff hp) rfl rfl

lemma indexMemoryBlock_read (hs : layout.Separates) (hl : block.layout = layout) (pOffset : ℕ) (ensurePtr : Bool) :
    ∃ block', block.indexMemoryBlock pOffset ensurePtr = some (block', layout.fieldOf ensurePtr pOffset) := by
  obtain ⟨⟨block', found⟩, heq, hsame⟩ := Option.map_eq_some_iff.mp (indexMemoryBlock_field hs hl pOffset ensurePtr)
  exact ⟨block', by rw [heq, ← hsame]⟩

lemma placed_of_read (hs : layout.Separates) (hsound : Sound layout block) {block' : AggregateMemBlock} {pOffset : ℕ}
    (heq : block.indexMemoryBlock pOffset ensurePtr = some (block', layout.fieldOf ensurePtr pOffset)) :
    (layout.fieldOf ensurePtr pOffset).map (fun fieldNum => (block'.objectAt fieldNum).map FSObject.pOffset) =
      (layout.foundAt ensurePtr pOffset).map some := by
  cases hfield : layout.fieldOf ensurePtr pOffset with
  | none => rw [(foundAt_eq_none hs).mpr hfield, Option.map_none, Option.map_none]
  | some fieldNum =>
    obtain ⟨object, lOffset, hobject, hindex⟩ := (hsound.index hs heq).2 fieldNum hfield
    rw [MemLayout.foundAt, hfield, Option.bind_some, hindex, Option.map_some, Option.map_some, Option.map_some, hobject,
      Option.map_some]

lemma indexes_iff (hw : type.WellFormed) (hb : type.allocSize < UInt64.size) (hz : type.FirstAtZero)
    (hl : LayoutOf layout type) (hm : Laid layout type) (hreached : Reached layout block)
    (hobject : block.objectAt fieldNum = some object)
    (hf : filtersOut useMemLayoutFiltering isZeroOffsetType object.pOffset offset pointeeType = false)
    (ensurePtr : Bool) :
    type.Indexes ensurePtr (object.pOffset + offset.toInt) (block.indexObject useMemLayoutFiltering
        isZeroOffsetType fieldNum object (.constantGEP offset pointeeType) ensurePtr) ↔
      layout.InReach type ensurePtr (object.pOffset + offset.toInt) := by
  have hs : layout.Separates := separates_of_layoutOf hw hl (hm.elements ▸ LLVMType.zero_mem_marks hz)
  have hsound := hreached.sound hs
  have hp : object.pOffset < 2 ^ 64 := by
    obtain ⟨lOffset, hindex, hinside, ⟨hstart, -⟩ | hlogical⟩ := hsound.placed hobject
    · omega
    · exact (le_of_beyond hw hl hm hindex hinside hlogical).trans_lt hb
  rw [inReach_iff hw hb hz hl hm, indexObject_constant hf hp]
  generalize (object.pOffset + offset.toInt : ℤ) = place
  have hread : ∃ block' field, (if place < 0 ∨ 2 ^ 63 ≤ place ∧ place < 2 ^ 64 then some (block, none)
      else block.indexMemoryBlock (place % 2 ^ 32).toNat ensurePtr) = some (block', field) ∧
        field.map (fun fieldNum => (block'.objectAt fieldNum).map FSObject.pOffset) =
          (readAt layout ensurePtr place).map some := by
    rw [readAt]
    split
    · exact ⟨block, none, rfl, rfl⟩
    · obtain ⟨block', heq⟩ :=
        @indexMemoryBlock_read layout block hs hsound.layout_eq (place % 2 ^ 32).toNat ensurePtr
      exact ⟨block', _, heq, placed_of_read hs hsound heq⟩
  obtain ⟨block', field, heq, hplaced⟩ := hread
  rw [LLVMType.Indexes, heq]
  constructor
  · rintro ⟨_, _, ⟨⟩, hsame⟩
    exact Option.map_injective (Option.some_injective ℕ) (hplaced.symm.trans hsame)
  · intro hsame
    exact ⟨block', field, rfl, hplaced.trans (congrArg (Option.map some) hsame)⟩

end Block

end Index

end OpenRace
