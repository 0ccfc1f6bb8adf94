import OpenRace.PointerAnalysis.MemoryModel.MarkedOffsets
import OpenRace.PreProcessing.SplitVariableGEP

/-! Memory copies lowered to a load and a store for each pointer of the copied type. -/

namespace OpenRace

open LLVM LLVMType

namespace LoweringMemCpy

structure PointerCopy where
  srcGEP : GEPInst LLVMType
  dstGEP : GEPInst LLVMType

section

variable (copied : LLVMType)

mutual
/-- `copied` is the type that the source and the destination point to. -/
def lowerMemCpyForType : LLVMType → (idx : List IndexOperand) → List PointerCopy
  | .struct _ fields _, idx => lowerMemCpyForFields fields 0 idx
  | .array _ element, idx => lowerMemCpyForType element (idx ++ [zeroIndex])
  | .scalar pointer _ _, idx => if pointer then [⟨⟨copied, idx⟩, ⟨copied, idx⟩⟩] else []

def lowerMemCpyForFields : StructFields → ℕ → List IndexOperand → List PointerCopy
  | .nil, _, _ => []
  | .cons _ field rest, i, idx =>
    lowerMemCpyForType field (idx ++ [.constantInt 32 i]) ++ lowerMemCpyForFields rest (i + 1) idx
end

end

/-- A call of memcpy: the sign-extended length, and the types whose pointers the operands are casts of. -/
structure MemCpyCall where
  constLen : Option ℤ
  dst : Option LLVMType
  src : Option LLVMType

/-- The copies that replace a call; no result leaves the call in its place. -/
def lowerCall (call : MemCpyCall) : Option (List PointerCopy) := do
  let len ← call.constLen
  let dstType ← call.dst
  let srcType ← call.src
  if dstType = srcType ∧ dstType.allocSize = len % UInt64.size then
    some (lowerMemCpyForType dstType dstType [zeroIndex])
  else none

def gepAddress (gep : GEPInst LLVMType) : ℕ :=
  (typeLayout.gepOffset (fun _ => (0 : BitVec 64)) gep.sourceType gep.indices).toNat

end LoweringMemCpy

/-- The offsets are canonical and stand for the marked pointers, each of them once. -/
def MemLayout.ListsPointers (layout : MemLayout) (pOffsets : List ℕ) : Prop :=
  ∃ lOffsets : List ℕ,
    List.Forall₂ (fun lOffset pOffset => layout.indexPhysicalOffset pOffset = some (lOffset, pOffset))
      lOffsets pOffsets ∧ lOffsets.Nodup ∧ lOffsets.toFinset = layout.pointerLayout

def LoweringMemCpy.CopiesPointers (layout : MemLayout) (type : LLVMType) : Prop :=
  ∀ call copies, call.dst = some type → lowerCall call = some copies →
    layout.ListsPointers (copies.map fun copy => gepAddress copy.srcGEP) ∧
      layout.ListsPointers (copies.map fun copy => gepAddress copy.dstGEP)

namespace LLVMType

mutual
def pointerOffsets : LLVMType → List ℕ
  | scalar pointer _ _ => if pointer then [0] else []
  | array _ element => element.pointerOffsets
  | struct _ fields _ => fieldPointers fields

def fieldPointers : StructFields → List ℕ
  | .nil => []
  | .cons offset field rest => field.pointerOffsets.map (offset + ·) ++ fieldPointers rest
end

mutual
/-- An array of length zero has pointers in its element type. -/
def EmptyPointers : LLVMType → Prop
  | scalar .. => False
  | array numElements element => numElements = 0 ∧ element.pointerOffsets ≠ [] ∨ element.EmptyPointers
  | struct _ fields _ => EmptyFieldPointers fields

def EmptyFieldPointers : StructFields → Prop
  | .nil => False
  | .cons _ field rest => field.EmptyPointers ∨ EmptyFieldPointers rest
end

mutual
theorem pointerOffsets_ne_nil : ∀ {type : LLVMType}, type.EmptyPointers → type.pointerOffsets ≠ []
  | scalar .., h => h.elim
  | array _ element, h => by
    rw [pointerOffsets]
    exact h.elim And.right pointerOffsets_ne_nil
  | struct _ fields _, h => by
    rw [pointerOffsets]
    exact fieldPointers_ne_nil h

theorem fieldPointers_ne_nil : ∀ {fields : StructFields}, EmptyFieldPointers fields → fieldPointers fields ≠ []
  | .nil, h => h.elim
  | .cons _ field rest, h => by
    rw [fieldPointers]
    rcases h with h | h
    · simp [pointerOffsets_ne_nil h]
    · simp [fieldPointers_ne_nil h]
end

mutual
theorem pointer_inside : ∀ {type : LLVMType} {pOffset : ℕ}, type.WellFormed → ¬ type.EmptyPointers →
    pOffset ∈ type.pointerOffsets → pOffset < type.allocSize ∧ type.Canonical pOffset
  | scalar pointer _ size, pOffset, hw, _, hm => by
    rw [pointerOffsets] at hm
    split at hm
    · obtain rfl := List.mem_singleton.mp hm
      exact ⟨hw, trivial⟩
    · cases hm
  | array numElements element, pOffset, hw, he, hm => by
    have helement : element.WellFormed := hw
    obtain ⟨hzero, hempty⟩ := not_or.mp he
    rw [pointerOffsets] at hm
    obtain ⟨hlt, hcanonical⟩ := pointer_inside helement hempty hm
    have hnum : 0 < numElements := Nat.pos_of_ne_zero fun hz => hzero ⟨hz, List.ne_nil_of_mem hm⟩
    exact ⟨hlt.trans_le (Nat.le_mul_of_pos_left _ hnum), hlt, hcanonical⟩
  | struct _ fields size, pOffset, hw, he, hm => by
    rw [pointerOffsets] at hm
    obtain ⟨-, hlt, hcanonical⟩ := fieldPointer_inside hw he hm
    exact ⟨hlt, hcanonical⟩

theorem fieldPointer_inside : ∀ {fields : StructFields} {start size pOffset : ℕ}, FieldsFrom start size fields →
    ¬ EmptyFieldPointers fields → pOffset ∈ fieldPointers fields →
    start ≤ pOffset ∧ pOffset < size ∧ CanonicalAmong fields pOffset
  | .nil, _, _, _, _, _, hm => absurd hm List.not_mem_nil
  | .cons offset field rest, start, size, pOffset, ⟨hstart, hfield, hrest⟩, he, hm => by
    obtain ⟨hempty, hmore⟩ := not_or.mp he
    have hle := le_of_fieldsFrom hrest
    rw [fieldPointers, List.mem_append] at hm
    rw [CanonicalAmong]
    rcases hm with hm | hm
    · obtain ⟨inner, hinner, rfl⟩ := List.mem_map.mp hm
      obtain ⟨hlt, hcanonical⟩ := pointer_inside hfield hempty hinner
      rw [if_neg (by omega), if_pos (by omega), Nat.add_sub_cancel_left]
      exact ⟨by omega, by omega, hcanonical⟩
    · obtain ⟨hge, hlt, hcanonical⟩ := fieldPointer_inside hrest hmore hm
      rw [if_neg (by omega), if_neg (by omega)]
      exact ⟨by omega, hlt, hcanonical⟩
end

mutual
theorem pointerOffsets_sorted : ∀ {type : LLVMType}, type.WellFormed → ¬ type.EmptyPointers →
    type.pointerOffsets.Pairwise (· < ·)
  | scalar pointer _ _, _, _ => by
    rw [pointerOffsets]
    split
    · exact List.pairwise_singleton _ _
    · exact List.Pairwise.nil
  | array _ element, hw, he => by
    rw [pointerOffsets]
    exact pointerOffsets_sorted hw (not_or.mp he).2
  | struct _ fields _, hw, he => by
    rw [pointerOffsets]
    exact fieldPointers_sorted hw he

theorem fieldPointers_sorted : ∀ {fields : StructFields} {start size : ℕ}, FieldsFrom start size fields →
    ¬ EmptyFieldPointers fields → (fieldPointers fields).Pairwise (· < ·)
  | .nil, _, _, _, _ => List.Pairwise.nil
  | .cons offset field rest, _, _, ⟨_, hfield, hrest⟩, he => by
    obtain ⟨hempty, hmore⟩ := not_or.mp he
    rw [fieldPointers, List.pairwise_append]
    refine ⟨?_, fieldPointers_sorted hrest hmore, ?_⟩
    · rw [List.pairwise_map]
      exact (pointerOffsets_sorted hfield hempty).imp fun hlt => Nat.add_lt_add_left hlt offset
    · intro first hm second hm'
      obtain ⟨inner, hinner, rfl⟩ := List.mem_map.mp hm
      have hlt := (pointer_inside hfield hempty hinner).1
      have hge := (fieldPointer_inside hrest hmore hm').1
      omega
end

lemma pointerOffsets_eq_nil {type : LLVMType} (hw : type.WellFormed) (he : ¬ type.EmptyPointers)
    (hz : type.allocSize = 0) : type.pointerOffsets = [] := by
  apply List.eq_nil_iff_forall_not_mem.mpr
  intro pOffset hm
  have hlt := (pointer_inside hw he hm).1
  omega

lemma image_toFinset (xs : List ℕ) (f g : ℕ → ℕ) : (xs.map f).toFinset.image g = (xs.map (g ∘ f)).toFinset := by
  ext
  simp

mutual
theorem marks_pointers : ∀ {type : LLVMType}, type.WellFormed → ¬ type.EmptyPointers →
    type.marks true = (type.pointerOffsets.map type.foldedOffset).toFinset
  | scalar pointer name size, _, _ => by
    rw [marks, startIf, pointerOffsets]
    cases pointer with
    | false => rfl
    | true => rfl
  | array numElements element, hw, he => by
    rw [marks]
    split
    · next hz =>
      rw [pointerOffsets_eq_nil hw he hz]
      rfl
    · have helement : element.WellFormed := hw
      have hempty := (not_or.mp he).2
      rw [marks_pointers helement hempty, pointerOffsets]
      congr 1
      apply List.map_congr_left
      intro pOffset hm
      rw [foldedOffset, Nat.mod_eq_of_lt (pointer_inside helement hempty hm).1]
  | struct name fields size, hw, he => by
    rw [marks]
    split
    · next hz =>
      rw [pointerOffsets_eq_nil hw he hz]
      rfl
    · rw [marks_fieldPointers hw he, pointerOffsets]
      rfl

theorem marks_fieldPointers : ∀ {fields : StructFields} {start size folded : ℕ}, FieldsFrom start size fields →
    ¬ EmptyFieldPointers fields →
    fieldMarks true fields folded start = ((fieldPointers fields).map (foldedAmong fields folded start)).toFinset
  | .nil, _, _, _, _, _ => rfl
  | .cons offset field rest, start, size, folded, ⟨hstart, hfield, hrest⟩, he => by
    obtain ⟨hempty, hmore⟩ := not_or.mp he
    rw [fieldMarks, fieldPointers, List.map_append, List.toFinset_append, marks_pointers hfield hempty,
      marks_fieldPointers hrest hmore]
    congr 1
    · rw [image_toFinset, List.map_map]
      congr 1
      apply List.map_congr_left
      intro pOffset hm
      have hlt := (pointer_inside hfield hempty hm).1
      rw [Function.comp_apply, Function.comp_apply, foldedAmong, if_neg (by omega), if_pos (by omega),
        Nat.add_sub_cancel_left, Nat.add_comm]
    · congr 1
      apply List.map_congr_left
      intro pOffset hm
      have hge := (fieldPointer_inside hrest hmore hm).1
      rw [foldedAmong, if_neg (by omega), if_neg (by omega)]
end

mutual
theorem card_marks_le : ∀ {type : LLVMType}, (type.marks true).card ≤ type.pointerOffsets.length ∧
    (type.EmptyPointers → (type.marks true).card < type.pointerOffsets.length)
  | scalar pointer name size => by
    rw [marks, startIf, pointerOffsets]
    cases pointer with
    | false => exact ⟨le_rfl, fun h => h.elim⟩
    | true => exact ⟨le_rfl, fun h => h.elim⟩
  | array numElements element => by
    rw [marks]
    split
    · exact ⟨Nat.zero_le _, fun h => List.length_pos_of_ne_nil (pointerOffsets_ne_nil h)⟩
    · next hp =>
      have hnum : numElements ≠ 0 := fun hz => hp (by rw [hz, Nat.zero_mul])
      obtain ⟨hle, hlt⟩ := @card_marks_le element
      rw [pointerOffsets]
      exact ⟨hle, fun h => hlt (h.resolve_left fun h => hnum h.1)⟩
  | struct name fields size => by
    rw [marks]
    split
    · exact ⟨Nat.zero_le _, fun h => List.length_pos_of_ne_nil (pointerOffsets_ne_nil h)⟩
    · rw [pointerOffsets]
      exact card_fieldMarks_le

theorem card_fieldMarks_le : ∀ {fields : StructFields} {folded start : ℕ},
    (fieldMarks true fields folded start).card ≤ (fieldPointers fields).length ∧
      (EmptyFieldPointers fields → (fieldMarks true fields folded start).card < (fieldPointers fields).length)
  | .nil, _, _ => ⟨le_rfl, fun h => h.elim⟩
  | .cons offset field rest, folded, start => by
    obtain ⟨hle, hlt⟩ := @card_marks_le field
    obtain ⟨hle', hlt'⟩ := @card_fieldMarks_le rest (folded + (offset - start) + field.foldedSize)
      (offset + field.allocSize)
    rw [fieldMarks, fieldPointers, List.length_append, List.length_map]
    have himage := (Finset.card_image_le : ((field.marks true).image (· + (folded + (offset - start)))).card ≤ _)
    have hunion := Finset.card_union_le ((field.marks true).image (· + (folded + (offset - start))))
      (fieldMarks true rest (folded + (offset - start) + field.foldedSize) (offset + field.allocSize))
    refine ⟨by omega, ?_⟩
    rintro (h | h)
    · have hless := hlt h
      omega
    · have hless := hlt' h
      omega
end

end LLVMType

namespace LoweringMemCpy

section

variable {copied : LLVMType}

mutual
theorem dst_eq_src : ∀ {type : LLVMType} {idx : List IndexOperand},
    (lowerMemCpyForType copied type idx).map PointerCopy.dstGEP =
      (lowerMemCpyForType copied type idx).map PointerCopy.srcGEP
  | .scalar pointer _ _, idx => by
    rw [lowerMemCpyForType]
    split
    · rfl
    · rfl
  | .array _ element, idx => by
    rw [lowerMemCpyForType]
    exact dst_eq_src
  | .struct _ fields _, idx => by
    rw [lowerMemCpyForType]
    exact fields_dst_eq_src

theorem fields_dst_eq_src : ∀ {fields : StructFields} {i : ℕ} {idx : List IndexOperand},
    (lowerMemCpyForFields copied fields i idx).map PointerCopy.dstGEP =
      (lowerMemCpyForFields copied fields i idx).map PointerCopy.srcGEP
  | .nil, _, _ => rfl
  | .cons _ field rest, i, idx => by
    rw [lowerMemCpyForFields, List.map_append, List.map_append, dst_eq_src, fields_dst_eq_src]
end

structure LeadsTo (copied : LLVMType) (idx : List IndexOperand) (type : LLVMType) (offset : ℕ) : Prop where
  indices : idx ≠ []
  type : typeLayout.getIndexedType copied idx = some type
  offset : typeLayout.gepOffset (fun _ => (0 : BitVec 64)) copied idx = BitVec.ofNat 64 offset

lemma LeadsTo.step {idx : List IndexOperand} {type next : LLVMType} {offset step : ℕ} {index : IndexOperand}
    (h : LeadsTo copied idx type offset) (ht : typeLayout.stepType type index = some next)
    (ho : typeLayout.stepOffset (fun _ => (0 : BitVec 64)) type index = BitVec.ofNat 64 step) :
    LeadsTo copied (idx ++ [index]) next (offset + step) where
  indices := by simp
  type := by
    rw [TypeLayout.getIndexedType_append h.indices _ h.type, TypeLayout.followTypes, List.foldlM_cons, ht]
    rfl
  offset := by
    rw [TypeLayout.gepOffset_append h.indices _ h.type, h.offset, TypeLayout.followOffset, ho, ht]
    simp [TypeLayout.followOffset, BitVec.ofNat_add]

lemma LeadsTo.element {idx : List IndexOperand} {numElements offset : ℕ} {element : LLVMType}
    (h : LeadsTo copied idx (.array numElements element) offset) :
    LeadsTo copied (idx ++ [zeroIndex]) element offset := by
  have hstep : LeadsTo copied (idx ++ [zeroIndex]) element (offset + 0) := h.step rfl (by
    simp [TypeLayout.stepOffset, typeLayout, zeroIndex, IndexOperand.value])
  exact hstep

lemma LeadsTo.field {idx : List IndexOperand} {name : String} {fields : StructFields}
    {size offset i fieldOffset : ℕ} {field : LLVMType} (h : LeadsTo copied idx (.struct name fields size) offset)
    (hget : fields.get? i = some (fieldOffset, field)) :
    LeadsTo copied (idx ++ [.constantInt 32 i]) field (offset + fieldOffset) := by
  apply h.step
  · simp [TypeLayout.stepType, typeLayout, hget]
  · simp [TypeLayout.stepOffset, typeLayout, hget]

mutual
theorem lower_addresses : ∀ {type : LLVMType} {idx : List IndexOperand} {offset : ℕ},
    LeadsTo copied idx type offset →
    ((lowerMemCpyForType copied type idx).map PointerCopy.srcGEP).map gepAddress =
      type.pointerOffsets.map fun pOffset => (offset + pOffset) % 2 ^ 64
  | .scalar pointer _ _, idx, offset, h => by
    rw [lowerMemCpyForType, pointerOffsets]
    split
    · simp only [List.map_cons, List.map_nil, gepAddress, h.offset, BitVec.toNat_ofNat, Nat.add_zero]
    · rfl
  | .array _ element, idx, offset, h => by
    rw [lowerMemCpyForType, pointerOffsets]
    exact lower_addresses h.element
  | .struct name fields size, idx, offset, h => by
    rw [lowerMemCpyForType, pointerOffsets]
    exact lower_fields_addresses h fun j => by rw [Nat.zero_add]

theorem lower_fields_addresses : ∀ {fields all : StructFields} {name : String} {size i : ℕ}
    {idx : List IndexOperand} {offset : ℕ}, LeadsTo copied idx (.struct name all size) offset →
    (∀ j, fields.get? j = all.get? (i + j)) →
    ((lowerMemCpyForFields copied fields i idx).map PointerCopy.srcGEP).map gepAddress =
      (fieldPointers fields).map fun pOffset => (offset + pOffset) % 2 ^ 64
  | .nil, _, _, _, _, _, _, _, _ => rfl
  | .cons fieldOffset field rest, all, name, size, i, idx, offset, h, hget => by
    have hfield : LeadsTo copied (idx ++ [.constantInt 32 i]) field (offset + fieldOffset) :=
      h.field (hget 0).symm
    have hrest : ∀ j, rest.get? j = all.get? (i + 1 + j) := fun j => by
      rw [Nat.add_assoc, Nat.add_comm 1 j]
      exact hget (j + 1)
    rw [lowerMemCpyForFields, fieldPointers, List.map_append, List.map_append, List.map_append,
      lower_addresses hfield, lower_fields_addresses h hrest, List.map_map]
    congr 1
    apply List.map_congr_left
    intro pOffset _
    rw [Function.comp_apply, Nat.add_assoc]
end

lemma leadsTo_start (type : LLVMType) : LeadsTo type [zeroIndex] type 0 where
  indices := List.cons_ne_nil _ _
  type := rfl
  offset := by
    rw [TypeLayout.gepOffset_zero rfl]
    rfl

end

lemma lowerCall_eq {call : MemCpyCall} {copies : List PointerCopy} {type : LLVMType} (hd : call.dst = some type)
    (h : lowerCall call = some copies) : copies = lowerMemCpyForType type type [zeroIndex] := by
  simp only [lowerCall, Option.bind_eq_bind, Option.bind_eq_some_iff] at h
  obtain ⟨len, -, dstType, hdst, srcType, -, h⟩ := h
  obtain rfl : dstType = type := Option.some.inj (hdst.symm.trans hd)
  split at h
  · exact (Option.some.inj h).symm
  · cases h

lemma lowerCall_of_type {type : LLVMType} (hb : type.allocSize < UInt64.size) :
    lowerCall ⟨some type.allocSize, some type, some type⟩ = some (lowerMemCpyForType type type [zeroIndex]) := by
  have hlen : (type.allocSize : ℤ) = type.allocSize % UInt64.size := by
    rw [Int.emod_eq_of_lt (by omega) (by omega)]
  simp only [lowerCall, Option.bind_eq_bind, Option.bind_some]
  exact if_pos ⟨trivial, hlen⟩

lemma copied_offsets (type : LLVMType) :
    ((lowerMemCpyForType type type [zeroIndex]).map fun copy => gepAddress copy.srcGEP) =
        type.pointerOffsets.map (· % 2 ^ 64) ∧
      ((lowerMemCpyForType type type [zeroIndex]).map fun copy => gepAddress copy.dstGEP) =
        type.pointerOffsets.map (· % 2 ^ 64) := by
  have hsrc := lower_addresses (leadsTo_start type)
  have hdst := hsrc
  rw [← dst_eq_src] at hdst
  rw [List.map_map] at hsrc hdst
  simp only [Nat.zero_add] at hsrc hdst
  exact ⟨hsrc, hdst⟩

end LoweringMemCpy

open MemLayoutManager LoweringMemCpy

lemma listsPointers_of_laid {layout : MemLayout} {type : LLVMType} (hw : type.WellFormed)
    (he : ¬ type.EmptyPointers) (hl : LayoutOf layout type) (hm : Laid layout type) :
    layout.ListsPointers type.pointerOffsets := by
  refine ⟨type.pointerOffsets.map type.foldedOffset, ?_, ?_, ?_⟩
  · rw [List.forall₂_map_left_iff, List.forall₂_same]
    intro pOffset hp
    obtain ⟨hlt, hcanonical⟩ := pointer_inside hw he hp
    rw [hl.index hlt, fold_of_canonical hcanonical]
  · apply List.Nodup.map_on
    · intro pOffset hp pOffset' hp' heq
      obtain ⟨hlt, hcanonical⟩ := pointer_inside hw he hp
      obtain ⟨hlt', hcanonical'⟩ := pointer_inside hw he hp'
      exact (foldedOffset_inj hw hcanonical hcanonical' hlt hlt').mp heq
    · exact (pointerOffsets_sorted hw he).imp Nat.ne_of_lt
  · rw [hm.pointers, marks_pointers hw he]

lemma card_of_listsPointers {layout : MemLayout} {pOffsets : List ℕ} (h : layout.ListsPointers pOffsets) :
    layout.pointerLayout.card = pOffsets.length := by
  obtain ⟨lOffsets, hall, hnodup, hmarked⟩ := h
  rw [← hmarked, List.toFinset_card_of_nodup hnodup, hall.length_eq]

lemma copiesPointers_iff {layout : MemLayout} {type : LLVMType} (hw : type.WellFormed)
    (hb : type.allocSize < UInt64.size) (hl : LayoutOf layout type) (hm : Laid layout type) :
    CopiesPointers layout type ↔ ¬ type.EmptyPointers := by
  obtain ⟨hsrc, hdst⟩ := copied_offsets type
  constructor
  · intro h he
    have hcard := card_of_listsPointers (h _ _ rfl (lowerCall_of_type hb)).1
    have hless := card_marks_le.2 he
    rw [hsrc, List.length_map, hm.pointers] at hcard
    omega
  · intro he call copies hcall hlower
    have hoffsets : type.pointerOffsets.map (· % 2 ^ 64) = type.pointerOffsets := by
      conv_rhs => rw [← List.map_id type.pointerOffsets]
      apply List.map_congr_left
      intro pOffset hp
      exact Nat.mod_eq_of_lt ((pointer_inside hw he hp).1.trans hb)
    obtain rfl := lowerCall_eq hcall hlower
    rw [hsrc, hdst, hoffsets]
    exact ⟨listsPointers_of_laid hw he hl hm, listsPointers_of_laid hw he hl hm⟩

/-- A memcpy is lowered to the marked pointers of its type just when no array of length zero has pointers. -/
theorem getLayouts_copiesPointers_iff (requests : List IndexedType) :
    ∃ layouts, getLayouts (requests.map (·.type)) [] = some layouts ∧
      List.Forall₂ (fun layout request => CopiesPointers layout request.type ↔ ¬ request.type.EmptyPointers)
        layouts requests := by
  obtain ⟨layouts, heq, hall⟩ :=
    getLayouts_laid (requests.map IndexedType.toAggregateType) known_nil allLaid_nil
  rw [List.map_map] at heq
  refine ⟨layouts, heq, (List.forall₂_map_right_iff.mp hall).imp ?_⟩
  intro layout request ⟨hl, hm⟩
  exact copiesPointers_iff request.wellFormed request.bounded hl hm

/-- `{i32, [0 x i8*]}`: the copy reads and writes behind the struct. -/
theorem flexibleArray_not_copied : ∃ layout,
    let type := LLVMType.struct "" (.cons 0 (.scalar false "i32" 4)
      (.cons 8 (.array 0 (.scalar true "i8*" 8)) .nil)) 8
    getLayouts [type] [] = some [layout] ∧ ¬ CopiesPointers layout type := by
  refine ⟨_, rfl, fun h => ?_⟩
  have hcard := card_of_listsPointers (h _ _ rfl (lowerCall_of_type (by decide))).1
  exact absurd hcard (by decide)

end OpenRace
