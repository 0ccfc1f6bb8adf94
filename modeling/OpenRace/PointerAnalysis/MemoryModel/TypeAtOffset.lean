import OpenRace.PointerAnalysis.MemoryModel.MarkedOffsets
import OpenRace.PointerAnalysis.MemoryModel.MemBlock

/-! The type that a canonical offset of a memory block is taken to have. -/

namespace OpenRace

namespace LLVMType

def stripArrayType : LLVMType → LLVMType
  | array _ element => element.stripArrayType
  | type => type

def typeAtStart (type : LLVMType) (stripArray : Bool) : LLVMType :=
  if stripArray then type.stripArrayType else type

mutual
/-- No type is the null pointer, and the error is a division by zero. -/
def getTypeAtOffset : LLVMType → (offset : ℕ) → (stripArray : Bool) → Except String (Option LLVMType)
  | struct name fields size, offset, stripArray =>
    if offset = 0 then .ok (some ((struct name fields size).typeAtStart stripArray))
    else getTypeAmong fields offset stripArray
  | array numElements element, offset, stripArray =>
    if offset = 0 then .ok (some ((array numElements element).typeAtStart stripArray))
    else if element.allocSize = 0 then .error "division by zero"
    else element.getTypeAtOffset (offset % element.allocSize) stripArray
  | scalar pointer name size, offset, stripArray =>
    .ok (if offset = 0 then some ((scalar pointer name size).typeAtStart stripArray) else none)

def getTypeAmong : StructFields → (offset : ℕ) → (stripArray : Bool) → Except String (Option LLVMType)
  | .nil, _, _ => .ok none
  | .cons elemOff elemType rest, offset, stripArray =>
    if elemType.allocSize = 0 ∧ offset = elemOff then .ok (some elemType)
    else if elemOff ≤ offset ∧ offset < elemOff + elemType.allocSize then
      elemType.getTypeAtOffset (offset - elemOff) stripArray
    else getTypeAmong rest offset stripArray
end

end LLVMType

/-- The type of an offset, kept for its field from the first time on; none outside is a failed assertion. -/
def MemLayout.getOffsetType (layout : MemLayout) (fieldType : List (Option LLVMType)) (pOffset : ℕ) :
    Option (List (Option LLVMType) × Option LLVMType) := do
  -- the folded offset is written back
  let (lOffset, folded) ← layout.indexPhysicalOffset pOffset
  match layout.getLogicalOffset lOffset with
  | none => some (fieldType, none)
  | some fieldNum =>
    match fieldType[fieldNum]?.join with
    | some type => some (fieldType, some type)
    | none =>
      if folded = 0 then
        if lOffset = 0 ∧ fieldNum = 0 then some (fieldType.set 0 (some layout.type), some layout.type) else none
      else match layout.type.getTypeAtOffset folded false with
        | .ok (some type) => some (fieldType.set fieldNum (some type), some type)
        | _ => none

def MemLayout.MarksOffset (layout : MemLayout) (pOffset : ℕ) : Prop :=
  ∃ lOffset ∈ layout.elementLayout, lOffset ≠ unbounded ∧
    layout.indexPhysicalOffset pOffset = some (lOffset, pOffset)

inductive TypesKept (layout : MemLayout) : List (Option LLVMType) → Prop
  | create : TypesKept layout (List.replicate
      (if layout.getNumIndexableElem = 0 then 1 else layout.getNumIndexableElem) none)
  | get {fieldType fieldType' : List (Option LLVMType)} {pOffset : ℕ} {type : Option LLVMType}
      (h : TypesKept layout fieldType) (marked : layout.MarksOffset pOffset)
      (eq : layout.getOffsetType fieldType pOffset = some (fieldType', type)) : TypesKept layout fieldType'

namespace LLVMType

def ScalarByte.start? (byte : Option ScalarByte) : Option LLVMType :=
  (byte.filter fun scalarByte => scalarByte.2 = 0).map Prod.fst

def scalarAt (type : LLVMType) (offset : ℕ) : Option LLVMType := ScalarByte.start? (type.byteAt offset)

inductive LocatedAt : LLVMType → ℕ → LLVMType → Prop
  | root (type : LLVMType) : LocatedAt type 0 type
  | element {numElements offset : ℕ} {element type : LLVMType} (h : LocatedAt element offset type) :
    LocatedAt (array numElements element) offset type
  | field {name : String} {fields : StructFields} {size i start offset : ℕ} {field type : LLVMType}
    (get : fields.get? i = some (start, field)) (h : LocatedAt field offset type) :
    LocatedAt (struct name fields size) (start + offset) type

mutual
def membersAt : LLVMType → ℕ → List LLVMType
  | scalar .., _ => []
  | array _ element, offset => element.membersAt (offset % element.allocSize)
  | struct _ fields _, offset => membersAmong fields offset

def membersAmong : StructFields → ℕ → List LLVMType
  | .nil, _ => []
  | .cons start field rest, offset =>
    if start < offset ∧ offset < start + field.allocSize then field.membersAt (offset - start)
    else if start = offset then field :: membersAmong rest offset
    else membersAmong rest offset
end

/-- Behind the start, some element of the innermost struct around is at the offset, and none without size is
where a scalar starts. -/
def HasMember (type : LLVMType) (offset : ℕ) : Prop :=
  offset = 0 ∨ type.membersAt offset ≠ [] ∧
    (type.scalarAt offset ≠ none → ∀ member ∈ type.membersAt offset, member.allocSize ≠ 0)

end LLVMType

/-- The offset is given a type that is there and starts with the scalar that starts there. -/
def MemLayout.TypedAt (layout : MemLayout) (type : LLVMType) (pOffset : ℕ) : Prop :=
  ∃ found, type.getTypeAtOffset pOffset false = .ok (some found) ∧ type.LocatedAt pOffset found ∧
    found.scalarAt 0 = type.scalarAt pOffset ∧
    ∀ fieldType, TypesKept layout fieldType →
      (layout.getOffsetType fieldType pOffset).map Prod.snd = some (some found)

namespace LLVMType

lemma getTypeAtOffset_zero (type : LLVMType) : type.getTypeAtOffset 0 false = .ok (some type) := by
  cases type with
  | scalar pointer name size => rfl
  | array numElements element => rfl
  | struct name fields size => rfl

lemma canonicalAmong_of_lt {fields : StructFields} {start size offset : ℕ} (h : FieldsFrom start size fields)
    (hlt : offset < start) : CanonicalAmong fields offset := by
  cases fields with
  | nil => trivial
  | cons fieldOffset field rest =>
    have hstart := h.1
    rw [CanonicalAmong, if_pos (by omega)]
    trivial

lemma canonicalAmong_of_ge {offset : ℕ} : ∀ {fields : StructFields} {start size : ℕ}, FieldsFrom start size fields →
    size ≤ offset → CanonicalAmong fields offset
  | .nil, _, _, _, _ => trivial
  | .cons fieldOffset field rest, _, _, ⟨_, _, hrest⟩, hge => by
    have hle := le_of_fieldsFrom hrest
    rw [CanonicalAmong, if_neg (by omega), if_neg (by omega)]
    exact canonicalAmong_of_ge hrest hge

lemma CanonicalAmong.rest {fieldOffset start size offset : ℕ} {field : LLVMType} {rest : StructFields}
    (hw : FieldsFrom start size (.cons fieldOffset field rest))
    (hc : CanonicalAmong (.cons fieldOffset field rest) offset)
    (hout : ¬ (fieldOffset ≤ offset ∧ offset < fieldOffset + field.allocSize)) : CanonicalAmong rest offset := by
  obtain ⟨-, -, hrest⟩ := hw
  rw [CanonicalAmong] at hc
  by_cases hlt : offset < fieldOffset
  · exact canonicalAmong_of_lt hrest (by omega)
  · rwa [if_neg hlt, if_neg (by omega)] at hc

lemma CanonicalAmong.field {fieldOffset offset : ℕ} {field : LLVMType} {rest : StructFields}
    (hc : CanonicalAmong (.cons fieldOffset field rest) offset) (hge : fieldOffset ≤ offset)
    (hlt : offset < fieldOffset + field.allocSize) : field.Canonical (offset - fieldOffset) := by
  rwa [CanonicalAmong, if_neg (by omega), if_pos hlt] at hc

mutual
theorem getTypeAtOffset_eq : ∀ {type : LLVMType} {offset : ℕ}, type.WellFormed → offset ≠ 0 → type.Canonical offset →
    type.getTypeAtOffset offset false = .ok (type.membersAt offset).head?
  | scalar .., offset, _, hne, _ => by
    rw [getTypeAtOffset, if_neg hne, membersAt]
    rfl
  | array _ element, offset, hw, hne, ⟨hlt, hc⟩ => by
    have helement : element.WellFormed := hw
    rw [getTypeAtOffset, if_neg hne, if_neg (by omega), membersAt, Nat.mod_eq_of_lt hlt]
    exact getTypeAtOffset_eq helement hne hc
  | struct _ fields _, offset, hw, hne, hc => by
    rw [getTypeAtOffset, if_neg hne, membersAt]
    exact getTypeAmong_eq hw hc

theorem getTypeAmong_eq : ∀ {fields : StructFields} {start size offset : ℕ}, FieldsFrom start size fields →
    CanonicalAmong fields offset → getTypeAmong fields offset false = .ok (membersAmong fields offset).head?
  | .nil, _, _, _, _, _ => rfl
  | .cons fieldOffset field rest, _, _, offset, hw, hc => by
    obtain ⟨-, hfield, hrest⟩ := id hw
    rw [getTypeAmong, membersAmong]
    by_cases hstart : fieldOffset = offset
    · subst hstart
      rw [if_neg (by omega : ¬ (fieldOffset < fieldOffset ∧ _)), if_pos rfl, List.head?_cons]
      split
      · rfl
      · next hsize =>
        rw [if_pos (by omega), Nat.sub_self, getTypeAtOffset_zero]
    · rw [if_neg (by omega : ¬ (field.allocSize = 0 ∧ offset = fieldOffset)), if_neg hstart]
      by_cases hin : fieldOffset ≤ offset ∧ offset < fieldOffset + field.allocSize
      · rw [if_pos hin, if_pos (by omega)]
        exact getTypeAtOffset_eq hfield (by omega) (hc.field hin.1 hin.2)
      · rw [if_neg hin, if_neg (by omega)]
        exact getTypeAmong_eq hrest (hc.rest hw hin)
end

mutual
theorem byteAt_of_empty : ∀ {type : LLVMType}, type.WellFormed → type.allocSize = 0 →
    ∀ offset, type.byteAt offset = none
  | scalar _ _ size, hw, hz, _ => absurd hz (Nat.ne_of_gt hw)
  | array numElements element, hw, hz, offset => by
    have helement : element.WellFormed := hw
    rw [byteAt]
    split
    · next hlt =>
      have hnum : numElements ≠ 0 := Nat.ne_of_gt (Nat.zero_lt_of_lt hlt)
      exact byteAt_of_empty helement ((Nat.mul_eq_zero.mp hz).resolve_left hnum) _
    · rfl
  | struct _ fields size, hw, hz, offset => by
    have hsize : size = 0 := hz
    subst hsize
    rw [byteAt]
    exact byteAmong_of_empty hw offset

theorem byteAmong_of_empty : ∀ {fields : StructFields}, FieldsFrom 0 0 fields →
    ∀ offset, byteAmong fields offset = none
  | .nil, _, _ => rfl
  | .cons start field rest, ⟨_, _, hrest⟩, offset => by
    have hle := le_of_fieldsFrom hrest
    have hstart : start + field.allocSize = 0 := by omega
    rw [hstart] at hrest
    rw [byteAmong]
    split
    · rfl
    · rw [if_neg (by omega)]
      exact byteAmong_of_empty hrest offset
end

structure Member (type : LLVMType) (offset : ℕ) (member : LLVMType) : Prop where
  located : type.LocatedAt offset member
  wellFormed : member.WellFormed
  scalar : member.allocSize ≠ 0 → member.scalarAt 0 = type.scalarAt offset

structure MemberAmong (fields : StructFields) (offset : ℕ) (member : LLVMType) : Prop where
  located : ∃ i start inner field, fields.get? i = some (start, field) ∧ offset = start + inner ∧
    field.LocatedAt inner member
  wellFormed : member.WellFormed
  scalar : member.allocSize ≠ 0 → member.scalarAt 0 = ScalarByte.start? (byteAmong fields offset)

lemma MemberAmong.rest {fieldOffset offset : ℕ} {field member : LLVMType} {rest : StructFields}
    (h : MemberAmong rest offset member)
    (hbyte : byteAmong (.cons fieldOffset field rest) offset = byteAmong rest offset) :
    MemberAmong (.cons fieldOffset field rest) offset member where
  located := by
    obtain ⟨i, hi⟩ := h.located
    exact ⟨i + 1, hi⟩
  wellFormed := h.wellFormed
  scalar := by
    rw [hbyte]
    exact h.scalar

lemma membersAmong_of_lt {offset : ℕ} : ∀ {fields : StructFields} {start size : ℕ}, FieldsFrom start size fields →
    offset < start → membersAmong fields offset = []
  | .nil, _, _, _, _ => rfl
  | .cons fieldOffset field rest, _, _, ⟨hstart, _, hrest⟩, hlt => by
    rw [membersAmong, if_neg (by omega), if_neg (by omega)]
    exact membersAmong_of_lt hrest (by omega)

lemma byteAmong_of_ge {fieldOffset offset : ℕ} {field : LLVMType} (rest : StructFields)
    (h : fieldOffset + field.allocSize ≤ offset) :
    byteAmong (.cons fieldOffset field rest) offset = byteAmong rest offset := by
  rw [byteAmong, if_neg (by omega), if_neg (by omega)]

mutual
theorem member_of_mem : ∀ {type : LLVMType} {offset : ℕ}, type.WellFormed → type.Canonical offset →
    offset < type.allocSize → ∀ member ∈ type.membersAt offset, Member type offset member
  | scalar .., _, _, _, _ => fun _ hm => absurd hm List.not_mem_nil
  | array numElements element, offset, hw, ⟨hlt, hc⟩, hin => by
    have helement : element.WellFormed := hw
    obtain ⟨-, -, hdiv⟩ := element_pos hin
    intro member hm
    rw [membersAt, Nat.mod_eq_of_lt hlt] at hm
    obtain ⟨hlocated, hwell, hscalar⟩ := member_of_mem helement hc hlt member hm
    refine ⟨.element hlocated, hwell, fun hsize => ?_⟩
    rw [hscalar hsize, scalarAt, scalarAt, byteAt, if_pos hdiv, Nat.mod_eq_of_lt hlt]
  | struct name fields size, offset, hw, hc, _ => by
    intro member hm
    obtain ⟨⟨i, start, inner, field, hget, rfl, hlocated⟩, hwell, hscalar⟩ := memberAmong_of_mem hw hc member hm
    exact ⟨.field hget hlocated, hwell, hscalar⟩

theorem memberAmong_of_mem : ∀ {fields : StructFields} {start size offset : ℕ}, FieldsFrom start size fields →
    CanonicalAmong fields offset → ∀ member ∈ membersAmong fields offset, MemberAmong fields offset member
  | .nil, _, _, _, _, _ => fun _ hm => absurd hm List.not_mem_nil
  | .cons fieldOffset field rest, start, size, offset, hw, hc => by
    obtain ⟨-, hfield, hrest⟩ := id hw
    intro member hm
    rw [membersAmong] at hm
    split at hm
    · next hin =>
      obtain ⟨hlocated, hwell, hscalar⟩ :=
        member_of_mem hfield (hc.field hin.1.le hin.2) (by omega) member hm
      refine ⟨⟨0, fieldOffset, offset - fieldOffset, field, rfl, by omega, hlocated⟩, hwell, ?_⟩
      rw [byteAmong, if_neg (by omega), if_pos hin.2]
      exact hscalar
    · next hout =>
      split at hm
      · next heq =>
        subst heq
        rcases List.mem_cons.mp hm with rfl | hm
        · refine ⟨⟨0, fieldOffset, 0, member, rfl, rfl, .root member⟩, hfield, fun hsize => ?_⟩
          rw [byteAmong, if_neg (by omega), if_pos (by omega), Nat.sub_self, scalarAt]
        · have hsize : field.allocSize = 0 := by
            by_contra hpos
            rw [membersAmong_of_lt hrest (by omega)] at hm
            cases hm
          have hempty : ¬ (fieldOffset ≤ fieldOffset ∧ fieldOffset < fieldOffset + field.allocSize) := by omega
          exact (memberAmong_of_mem hrest (hc.rest hw hempty) member hm).rest (byteAmong_of_ge rest (by omega))
      · have hge : fieldOffset + field.allocSize ≤ offset := by
          by_contra hlt
          rw [membersAmong_of_lt hrest (by omega)] at hm
          cases hm
        exact (memberAmong_of_mem hrest (hc.rest hw (by omega)) member hm).rest (byteAmong_of_ge rest hge)
end

mutual
theorem membersAt_of_head : ∀ {type : LLVMType} {offset : ℕ} {first : LLVMType} {others : List LLVMType},
    type.WellFormed → type.membersAt offset = first :: others → first.allocSize ≠ 0 → others = []
  | scalar .., _, _, _, _, h, _ => by
    rw [membersAt] at h
    cases h
  | array _ element, _, _, _, hw, h, hsize => by
    have helement : element.WellFormed := hw
    rw [membersAt] at h
    exact membersAt_of_head helement h hsize
  | struct _ fields _, _, _, _, hw, h, hsize => by
    rw [membersAt] at h
    exact membersAmong_of_head hw h hsize

theorem membersAmong_of_head : ∀ {fields : StructFields} {start size offset : ℕ} {first : LLVMType}
    {others : List LLVMType}, FieldsFrom start size fields → membersAmong fields offset = first :: others →
    first.allocSize ≠ 0 → others = []
  | .nil, _, _, _, _, _, _, h, _ => by
    rw [membersAmong] at h
    cases h
  | .cons fieldOffset field rest, _, _, offset, _, _, ⟨_, hfield, hrest⟩, h, hsize => by
    rw [membersAmong] at h
    split at h
    · exact membersAt_of_head hfield h hsize
    · split at h
      · cases h
        exact membersAmong_of_lt hrest (by omega)
      · exact membersAmong_of_head hrest h hsize
end

lemma scalarAt_of_empty {type : LLVMType} (hw : type.WellFormed) (hz : type.allocSize = 0) (offset : ℕ) :
    type.scalarAt offset = none := by
  rw [scalarAt, byteAt_of_empty hw hz]
  rfl

lemma hasMember_iff {type : LLVMType} {offset : ℕ} (hw : type.WellFormed) (hne : offset ≠ 0)
    (hc : type.Canonical offset) (hm : ∀ member ∈ type.membersAt offset, Member type offset member) :
    (∃ found, type.getTypeAtOffset offset false = .ok (some found) ∧ type.LocatedAt offset found ∧
      found.scalarAt 0 = type.scalarAt offset) ↔ type.HasMember offset := by
  rw [getTypeAtOffset_eq hw hne hc, HasMember, or_iff_right hne]
  cases hmembers : type.membersAt offset with
  | nil =>
    constructor
    · rintro ⟨found, hfound, -⟩
      cases hfound
    · rintro ⟨hnil, -⟩
      exact absurd rfl hnil
  | cons first others =>
    obtain ⟨hlocated, hwell, hscalar⟩ := hm first (by rw [hmembers]; exact List.mem_cons_self)
    rw [List.head?_cons]
    constructor
    · rintro ⟨found, hfound, -, hsame⟩
      cases hfound
      refine ⟨List.cons_ne_nil _ _, fun hstart member hmember => ?_⟩
      have hsize : first.allocSize ≠ 0 := fun hz => hstart (by rw [← hsame, scalarAt_of_empty hwell hz])
      rw [membersAt_of_head hw hmembers hsize, List.mem_singleton] at hmember
      rwa [hmember]
    · rintro ⟨-, hsizes⟩
      refine ⟨first, rfl, hlocated, ?_⟩
      by_cases hsize : first.allocSize = 0
      · have hnone : type.scalarAt offset = none := by
          by_contra hstart
          exact hsizes hstart first List.mem_cons_self hsize
        rw [hnone, scalarAt_of_empty hwell hsize]
      · exact hscalar hsize

end LLVMType

open MemLayoutManager

section Layout

variable {layout : MemLayout} {type : LLVMType}

lemma startsAt_of_array {numElements pOffset : ℕ} {element : LLVMType}
    (hl : LayoutOf layout (.array numElements element)) (hm : Laid layout (.array numElements element))
    (hmarked : layout.MarksOffset pOffset) (hge : numElements * element.allocSize ≤ pOffset) : pOffset = 0 := by
  obtain ⟨lOffset, helement, hinside, hindex⟩ := hmarked
  obtain ⟨other, hother, hlost⟩ := hl.index_beyond hge
  rw [hindex] at hother
  obtain ⟨rfl, -⟩ := Prod.mk.inj (Option.some.inj hother)
  rcases hlost with hlost | hnone
  · exact absurd hlost hinside
  · have hzero : numElements * element.allocSize = 0 := by
      by_contra hp
      rw [MemLayout.hasArray, hm.arrays, LLVMType.arrays, if_neg hp] at hnone
      cases hnone
    rw [hm.elements, LLVMType.marks, if_pos hzero] at helement
    obtain rfl : lOffset = 0 := Finset.mem_singleton.mp helement
    rw [index_no_array hnone] at hindex
    exact (Prod.mk.inj (Option.some.inj hindex)).1

lemma canonical_of_marked (hw : type.WellFormed) (hl : LayoutOf layout type) {pOffset : ℕ}
    (hmarked : layout.MarksOffset pOffset) (hlt : pOffset < type.allocSize) : type.Canonical pOffset := by
  obtain ⟨lOffset, -, -, hindex⟩ := hmarked
  rw [hl.index hlt] at hindex
  have hfold : type.fold pOffset = pOffset := (Prod.mk.inj (Option.some.inj hindex)).2
  rw [← hfold]
  exact LLVMType.canonical_fold hw hlt

lemma members_of_marked (hw : type.WellFormed) (ha : type.isAggregateType) (hl : LayoutOf layout type)
    (hm : Laid layout type) {pOffset : ℕ} (hne : pOffset ≠ 0) (hmarked : layout.MarksOffset pOffset) :
    type.Canonical pOffset ∧ ∀ member ∈ type.membersAt pOffset, LLVMType.Member type pOffset member := by
  rcases Nat.lt_or_ge pOffset type.allocSize with hlt | hge
  · have hc := canonical_of_marked hw hl hmarked hlt
    exact ⟨hc, LLVMType.member_of_mem hw hc hlt⟩
  · cases type with
    | scalar pointer name size => cases ha
    | array numElements element => exact absurd (startsAt_of_array hl hm hmarked hge) hne
    | struct name fields size =>
      have hc : LLVMType.CanonicalAmong fields pOffset := LLVMType.canonicalAmong_of_ge hw hge
      refine ⟨hc, fun member hmember => ?_⟩
      obtain ⟨⟨i, start, inner, field, hget, rfl, hlocated⟩, hwell, hscalar⟩ :=
        LLVMType.memberAmong_of_mem hw hc member hmember
      exact ⟨.field hget hlocated, hwell, hscalar⟩

structure FieldAt (layout : MemLayout) (pOffset lOffset fieldNum : ℕ) : Prop where
  index : layout.indexPhysicalOffset pOffset = some (lOffset, pOffset)
  inside : lOffset ≠ unbounded
  field : layout.getLogicalOffset lOffset = some fieldNum

lemma sparseBits_eq {offsets : Finset ℕ} (hb : type.foldedSize < 2 ^ 31)
    (hle : ∀ lOffset ∈ offsets, lOffset ≤ type.foldedSize) : sparseBits offsets = offsets := by
  rw [sparseBits]
  conv_rhs => rw [← Finset.image_id (s := offsets)]
  refine Finset.image_congr fun lOffset hm => Nat.mod_eq_of_lt ?_
  have hlt := hle lOffset hm
  omega

lemma getLogicalOffset_of_mem (hb : type.foldedSize < 2 ^ 31) (hm : Laid layout type) {lOffset : ℕ}
    (helement : lOffset ∈ layout.elementLayout) : ∃ fieldNum, layout.getLogicalOffset lOffset = some fieldNum := by
  have hle : ∀ lOffset ∈ layout.elementLayout, lOffset ≤ type.foldedSize := hm.elements ▸ LLVMType.marks_le
  have hbits := sparseBits_eq hb hle
  refine ⟨_, MemLayout.getLogicalOffset_eq_some.mpr ⟨fun last hlast => ?_, ?_, rfl⟩⟩
  · rw [hbits] at hlast
    exact (hle last hlast).trans_lt hb
  · rw [hbits]
    exact helement

lemma exists_fieldAt (hb : type.foldedSize < 2 ^ 31) (hm : Laid layout type) {pOffset : ℕ}
    (hmarked : layout.MarksOffset pOffset) : ∃ lOffset fieldNum, FieldAt layout pOffset lOffset fieldNum := by
  obtain ⟨lOffset, helement, hinside, hindex⟩ := hmarked
  obtain ⟨fieldNum, hfield⟩ := getLogicalOffset_of_mem hb hm helement
  exact ⟨lOffset, fieldNum, hindex, hinside, hfield⟩

variable {pOffset lOffset fieldNum : ℕ} {fieldType : List (Option LLVMType)}

lemma FieldAt.zero (hw : type.WellFormed) (hl : LayoutOf layout type) (h : FieldAt layout 0 lOffset fieldNum) :
    lOffset = 0 ∧ fieldNum = 0 := by
  have hindex := h.index
  have hfield := h.field
  rw [index_zero_of_layoutOf hw hl] at hindex
  obtain ⟨rfl, -⟩ := Prod.mk.inj (Option.some.inj hindex)
  obtain ⟨-, -, hcount⟩ := MemLayout.getLogicalOffset_eq_some.mp hfield
  exact ⟨rfl, by simpa using hcount.symm⟩

lemma getOffsetType_kept (h : FieldAt layout pOffset lOffset fieldNum) {found : LLVMType}
    (hkept : fieldType[fieldNum]?.join = some found) :
    layout.getOffsetType fieldType pOffset = some (fieldType, some found) := by
  simp only [MemLayout.getOffsetType, h.index, Option.bind_eq_bind, Option.bind_some, h.field, hkept]

lemma getOffsetType_new (hw : type.WellFormed) (hl : LayoutOf layout type) (hm : Laid layout type)
    (h : FieldAt layout pOffset lOffset fieldNum) (hkept : fieldType[fieldNum]?.join = none) {found : LLVMType}
    (hfound : type.getTypeAtOffset pOffset false = .ok (some found)) :
    layout.getOffsetType fieldType pOffset = some (fieldType.set fieldNum (some found), some found) := by
  simp only [MemLayout.getOffsetType, h.index, Option.bind_eq_bind, Option.bind_some, h.field, hkept, hm.typed]
  by_cases hz : pOffset = 0
  · subst hz
    obtain ⟨rfl, rfl⟩ := h.zero hw hl
    rw [LLVMType.getTypeAtOffset_zero] at hfound
    cases hfound
    rfl
  · rw [if_neg hz, hfound]

lemma getOffsetType_null (hm : Laid layout type) (h : FieldAt layout pOffset lOffset fieldNum)
    (hkept : fieldType[fieldNum]?.join = none)
    (hnull : ∀ found, type.getTypeAtOffset pOffset false ≠ .ok (some found)) :
    layout.getOffsetType fieldType pOffset = none := by
  have hne : pOffset ≠ 0 := fun hz => hnull type (by rw [hz, LLVMType.getTypeAtOffset_zero])
  simp only [MemLayout.getOffsetType, h.index, Option.bind_eq_bind, Option.bind_some, h.field, hkept, hm.typed]
  rw [if_neg hne]

lemma FieldAt.unique (hw : type.WellFormed) (hl : LayoutOf layout type) {pOffset' lOffset' : ℕ}
    (h : FieldAt layout pOffset lOffset fieldNum) (h' : FieldAt layout pOffset' lOffset' fieldNum) :
    pOffset = pOffset' := by
  obtain rfl := MemLayout.getLogicalOffset_inj h.field h'.field
  exact injective_of_layoutOf hw hl h.index h'.index h.inside

theorem TypesKept.found (hw : type.WellFormed) (hb : type.foldedSize < 2 ^ 31) (hl : LayoutOf layout type)
    (hm : Laid layout type)
    (h : TypesKept layout fieldType) : ∀ {fieldNum found}, fieldType[fieldNum]?.join = some found →
    ∃ pOffset lOffset, FieldAt layout pOffset lOffset fieldNum ∧
      type.getTypeAtOffset pOffset false = .ok (some found) := by
  induction h with
  | create =>
    intro fieldNum found hkept
    have hnone : ∀ room, (List.replicate room (none : Option LLVMType))[fieldNum]?.join = none := by
      intro room
      rw [List.getElem?_replicate]
      split
      · rfl
      · rfl
    rw [hnone] at hkept
    cases hkept
  | @get fieldType fieldType' pOffset answer hreached hmarked heq ih =>
    intro other found hkept
    obtain ⟨lOffset, fieldNum, hfield⟩ := exists_fieldAt hb hm hmarked
    cases hold : fieldType[fieldNum]?.join with
    | some known =>
      rw [getOffsetType_kept hfield hold] at heq
      cases heq
      exact ih hkept
    | none =>
      by_cases hnull : ∃ new, type.getTypeAtOffset pOffset false = .ok (some new)
      · obtain ⟨new, hnew⟩ := hnull
        rw [getOffsetType_new hw hl hm hfield hold hnew] at heq
        cases heq
        rw [List.getElem?_set] at hkept
        split at hkept
        · next hsame =>
          split at hkept
          · subst hsame
            cases hkept
            exact ⟨pOffset, lOffset, hfield, hnew⟩
          · cases hkept
        · exact ih hkept
      · rw [getOffsetType_null hm hfield hold (not_exists.mp hnull)] at heq
        cases heq

lemma getOffsetType_found (hw : type.WellFormed) (hb : type.foldedSize < 2 ^ 31) (hl : LayoutOf layout type)
    (hm : Laid layout type) (h : TypesKept layout fieldType) (hmarked : layout.MarksOffset pOffset) {found : LLVMType}
    (hfound : type.getTypeAtOffset pOffset false = .ok (some found)) :
    (layout.getOffsetType fieldType pOffset).map Prod.snd = some (some found) := by
  obtain ⟨lOffset, fieldNum, hfield⟩ := exists_fieldAt hb hm hmarked
  cases hold : fieldType[fieldNum]?.join with
  | some known =>
    obtain ⟨pOffset', lOffset', hfield', hknown⟩ := h.found hw hb hl hm hold
    obtain rfl := hfield.unique hw hl hfield'
    rw [hfound] at hknown
    cases hknown
    rw [getOffsetType_kept hfield hold]
    rfl
  | none =>
    rw [getOffsetType_new hw hl hm hfield hold hfound]
    rfl

lemma typedAt_iff (hw : type.WellFormed) (hb : type.foldedSize < 2 ^ 31) (ha : type.isAggregateType)
    (hl : LayoutOf layout type) (hm : Laid layout type) (hmarked : layout.MarksOffset pOffset) :
    layout.TypedAt type pOffset ↔ type.HasMember pOffset := by
  have hfound : layout.TypedAt type pOffset ↔ ∃ found, type.getTypeAtOffset pOffset false = .ok (some found) ∧
      type.LocatedAt pOffset found ∧ found.scalarAt 0 = type.scalarAt pOffset := by
    constructor
    · rintro ⟨found, heq, hlocated, hscalar, -⟩
      exact ⟨found, heq, hlocated, hscalar⟩
    · rintro ⟨found, heq, hlocated, hscalar⟩
      exact ⟨found, heq, hlocated, hscalar, fun fieldType h => getOffsetType_found hw hb hl hm h hmarked heq⟩
  rw [hfound]
  rcases Nat.eq_zero_or_pos pOffset with rfl | hpos
  · exact iff_of_true ⟨type, LLVMType.getTypeAtOffset_zero type, .root type, rfl⟩ (.inl rfl)
  · obtain ⟨hc, hmembers⟩ := members_of_marked hw ha hl hm hpos.ne' hmarked
    exact LLVMType.hasMember_iff hw hpos.ne' hc hmembers

end Layout

/-- The offsets that can be indexed have their types where the innermost struct has an element of theirs. -/
theorem getLayouts_typedAt_iff (requests : List IndexedType) :
    ∃ layouts, getLayouts (requests.map (·.type)) [] = some layouts ∧
      List.Forall₂ (fun layout request => ∀ pOffset, layout.MarksOffset pOffset →
        (layout.TypedAt request.type pOffset ↔ request.type.HasMember pOffset)) layouts requests := by
  obtain ⟨layouts, heq, hall⟩ :=
    getLayouts_laid (requests.map IndexedType.toAggregateType) known_nil allLaid_nil
  rw [List.map_map] at heq
  refine ⟨layouts, heq, (List.forall₂_map_right_iff.mp hall).imp ?_⟩
  intro layout request ⟨hl, hm⟩ pOffset hmarked
  exact typedAt_iff request.wellFormed request.indexed request.aggregate hl hm hmarked

/-- `{i32, {}, i32}` and `{{i32, [0 x i32]}, i64}`: an element without size is taken for the second word,
and the end of the inner struct has no type. -/
theorem emptyMembers_not_typed :
    let word := LLVMType.scalar false "i32" 4
    let between := LLVMType.struct "between" (.cons 0 word (.cons 4 (.struct "empty" .nil 0) (.cons 4 word .nil))) 8
    let header := LLVMType.struct "header" (.cons 0 word (.cons 4 (.array 0 word) .nil)) 4
    let behind := LLVMType.struct "behind" (.cons 0 header (.cons 8 (.scalar false "i64" 8) .nil)) 16
    ∃ layout layout', getLayouts [between, behind] [] = some [layout, layout'] ∧
      (layout.MarksOffset 4 ∧ ¬ layout.TypedAt between 4) ∧ layout'.MarksOffset 4 ∧ ¬ layout'.TypedAt behind 4 := by
  refine ⟨_, _, rfl, ⟨⟨4, by decide, by decide, rfl⟩, ?_⟩, ⟨4, by decide, by decide, rfl⟩, ?_⟩
  · rintro ⟨found, hfound, -, hscalar, -⟩
    cases hfound
    exact absurd hscalar (by decide)
  · rintro ⟨found, hfound, -⟩
    cases hfound

end OpenRace
