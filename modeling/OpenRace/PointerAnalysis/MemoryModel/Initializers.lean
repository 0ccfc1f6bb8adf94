import OpenRace.LLVM.DataLayout
import OpenRace.PointerAnalysis.MemoryModel.CanonicalValues
import Mathlib.Algebra.Ring.Nat

/-! The walk over the initializer of a global, which points the pointers in it to what they are
initialized with. -/

namespace OpenRace

open LLVM PointerValue FSCanonicalizer

mutual
/-- Constants with the types of a data layout. `nullValue` and `undef` stand for aggregates as well. -/
inductive Initializer
  | nullValue (type : LLVMType)
  | undef (type : LLVMType)
  | scalar (name : String) (size : ℕ)
  | pointer (value : PointerValue)
  | blockAddress (addressSpace : ℕ)
  | dataArray (numElements : ℕ) (element : LLVMType)
  | array (element : LLVMType) (elements : InitElements)
  | struct (name : String) (fields : InitFields) (size : ℕ)

inductive InitElements
  | nil
  | cons (element : Initializer) (rest : InitElements)

inductive InitFields
  | nil
  | cons (offset : ℕ) (field : Initializer) (rest : InitFields)
end

section Types

variable (pointerSize : ℕ → ℕ)

def InitElements.length : InitElements → ℕ
  | nil => 0
  | cons _ rest => rest.length + 1

mutual
def Initializer.type : Initializer → LLVMType
  | .nullValue type => type
  | .undef type => type
  | .scalar name size => .scalar false name size
  | .pointer value => .scalar true value.type.pointee (pointerSize value.type.addressSpace)
  | .blockAddress addressSpace => .scalar true "i8" (pointerSize addressSpace)
  | .dataArray numElements element => .array numElements element
  | .array element elements => .array elements.length element
  | .struct name fields size => .struct name fields.types size

def InitFields.types : InitFields → StructFields
  | .nil => .nil
  | .cons offset field rest => .cons offset field.type rest.types
end

def InitFields.stop : InitFields → ℕ → ℕ
  | .nil, stop => stop
  | .cons offset field rest, _ => rest.stop (offset + (field.type pointerSize).allocSize)

mutual
def Initializer.Typed : Initializer → Prop
  | .array element elements => elements.Typed element
  | .struct _ fields _ => fields.Typed
  | _ => True

def InitElements.Typed (type : LLVMType) : InitElements → Prop
  | .nil => True
  | .cons element rest => element.Typed ∧ element.type pointerSize = type ∧ rest.Typed type

def InitFields.Typed : InitFields → Prop
  | .nil => True
  | .cons _ field rest => field.Typed ∧ rest.Typed
end

/-- `StructLayout::hasPadding`, between the elements or behind the last one. -/
def hasPadding (size : ℕ) : StructFields → ℕ → Bool
  | .nil, stop => stop != size
  | .cons offset field rest, stop => offset != stop || hasPadding size rest (offset + field.allocSize)

end Types

/-- What the walk reads of the module and of the blocks that are allocated. An object of a block is
known by its node. -/
structure GlobalBlocks where
  useFIMode : Bool := false
  pointerSize : ℕ → ℕ
  stripAndAccumulateConstantOffsets : PointerValue → PointerValue × ℤ
  memBlockMap : PointerValue → Option (ℕ → Option ℕ)

structure InitVisit where
  offset : ℕ
  value : PointerValue
  objNode : Option ℕ
deriving DecidableEq

structure InitWalk where
  offset : ℕ
  visited : List InitVisit := []
deriving DecidableEq

section Walk

variable (m : GlobalBlocks)

def getMemBlock (value : PointerValue) : Except String (ℕ → Option ℕ) :=
  match m.memBlockMap value with
  | some block => .ok block
  | none => .error "can not find the memory block"

def stripAliases : PointerValue → PointerValue
  | globalAlias _ aliasee _ => stripAliases aliasee
  | value => value

def initialValue (value : PointerValue) : PointerValue := canonicalize m.useFIMode (stripAliases value)

/-- None where nothing is known to be pointed to. -/
def targetNode : PointerValue → Except String (Option ℕ)
  | getElementPtr inst pointer indices type =>
    let (baseValue, extVal) := m.stripAndAccumulateConstantOffsets (getElementPtr inst pointer indices type)
    if extVal < 0 then .error "extVal >= 0"
    else do
      let block ← getMemBlock m baseValue
      return block (extVal.toNat % 2 ^ 32)
  | bitCast none operand _ => do
    let block ← getMemBlock m operand
    return block 0
  | addrSpaceCast none _ _ => .ok none
  | intToPtr none _ _ => .ok none
  | intToPtrOfPtrToInt none _ _ => .ok none
  | C => do
    let block ← getMemBlock m C
    return block 0

def advance (st : InitWalk) (size : ℕ) : InitWalk := { st with offset := (st.offset + size) % 2 ^ 64 }

def processScalarGlobals (C : Initializer) (st : InitWalk) : Except String InitWalk :=
  match C with
  | .pointer value => do
    let objNode ← targetNode m (initialValue m value)
    return advance ⟨st.offset, st.visited ++ [⟨st.offset, value, objNode⟩]⟩
      (m.pointerSize (initialValue m value).type.addressSpace)
  | C => .ok (advance st (C.type m.pointerSize).allocSize)

def addPadding (padded : Bool) (initOffset elementOffset : ℕ) (st : InitWalk) : Except String InitWalk :=
  if padded then
    if st.offset < initOffset then .error "offset >= initOffset"
    else .ok (advance st ((2 ^ 64 + elementOffset - (st.offset - initOffset)) % 2 ^ 64))
  else .ok st

mutual
/-- With `processAggregateGlobals`, whose loop over the operands is one of the next two. -/
def processInitializer : Initializer → InitWalk → Except String InitWalk
  | .nullValue type, st => .ok (advance st type.allocSize)
  | .undef type, st => .ok (advance st type.allocSize)
  | .scalar name size, st => processScalarGlobals m (.scalar name size) st
  | .pointer value, st => processScalarGlobals m (.pointer value) st
  | .blockAddress addressSpace, st => processScalarGlobals m (.blockAddress addressSpace) st
  | .dataArray numElements element, st => .ok (advance st (numElements * element.allocSize))
  | .array _ elements, st => processElements elements st
  | .struct _ fields size, st => do
    let st' ← processFields (hasPadding size (fields.types m.pointerSize) 0) st.offset fields st
    return advance ⟨st.offset, st'.visited⟩ size

def processElements : InitElements → InitWalk → Except String InitWalk
  | .nil, st => .ok st
  | .cons element rest, st => do
    let st' ← processInitializer element st
    processElements rest st'

def processFields (padded : Bool) (initOffset : ℕ) : InitFields → InitWalk → Except String InitWalk
  | .nil, st => .ok st
  | .cons offset field rest, st => do
    let st ← addPadding padded initOffset offset st
    let st' ← processInitializer field st
    processFields padded initOffset rest st'
end

end Walk

inductive PointerLeaf
  | constant (value : PointerValue)
  | undef
  | blockAddress
deriving DecidableEq

section Leaves

variable (pointerSize : ℕ → ℕ)

mutual
/-- The leaves of pointer type that are not null, where the data layout has them in an object at `start`. -/
def pointerLeaves : Initializer → ℕ → List (ℕ × PointerLeaf)
  | .undef (.scalar true _ _), start => [(start, .undef)]
  | .pointer value, start => [(start, .constant value)]
  | .blockAddress _, start => [(start, .blockAddress)]
  | .array element elements, start => elementLeaves element.allocSize elements start
  | .struct _ fields _, start => fieldLeaves fields start
  | _, _ => []

def elementLeaves (size : ℕ) : InitElements → ℕ → List (ℕ × PointerLeaf)
  | .nil, _ => []
  | .cons element rest, start => pointerLeaves element start ++ elementLeaves size rest (start + size)

def fieldLeaves : InitFields → ℕ → List (ℕ × PointerLeaf)
  | .nil, _ => []
  | .cons offset field rest, start => pointerLeaves field (start + offset) ++ fieldLeaves rest start
end

def pointerConstant : ℕ × PointerLeaf → Option (ℕ × PointerValue)
  | (offset, .constant value) => some (offset, value)
  | _ => none

end Leaves

section Correctness

variable (m : GlobalBlocks)

/-- The constant has its size also in canonical form, and what it points to has a block. -/
def HandledConstant (value : PointerValue) : Prop :=
  m.pointerSize (initialValue m value).type.addressSpace = m.pointerSize value.type.addressSpace ∧
    ∃ objNode, targetNode m (initialValue m value) = .ok objNode

def HandledLeaves (leaves : List (ℕ × PointerLeaf)) : Prop :=
  ∀ visit ∈ leaves.filterMap pointerConstant, HandledConstant m visit.2

structure Walked (result : Except String InitWalk) (visited : List InitVisit) (offset : ℕ)
    (leaves : List (ℕ × PointerLeaf)) : Prop where
  returned : ∃ visits, result = .ok ⟨offset, visited ++ visits⟩ ∧
    visits.map (fun visit => (visit.offset, visit.value)) = leaves.filterMap pointerConstant

variable {m}

lemma walked_advance {st : InitWalk} {size : ℕ} {leaves : List (ℕ × PointerLeaf)} (hbound : st.offset + size < 2 ^ 64)
    (h : leaves.filterMap pointerConstant = []) :
    Walked (.ok (advance st size)) st.visited (st.offset + size) leaves := by
  refine ⟨[], ?_, by rw [h]; rfl⟩
  rw [advance, Nat.mod_eq_of_lt hbound, List.append_nil]

lemma Walked.bind {first : Except String InitWalk} {next : InitWalk → Except String InitWalk}
    {visited : List InitVisit} {offset stop : ℕ} {leaves rest : List (ℕ × PointerLeaf)}
    (h : Walked first visited offset leaves) (hnext : ∀ visited, Walked (next ⟨offset, visited⟩) visited stop rest) :
    Walked (first >>= next) visited stop (leaves ++ rest) := by
  obtain ⟨visits, rfl, hvisits⟩ := h.returned
  obtain ⟨more, hmore, hrest⟩ := (hnext (visited ++ visits)).returned
  refine ⟨visits ++ more, ?_, by rw [List.map_append, List.filterMap_append, hvisits, hrest]⟩
  rw [List.append_assoc] at hmore
  exact hmore

lemma HandledLeaves.append {leaves rest : List (ℕ × PointerLeaf)} (h : HandledLeaves m (leaves ++ rest)) :
    HandledLeaves m leaves ∧ HandledLeaves m rest := by
  rw [HandledLeaves, List.filterMap_append] at h
  exact ⟨fun visit hmem => h visit (List.mem_append_left _ hmem),
    fun visit hmem => h visit (List.mem_append_right _ hmem)⟩

lemma pointerLeaves_undef (type : LLVMType) (start : ℕ) :
    (pointerLeaves (.undef type) start).filterMap pointerConstant = [] := by
  rcases type with ⟨pointer, _, _⟩ | _ | _
  · cases pointer <;> rfl
  · rfl
  · rfl

lemma processPointer_walked {value : PointerValue} (h : HandledConstant m value) {st : InitWalk}
    (hbound : st.offset + m.pointerSize value.type.addressSpace < 2 ^ 64) :
    Walked (processScalarGlobals m (.pointer value) st) st.visited (st.offset + m.pointerSize value.type.addressSpace)
      [(st.offset, .constant value)] := by
  obtain ⟨hsize, objNode, htarget⟩ := h
  refine ⟨[⟨st.offset, value, objNode⟩], ?_, rfl⟩
  rw [processScalarGlobals, htarget, hsize]
  exact congrArg Except.ok (congrArg (InitWalk.mk · _) (Nat.mod_eq_of_lt hbound))

lemma addPadding_eq {padded : Bool} {initOffset elementOffset stop : ℕ} {st : InitWalk} (hle : stop ≤ elementOffset)
    (hst : st.offset = initOffset + stop) (hbound : initOffset + elementOffset < 2 ^ 64)
    (hpadded : padded ∨ elementOffset = stop) :
    addPadding padded initOffset elementOffset st = .ok ⟨initOffset + elementOffset, st.visited⟩ := by
  unfold addPadding
  cases padded with
  | false =>
    obtain rfl : elementOffset = stop := by simpa using hpadded
    rw [if_neg Bool.false_ne_true, ← hst]
  | true =>
    have hpadding : (2 ^ 64 + elementOffset - (st.offset - initOffset)) % 2 ^ 64 = elementOffset - stop := by omega
    rw [if_pos rfl, if_neg (by omega), hpadding, advance]
    congr 2
    omega

mutual
theorem processInitializer_walked : ∀ (C : Initializer) (st : InitWalk), C.Typed m.pointerSize →
    (C.type m.pointerSize).WellFormed → st.offset + (C.type m.pointerSize).allocSize < 2 ^ 64 →
    HandledLeaves m (pointerLeaves C st.offset) →
    Walked (processInitializer m C st) st.visited (st.offset + (C.type m.pointerSize).allocSize)
      (pointerLeaves C st.offset)
  | .nullValue type, st, _, _, hbound, _ => walked_advance hbound rfl
  | .undef type, st, _, _, hbound, _ => walked_advance hbound (pointerLeaves_undef type st.offset)
  | .scalar name size, st, _, _, hbound, _ => walked_advance hbound rfl
  | .pointer value, st, _, _, hbound, hleaves =>
    processPointer_walked (hleaves (st.offset, value) (List.mem_singleton_self _)) hbound
  | .blockAddress addressSpace, st, _, _, hbound, _ => walked_advance hbound rfl
  | .dataArray numElements element, st, _, _, hbound, _ => walked_advance hbound rfl
  | .array element elements, st, htyped, hw, hbound, hleaves =>
    processElements_walked elements element st htyped hw hbound hleaves
  | .struct name fields size, st, htyped, hw, hbound, hleaves => by
    have hfields := processFields_walked fields size (hasPadding size (fields.types m.pointerSize) 0) st.offset 0 st
      htyped hw hbound (.inr rfl) rfl hleaves
    obtain ⟨visits, hresult, hvisits⟩ := hfields.returned
    refine ⟨visits, ?_, hvisits⟩
    rw [processInitializer, hresult]
    exact congrArg Except.ok (congrArg (InitWalk.mk · _) (Nat.mod_eq_of_lt hbound))

theorem processElements_walked : ∀ (elements : InitElements) (element : LLVMType) (st : InitWalk),
    elements.Typed m.pointerSize element → element.WellFormed →
    st.offset + elements.length * element.allocSize < 2 ^ 64 →
    HandledLeaves m (elementLeaves element.allocSize elements st.offset) →
    Walked (processElements m elements st) st.visited (st.offset + elements.length * element.allocSize)
      (elementLeaves element.allocSize elements st.offset)
  | .nil, element, st, _, _, _, _ => ⟨[], by simp [processElements, InitElements.length], rfl⟩
  | .cons first rest, element, st, ⟨hfirst, htype, hrest⟩, hw, hbound, hleaves => by
    have hsize : (InitElements.cons first rest).length * element.allocSize =
        element.allocSize + rest.length * element.allocSize := by
      rw [InitElements.length, Nat.add_mul, Nat.one_mul, Nat.add_comm]
    obtain ⟨hhead, htail⟩ := hleaves.append
    rw [hsize] at hbound ⊢
    have hwalked := processInitializer_walked first st hfirst (htype ▸ hw) (by rw [htype]; omega) hhead
    rw [htype] at hwalked
    rw [← Nat.add_assoc]
    apply hwalked.bind
    intro visited
    exact processElements_walked rest element ⟨st.offset + element.allocSize, visited⟩ hrest hw
      (by simp only; omega) htail

theorem processFields_walked : ∀ (fields : InitFields) (size : ℕ) (padded : Bool) (initOffset stop : ℕ)
    (st : InitWalk),
    fields.Typed m.pointerSize → LLVMType.FieldsFrom stop size (fields.types m.pointerSize) →
    initOffset + size < 2 ^ 64 → padded ∨ padded = hasPadding size (fields.types m.pointerSize) stop →
    st.offset = initOffset + stop → HandledLeaves m (fieldLeaves fields initOffset) →
    Walked (processFields m padded initOffset fields st) st.visited (initOffset + fields.stop m.pointerSize stop)
      (fieldLeaves fields initOffset)
  | .nil, size, padded, initOffset, stop, st, _, _, _, _, hst, _ =>
    ⟨[], by simp [processFields, InitFields.stop, ← hst], rfl⟩
  | .cons offset field rest, size, padded, initOffset, stop, st, ⟨hfield, hrest⟩, ⟨hstop, hw, hwrest⟩, hbound, hpadded,
      hst, hleaves => by
    obtain ⟨hhead, htail⟩ := hleaves.append
    have hend := LLVMType.le_of_fieldsFrom hwrest
    have hstart : padded ∨ offset = stop := by
      rcases hpadded with hpadded | hpadded
      · exact .inl hpadded
      · cases padded with
        | true => exact .inl rfl
        | false =>
          rw [InitFields.types, hasPadding, eq_comm, Bool.or_eq_false_iff] at hpadded
          exact .inr (by simpa using hpadded.1)
    have hnext : padded ∨ padded = hasPadding size (rest.types m.pointerSize)
        (offset + (field.type m.pointerSize).allocSize) := by
      rcases hpadded with hpadded | hpadded
      · exact .inl hpadded
      · cases padded with
        | true => exact .inl rfl
        | false =>
          rw [InitFields.types, hasPadding, eq_comm, Bool.or_eq_false_iff] at hpadded
          exact .inr hpadded.2.symm
    have hwalked := processInitializer_walked field ⟨initOffset + offset, st.visited⟩ hfield hw
      (by simp only; omega) hhead
    rw [processFields, addPadding_eq hstop hst (by omega) hstart]
    apply hwalked.bind
    intro visited
    exact processFields_walked rest size padded initOffset (offset + (field.type m.pointerSize).allocSize)
      ⟨initOffset + offset + (field.type m.pointerSize).allocSize, visited⟩ hrest hwrest hbound hnext
      (Nat.add_assoc ..) htail
end

/-- The walk over a constant visits the pointer constants in it where the data layout has them, each
once and in order, and leaves the offset behind the constant. -/
theorem processInitializer_visits (C : Initializer) (st : InitWalk) (htyped : C.Typed m.pointerSize)
    (hw : (C.type m.pointerSize).WellFormed) (hbound : st.offset + (C.type m.pointerSize).allocSize < 2 ^ 64)
    (hleaves : HandledLeaves m (pointerLeaves C st.offset)) :
    ∃ visits, processInitializer m C st =
        .ok ⟨st.offset + (C.type m.pointerSize).allocSize, st.visited ++ visits⟩ ∧
      visits.map (fun visit => (visit.offset, visit.value)) = (pointerLeaves C st.offset).filterMap pointerConstant :=
  (processInitializer_walked C st htyped hw hbound hleaves).returned

end Correctness

section Examples

/-- A module with two address spaces, of pointers with eight and with four bytes, and a block for each global. -/
def twoSpaces : GlobalBlocks where
  pointerSize
    | 0 => 8
    | _ => 4
  stripAndAccumulateConstantOffsets
    | getElementPtr _ pointer [.constantInt index] _ => (pointer, index)
    | value => (value, 0)
  memBlockMap
    | globalObject _ _ => some fun _ => some 0
    | _ => none

def globalByte (name : String) : PointerValue := globalObject name .int8Ptr

/-- `{ i8, [2 x i8*] } { i8 1, [2 x i8*] [i8* @a, i8* null] }`. -/
def pointerInArray : Initializer :=
  .struct "" (.cons 0 (.scalar "i8" 1) (.cons 8 (.array (.scalar true "i8" 8)
    (.cons (.pointer (globalByte "a")) (.cons (.nullValue (.scalar true "i8" 8)) .nil))) .nil)) 24

lemma initialValue_globalByte (name : String) : initialValue twoSpaces (globalByte name) = globalByte name := by
  have hcanonical : IsCanonical (globalByte name) := ⟨rfl, rfl, rfl, rfl⟩
  exact hcanonical.loop

lemma handled_globalByte (name : String) : HandledConstant twoSpaces (globalByte name) := by
  rw [HandledConstant, initialValue_globalByte]
  exact ⟨rfl, some 0, rfl⟩

theorem processInitializer_visits_pointerInArray :
    ∃ visits, processInitializer twoSpaces pointerInArray ⟨0, []⟩ = .ok ⟨24, [] ++ visits⟩ ∧
      visits.map (fun visit => (visit.offset, visit.value)) = [(8, globalByte "a")] := by
  refine processInitializer_visits pointerInArray ⟨0, []⟩ ?_ ?_ ?_ ?_
  · exact ⟨trivial, ⟨trivial, rfl, trivial, rfl, trivial⟩, trivial⟩
  · simp [pointerInArray, Initializer.type, InitFields.types, LLVMType.WellFormed, LLVMType.FieldsFrom,
      LLVMType.allocSize, InitElements.length]
  · decide
  · intro visit hvisit
    obtain rfl := List.mem_singleton.mp hvisit
    exact handled_globalByte "a"

/-- `<{ i8 addrspace(1)*, i8* }> <{ i8 addrspace(1)* addrspacecast (i8* @a to i8 addrspace(1)*), i8* @b }>`. -/
def castInStruct : Initializer :=
  .struct "" (.cons 0 (.pointer (addrSpaceCast none (globalByte "a") ⟨"i8", 1⟩))
    (.cons 4 (.pointer (globalByte "b")) .nil)) 12

lemma initialValue_cast (name : String) (type : PointerType) :
    initialValue twoSpaces (addrSpaceCast none (globalByte name) type) = globalByte name := by
  refine Eq.trans ?_ (initialValue_globalByte name)
  exact loop_congr rfl

lemma initialValue_before (name : String) :
    initialValue twoSpaces (getElementPtr none (globalByte name) [.constantInt (-1)] .int8Ptr) =
      getElementPtr none (globalByte name) [.constantInt (-1)] .int8Ptr := by
  have hcanonical : IsCanonical (getElementPtr none (globalByte name) [.constantInt (-1)] .int8Ptr) :=
    ⟨rfl, rfl, rfl, rfl⟩
  exact hcanonical.loop

/-- A block address is left out, and a pointer before its block stops the walk. A cast between
pointers of different sizes shifts what follows. -/
theorem initializers_not_visited :
    (pointerLeaves (.blockAddress 0) 0 = [(0, .blockAddress)] ∧
      processInitializer twoSpaces (.blockAddress 0) ⟨0, []⟩ = .ok ⟨8, []⟩) ∧
    processInitializer twoSpaces (.pointer (getElementPtr none (globalByte "a") [.constantInt (-1)] .int8Ptr)) ⟨0, []⟩ =
      .error "extVal >= 0" ∧
    (pointerLeaves castInStruct 0).map Prod.fst = [0, 4] ∧
      ∃ visits, processInitializer twoSpaces castInStruct ⟨0, []⟩ = .ok ⟨12, visits⟩ ∧
        visits.map InitVisit.offset = [0, 8] := by
  refine ⟨⟨rfl, rfl⟩, ?_, rfl, ?_⟩
  · rw [processInitializer, processScalarGlobals, initialValue_before]
    rfl
  · refine ⟨[⟨0, addrSpaceCast none (globalByte "a") ⟨"i8", 1⟩, some 0⟩, ⟨8, globalByte "b", some 0⟩], ?_, rfl⟩
    simp only [castInStruct, processInitializer, processFields, processScalarGlobals, initialValue_cast,
      initialValue_globalByte]
    rfl

end Examples

end OpenRace
