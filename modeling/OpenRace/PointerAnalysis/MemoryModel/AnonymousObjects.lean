import OpenRace.Library.Failure
import Mathlib.Data.List.Infix
import Mathlib.Algebra.Ring.Nat
import Mathlib.Data.Fin.Basic

/-! Anonymous objects for what the arguments of an entry point may point to, allocated along the
pointers of their types. -/

namespace OpenRace

open Library

mutual
/-- Types over the `n` types that pointers lead to. A struct holds its elements by value; those of an
opaque one are not known. -/
inductive GraphType (n : ℕ)
  | primitive (name : String)
  | unsized (name : String)
  | pointer (pointee : Fin n)
  | array (numElements : ℕ) (element : GraphType n)
  | opaqueStruct (name : String)
  | struct (name : Option String) (isPacked : Bool) (elements : GraphElements n)
deriving DecidableEq

inductive GraphElements (n : ℕ)
  | nil
  | cons (offset : ℕ) (element : GraphType n) (rest : GraphElements n)
deriving DecidableEq
end

variable {n : ℕ}

section Types

mutual
def GraphType.isSized : GraphType n → Bool
  | .primitive _ => true
  | .unsized _ => false
  | .pointer _ => true
  | .array _ element => element.isSized
  | .opaqueStruct _ => false
  | .struct _ _ elements => elements.areSized

def GraphElements.areSized : GraphElements n → Bool
  | .nil => true
  | .cons _ element rest => element.isSized && rest.areSized
end

def stripArray : GraphType n → GraphType n
  | .array _ element => stripArray element
  | type => type

/-- Everything but `void`, labels, functions and the like. -/
def GraphType.isValidElementType : GraphType n → Bool
  | .unsized _ => false
  | _ => true

def getBoundedArrayTy (elemType : GraphType n) (num : ℕ) : Option (GraphType n) :=
  if elemType.isValidElementType then some (.array num elemType) else none

/-- The element type of a last element without length. -/
def isStructWithFlexibleArray : GraphElements n → Option (GraphType n)
  | .nil => none
  | .cons _ (.array 0 element) .nil => some element
  | .cons _ _ rest => isStructWithFlexibleArray rest

mutual
def getUnboundedArrayTy : GraphType n → Option (GraphType n)
  | .struct name isPacked elements =>
    if (isStructWithFlexibleArray elements).isSome then
      (getConvertedFlexibleArrayType elements).map (.struct none isPacked)
    else getBoundedArrayTy (.struct name isPacked elements) (2 ^ 32 - 1)
  | .array num element => getBoundedArrayTy (.array num element) (2 ^ 32 - 1)
  | .primitive name => getBoundedArrayTy (.primitive name) (2 ^ 32 - 1)
  | .unsized name => getBoundedArrayTy (.unsized name) (2 ^ 32 - 1)
  | .pointer pointee => getBoundedArrayTy (.pointer pointee) (2 ^ 32 - 1)
  | .opaqueStruct name => getBoundedArrayTy (.opaqueStruct name) (2 ^ 32 - 1)

/-- The elements of the converted struct, whose last one is unbounded. -/
def getConvertedFlexibleArrayType : GraphElements n → Option (GraphElements n)
  | .nil => none
  | .cons offset (.array _ element) .nil => (getUnboundedArrayTy element).map (.cons offset · .nil)
  | .cons _ _ .nil => none
  | .cons offset element (.cons offset' element' rest) =>
    (getConvertedFlexibleArrayType (.cons offset' element' rest)).map (.cons offset element)
end

end Types

/-- The pointees, the two limits, and what other parts of the memory model answer: whether a type or its object is
special, and which of its objects the block of a type has for a pointer at an offset. -/
structure AnonModel (n : ℕ) where
  pointeeType : Fin n → GraphType n
  recLimit : ℕ
  depthLimit : ℕ
  isSpecialType : GraphType n → Bool
  isSpecialObject : GraphType n → Bool
  getPtrObjectAt : GraphType n → ℕ → Option ℕ

inductive AnonFailure where
  | outOfFuel
  /-- `assert(offset == 0)` for an object that has a node. -/
  | nodeAwayFromStart
deriving DecidableEq

structure AnonBlock (n : ℕ) where
  type : GraphType n
  /-- The objects that have a node. -/
  nodes : List ℕ
deriving DecidableEq

/-- Blocks are numbered in the order of allocation. A constraint has the child, which is pointed to, the block of the
parent and the object in it. -/
structure AnonState (n : ℕ) where
  typeTree : List (GraphType n) := []
  allocatedCount : ℕ := 0
  blocks : List (AnonBlock n) := []
  addrOf : List (ℕ × ℕ × ℕ) := []
  /-- Each expanded type, with the path it is expanded on. -/
  expansions : List (List (GraphType n) × GraphType n) := []
deriving DecidableEq

namespace AnonState

/-- The first object of a block has a node at once. -/
def allocate (st : AnonState n) (type : GraphType n) : ℕ × AnonState n :=
  (st.blocks.length, { st with blocks := st.blocks ++ [⟨type, [0]⟩] })

def push (st : AnonState n) (type : GraphType n) : AnonState n :=
  { st with
    typeTree := st.typeTree ++ [type]
    expansions := st.expansions ++ [(st.typeTree, type)]
    allocatedCount := (st.allocatedCount + 1) % 2 ^ 32 }

def pop (st : AnonState n) : AnonState n := { st with typeTree := st.typeTree.dropLast }

def hasNode (st : AnonState n) (block object : ℕ) : Bool :=
  (st.blocks[block]?).any fun b => decide (object ∈ b.nodes)

def createNode (st : AnonState n) (block object : ℕ) : AnonState n :=
  { st with blocks := st.blocks.modify block fun b => { b with nodes := object :: b.nodes } }

def addConstraint (st : AnonState n) (child parent object : ℕ) : AnonState n :=
  { st with addrOf := st.addrOf ++ [(child, parent, object)] }

def pointToFirst (st : AnonState n) (child : Option ℕ) (parent : ℕ) : AnonState n :=
  match child with
  | some child => st.addConstraint child parent 0
  | none => st

end AnonState

section Allocation

variable (model : AnonModel n)

/-- The constraint for the object at an offset of a block, which gets its node here. -/
def pointTo (block : GraphType n) (objNode offset : ℕ) (child : Option ℕ) (st : AnonState n) :
    Except AnonFailure (AnonState n) :=
  match child with
  | none => .ok st
  | some child =>
    match model.getPtrObjectAt block offset with
    | none => .ok st
    | some object =>
      if !st.hasNode objNode object then .ok ((st.createNode objNode object).addConstraint child objNode object)
      else if offset = 0 then .ok (st.addConstraint child objNode object)
      else .error .nodeAwayFromStart

mutual
/-- The two recursions to a nesting of so many calls. -/
def allocAnonObjRec : ℕ → Option (GraphType n) → AnonState n → Except AnonFailure (Option ℕ × AnonState n)
  | 0, _, _ => .error .outOfFuel
  | fuel + 1, T, st =>
    if model.depthLimit < st.typeTree.length then .ok (none, st)
    else
      match T with
      | none => .ok (none, st)
      | some type =>
        if type ∈ st.typeTree ∨ model.recLimit ≠ 0 ∧ model.recLimit < st.allocatedCount then .ok (none, st)
        else if !type.isSized then .ok (some (st.allocate type).1, (st.allocate type).2)
        else
          (expandChildren fuel type ((st.push type).allocate type).1 ((st.push type).allocate type).2).map fun st' =>
            (some ((st.push type).allocate type).1, st'.pop)

def expandChildren : ℕ → GraphType n → ℕ → AnonState n → Except AnonFailure (AnonState n)
  | 0, _, _, _ => .error .outOfFuel
  | fuel + 1, type, objNode, st =>
    if model.isSpecialObject type then .ok st
    else
      match type with
      | .struct _ _ elements => initAnonAggregateObj fuel elements type objNode 0 st
      | .array _ element =>
        match stripArray element with
        | .struct _ _ elements => initAnonAggregateObj fuel elements type objNode 0 st
        | .pointer pointee =>
          (allocAnonObjRec fuel (getUnboundedArrayTy (model.pointeeType pointee)) st).map fun result =>
            result.2.pointToFirst result.1 objNode
        | _ => .ok st
      | .pointer pointee =>
        (allocAnonObjRec fuel (getUnboundedArrayTy (model.pointeeType pointee)) st).map fun result =>
          result.2.pointToFirst result.1 objNode
      | _ => .ok st

/-- The loop over the elements of a struct at an offset of the block. -/
def initAnonAggregateObj : ℕ → GraphElements n → GraphType n → ℕ → ℕ → AnonState n →
    Except AnonFailure (AnonState n)
  | 0, _, _, _, _, _ => .error .outOfFuel
  | _ + 1, .nil, _, _, _, st => .ok st
  | fuel + 1, .cons elemOffset element rest, block, objNode, globOffset, st =>
    let offset := globOffset + elemOffset
    let next : Except AnonFailure (AnonState n) :=
      match stripArray element with
      | .struct name isPacked elements =>
        if model.isSpecialType (.struct name isPacked elements) then .ok st
        else initAnonAggregateObj fuel elements block objNode offset st
      | .pointer pointee =>
        (allocAnonObjRec fuel (getUnboundedArrayTy (model.pointeeType pointee)) st).bind fun result =>
          pointTo model block objNode offset result.1 result.2
      | _ => .ok st
    next.bind fun st => initAnonAggregateObj fuel rest block objNode globOffset st
end

mutual
/-- The pointers that are followed from inside of a block, each with its offset, in the order of the visit. -/
def GraphType.ptrMembers : GraphType n → ℕ → List (ℕ × Fin n)
  | .pointer pointee, offset => [(offset, pointee)]
  | .array _ element, offset => element.ptrMembers offset
  | .struct name isPacked elements, offset =>
    if model.isSpecialType (.struct name isPacked elements) then [] else elements.ptrMembers offset
  | _, _ => []

def GraphElements.ptrMembers : GraphElements n → ℕ → List (ℕ × Fin n)
  | .nil, _ => []
  | .cons elemOffset element rest, globOffset =>
    element.ptrMembers (globOffset + elemOffset) ++ rest.ptrMembers globOffset
end

def followed (type : GraphType n) : List (ℕ × Fin n) :=
  if model.isSpecialObject type then []
  else
    match stripArray type with
    | .struct _ _ elements => elements.ptrMembers model 0
    | .pointer pointee => [(0, pointee)]
    | _ => []

def GetsObject (path : List (GraphType n)) (T : Option (GraphType n)) : Prop :=
  path.length ≤ model.depthLimit ∧ ∃ type, T = some type ∧ type ∉ path

/-- The member leads to an object, and what it is in has its node already: the first object of the block, or that of a
member before it. -/
def Clash (path : List (GraphType n)) (block : GraphType n) (before : List (ℕ × Fin n)) (member : ℕ × Fin n) : Prop :=
  member.1 ≠ 0 ∧ GetsObject model path (getUnboundedArrayTy (model.pointeeType member.2)) ∧
    ∃ object, model.getPtrObjectAt block member.1 = some object ∧ (object = 0 ∨ ∃ earlier ∈ before,
      GetsObject model path (getUnboundedArrayTy (model.pointeeType earlier.2)) ∧
        model.getPtrObjectAt block earlier.1 = some object)

def Apart (path : List (GraphType n)) (block : GraphType n) : List (ℕ × Fin n) → List (ℕ × Fin n) → Prop
  | _, [] => True
  | before, member :: rest => ¬ Clash model path block before member ∧ Apart path block (before ++ [member]) rest

/-- The types that are met along pointers, each with the path that ends in it, on which no type is twice. -/
inductive Met : List (GraphType n) → Option (GraphType n) → List (GraphType n) → GraphType n → Prop
  | here {path : List (GraphType n)} {type : GraphType n} (hshort : path.length ≤ model.depthLimit)
      (hnew : type ∉ path) (hsized : type.isSized = true) : Met path (some type) (path ++ [type]) type
  | further {path path' : List (GraphType n)} {type type' : GraphType n} {member : ℕ × Fin n}
      (hshort : path.length ≤ model.depthLimit) (hnew : type ∉ path) (hsized : type.isSized = true)
      (hmember : member ∈ followed model type)
      (hmet : Met (path ++ [type]) (getUnboundedArrayTy (model.pointeeType member.2)) path' type') :
      Met path (some type) path' type'

def Separate (path : List (GraphType n)) (T : Option (GraphType n)) : Prop :=
  ∀ path' type, Met model path T path' type → Apart model path' type [] (followed model type)

def AnonState.Cut (st : AnonState n) : Prop := model.recLimit ≠ 0 ∧ model.recLimit < st.allocatedCount

end Allocation

structure KeepsPath (st st' : AnonState n) : Prop where
  typeTree : st'.typeTree = st.typeTree
  expansions : ∃ more, st'.expansions = st.expansions ++ more ∧
    ∀ expansion ∈ more, expansion.2 ∉ expansion.1 ∧ st.typeTree <+: expansion.1

section KeepsPath

variable {st st₁ st₂ : AnonState n}

lemma KeepsPath.refl (st : AnonState n) : KeepsPath st st :=
  ⟨rfl, [], by simp, by simp⟩

lemma KeepsPath.trans (h₁ : KeepsPath st st₁) (h₂ : KeepsPath st₁ st₂) : KeepsPath st st₂ := by
  obtain ⟨more₁, heq₁, hmore₁⟩ := h₁.expansions
  obtain ⟨more₂, heq₂, hmore₂⟩ := h₂.expansions
  refine ⟨h₂.typeTree.trans h₁.typeTree, more₁ ++ more₂, by rw [heq₂, heq₁, List.append_assoc], ?_⟩
  intro expansion hmem
  rcases List.mem_append.mp hmem with hmem | hmem
  · exact hmore₁ expansion hmem
  · rw [← h₁.typeTree]
    exact hmore₂ expansion hmem

lemma KeepsPath.pop {type : GraphType n} (h : KeepsPath ((st.push type).allocate type).2 st₁)
    (hnew : type ∉ st.typeTree) : KeepsPath st st₁.pop := by
  obtain ⟨more, heq, hmore⟩ := h.expansions
  constructor
  · rw [AnonState.pop, h.typeTree]
    exact List.dropLast_concat
  · refine ⟨(st.typeTree, type) :: more, by rw [AnonState.pop, heq]; simp [AnonState.push, AnonState.allocate], ?_⟩
    intro expansion hmem
    rcases List.mem_cons.mp hmem with rfl | hmem
    · exact ⟨hnew, List.prefix_rfl⟩
    · obtain ⟨hfresh, hprefix⟩ := hmore expansion hmem
      exact ⟨hfresh, (List.prefix_append _ _).trans hprefix⟩

end KeepsPath

section Nodes

variable {st : AnonState n} {block object : ℕ} {type : GraphType n}

lemma hasNode_allocate (h : block < st.blocks.length) : (st.allocate type).2.hasNode block = st.hasNode block := by
  funext object
  simp [AnonState.hasNode, AnonState.allocate, List.getElem?_append_left h]

lemma hasNode_allocated : (st.allocate type).2.hasNode st.blocks.length object = true ↔ object = 0 := by
  simp [AnonState.hasNode, AnonState.allocate]

lemma hasNode_createNode {created : ℕ} (h : block < st.blocks.length) :
    (st.createNode block created).hasNode block object = true ↔ object = created ∨ st.hasNode block object = true := by
  simp [AnonState.hasNode, AnonState.createNode, h]

lemma hasNode_createNode_ne {created other : ℕ} (h : other ≠ block) :
    (st.createNode block created).hasNode other = st.hasNode other := by
  funext object
  simp [AnonState.hasNode, AnonState.createNode, h.symm]

end Nodes

section Runs

variable {model : AnonModel n}

/-- What a run leaves as it was: the path, a passed limit, and the nodes of all blocks but the one it is for. -/
structure Runs (model : AnonModel n) (touched : Option ℕ) (st st' : AnonState n) : Prop extends KeepsPath st st' where
  cut : st.Cut model → st'.Cut model
  length : st.blocks.length ≤ st'.blocks.length
  hasNode : ∀ block < st.blocks.length, some block ≠ touched → st'.hasNode block = st.hasNode block

variable {touched : Option ℕ} {st st₁ st₂ : AnonState n}

lemma Runs.refl (st : AnonState n) : Runs model touched st st :=
  ⟨.refl st, id, le_rfl, fun _ _ _ => rfl⟩

lemma Runs.trans (h₁ : Runs model touched st st₁) (h₂ : Runs model touched st₁ st₂) : Runs model touched st st₂ := by
  refine ⟨h₁.toKeepsPath.trans h₂.toKeepsPath, fun hcut => h₂.cut (h₁.cut hcut), h₁.length.trans h₂.length, ?_⟩
  intro block hlt hne
  exact (h₂.hasNode block (hlt.trans_le h₁.length) hne).trans (h₁.hasNode block hlt hne)

lemma Runs.touch (h : Runs model none st st₁) (touched : Option ℕ) : Runs model touched st st₁ :=
  ⟨h.toKeepsPath, h.cut, h.length, fun block hlt _ => h.hasNode block hlt (by simp)⟩

lemma runs_addConstraint (st : AnonState n) (child parent object : ℕ) :
    Runs model touched st (st.addConstraint child parent object) :=
  ⟨⟨rfl, [], by simp [AnonState.addConstraint], by simp⟩, id, le_rfl, fun _ _ _ => rfl⟩

lemma runs_pointToFirst (st : AnonState n) (child : Option ℕ) (parent : ℕ) :
    Runs model touched st (st.pointToFirst child parent) := by
  cases child with
  | none => exact .refl st
  | some child => exact runs_addConstraint st child parent 0

lemma runs_createNode (st : AnonState n) (block object : ℕ) :
    Runs model (some block) st (st.createNode block object) := by
  refine ⟨⟨rfl, [], by simp [AnonState.createNode], by simp⟩, id, by simp [AnonState.createNode], ?_⟩
  intro other _ hne
  exact hasNode_createNode_ne fun heq => hne (congrArg some heq)

lemma runs_allocate (st : AnonState n) (type : GraphType n) : Runs model none st (st.allocate type).2 :=
  ⟨⟨rfl, [], by simp [AnonState.allocate], by simp⟩, id, by simp [AnonState.allocate],
    fun _ hlt _ => hasNode_allocate hlt⟩

lemma Runs.pop {type : GraphType n} (hnew : type ∉ st.typeTree) (hcut : ¬ st.Cut model)
    (h : Runs model (some st.blocks.length) ((st.push type).allocate type).2 st₁) : Runs model none st st₁.pop := by
  have hlength : ((st.push type).allocate type).2.blocks.length = st.blocks.length + 1 := by
    simp [AnonState.allocate, AnonState.push]
  have hmore := h.length
  refine ⟨h.toKeepsPath.pop hnew, fun hc => absurd hc hcut, ?_, ?_⟩
  · change st.blocks.length ≤ st₁.blocks.length
    omega
  · intro block hlt _
    have hne : some block ≠ some st.blocks.length := by simp [hlt.ne]
    have hpushed : block < (st.push type).blocks.length := hlt
    exact (h.hasNode block (by omega) hne).trans (hasNode_allocate hpushed)

end Runs

section Separate

variable {model : AnonModel n} {path : List (GraphType n)} {block : GraphType n} {before : List (ℕ × Fin n)}

lemma apart_append (xs ys : List (ℕ × Fin n)) : Apart model path block before (xs ++ ys) ↔
    Apart model path block before xs ∧ Apart model path block (before ++ xs) ys := by
  induction xs generalizing before with
  | nil => simp [Apart]
  | cons x xs ih => simp [Apart, ih, and_assoc]

def Clear (model : AnonModel n) (path : List (GraphType n)) (block : GraphType n)
    (before members : List (ℕ × Fin n)) : Prop :=
  Apart model path block before members ∧
    ∀ member ∈ members, Separate model path (getUnboundedArrayTy (model.pointeeType member.2))

lemma clear_nil : Clear model path block before [] :=
  ⟨trivial, by simp⟩

lemma clear_append (xs ys : List (ℕ × Fin n)) : Clear model path block before (xs ++ ys) ↔
    Clear model path block before xs ∧ Clear model path block (before ++ xs) ys := by
  simp only [Clear, apart_append, List.forall_mem_append]
  tauto

lemma clear_singleton {member : ℕ × Fin n} : Clear model path block before [member] ↔
    ¬ Clash model path block before member ∧
      Separate model path (getUnboundedArrayTy (model.pointeeType member.2)) := by
  simp [Clear, Apart]

lemma separate_none : Separate model path none := by
  rintro path' type ⟨⟩

lemma separate_of_not {type : GraphType n}
    (h : ¬ (path.length ≤ model.depthLimit ∧ type ∉ path ∧ type.isSized = true)) :
    Separate model path (some type) := by
  intro path' type' hmet
  cases hmet with
  | here hshort hnew hsized => exact absurd ⟨hshort, hnew, hsized⟩ h
  | further hshort hnew hsized => exact absurd ⟨hshort, hnew, hsized⟩ h

lemma separate_some {type : GraphType n} (hshort : path.length ≤ model.depthLimit) (hnew : type ∉ path)
    (hsized : type.isSized = true) :
    Separate model path (some type) ↔ Clear model (path ++ [type]) type [] (followed model type) := by
  constructor
  · intro h
    exact ⟨h _ _ (.here hshort hnew hsized), fun member hmember path' type' hmet =>
      h _ _ (.further hshort hnew hsized hmember hmet)⟩
  · rintro ⟨hapart, hbelow⟩ path' type' hmet
    cases hmet with
    | here => exact hapart
    | further _ _ _ hmember hmet => exact hbelow _ hmember _ _ hmet

end Separate

section Termination

variable (model : AnonModel n)

/-- The objects of the block that have a node are the first and those of the members so far, where no limit is passed. -/
structure MembersKnown (path : List (GraphType n)) (block : GraphType n) (objNode : ℕ) (before : List (ℕ × Fin n))
    (st : AnonState n) : Prop where
  lt : objNode < st.blocks.length
  first : st.hasNode objNode 0 = true
  sound : ∀ object, st.hasNode objNode object = true → object = 0 ∨ ∃ earlier ∈ before,
    GetsObject model path (getUnboundedArrayTy (model.pointeeType earlier.2)) ∧
      model.getPtrObjectAt block earlier.1 = some object
  complete : ¬ st.Cut model → ∀ earlier ∈ before,
    GetsObject model path (getUnboundedArrayTy (model.pointeeType earlier.2)) →
      ∀ object, model.getPtrObjectAt block earlier.1 = some object → st.hasNode objNode object = true

/-- From some nesting of calls on, a call for the type returns or its members, or those below it, clash. -/
def RecSettles (path : List (GraphType n)) (T : Option (GraphType n)) : Prop :=
  ∃ enough, ∀ fuel, enough ≤ fuel → ∀ st : AnonState n, st.typeTree = path →
    (∃ result, allocAnonObjRec model fuel T st = .ok result ∧ Runs model none st result.2 ∧
      (result.1.isSome → GetsObject model path T) ∧
        (¬ result.2.Cut model → Separate model path T ∧ (GetsObject model path T → result.1.isSome))) ∨
      allocAnonObjRec model fuel T st = .error .nodeAwayFromStart ∧ ¬ Separate model path T

def Visits (path : List (GraphType n)) (block : GraphType n) (before members : List (ℕ × Fin n))
    (run : ℕ → ℕ → AnonState n → Except AnonFailure (AnonState n)) : Prop :=
  ∃ enough, ∀ fuel, enough ≤ fuel → ∀ objNode st, st.typeTree = path → MembersKnown model path block objNode before st →
    (∃ st', run fuel objNode st = .ok st' ∧ Runs model (some objNode) st st' ∧
      MembersKnown model path block objNode (before ++ members) st' ∧
        (¬ st'.Cut model → Clear model path block before members)) ∨
      run fuel objNode st = .error .nodeAwayFromStart ∧ ¬ Clear model path block before members

variable {model} {path : List (GraphType n)} {block : GraphType n} {before : List (ℕ × Fin n)} {objNode : ℕ}
  {st st' : AnonState n}

lemma MembersKnown.of_runs (h : MembersKnown model path block objNode before st) (hruns : Runs model none st st') :
    MembersKnown model path block objNode before st' := by
  have hnode : st'.hasNode objNode = st.hasNode objNode := hruns.hasNode objNode h.lt (by simp)
  refine ⟨h.lt.trans_le hruns.length, hnode ▸ h.first, fun object hobject => h.sound object (hnode ▸ hobject), ?_⟩
  intro hcut earlier hmem hgets object hobject
  rw [hnode]
  exact h.complete (fun hc => hcut (hruns.cut hc)) earlier hmem hgets object hobject

lemma MembersKnown.skip (h : MembersKnown model path block objNode before st) {member : ℕ × Fin n}
    (hskip : ¬ st.Cut model → GetsObject model path (getUnboundedArrayTy (model.pointeeType member.2)) →
      ∀ object, model.getPtrObjectAt block member.1 = some object → st.hasNode objNode object = true) :
    MembersKnown model path block objNode (before ++ [member]) st := by
  refine ⟨h.lt, h.first, fun object hobject => ?_, fun hcut earlier hmem => ?_⟩
  · refine (h.sound object hobject).imp_right ?_
    rintro ⟨earlier, hmem, hgets⟩
    exact ⟨earlier, List.mem_append_left _ hmem, hgets⟩
  · rcases List.mem_append.mp hmem with hmem | hmem
    · exact h.complete hcut earlier hmem
    · obtain rfl := List.mem_singleton.mp hmem
      exact hskip hcut

lemma MembersKnown.create (h : MembersKnown model path block objNode before st) {member : ℕ × Fin n} {object : ℕ}
    (hgets : GetsObject model path (getUnboundedArrayTy (model.pointeeType member.2)))
    (hobject : model.getPtrObjectAt block member.1 = some object) :
    MembersKnown model path block objNode (before ++ [member]) (st.createNode objNode object) := by
  have hnode : ∀ other, (st.createNode objNode object).hasNode objNode other = true ↔
      other = object ∨ st.hasNode objNode other = true := fun other => hasNode_createNode h.lt
  have hruns : Runs model (some objNode) st (st.createNode objNode object) := runs_createNode ..
  refine ⟨h.lt.trans_le hruns.length, (hnode 0).mpr (Or.inr h.first),
    fun other hother => ?_, fun hcut earlier hmem hgets' other hother => ?_⟩
  · rcases (hnode other).mp hother with rfl | hother
    · exact Or.inr ⟨member, List.mem_append_right _ (List.mem_singleton_self _), hgets, hobject⟩
    · refine (h.sound other hother).imp_right ?_
      rintro ⟨earlier, hmem, hrest⟩
      exact ⟨earlier, List.mem_append_left _ hmem, hrest⟩
  · rw [hnode]
    rcases List.mem_append.mp hmem with hmem | hmem
    · exact Or.inr (h.complete hcut earlier hmem hgets' other hother)
    · obtain rfl := List.mem_singleton.mp hmem
      exact Or.inl (Option.some.inj (hother.symm.trans hobject))

lemma pointTo_spec (h : MembersKnown model path block objNode before st) {member : ℕ × Fin n} {child : Option ℕ}
    (hgets : child.isSome → GetsObject model path (getUnboundedArrayTy (model.pointeeType member.2)))
    (hchild : ¬ st.Cut model → GetsObject model path (getUnboundedArrayTy (model.pointeeType member.2)) →
      child.isSome) :
    (∃ st', pointTo model block objNode member.1 child st = .ok st' ∧ Runs model (some objNode) st st' ∧
      MembersKnown model path block objNode (before ++ [member]) st' ∧
        (¬ st'.Cut model → ¬ Clash model path block before member)) ∨
      pointTo model block objNode member.1 child st = .error .nodeAwayFromStart ∧
        Clash model path block before member := by
  cases child with
  | none =>
    have hnone : ¬ st.Cut model → ¬ GetsObject model path (getUnboundedArrayTy (model.pointeeType member.2)) :=
      fun hcut hg => by simpa using hchild hcut hg
    exact Or.inl ⟨st, rfl, .refl st, h.skip fun hcut hg => absurd hg (hnone hcut),
      fun hcut hclash => hnone hcut hclash.2.1⟩
  | some child =>
    have hgets := hgets rfl
    cases hobject : model.getPtrObjectAt block member.1 with
    | none =>
      refine Or.inl ⟨st, by simp [pointTo, hobject], .refl st, h.skip fun _ _ object hsome => ?_, fun _ hclash => ?_⟩
      · rw [hobject] at hsome
        cases hsome
      · obtain ⟨-, -, object, hsome, -⟩ := hclash
        rw [hobject] at hsome
        cases hsome
    | some object =>
      by_cases hnode : st.hasNode objNode object = true
      · by_cases hstart : member.1 = 0
        · have hobject0 : model.getPtrObjectAt block 0 = some object := hstart ▸ hobject
          refine Or.inl ⟨st.addConstraint child objNode object, by simp [pointTo, hobject0, hnode, hstart],
            runs_addConstraint .., ?_, fun _ hclash => hclash.1 hstart⟩
          refine MembersKnown.skip (h.of_runs (runs_addConstraint ..)) fun _ _ other hother => ?_
          rw [hobject] at hother
          cases hother
          exact hnode
        · exact Or.inr ⟨by simp [pointTo, hobject, hnode, hstart], hstart, hgets, object, hobject,
            h.sound object hnode⟩
      · refine Or.inl ⟨(st.createNode objNode object).addConstraint child objNode object,
          by simp [pointTo, hobject, hnode], (runs_createNode ..).trans (runs_addConstraint ..),
          (h.create hgets hobject).of_runs (runs_addConstraint ..), fun hcut hclash => ?_⟩
        obtain ⟨-, -, other, hother, hor⟩ := hclash
        rw [hobject] at hother
        cases hother
        rcases hor with rfl | ⟨earlier, hmem, hgets', hearlier⟩
        · exact hnode h.first
        · exact hnode (h.complete hcut earlier hmem hgets' object hearlier)

variable {run next : ℕ → ℕ → AnonState n → Except AnonFailure (AnonState n)} {xs ys : List (ℕ × Fin n)}

lemma visits_nil : Visits model path block before [] fun _ _ st => .ok st := by
  refine ⟨0, fun _ _ objNode st _ hknown => Or.inl ⟨st, rfl, .refl st, ?_, fun _ => clear_nil⟩⟩
  rwa [List.append_nil]

lemma Visits.bind (h : Visits model path block before xs run)
    (hnext : Visits model path block (before ++ xs) ys next) :
    Visits model path block before (xs ++ ys) fun fuel objNode st => (run fuel objNode st).bind (next fuel objNode) := by
  obtain ⟨enough, hrun⟩ := h
  obtain ⟨enough', hnext⟩ := hnext
  refine ⟨max enough enough', ?_⟩
  intro fuel hfuel objNode st hst hknown
  rw [clear_append]
  rcases hrun fuel ((le_max_left _ _).trans hfuel) objNode st hst hknown with
    ⟨st₁, hst₁, hruns₁, hknown₁, hclear₁⟩ | ⟨herror, hclash⟩
  · simp only [hst₁, Except.bind]
    rcases hnext fuel ((le_max_right _ _).trans hfuel) objNode st₁ (hruns₁.typeTree.trans hst) hknown₁ with
      ⟨st₂, hst₂, hruns₂, hknown₂, hclear₂⟩ | ⟨herror, hclash⟩
    · refine Or.inl ⟨st₂, hst₂, hruns₁.trans hruns₂, by rwa [← List.append_assoc], fun hcut => ?_⟩
      exact ⟨hclear₁ fun hc => hcut (hruns₂.cut hc), hclear₂ hcut⟩
    · exact Or.inr ⟨herror, fun hboth => hclash hboth.2⟩
  · simp only [herror, Except.bind]
    exact Or.inr ⟨trivial, fun hboth => hclash hboth.1⟩

lemma Visits.call {members : List (ℕ × Fin n)} (h : Visits model path block before members run)
    (heq : ∀ fuel objNode st, next (fuel + 1) objNode st = run fuel objNode st) :
    Visits model path block before members next := by
  obtain ⟨enough, hrun⟩ := h
  refine ⟨enough + 1, ?_⟩
  intro fuel hfuel objNode st hst hknown
  obtain ⟨fuel, rfl⟩ : ∃ inside, fuel = inside + 1 := ⟨fuel - 1, by omega⟩
  rw [heq fuel objNode st]
  exact hrun fuel (by omega) objNode st hst hknown

lemma visits_pointer {member : ℕ × Fin n}
    (hrec : RecSettles model path (getUnboundedArrayTy (model.pointeeType member.2))) :
    Visits model path block before [member] fun fuel objNode st =>
      (allocAnonObjRec model fuel (getUnboundedArrayTy (model.pointeeType member.2)) st).bind fun result =>
        pointTo model block objNode member.1 result.1 result.2 := by
  obtain ⟨enough, hrec⟩ := hrec
  refine ⟨enough, ?_⟩
  intro fuel hfuel objNode st hst hknown
  rw [clear_singleton]
  rcases hrec fuel hfuel st hst with ⟨result, hresult, hruns, hgets, hseparate⟩ | ⟨herror, hclash⟩
  · simp only [hresult, Except.bind]
    rcases pointTo_spec (hknown.of_runs hruns) hgets (fun hcut => (hseparate hcut).2) with
      ⟨st', hst', hruns', hknown', hclear⟩ | ⟨herror, hclash⟩
    · refine Or.inl ⟨st', hst', (hruns.touch _).trans hruns', hknown', fun hcut => ⟨hclear hcut, ?_⟩⟩
      exact (hseparate fun hc => hcut (hruns'.cut hc)).1
    · exact Or.inr ⟨herror, fun hboth => hboth.1 hclash⟩
  · simp only [herror, Except.bind]
    exact Or.inr ⟨trivial, fun hboth => hclash hboth.2⟩

lemma ptrMembers_stripArray (type : GraphType n) (offset : ℕ) :
    type.ptrMembers model offset = (stripArray type).ptrMembers model offset := by
  match type with
  | .array _ element =>
    rw [GraphType.ptrMembers, stripArray]
    exact ptrMembers_stripArray element offset
  | .primitive _ | .unsized _ | .pointer _ | .opaqueStruct _ | .struct _ _ _ => rfl

lemma stripArray_ne_array (type : GraphType n) {num : ℕ} {element : GraphType n} :
    stripArray type ≠ .array num element := by
  match type with
  | .array _ inner =>
    rw [stripArray]
    exact stripArray_ne_array inner
  | .primitive _ | .unsized _ | .pointer _ | .opaqueStruct _ | .struct _ _ _ => simp [stripArray]

variable (model) in
def InitVisits (path : List (GraphType n)) (elements : GraphElements n) : Prop :=
  ∀ block globOffset before, Visits model path block before (elements.ptrMembers model globOffset)
    fun fuel objNode => initAnonAggregateObj model fuel elements block objNode globOffset

lemma InitVisits.cons {offset : ℕ} {element : GraphType n} {rest : GraphElements n}
    (hrec : ∀ T, RecSettles model path T)
    (helement : ∀ name isPacked elements, stripArray element = .struct name isPacked elements →
      InitVisits model path elements)
    (hrest : InitVisits model path rest) : InitVisits model path (.cons offset element rest) := by
  intro block globOffset before
  rw [GraphElements.ptrMembers, ptrMembers_stripArray]
  cases hstrip : stripArray element with
  | struct name isPacked elements =>
    rw [GraphType.ptrMembers]
    by_cases hspecial : model.isSpecialType (.struct name isPacked elements)
    · rw [if_pos hspecial]
      refine (visits_nil.bind (hrest block globOffset _)).call fun fuel objNode st => ?_
      simp only [initAnonAggregateObj, hstrip, hspecial, if_true]
    · rw [if_neg hspecial]
      have hinner := helement name isPacked elements hstrip block (globOffset + offset) before
      refine (hinner.bind (hrest block globOffset _)).call fun fuel objNode st => ?_
      simp only [initAnonAggregateObj, hstrip, if_neg hspecial]
  | pointer pointee =>
    have hmember : Visits model path block before [(globOffset + offset, pointee)] _ := visits_pointer (hrec _)
    refine (hmember.bind (hrest block globOffset _)).call fun fuel objNode st => ?_
    simp only [initAnonAggregateObj, hstrip]
  | array num inner => exact absurd hstrip (stripArray_ne_array element)
  | primitive _ | unsized _ | opaqueStruct _ =>
    change Visits model path block before ([] ++ rest.ptrMembers model globOffset) _
    refine (visits_nil.bind (hrest block globOffset _)).call fun fuel objNode st => ?_
    simp only [initAnonAggregateObj, hstrip]

mutual
lemma initVisits_stripArray (hrec : ∀ T, RecSettles model path T) (type : GraphType n) (name : Option String)
    (isPacked : Bool) (elements : GraphElements n) (h : stripArray type = .struct name isPacked elements) :
    InitVisits model path elements := by
  cases type with
  | struct name' isPacked' elements' =>
    cases h
    exact initVisits hrec elements
  | array num element => exact initVisits_stripArray hrec element name isPacked elements h
  | _ => cases h

lemma initVisits (hrec : ∀ T, RecSettles model path T) (elements : GraphElements n) :
    InitVisits model path elements := by
  cases elements with
  | nil => exact fun _ _ _ => visits_nil.call fun _ _ _ => rfl
  | cons offset element rest =>
    exact .cons hrec (fun name isPacked elements h => initVisits_stripArray hrec element name isPacked elements h)
      (initVisits hrec rest)
end

variable (model) in
def ExpandSettles (path : List (GraphType n)) (type : GraphType n) : Prop :=
  ∃ enough, ∀ fuel, enough ≤ fuel → ∀ objNode st, st.typeTree = path → MembersKnown model path type objNode [] st →
    (∃ st', expandChildren model fuel type objNode st = .ok st' ∧ Runs model (some objNode) st st' ∧
      (¬ st'.Cut model → Clear model path type [] (followed model type))) ∨
      expandChildren model fuel type objNode st = .error .nodeAwayFromStart ∧
        ¬ Clear model path type [] (followed model type)

lemma expandSettles_of_visits {type : GraphType n} {members : List (ℕ × Fin n)}
    (hfollowed : followed model type = members)
    (h : Visits model path type [] members run)
    (heq : ∀ fuel objNode st, expandChildren model (fuel + 1) type objNode st = run fuel objNode st) :
    ExpandSettles model path type := by
  have hcall : Visits model path type [] members fun fuel => expandChildren model fuel type := h.call heq
  obtain ⟨enough, hrun⟩ := hcall
  refine ⟨enough, fun fuel hfuel objNode st hst hknown => ?_⟩
  rw [hfollowed]
  rcases hrun fuel hfuel objNode st hst hknown with ⟨st', hst', hruns, -, hclear⟩ | herror
  · exact Or.inl ⟨st', hst', hruns, hclear⟩
  · exact Or.inr herror

lemma expandSettles_of_pointer {type : GraphType n} {pointee : Fin n}
    (hfollowed : followed model type = [(0, pointee)])
    (hrec : RecSettles model path (getUnboundedArrayTy (model.pointeeType pointee)))
    (heq : ∀ fuel objNode st, expandChildren model (fuel + 1) type objNode st =
      (allocAnonObjRec model fuel (getUnboundedArrayTy (model.pointeeType pointee)) st).map fun result =>
        result.2.pointToFirst result.1 objNode) : ExpandSettles model path type := by
  obtain ⟨enough, hrec⟩ := hrec
  refine ⟨enough + 1, fun fuel hfuel objNode st hst _ => ?_⟩
  obtain ⟨fuel, rfl⟩ : ∃ inside, fuel = inside + 1 := ⟨fuel - 1, by omega⟩
  have hstart : ¬ Clash model path type [] (0, pointee) := fun hclash => hclash.1 rfl
  rw [hfollowed, clear_singleton, and_iff_right hstart, heq]
  rcases hrec fuel (by omega) st hst with ⟨result, hresult, hruns, -, hseparate⟩ | ⟨herror, hclash⟩
  · have hpoint : Runs model (some objNode) result.2 (result.2.pointToFirst result.1 objNode) := runs_pointToFirst ..
    refine Or.inl ⟨_, by rw [hresult]; rfl, (hruns.touch _).trans hpoint, fun hcut => ?_⟩
    exact (hseparate fun hc => hcut (hpoint.cut hc)).1
  · exact Or.inr ⟨by rw [herror]; rfl, hclash⟩

lemma expandSettles (hrec : ∀ T, RecSettles model path T) (type : GraphType n) : ExpandSettles model path type := by
  by_cases hspecial : model.isSpecialObject type
  · refine expandSettles_of_visits (by rw [followed, if_pos hspecial]) visits_nil fun fuel objNode st => ?_
    simp only [expandChildren, hspecial, if_true]
  · cases type with
    | struct name isPacked elements =>
      refine expandSettles_of_visits (by simp [followed, hspecial, stripArray])
        (initVisits hrec elements (.struct name isPacked elements) 0 []) fun fuel objNode st => ?_
      simp only [expandChildren, if_neg hspecial]
    | pointer pointee =>
      have hfollowed : followed model (.pointer pointee) = [(0, pointee)] := by simp [followed, hspecial, stripArray]
      refine expandSettles_of_pointer hfollowed (hrec _) fun fuel objNode st => ?_
      simp only [expandChildren, if_neg hspecial]
    | array num element =>
      cases hstrip : stripArray element with
      | struct name isPacked elements =>
        refine expandSettles_of_visits (by rw [followed, if_neg hspecial, stripArray, hstrip])
          (initVisits_stripArray hrec element name isPacked elements hstrip (.array num element) 0 [])
          fun fuel objNode st => ?_
        simp only [expandChildren, if_neg hspecial, hstrip]
      | pointer pointee =>
        refine expandSettles_of_pointer (by rw [followed, if_neg hspecial, stripArray, hstrip]) (hrec _)
          fun fuel objNode st => ?_
        simp only [expandChildren, if_neg hspecial, hstrip]
      | primitive _ | unsized _ | array _ _ | opaqueStruct _ =>
        refine expandSettles_of_visits (by rw [followed, if_neg hspecial, stripArray, hstrip]) visits_nil
          fun fuel objNode st => ?_
        simp only [expandChildren, if_neg hspecial, hstrip]
    | primitive _ | unsized _ | opaqueStruct _ =>
      refine expandSettles_of_visits (by simp [followed, hspecial, stripArray]) visits_nil fun fuel objNode st => ?_
      simp only [expandChildren, if_neg hspecial]

lemma known_allocated (path : List (GraphType n)) (st : AnonState n) (type : GraphType n) :
    MembersKnown model path type st.blocks.length [] (st.allocate type).2 := by
  refine ⟨by simp [AnonState.allocate], hasNode_allocated.mpr rfl, fun object h => Or.inl (hasNode_allocated.mp h), ?_⟩
  exact fun _ _ hmem => absurd hmem List.not_mem_nil

lemma recSettles_of_expand (hexpand : path.length ≤ model.depthLimit → ∀ type,
    ExpandSettles model (path ++ [type]) type) (T : Option (GraphType n)) : RecSettles model path T := by
  by_cases hlong : model.depthLimit < path.length
  · have hnone : ¬ GetsObject model path T := fun hgets => by have hshort := hgets.1; omega
    have hseparate : Separate model path T := by
      cases T with
      | none => exact separate_none
      | some type => exact separate_of_not fun h => by have hshort := h.1; omega
    refine ⟨1, fun fuel hfuel st hst => Or.inl ⟨(none, st), ?_, .refl st, by simp, fun _ => ⟨hseparate, ?_⟩⟩⟩
    · obtain ⟨fuel, rfl⟩ : ∃ inside, fuel = inside + 1 := ⟨fuel - 1, by omega⟩
      simp only [allocAnonObjRec, hst, if_pos hlong]
    · exact fun hgets => absurd hgets hnone
  cases T with
  | none =>
    refine ⟨1, fun fuel hfuel st hst => Or.inl ⟨(none, st), ?_, .refl st, by simp, fun _ => ⟨separate_none, ?_⟩⟩⟩
    · obtain ⟨fuel, rfl⟩ : ∃ inside, fuel = inside + 1 := ⟨fuel - 1, by omega⟩
      simp only [allocAnonObjRec, hst, if_neg hlong]
    · rintro ⟨-, type, ⟨⟩, -⟩
  | some type =>
    obtain ⟨enough, hinner⟩ := hexpand (by omega) type
    refine ⟨enough + 1, fun fuel hfuel st hst => ?_⟩
    obtain ⟨fuel, rfl⟩ : ∃ inside, fuel = inside + 1 := ⟨fuel - 1, by omega⟩
    by_cases hon : type ∈ path
    · refine Or.inl ⟨(none, st), ?_, .refl st, by simp, fun _ => ⟨separate_of_not fun h => h.2.1 hon, ?_⟩⟩
      · simp only [allocAnonObjRec, hst, if_neg hlong, hon, true_or, if_true]
      · rintro ⟨-, other, ⟨⟩, hnew⟩
        exact absurd hon hnew
    by_cases hcut : st.Cut model
    · refine Or.inl ⟨(none, st), ?_, .refl st, by simp, fun hnot => absurd hcut hnot⟩
      have hcut' : model.recLimit ≠ 0 ∧ model.recLimit < st.allocatedCount := hcut
      simp only [allocAnonObjRec, hst, if_neg hlong, if_pos (Or.inr hcut')]
    have hgoes : ¬ (type ∈ path ∨ model.recLimit ≠ 0 ∧ model.recLimit < st.allocatedCount) := not_or.mpr ⟨hon, hcut⟩
    have hgets : GetsObject model path (some type) := ⟨by omega, type, rfl, hon⟩
    cases hsized : type.isSized with
    | false =>
      refine Or.inl ⟨(some (st.allocate type).1, (st.allocate type).2), ?_, runs_allocate st type, fun _ => hgets,
        fun _ => ⟨separate_of_not fun h => ?_, fun _ => rfl⟩⟩
      · simp only [allocAnonObjRec, hst, if_neg hlong, if_neg hgoes, hsized, Bool.not_false, if_true]
      · simp [hsized] at h
    | true =>
      have hpath : ((st.push type).allocate type).2.typeTree = path ++ [type] := by rw [← hst]; rfl
      rw [separate_some hgets.1 hon hsized]
      simp only [allocAnonObjRec, hst, if_neg hlong, if_neg hgoes, hsized, Bool.not_true, Bool.false_eq_true, if_false]
      rcases hinner fuel (by omega) st.blocks.length _ hpath (known_allocated _ (st.push type) type) with
        ⟨st', hst', hruns, hclear⟩ | ⟨herror, hclash⟩
      · refine Or.inl ⟨(some st.blocks.length, st'.pop), ?_, hruns.pop (hst ▸ hon) hcut, fun _ => hgets, fun hnot => ?_⟩
        · change (expandChildren model fuel type st.blocks.length ((st.push type).allocate type).2).map _ = _
          rw [hst']
          rfl
        · exact ⟨hclear hnot, fun _ => rfl⟩
      · refine Or.inr ⟨?_, hclash⟩
        change (expandChildren model fuel type st.blocks.length ((st.push type).allocate type).2).map _ = _
        rw [herror]
        rfl

/-- Each expansion lengthens the path, up to its limit. -/
lemma recSettles (model : AnonModel n) (path : List (GraphType n)) (T : Option (GraphType n)) :
    RecSettles model path T := by
  induction hroom : model.depthLimit + 1 - path.length generalizing path T with
  | zero => exact recSettles_of_expand (fun hle => by omega) T
  | succ room ih =>
    refine recSettles_of_expand (fun _ type => ?_) T
    apply expandSettles
    intro T
    apply ih
    rw [List.length_append, List.length_singleton]
    omega

/-- Where no members clash, the call returns with the path it was given and expands no type that is on the path. It does
not where some do, unless the limit of the number of objects is passed. -/
theorem allocAnonObjRec_returns_iff (model : AnonModel n) (T : Option (GraphType n)) (st : AnonState n) :
    ∃ enough, ∀ fuel, enough ≤ fuel → allocAnonObjRec model fuel T st ≠ .error .outOfFuel ∧
      (Separate model st.typeTree T → ∃ result, allocAnonObjRec model fuel T st = .ok result ∧ KeepsPath st result.2) ∧
        ∀ result, allocAnonObjRec model fuel T st = .ok result →
          KeepsPath st result.2 ∧ (¬ result.2.Cut model → Separate model st.typeTree T) := by
  obtain ⟨enough, hsettles⟩ := recSettles model st.typeTree T
  refine ⟨enough, fun fuel hfuel => ?_⟩
  rcases hsettles fuel hfuel st rfl with ⟨result, hresult, hruns, -, hseparate⟩ | ⟨herror, hclash⟩
  · refine ⟨by simp [hresult], fun _ => ⟨result, hresult, hruns.toKeepsPath⟩, ?_⟩
    intro result' hresult'
    obtain rfl := Except.ok.inj (hresult.symm.trans hresult')
    exact ⟨hruns.toKeepsPath, fun hcut => (hseparate hcut).1⟩
  · refine ⟨by simp [herror], fun hclear => absurd hclear hclash, ?_⟩
    intro result hresult
    cases herror.symm.trans hresult

end Termination

-- `struct record { long number; char *tags[0]; char *name; }`, whose pointers are both at the offset 8.
namespace EmptyArrayMember

def record : GraphType 1 :=
  .struct (some "record") false
    (.cons 0 (.primitive "i64") (.cons 8 (.array 0 (.pointer 0)) (.cons 8 (.pointer 0) .nil)))

def model : AnonModel 1 where
  pointeeType := fun _ => .primitive "i8"
  recLimit := 999
  depthLimit := 10
  isSpecialType := fun _ => false
  isSpecialObject := fun _ => false
  getPtrObjectAt := fun type offset => if type = .array (2 ^ 32 - 1) record ∧ offset % 16 = 8 then some 1 else none

/-- The second pointer finds that the object of the first has a node, and the assertion fails. -/
theorem allocAnonObjRec_fails :
    ¬∃ fuel, 7 ≤ fuel ∧ allocAnonObjRec model fuel (getUnboundedArrayTy record) {} ≠ .error .nodeAwayFromStart := by
  rintro ⟨fuel, hfuel, hreturns⟩
  obtain ⟨fuel, rfl⟩ : ∃ inside, fuel = inside + 7 := ⟨fuel - 7, by omega⟩
  exact hreturns rfl

end EmptyArrayMember

-- `struct node { struct node *next; }`.
namespace LinkedList

def model : AnonModel 1 where
  pointeeType := fun _ => .struct (some "node") false (.cons 0 (.pointer 0) .nil)
  recLimit := 999
  depthLimit := 10
  isSpecialType := fun _ => false
  isSpecialObject := fun _ => false
  getPtrObjectAt := fun _ _ => some 0

example : (allocAnonObjRec model 4 (getUnboundedArrayTy (model.pointeeType 0)) {}).map
    (fun result => (result.2.typeTree, result.2.blocks.length, result.2.expansions.length)) = .ok ([], 1, 1) := by
  decide

end LinkedList

end OpenRace
