import OpenRace.Library.Inclusions
import OpenRace.PointerAnalysis.Graph.NodeKinds
import OpenRace.PointerAnalysis.Solver.SolverBase

/-! The nodes of a constraint graph as places, and when points-to sets are the least solution of its constraints. -/

namespace OpenRace

open ConstraintGraph

/-- Pointers by the ids of their nodes, the memory of objects, and the anonymous nodes behind them. -/
inductive Place (Obj : Type)
  | pointer (id : ℕ)
  | cell (object : Obj)
  | address (object : Obj)
deriving DecidableEq

def FieldModel.system {Obj : Type} (model : FieldModel Obj) (edges : Constraints → Place Obj → Place Obj → Prop) :
    Library.Inclusions (Place Obj) Obj where
  cell := .cell
  constant object := model.constant object = true
  index place object :=
    match place with
    | .pointer id => model.index id object
    | .cell _ => none
    | .address _ => none
  address place object := place = .address object
  copy := edges .copy
  load := edges .load
  store := edges .store
  offset := edges .offset

/-- What an edge between two places demands of the objects they hold. Special constraints demand nothing here, and are
there only where some are asked for. -/
def FieldModel.Respects {Obj : Type} (model : FieldModel Obj) (holds : Place Obj → Obj → Prop) (special : Prop)
    (kind : Constraints) (p q : Place Obj) : Prop :=
  match kind with
  | .copy => ∀ o, holds p o → holds q o
  | .load => ∀ o o', holds p o → holds (.cell o) o' → holds q o'
  | .store => ∀ o o', holds q o → model.constant o = false → holds p o' → holds (.cell o) o'
  | .offset => ∀ o o' id, q = .pointer id → holds p o → model.index id o = some o' → holds q o'
  | .addrOf => True
  | .special => special

lemma FieldModel.respects_edge {Obj : Type} {model : FieldModel Obj}
    {edges : Constraints → Place Obj → Place Obj → Prop} {kind : Constraints} {p q : Place Obj}
    (he : edges kind p q) : model.Respects (model.system edges).Holds (∃ p q, edges .special p q) kind p q := by
  cases kind with
  | copy => exact fun o ho => .copy he ho
  | load => exact fun o o' ho ho' => .load he ho ho'
  | store =>
    intro o o' ho hmutable ho'
    exact .store he ho (by simp [FieldModel.system, hmutable]) ho'
  | offset =>
    intro o o' id hq ho hindex
    subst hq
    exact .offset he ho hindex
  | addrOf => exact trivial
  | special => exact ⟨p, q, he⟩

def FieldModel.Indexes {Obj : Type} (model : FieldModel Obj) (objects : Set Obj) : Prop :=
  ∀ {id o o'}, o ∈ objects → model.index id o = some o' → o' ∈ objects

namespace SolverBase

variable {Obj : Type}

def objectAt (solver : SolverBase Obj) (node : ℕ) : Option Obj :=
  (solver.objVec.find? fun entry => entry.1 = node).map Prod.snd

def place (solver : SolverBase Obj) (id : ℕ) : Place Obj :=
  match solver.objectAt id, solver.objectAt (id - 1) with
  | some object, _ => .cell object
  | none, some object => if id = 0 then .pointer id else .address object
  | none, none => .pointer id

def ObjNode (solver : SolverBase Obj) (node : ℕ) : Prop := ∃ object, (node, object) ∈ solver.objVec

def AnonNode (solver : SolverBase Obj) (id : ℕ) : Prop := ∃ node, solver.ObjNode node ∧ id = node + 1

/-- What is pointed to is known from the anonymous nodes alone: no copy from another node enters. -/
structure Leaf (solver : SolverBase Obj) (id : ℕ) : Prop where
  apart : ∀ node, solver.ObjNode node → solver.graph.root node ≠ id
  unloaded : ∀ src, ¬solver.graph.Edge .load src id
  copied : ∀ src, solver.graph.Edge .copy src id → solver.AnonNode src

/-- A node that has to be known from the anonymous nodes: what points to it is indexed, or copied into memory that is
never written. -/
def Pinned (solver : SolverBase Obj) (id : ℕ) : Prop :=
  (∃ src, solver.graph.Edge .offset src id) ∨ (∃ object, object ∈ solver.handledGEPMap id) ∨
    ∃ kind dst, (solver.graph.node dst).isImmutable = true ∧ solver.graph.Edge kind id dst ∧ ¬solver.AnonNode id

/-- The constraint graphs that are built for a program: nothing enters the anonymous nodes, only addresses enter the
results of gep instructions, and only initializers enter the memory that is never written. -/
structure Built (model : FieldModel Obj) (solver : SolverBase Obj) : Prop where
  sound : solver.graph.Sound
  objects : (solver.objVec.map Prod.snd).Nodup
  nodes : (solver.objVec.map Prod.fst).Nodup
  objNode : ∀ {node}, solver.ObjNode node → node + 1 < solver.graph.nodeNum ∧
    (solver.graph.node node).type = .objNode ∧ (solver.graph.node (node + 1)).type = .ptrNode ∧
    (solver.graph.node (node + 1)).isAnonymous = true
  constant : ∀ {node object}, (node, object) ∈ solver.objVec →
    (solver.graph.node node).isImmutable = model.constant object
  immutable : ∀ {id}, (solver.graph.node id).isImmutable = true → solver.ObjNode id
  kept : ∀ {id}, solver.AnonNode id ∨ (solver.graph.node id).isImmutable = true →
    (solver.graph.node id).superNode = none
  alone : ∀ {id}, solver.AnonNode (solver.graph.root id) ∨
    (solver.graph.node (solver.graph.root id)).isImmutable = true → solver.graph.root id = id
  anon : ∀ {src id}, solver.AnonNode id → ¬solver.graph.Edge .copy src id ∧ ¬solver.graph.Edge .load src id ∧
    ¬solver.graph.Edge .offset src id
  offset : ∀ {src id}, solver.graph.Edge .offset src id → solver.Leaf id
  settled : ∀ {kind src id}, (solver.graph.node id).isImmutable = true → solver.graph.Edge kind src id →
    kind = .copy ∧ (solver.AnonNode src ∨ solver.Leaf src)
  known : ∀ {id object}, object ∈ solver.pts id → object < solver.objVec.length
  addressed : ∀ {index node object}, solver.objVec[index]? = some (node, object) → index ∈ solver.pts (node + 1)
  handled : ∀ {id object}, object ∈ solver.handledGEPMap id →
    solver.Leaf id ∧ id < solver.graph.nodeNum ∧ object < solver.objVec.length

lemma Built.pinned {model : FieldModel Obj} {solver : SolverBase Obj} (h : solver.Built model) {id : ℕ}
    (hp : solver.Pinned id) : solver.Leaf id := by
  rcases hp with ⟨src, he⟩ | ⟨object, hm⟩ | ⟨kind, dst, hi, he, hanon⟩
  · exact h.offset he
  · exact (h.handled hm).1
  · exact (h.settled hi he).2.resolve_left hanon

def PointsTo (solver : SolverBase Obj) (id : ℕ) (object : Obj) : Prop :=
  ∃ index node, solver.objVec[index]? = some (node, object) ∧ index ∈ solver.pts (solver.graph.root id)

structure Justified (model : FieldModel Obj) (holds : Place Obj → Obj → Prop) (special : Prop)
    (solver : SolverBase Obj) : Prop where
  pts : ∀ {id index node object}, index ∈ solver.pts id → solver.objVec[index]? = some (node, object) →
    holds (solver.place id) object
  edge : ∀ {kind src dst}, solver.graph.Edge kind src dst →
    model.Respects holds special kind (solver.place src) (solver.place dst)
  same : ∀ id object, holds (solver.place id) object ↔ holds (solver.place (solver.graph.root id)) object

/-- An edge between the nodes that stand for two nodes; a copy of a node to itself needs none. -/
def Linked (solver : SolverBase Obj) (kind : Constraints) (src dst : ℕ) : Prop :=
  solver.graph.Edge kind (solver.graph.root src) (solver.graph.root dst) ∨
    (kind = .copy ∧ solver.graph.root src = solver.graph.root dst)

def Carries (edges : Constraints → Place Obj → Place Obj → Prop) (solver : SolverBase Obj) : Prop :=
  ∀ {kind p q}, edges kind p q → ∃ src dst, src < solver.graph.nodeNum ∧ dst < solver.graph.nodeNum ∧
    solver.place src = p ∧ solver.place dst = q ∧ solver.Linked kind src dst ∧
    (kind = .offset → solver.graph.root dst = dst)

/-- What a load from a pointer calls for: copies from its objects. -/
def Loaded (solver : SolverBase Obj) (id dst : ℕ) : Prop :=
  ∀ ⦃index node object⦄, index ∈ solver.pts id → solver.objVec[index]? = some (node, object) →
    solver.Linked .copy node dst

/-- What a store through a pointer calls for: copies into its objects, but for memory that is never written. -/
def Stored (model : FieldModel Obj) (solver : SolverBase Obj) (src id : ℕ) : Prop :=
  ∀ ⦃index node object⦄, index ∈ solver.pts id → solver.objVec[index]? = some (node, object) →
    model.constant object = false → solver.Linked .copy src node

structure Done (model : FieldModel Obj) (solver : SolverBase Obj) (id : ℕ) : Prop where
  load : ∀ {dst}, solver.graph.Edge .load id dst → solver.Loaded id dst
  store : ∀ {src}, solver.graph.Edge .store src id → solver.Stored model src id
  offset : ∀ {dst}, solver.graph.Edge .offset id dst → solver.pts id ⊆ solver.handledGEPMap dst

def Indexed (model : FieldModel Obj) (solver : SolverBase Obj) : Prop :=
  ∀ ⦃id index node object field⦄, index ∈ solver.handledGEPMap id → solver.objVec[index]? = some (node, object) →
    model.index id object = some field → ∃ index' node', solver.objVec[index']? = some (node', field) ∧
      (index' ∈ solver.pts id ∨ solver.graph.Edge .copy (node' + 1) id)

structure Closed (model : FieldModel Obj) (solver : SolverBase Obj) : Prop where
  copy : ∀ {src dst}, solver.graph.Edge .copy src dst → solver.pts src ⊆ solver.pts dst
  done : ∀ id, solver.Done model id
  indexed : solver.Indexed model

section Places

variable {model : FieldModel Obj} {solver : SolverBase Obj}

lemma objectAt_eq (h : (solver.objVec.map Prod.fst).Nodup) {node : ℕ} {object : Obj} :
    solver.objectAt node = some object ↔ (node, object) ∈ solver.objVec := by
  rw [objectAt, Option.map_eq_some_iff]
  constructor
  · rintro ⟨entry, hfind, rfl⟩
    obtain rfl : entry.1 = node := by simpa using List.find?_some hfind
    exact List.mem_of_find?_eq_some hfind
  · intro hm
    have hsome : (solver.objVec.find? fun entry => entry.1 = node).isSome := by
      rw [List.find?_isSome]
      exact ⟨(node, object), hm, by simp⟩
    obtain ⟨entry, hfind⟩ := Option.isSome_iff_exists.mp hsome
    have hnode : entry.1 = node := by simpa using List.find?_some hfind
    refine ⟨entry, hfind, ?_⟩
    have heq := List.inj_on_of_nodup_map h (List.mem_of_find?_eq_some hfind) hm hnode
    rw [heq]

lemma objectAt_eq_none {node : ℕ} : solver.objectAt node = none ↔ ¬solver.ObjNode node := by
  rw [objectAt, Option.map_eq_none_iff, List.find?_eq_none]
  constructor
  · rintro h ⟨object, hm⟩
    simpa using h _ hm
  · intro h entry hm hnode
    obtain rfl : entry.1 = node := by simpa using hnode
    exact h ⟨entry.2, hm⟩

lemma Built.place_node (h : solver.Built model) {node : ℕ} {object : Obj} (hm : (node, object) ∈ solver.objVec) :
    solver.place node = .cell object := by
  rw [place, (objectAt_eq h.nodes).mpr hm]

lemma Built.not_objNode (h : solver.Built model) {id : ℕ} (ha : solver.AnonNode id) : ¬solver.ObjNode id := by
  obtain ⟨node, hnode, rfl⟩ := ha
  intro hobj
  have hptr := (h.objNode hnode).2.2.1
  rw [(h.objNode hobj).2.1] at hptr
  cases hptr

lemma Built.place_anon (h : solver.Built model) {node : ℕ} {object : Obj} (hm : (node, object) ∈ solver.objVec) :
    solver.place (node + 1) = .address object := by
  have hnone := objectAt_eq_none.mpr (h.not_objNode ⟨node, ⟨object, hm⟩, rfl⟩)
  rw [place, hnone, Nat.add_sub_cancel, (objectAt_eq h.nodes).mpr hm]
  rfl

lemma place_pointer {id : ℕ} (hobj : ¬solver.ObjNode id) (ha : ¬solver.AnonNode id) :
    solver.place id = .pointer id := by
  rw [place, objectAt_eq_none.mpr hobj]
  by_cases hid : id = 0
  · subst hid
    cases solver.objectAt (0 - 1) <;> rfl
  · have hnone : solver.objectAt (id - 1) = none := by
      refine objectAt_eq_none.mpr fun hobj => ha ⟨id - 1, hobj, ?_⟩
      omega
    rw [hnone]

lemma Built.place_cases (h : solver.Built model) (id : ℕ) :
    (∃ object, (id, object) ∈ solver.objVec ∧ solver.place id = .cell object) ∨
    (∃ node object, (node, object) ∈ solver.objVec ∧ id = node + 1 ∧ solver.place id = .address object) ∨
    (¬solver.ObjNode id ∧ ¬solver.AnonNode id ∧ solver.place id = .pointer id) := by
  by_cases hobj : solver.ObjNode id
  · obtain ⟨object, hm⟩ := hobj
    exact .inl ⟨object, hm, h.place_node hm⟩
  · by_cases ha : solver.AnonNode id
    · obtain ⟨node, ⟨object, hm⟩, rfl⟩ := ha
      exact .inr (.inl ⟨node, object, hm, rfl, h.place_anon hm⟩)
    · exact .inr (.inr ⟨hobj, ha, place_pointer hobj ha⟩)

lemma Built.anonNode_of_place (h : solver.Built model) {id : ℕ} {o : Obj} (hplace : solver.place id = .address o) :
    solver.AnonNode id := by
  rcases h.place_cases id with ⟨object, -, hp⟩ | ⟨node, object, hm, rfl, -⟩ | ⟨-, -, hp⟩
  · rw [hp] at hplace
    cases hplace
  · exact ⟨node, ⟨object, hm⟩, rfl⟩
  · rw [hp] at hplace
    cases hplace

lemma Built.node_eq (h : solver.Built model) {node node' : ℕ} {object : Obj} (hm : (node, object) ∈ solver.objVec)
    (hm' : (node', object) ∈ solver.objVec) : node = node' := by
  have heq := List.inj_on_of_nodup_map h.objects hm hm' rfl
  exact congrArg Prod.fst heq

lemma Built.index_eq (h : solver.Built model) {index index' node node' : ℕ} {object : Obj}
    (hi : solver.objVec[index]? = some (node, object)) (hi' : solver.objVec[index']? = some (node', object)) :
    index = index' := by
  obtain ⟨hlt, heq⟩ := List.getElem?_eq_some_iff.mp hi
  obtain ⟨hlt', heq'⟩ := List.getElem?_eq_some_iff.mp hi'
  have hlen : index < (solver.objVec.map Prod.snd).length := by simpa using hlt
  have hlen' : index' < (solver.objVec.map Prod.snd).length := by simpa using hlt'
  have hobject : (solver.objVec.map Prod.snd)[index] = (solver.objVec.map Prod.snd)[index'] := by simp [heq, heq']
  exact (List.Nodup.getElem_inj_iff h.objects).mp hobject

lemma Built.place_injective (h : solver.Built model) : Function.Injective solver.place := by
  intro id id' heq
  rcases h.place_cases id with ⟨object, hm, hp⟩ | ⟨node, object, hm, rfl, hp⟩ | ⟨-, -, hp⟩ <;>
    rcases h.place_cases id' with ⟨object', hm', hp'⟩ | ⟨node', object', hm', rfl, hp'⟩ | ⟨-, -, hp'⟩ <;>
    rw [hp, hp'] at heq
  · obtain rfl := Place.cell.inj heq
    exact h.node_eq hm hm'
  · cases heq
  · cases heq
  · cases heq
  · obtain rfl := Place.address.inj heq
    rw [h.node_eq hm hm']
  · cases heq
  · cases heq
  · cases heq
  · exact Place.pointer.inj heq

end Places

end SolverBase

end OpenRace
