import Mathlib.Data.Finset.Sort
import Mathlib.Logic.Function.Basic

/-! The constraint graph: edges of six kinds between nodes, some of which are collapsed into others. -/

namespace OpenRace

inductive Constraints
  | load | store | copy | addrOf | offset | special
deriving DecidableEq

inductive CGNodeKind
  | ptrNode | objNode | superNode
deriving DecidableEq

structure CGNode where
  type : CGNodeKind := .ptrNode
  isAnonymous : Bool := false
  superNode : Option ℕ := none
  childNodes : Finset ℕ := ∅
  isImmutable : Bool := false
  succCons : Constraints → Finset ℕ := fun _ => ∅
  predCons : Constraints → Finset ℕ := fun _ => ∅
  indirectNodes : Finset ℕ := ∅

structure ConstraintGraph where
  nodeNum : ℕ
  node : ℕ → CGNode

namespace ConstraintGraph

def empty : ConstraintGraph := ⟨0, fun _ => {}⟩

def modify (graph : ConstraintGraph) (id : ℕ) (change : CGNode → CGNode) : ConstraintGraph :=
  { graph with node := Function.update graph.node id (change (graph.node id)) }

def setSucc (graph : ConstraintGraph) (src : ℕ) (kind : Constraints) (dst : ℕ) : ConstraintGraph :=
  graph.modify src fun node =>
    { node with succCons := Function.update node.succCons kind (insert dst (node.succCons kind)) }

def setPred (graph : ConstraintGraph) (dst : ℕ) (kind : Constraints) (src : ℕ) : ConstraintGraph :=
  graph.modify dst fun node =>
    { node with predCons := Function.update node.predCons kind (insert src (node.predCons kind)) }

def resetSucc (graph : ConstraintGraph) (src : ℕ) (kind : Constraints) (dst : ℕ) : ConstraintGraph :=
  graph.modify src fun node =>
    { node with succCons := Function.update node.succCons kind ((node.succCons kind).erase dst) }

def resetPred (graph : ConstraintGraph) (dst : ℕ) (kind : Constraints) (src : ℕ) : ConstraintGraph :=
  graph.modify dst fun node =>
    { node with predCons := Function.update node.predCons kind ((node.predCons kind).erase src) }

/-- The loop of `getSuperNode`, left after this many nodes. -/
def followSuper (graph : ConstraintGraph) : ℕ → ℕ → Option ℕ
  | 0, _ => none
  | fuel + 1, id =>
    match (graph.node id).superNode with
    | none => some id
    | some next => graph.followSuper fuel next

def getSuperNode (graph : ConstraintGraph) (id : ℕ) : Option ℕ := graph.followSuper (graph.nodeNum + 1) id

/-- The first result is whether the edge is new; none is a failed assertion. -/
def insertConstraint (graph : ConstraintGraph) (this node : ℕ) (edgeKind : Constraints) :
    Option (Bool × ConstraintGraph) :=
  if edgeKind ≠ .special ∧ (graph.node node).isImmutable then some (false, graph)
  else do
    let src ← graph.getSuperNode this
    let dst ← graph.getSuperNode node
    if src = dst ∧ edgeKind = .copy then some (false, graph)
    else
      let r1 := !decide (dst ∈ (graph.node src).succCons edgeKind)
      let r2 := !decide (src ∈ (graph.node dst).predCons edgeKind)
      if r1 = r2 then some (r1, (graph.setSucc src edgeKind dst).setPred dst edgeKind src) else none

/-- An address is taken of the anonymous node behind an object node. -/
def addConstraints (graph : ConstraintGraph) (src dst : ℕ) (constraint : Constraints) :
    Option (Bool × ConstraintGraph) :=
  if src = dst ∧ constraint = .copy then some (false, graph)
  else if constraint = .addrOf then
    let anonNode := src + 1
    if (graph.node src).type = .objNode ∧ anonNode < graph.nodeNum ∧ (graph.node anonNode).superNode = none ∧
        (graph.node anonNode).type = .ptrNode ∧ (graph.node anonNode).isAnonymous then
      graph.insertConstraint anonNode dst .copy
    else none
  else graph.insertConstraint src dst constraint

def addNewNode (graph : ConstraintGraph) (type : CGNodeKind) (isAnonymous : Bool) : ConstraintGraph where
  nodeNum := graph.nodeNum + 1
  node := Function.update graph.node graph.nodeNum { type, isAnonymous }

def addCGNode (graph : ConstraintGraph) (type : CGNodeKind) (isAnonymous : Bool) : Option ConstraintGraph :=
  let added := graph.addNewNode type isAnonymous
  if type = .objNode then
    ((added.addNewNode .ptrNode true).insertConstraint graph.nodeNum added.nodeNum .addrOf).map Prod.snd
  else some added

def setImmutable (graph : ConstraintGraph) (id : ℕ) : ConstraintGraph :=
  graph.modify id fun node => { node with isImmutable := true }

def setSuperNode (graph : ConstraintGraph) (id superNode : ℕ) : ConstraintGraph :=
  graph.modify id fun node => { node with superNode := some superNode }

def kinds : List Constraints := [.special, .offset, .addrOf, .copy, .store, .load]

def predEdges (graph : ConstraintGraph) (id : ℕ) : List (Constraints × ℕ) :=
  kinds.flatMap fun kind => (((graph.node id).predCons kind).sort (· ≤ ·)).map fun src => (kind, src)

def succEdges (graph : ConstraintGraph) (id : ℕ) : List (Constraints × ℕ) :=
  kinds.flatMap fun kind => (((graph.node id).succCons kind).sort (· ≤ ·)).map fun dst => (kind, dst)

def clearConstraint (id : ℕ) (graph : ConstraintGraph) (kind : Constraints) : ConstraintGraph :=
  let unlinked := (((graph.node id).succCons kind).sort (· ≤ ·)).foldl
    (fun graph target => graph.resetPred target kind id) graph
  let unlinked := (((unlinked.node id).predCons kind).sort (· ≤ ·)).foldl
    (fun graph target => graph.resetSucc target kind id) unlinked
  unlinked.modify id fun node => { node with
    succCons := Function.update node.succCons kind ∅, predCons := Function.update node.predCons kind ∅ }

def clearConstraints (graph : ConstraintGraph) (id : ℕ) : ConstraintGraph :=
  [.load, .store, .copy, .addrOf, .offset, .special].foldl (clearConstraint id) graph

def insertAll (graph : ConstraintGraph) (edges : List (ℕ × Constraints × ℕ)) : Option ConstraintGraph :=
  edges.foldlM (fun graph edge => (graph.insertConstraint edge.1 edge.2.2 edge.2.1).map Prod.snd) graph

def moveNodes (graph : ConstraintGraph) (id superNode : ℕ) : ConstraintGraph :=
  (graph.modify superNode fun node => { node with
    childNodes := node.childNodes ∪ (graph.node id).childNodes
    indirectNodes := node.indirectNodes ∪ (graph.node id).indirectNodes }).modify id
    fun node => { node with childNodes := ∅, indirectNodes := ∅ }

def collapseNode (superNode : ℕ) (graph : ConstraintGraph) (id : ℕ) : Option ConstraintGraph :=
  if id = superNode then some graph
  else do
    let graph ← graph.insertAll ((graph.predEdges id).map fun edge => (edge.2, edge.1, superNode))
    let graph ← graph.insertAll ((graph.succEdges id).map fun edge => (superNode, edge.1, edge.2))
    return ((graph.moveNodes id superNode).clearConstraints id).setSuperNode id superNode

def collapseSCCTo (graph : ConstraintGraph) (scc : List ℕ) (superNode : ℕ) : Option ConstraintGraph :=
  if scc.all fun id => (graph.node id).superNode.isNone then scc.foldlM (collapseNode superNode) graph
  else none

end ConstraintGraph

end OpenRace
