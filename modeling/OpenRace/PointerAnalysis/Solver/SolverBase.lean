import OpenRace.PointerAnalysis.Graph.CollapsedSets

/-! What the solvers share: the constraint graph with its objects and points-to sets, and the constraints solved
one at a time. -/

namespace OpenRace

/-- The object with id `i` and its node are at position `i` of `objVec`. -/
structure SolverBase (Obj : Type) where
  graph : ConstraintGraph
  objVec : List (ℕ × Obj)
  pts : ℕ → Finset ℕ
  handledGEPMap : ℕ → Finset ℕ := fun _ => ∅
  updatedFunPtrs : Finset ℕ := ∅

/-- The memory model: the field that the instruction of a pointer node indexes in an object, if any, and the objects
whose memory is never written. -/
structure FieldModel (Obj : Type) where
  index : ℕ → Obj → Option Obj
  constant : Obj → Bool

namespace ConstraintGraph

def isFunctionPtr (graph : ConstraintGraph) (id : ℕ) : Bool := !decide ((graph.node id).indirectNodes = ∅)

/-- The copy edges that leave a node, in the order in which they are visited. -/
def copySuccs (graph : ConstraintGraph) (node : ℕ) : List ℕ := ((graph.node node).succCons .copy).sort (· ≤ ·)

def hasSuperNode (graph : ConstraintGraph) (id : ℕ) : Bool := (graph.node id).superNode.isSome

end ConstraintGraph

namespace SolverBase

variable {Obj : Type}

section Memory

variable [DecidableEq Obj] (model : FieldModel Obj)

/-- A new node for an object, with the anonymous node that points to the object behind it. -/
def createNode (solver : SolverBase Obj) (object : Obj) : Option (SolverBase Obj) := do
  let node := solver.graph.nodeNum
  let graph ← solver.graph.addCGNode .objNode false
  return { solver with
    graph := if model.constant object then graph.setImmutable node else graph
    objVec := solver.objVec ++ [(node, object)]
    pts := Function.update (Function.update solver.pts node ∅) (node + 1) {solver.objVec.length} }

def findObject (solver : SolverBase Obj) (object : Obj) : Option ℕ :=
  solver.objVec.findIdx? fun entry => entry.2 = object

/-- The id of the field object indexed, which is created when it is indexed for the first time. -/
def indexObject (solver : SolverBase Obj) (object : Obj) (idx : ℕ) : Option (Option ℕ × SolverBase Obj) :=
  match model.index idx object with
  | none => some (none, solver)
  | some field =>
    match solver.findObject field with
    | some id => some (some id, solver)
    | none => (solver.createNode model field).map fun created => (some solver.objVec.length, created)

/-- The body of the loop of `processOffset`. The list is of the calls back, each with its two nodes. -/
def indexField (dst : ℕ) (state : List (ℕ × ℕ) × SolverBase Obj) (object : Obj) :
    Option (List (ℕ × ℕ) × SolverBase Obj) := do
  let (field, solver) ← state.2.indexObject model object dst
  match field with
  | none => return (state.1, solver)
  | some id =>
    if id ∈ solver.pts dst then return (state.1, solver)
    else
      let fieldObj ← solver.objVec[id]?
      let (_, graph) ← solver.graph.addConstraints fieldObj.1 dst .addrOf
      return (state.1 ++ [(fieldObj.1, dst)], { solver with graph })

/-- Only objects that were not indexed before are. -/
def processOffset (solver : SolverBase Obj) (src dst : ℕ) : Option (List (ℕ × ℕ) × SolverBase Obj) :=
  if solver.graph.hasSuperNode src || solver.graph.hasSuperNode dst then none
  else do
    let newGEPs := solver.pts src \ solver.handledGEPMap dst
    let handled := { solver with
      handledGEPMap := Function.update solver.handledGEPMap dst (solver.handledGEPMap dst ∪ newGEPs) }
    let nodeVec ← (newGEPs.sort (· ≤ ·)).mapM fun id => handled.objVec[id]?
    (nodeVec.map Prod.snd).foldlM (indexField model dst) ([], handled)

end Memory

/-- Copies `src` to `dst`. The first result is whether the points-to set of `dst` has changed. -/
def processCopy (solver : SolverBase Obj) (src dst : ℕ) : Bool × SolverBase Obj :=
  let changed := !decide (solver.pts src ⊆ solver.pts dst)
  (changed, { solver with
    pts := Function.update solver.pts dst (solver.pts dst ∪ solver.pts src)
    updatedFunPtrs :=
      if changed && solver.graph.isFunctionPtr dst then insert dst solver.updatedFunPtrs else solver.updatedFunPtrs })

/-- The body of the loops over the nodes of objects, with the calls back so far. -/
def copyEdge (objVec : List (ℕ × Obj)) (edge : ℕ → ℕ × ℕ) (state : List (ℕ × ℕ) × ConstraintGraph) (id : ℕ) :
    Option (List (ℕ × ℕ) × ConstraintGraph) := do
  let object ← objVec[id]?
  let node ← state.2.getSuperNode object.1
  let (added, graph) ← state.2.addConstraints (edge node).1 (edge node).2 .copy
  return (if added then state.1 ++ [edge node] else state.1, graph)

def processObjects (solver : SolverBase Obj) (src dst pointer : ℕ) (edge : ℕ → ℕ × ℕ) :
    Option (List (ℕ × ℕ) × SolverBase Obj) :=
  if solver.graph.hasSuperNode src || solver.graph.hasSuperNode dst then none
  else (((solver.pts pointer).sort (· ≤ ·)).foldlM (copyEdge solver.objVec edge) ([], solver.graph)).map
    fun result => (result.1, { solver with graph := result.2 })

def processLoad (solver : SolverBase Obj) (src dst : ℕ) : Option (List (ℕ × ℕ) × SolverBase Obj) :=
  solver.processObjects src dst src fun node => (node, dst)

def processStore (solver : SolverBase Obj) (src dst : ℕ) : Option (List (ℕ × ℕ) × SolverBase Obj) :=
  solver.processObjects src dst dst fun node => (src, node)

end SolverBase

inductive Addition (Obj : Type)
  | ptrNode
  | objNode (object : Obj)
  | indirectCallNode (id callNode : ℕ)
  | constraint (src dst : ℕ) (kind : Constraints)

/-- The language model: where function pointers are updated, what it adds, and whether it resolved a call. -/
structure LangModel (Obj : Type) where
  State : Type
  updateFunPtrs : State → SolverBase Obj → List (Addition Obj) × Bool × State

/-- The variables of the loop of `solve`. What was added so far is a history: nothing reads it. -/
structure Solving {Obj : Type} (lang : LangModel Obj) (Solver : Type) where
  reanalyze : Bool
  state : lang.State
  solver : Solver
  added : List (Addition Obj)

namespace SolverBase

variable {Obj : Type}

/-- An address is taken through the anonymous node. -/
def edgeSource (graph : ConstraintGraph) (src : ℕ) (kind : Constraints) : Option ℕ :=
  if kind = .addrOf then some (src + 1) else graph.getSuperNode src

/-- The first result is the call back about a new edge, between the nodes that stand for its ends. -/
def addEdge (solver : SolverBase Obj) (src dst : ℕ) (kind : Constraints) :
    Option (Option (Constraints × ℕ × ℕ) × SolverBase Obj) := do
  let (added, graph) ← solver.graph.addConstraints src dst kind
  let solver := { solver with graph }
  if added then
    let source ← edgeSource graph src kind
    let target ← graph.getSuperNode dst
    some (some (if kind = .addrOf then .copy else kind, source, target), solver)
  else some (none, solver)

def add [DecidableEq Obj] (model : FieldModel Obj) (solver : SolverBase Obj) (addition : Addition Obj) :
    Option (Option (Constraints × ℕ × ℕ) × SolverBase Obj) :=
  match addition with
  | .ptrNode => (solver.graph.addCGNode .ptrNode false).map fun graph =>
    (none, { solver with graph, pts := Function.update solver.pts solver.graph.nodeNum ∅ })
  | .objNode object => (solver.createNode model object).map fun solver => (none, solver)
  | .indirectCallNode id callNode => some (none, { solver with
    graph := solver.graph.modify id fun node => { node with indirectNodes := insert callNode node.indirectNodes } })
  | .constraint src dst kind => solver.addEdge src dst kind

/-- The ids of the null object and of the universal object are below. -/
def normalObjStartID : ℕ := 2

def normalNodeStartID : ℕ := 4

def intersectWithNoSpecialNode (solver : SolverBase Obj) (src dst : ℕ) : Bool :=
  decide ((solver.pts src ∩ solver.pts dst).filter fun id => normalObjStartID ≤ id).Nonempty

/-- `alias`. Pointers are given by their nodes; the nodes that these are collapsed into are asked. -/
def aliasPTS (solver : SolverBase Obj) (n1 n2 : ℕ) : Option Bool := do
  let n1 ← solver.graph.getSuperNode n1
  let n2 ← solver.graph.getSuperNode n2
  return solver.intersectWithNoSpecialNode n1 n2

def hasIdenticalPTS (solver : SolverBase Obj) (n1 n2 : ℕ) : Option Bool := do
  let n1 ← solver.graph.getSuperNode n1
  let n2 ← solver.graph.getSuperNode n2
  return decide (solver.pts n1 = solver.pts n2)

def containsPTS (solver : SolverBase Obj) (n1 n2 : ℕ) : Option Bool := do
  let n1 ← solver.graph.getSuperNode n1
  let n2 ← solver.graph.getSuperNode n2
  return decide (solver.pts n2 ⊆ solver.pts n1)

def getPointsTo (solver : SolverBase Obj) (node : ℕ) : Option (List Obj) := do
  let node ← solver.graph.getSuperNode node
  let objNodes ← ((solver.pts node).sort (· ≤ ·)).mapM fun id => solver.objVec[id]?
  return (objNodes.filter fun objNode => normalNodeStartID ≤ objNode.1).map Prod.snd

/-- The language model is asked only where function pointers were updated. -/
def resolveFunPtrs {lang : LangModel Obj} {Solver : Type} (base : Solver → SolverBase Obj)
    (add : Solver → Addition Obj → Option Solver) (clear : Solver → Solver) (solving : Solving lang Solver) :
    Option (Solving lang Solver) :=
  if (base solving.solver).updatedFunPtrs = ∅ then some { solving with reanalyze := false }
  else
    let (additions, reanalyze, state) := lang.updateFunPtrs solving.state (base solving.solver)
    (additions.foldlM add solving.solver).map fun solver =>
      { reanalyze, state, solver := clear solver, added := solving.added ++ additions }

end SolverBase

end OpenRace
