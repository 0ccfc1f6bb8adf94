import OpenRace.LLVM.BitVector
import OpenRace.Library.DoWhile
import OpenRace.PointerAnalysis.Graph.SCCIterator
import OpenRace.PointerAnalysis.Solver.SolverBase

/-! The solver that visits only the part of the constraint graph that has changed. -/

namespace OpenRace

/-- Bits that are not set stand for nodes that are not handled yet, and for new targets. -/
structure PartialUpdateSolver (Obj : Type) extends SolverBase Obj where
  copyWorkList : BitVector := BitVector.empty
  lsWorkList : BitVector := BitVector.empty
  targetList : BitVector := BitVector.empty
  requiredEdge : Finset ℕ := ∅

namespace PartialUpdateSolver

variable {Obj : Type}

def hashEdgeLimit : ℕ := 1000032953

section Edges

-- the hash value of two nodes
variable (hash : ℕ → ℕ → ℕ)

def hashEdge (src dst : ℕ) : ℕ := hash src dst % hashEdgeLimit

/-- Nodes that are new have no bits yet. -/
def resetOld (vector : BitVector) (id : ℕ) : Option BitVector :=
  if id < vector.size then vector.reset id else some vector

def recordCopyEdge (solver : PartialUpdateSolver Obj) (src dst : ℕ) : Option (PartialUpdateSolver Obj) := do
  let copyWorkList ← resetOld solver.copyWorkList src
  let targetList ← resetOld solver.targetList dst
  return { solver with copyWorkList, targetList, requiredEdge := insert (hashEdge hash src dst) solver.requiredEdge }

def recordCopyEdges (solver : PartialUpdateSolver Obj) (edges : List (ℕ × ℕ)) : Option (PartialUpdateSolver Obj) :=
  edges.foldlM (fun solver edge => solver.recordCopyEdge hash edge.1 edge.2) solver

def shouldProcessCopy (solver : PartialUpdateSolver Obj) (src dst : ℕ) : Option Bool := do
  let srcUnchanged ← solver.lsWorkList.test src
  if !srcUnchanged then return true
  else
    let isDstTarget ← solver.targetList.test dst
    let isSrcHandled ← solver.copyWorkList.test src
    return !isDstTarget && !isSrcHandled && decide (hashEdge hash src dst ∈ solver.requiredEdge)

/-- The body of the loops over the successors of a node: a target that has changed is to be revisited. -/
def copyTo (src : ℕ) (solver : PartialUpdateSolver Obj) (dst : ℕ) : Option (PartialUpdateSolver Obj) :=
  let (changed, base) := solver.processCopy src dst
  if changed then (solver.lsWorkList.reset dst).map fun lsWorkList => { solver with toSolverBase := base, lsWorkList }
  else some { solver with toSolverBase := base }

def mergeInto (superNode : ℕ) (solver : PartialUpdateSolver Obj) (node : ℕ) : Option (PartialUpdateSolver Obj) := do
  let isNodeTarget ← solver.targetList.test node
  let targetList ← if !isNodeTarget then solver.targetList.reset superNode else some solver.targetList
  let merged := (solver.processCopy node superNode).2
  return { solver with
    toSolverBase := { merged with pts := Function.update merged.pts node ∅ }
    targetList }

/-- The points-to sets and the edges of a component go to its first node. -/
def processCopySCC (solver : PartialUpdateSolver Obj) (superNode : ℕ) (rest : List ℕ) :
    Option (PartialUpdateSolver Obj) := do
  let solver ← rest.foldlM (mergeInto superNode) solver
  let lsWorkList ← solver.lsWorkList.reset superNode
  let graph ← solver.graph.collapseSCCTo (superNode :: rest) superNode
  let updatedFunPtrs :=
    if graph.isFunctionPtr superNode then insert superNode solver.updatedFunPtrs else solver.updatedFunPtrs
  let solver := { solver with graph, lsWorkList, updatedFunPtrs }
  (graph.copySuccs superNode).foldlM (copyTo superNode) solver

def copyToDue (curNode : ℕ) (solver : PartialUpdateSolver Obj) (dst : ℕ) : Option (PartialUpdateSolver Obj) := do
  let should ← solver.shouldProcessCopy hash curNode dst
  if should then solver.copyTo curNode dst else some solver

def copyNode (solver : PartialUpdateSolver Obj) (curNode : ℕ) : Option (PartialUpdateSolver Obj) :=
  (solver.graph.copySuccs curNode).foldlM (copyToDue hash curNode) solver

def processSCC (solver : PartialUpdateSolver Obj) (scc : List ℕ) : Option (PartialUpdateSolver Obj) :=
  match scc with
  | [] => none
  | [curNode] => solver.copyNode hash curNode
  | superNode :: rest => solver.processCopySCC superNode rest

/-- The components are stacked, and popped in topological order. -/
def copyPhase (solver : PartialUpdateSolver Obj) : Option (PartialUpdateSolver Obj) := do
  let sccs ← SCCIterator.emitted solver.graph .copy false solver.copyWorkList.bits
  let solver ← sccs.reverse.foldlM (processSCC hash) solver
  return { solver with
    copyWorkList := solver.copyWorkList.setAll, targetList := solver.targetList.setAll, requiredEdge := ∅ }

def storeFrom (curNode : ℕ) (solver : PartialUpdateSolver Obj) (src : ℕ) : Option (PartialUpdateSolver Obj) := do
  let (called, base) ← solver.processStore src curNode
  recordCopyEdges hash { solver with toSolverBase := base } called

def loadInto (curNode : ℕ) (solver : PartialUpdateSolver Obj) (dst : ℕ) : Option (PartialUpdateSolver Obj) := do
  let (called, base) ← solver.processLoad curNode dst
  recordCopyEdges hash { solver with toSolverBase := base } called

end Edges

section Rounds

variable [DecidableEq Obj] (hash : ℕ → ℕ → ℕ) (model : FieldModel Obj)

/-- The edge recorded is that of the anonymous node behind the field object. -/
def offsetInto (curNode : ℕ) (solver : PartialUpdateSolver Obj) (dst : ℕ) : Option (PartialUpdateSolver Obj) := do
  let (called, base) ← solver.processOffset model curNode dst
  recordCopyEdges hash { solver with toSolverBase := base } (called.map fun call => (call.1 + 1, call.2))

/-- The body of the second loop of a round. What special constraints do is left to models of containers, which are
not part of this model: it has no result where there is one. -/
def processNode (solver : PartialUpdateSolver Obj) (curNode : ℕ) : Option (PartialUpdateSolver Obj) := do
  let solver ← (((solver.graph.node curNode).predCons .store).sort (· ≤ ·)).foldlM (storeFrom hash curNode) solver
  let solver ← (((solver.graph.node curNode).succCons .load).sort (· ≤ ·)).foldlM (loadInto hash curNode) solver
  if (solver.graph.node curNode).succCons .special ≠ ∅ then none
  else (((solver.graph.node curNode).succCons .offset).sort (· ≤ ·)).foldlM (offsetInto hash model curNode) solver

/-- The loop leaves its work list as it is. -/
def derivationPhase (solver : PartialUpdateSolver Obj) : Option (PartialUpdateSolver Obj) := do
  let solver ← solver.lsWorkList.unset.foldlM (processNode hash model) solver
  return { solver with
    lsWorkList := ((solver.lsWorkList.resize solver.graph.nodeNum true).setAll).resize solver.graph.nodeNum true
    copyWorkList := solver.copyWorkList.resize solver.graph.nodeNum false
    targetList := solver.targetList.resize solver.graph.nodeNum true }

def round (solver : PartialUpdateSolver Obj) : Option (PartialUpdateSolver Obj) := do
  let solver ← solver.copyPhase hash
  solver.derivationPhase hash model

/-- The loop of `runSolver`, left after at most this many rounds. -/
def runSolver (fuel : ℕ) (solver : PartialUpdateSolver Obj) : Option (PartialUpdateSolver Obj) :=
  Library.doWhile (round hash model) (fun solver => !solver.copyWorkList.all) fuel solver

def start (solver : SolverBase Obj) : PartialUpdateSolver Obj where
  toSolverBase := solver
  copyWorkList := BitVector.empty.resize solver.graph.nodeNum false
  lsWorkList := BitVector.empty.resize solver.graph.nodeNum false
  targetList := BitVector.empty.resize solver.graph.nodeNum false

/-- The call back while indirect calls are resolved: edges that leave nodes below `nodeNum` are handled at once. -/
def onNewConstraint (nodeNum : ℕ) (solver : PartialUpdateSolver Obj) (constraint : Constraints) (src dst : ℕ) :
    Option (PartialUpdateSolver Obj) :=
  match constraint with
  | .copy => if src < nodeNum then solver.recordCopyEdge hash src dst else some solver
  | .offset => if src < nodeNum then solver.offsetInto hash model src dst else some solver
  | .load => if src < nodeNum then solver.loadInto hash src dst else some solver
  | .store => if dst < nodeNum then solver.storeFrom hash dst src else some solver
  | .addrOf => some solver
  | .special => some solver

def addNoticed (nodeNum : ℕ) (solver : PartialUpdateSolver Obj) (addition : Addition Obj) :
    Option (PartialUpdateSolver Obj) := do
  let (call, base) ← solver.toSolverBase.add model addition
  match call with
  | none => some { solver with toSolverBase := base }
  | some (constraint, src, dst) =>
    onNewConstraint hash model nodeNum { solver with toSolverBase := base } constraint src dst

/-- What is asserted after `runSolver`. -/
def finished (solver : PartialUpdateSolver Obj) : Bool :=
  solver.lsWorkList.all && solver.targetList.all && solver.copyWorkList.all && decide (solver.requiredEdge = ∅)

/-- The body of the loop of `solve`. The nodes that were added are to be visited. -/
def solveOnce {lang : LangModel Obj} (fuel : ℕ) (solving : Solving lang (PartialUpdateSolver Obj)) :
    Option (Solving lang (PartialUpdateSolver Obj)) := do
  let solver ← runSolver hash model fuel solving.solver
  if !solver.finished then none
  let solving ← SolverBase.resolveFunPtrs toSolverBase (addNoticed hash model solver.graph.nodeNum)
    (fun solver => { solver with updatedFunPtrs := ∅ }) { solving with solver }
  let solver := solving.solver
  return { solving with solver := { solver with
    lsWorkList := solver.lsWorkList.resize solver.graph.nodeNum false
    targetList := solver.targetList.resize solver.graph.nodeNum false
    copyWorkList := solver.copyWorkList.resize solver.graph.nodeNum false } }

def solve (lang : LangModel Obj) (state : lang.State) (fuel : ℕ) (solver : SolverBase Obj) :
    Option (Solving lang (PartialUpdateSolver Obj)) :=
  Library.doWhile (solveOnce hash model fuel) (fun solving => solving.reanalyze) fuel
    { reanalyze := true, state, solver := start solver, added := [] }

end Rounds

end PartialUpdateSolver

end OpenRace
