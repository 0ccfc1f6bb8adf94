import Mathlib.Algebra.GroupWithZero.Nat
import OpenRace.Library.ComponentSearch
import OpenRace.PointerAnalysis.Graph.ConstraintEdges

/-! The iterator over the strongly connected components of the edges of one kind. -/

namespace OpenRace

open ComponentSearch

def ConstraintGraph.children (graph : ConstraintGraph) (cons : Constraints) (reverse : Bool) (node : ℕ) : List ℕ :=
  (if reverse then (graph.node node).predCons cons else (graph.node node).succCons cons).sort (· ≤ ·)

/-- Set bits of `visitedNode` stand for nodes that need no start of their own; the frames of `visitStack` hold a
node, the children left and the least number met. -/
structure SCCIterator where
  visitNum : ℕ := 0
  nodeVisitNumbers : ℕ → Option ℕ := fun _ => none
  sccNodeStack : List ℕ := []
  currentSCC : List ℕ := []
  visitedNode : Finset ℕ
  lastRoot : ℕ := 0
  visitStack : List (Frame ℕ) := []

namespace SCCIterator

/-- The number of the nodes in components already given, which no node id reaches. -/
def finished : ℕ := UInt32.size - 1

section Search

variable (children : ℕ → List ℕ)

def DFSVisitOne (it : SCCIterator) (node : ℕ) : SCCIterator := { it with
  visitNum := it.visitNum + 1
  nodeVisitNumbers := Function.update it.nodeVisitNumbers node (some (it.visitNum + 1))
  sccNodeStack := node :: it.sccNodeStack
  visitStack := ⟨node, children node, it.visitNum + 1⟩ :: it.visitStack
  visitedNode := insert node it.visitedNode }

/-- The loop over the children of the node on top, left when they are all looked at. -/
def DFSVisitChildren : ℕ → SCCIterator → Option SCCIterator
  | 0, _ => none
  | fuel + 1, it =>
    match it.visitStack with
    | [] => none
    | top :: rest =>
      match top.next with
      | [] => some it
      | childN :: more =>
        match it.nodeVisitNumbers childN with
        | none =>
          DFSVisitChildren fuel (DFSVisitOne children { it with visitStack := { top with next := more } :: rest } childN)
        | some childNum =>
          DFSVisitChildren fuel { it with
            visitStack := ⟨top.node, more, if childNum < top.low then childNum else top.low⟩ :: rest }

def popSCC (visitingN : ℕ) : List ℕ → List ℕ × List ℕ
  | [] => ([], [])
  | node :: rest =>
    if node = visitingN then ([node], rest) else (node :: (popSCC visitingN rest).1, (popSCC visitingN rest).2)

def propagate (minVisitNum : ℕ) : List (Frame ℕ) → List (Frame ℕ)
  | [] => []
  | parent :: rest => { parent with low := if minVisitNum < parent.low then minVisitNum else parent.low } :: rest

/-- The loop of `GetNextSCC`; `work` is enough for the loops over the children. -/
def nextSCC (work : ℕ) : ℕ → SCCIterator → Option SCCIterator
  | 0, _ => none
  | fuel + 1, it =>
    match it.visitStack with
    | [] => some it
    | _ :: _ => do
      let it ← DFSVisitChildren children work it
      match it.visitStack with
      | [] => none
      | top :: rest =>
        let it := { it with visitStack := propagate top.low rest }
        if it.nodeVisitNumbers top.node ≠ some top.low then nextSCC work fuel it
        else
          let (scc, stack) := popSCC top.node it.sccNodeStack
          some { it with
            currentSCC := scc, sccNodeStack := stack
            nodeVisitNumbers := fun node => if node ∈ scc then some finished else it.nodeVisitNumbers node }

end Search

section Graph

variable (graph : ConstraintGraph) (cons : Constraints) (reverse : Bool)

def work : ℕ := ((List.range graph.nodeNum).map fun node => (graph.children cons reverse node).length).sum + 1

def GetNextSCC (it : SCCIterator) : Option SCCIterator :=
  nextSCC (graph.children cons reverse) (work graph cons reverse) (graph.nodeNum + 1) { it with currentSCC := [] }

def findNextUnset (visitedNode : Finset ℕ) (previous : ℕ) : Option ℕ :=
  (List.range graph.nodeNum).find? fun node => decide (previous < node ∧ node ∉ visitedNode)

/-- The loop of `nextSubGraph`: nodes that have super nodes are skipped. -/
def nextSubGraph : ℕ → SCCIterator → Option SCCIterator
  | 0, _ => none
  | fuel + 1, it =>
    match findNextUnset graph it.visitedNode it.lastRoot with
    | none => some it
    | some root =>
      if (graph.node root).superNode.isSome then nextSubGraph fuel { it with lastRoot := root }
      else GetNextSCC graph cons reverse
        (DFSVisitOne (graph.children cons reverse) { it with lastRoot := root } root)

def next (it : SCCIterator) : Option SCCIterator := do
  let it ← GetNextSCC graph cons reverse it
  if it.currentSCC = [] then nextSubGraph graph cons reverse (graph.nodeNum + 1) it else some it

def sccBegin (workList : Finset ℕ) : Option SCCIterator :=
  match (List.range graph.nodeNum).find? fun node => decide (node ∉ workList) with
  | none => some { visitedNode := workList }
  | some first =>
    GetNextSCC graph cons reverse (DFSVisitOne (graph.children cons reverse) { visitedNode := workList } first)

def givenFrom : ℕ → SCCIterator → Option (List (List ℕ))
  | 0, _ => none
  | fuel + 1, it =>
    if it.visitStack.isEmpty && it.currentSCC.isEmpty then some []
    else do
      let following ← next graph cons reverse it
      let rest ← givenFrom fuel following
      return it.currentSCC :: rest

def emitted (workList : Finset ℕ) : Option (List (List ℕ)) := do
  let it ← sccBegin graph cons reverse workList
  givenFrom graph cons reverse (graph.nodeNum + 1) it

end Graph

end SCCIterator

end OpenRace
