import OpenRace.Analysis.HappensBeforeGraph
import OpenRace.Analysis.ThreadMatching

/-! Construction of the happens-before graph from the traces of all threads. -/

namespace OpenRace

open LLVM

variable {Ctx : Type}

def forkEdge [DecidableEq Ctx] (program : ProgramTrace Ctx) (forkEvent : Event Ctx) :
    Except GraphError (Option (EventPID × EventPID)) := do
  let forkedThread ← getForkedThread forkEvent.asFork program
  return forkedThread.events.head?.map (fun first => (forkEvent.pid, first.pid))

def joinEdge [DecidableEq Ctx] (program : ProgramTrace Ctx) (thread : ThreadTrace Ctx) (joinEvent : Event Ctx) :
    Except GraphError (Option (EventPID × EventPID)) := do
  match ← getJoinedThread program thread joinEvent with
  | none => return none
  | some joinedThread =>
    return joinedThread.events.getLast?.map (fun last => (last.pid, joinEvent.pid))

structure ConstructionState where
  graph : SyncGraph
  lastBarrier : AList (fun _ : Instruction => EventPID)

namespace ConstructionState

def initial : ConstructionState := ⟨SyncGraph.empty, ∅⟩

def addSyncEdge (state : ConstructionState) (edge : Option (EventPID × EventPID)) :
    ConstructionState :=
  { state with graph := state.graph.addSyncEdges edge.toList }

def barrierEdges (state : ConstructionState) (event : Event Ctx) : List (EventPID × EventPID) :=
  match state.lastBarrier.lookup event.ir.inst with
  | some prevEvent => [(event.pid, prevEvent), (prevEvent, event.pid)]
  | none => []

def addBarrierEdge (state : ConstructionState) (event : Event Ctx) :
    Except GraphError ConstructionState :=
  if event.ir.type = .openMPBarrier then
    .ok {
      graph := state.graph.addSyncEdges (state.barrierEdges event)
      lastBarrier := state.lastBarrier.insert event.ir.inst event.pid }
  else .error .notOpenMPBarrier

variable [DecidableEq Ctx]

def visitEvent (program : ProgramTrace Ctx) (thread : ThreadTrace Ctx) (state : ConstructionState)
    (event : Event Ctx) : Except GraphError ConstructionState :=
  match event.type with
  | .fork => do return state.addSyncEdge (← forkEdge program event)
  | .join => do return state.addSyncEdge (← joinEdge program thread event)
  | .barrier => state.addBarrierEdge event
  | _ => .ok state

def visitThread (program : ProgramTrace Ctx) (state : ConstructionState) (thread : ThreadTrace Ctx) :
    Except GraphError ConstructionState :=
  thread.events.foldlM (visitEvent program thread) state

def visitProgram (program : ProgramTrace Ctx) : Except GraphError ConstructionState :=
  program.threads.foldlM (visitThread program) initial

end ConstructionState

def buildHappensBefore [DecidableEq Ctx] (program : ProgramTrace Ctx) : Except GraphError HappensBeforeGraph := do
  return HappensBeforeGraph.precompute (← ConstructionState.visitProgram program).graph

end OpenRace
