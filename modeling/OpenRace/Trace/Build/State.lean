import OpenRace.IR.Builder
import OpenRace.Trace.Event
import Mathlib.Data.List.AList

/-! State of the trace builder. -/

namespace OpenRace

open LLVM

structure CallGraphNode (Ctx : Type) where
  context : Ctx
  function : Function
  isExtFunction : Bool := false
deriving DecidableEq

structure Program (Ctx : Type) where
  getFunctionSummary : Function → Except SummaryError (List IR)
  contextEvolve : Ctx → Instruction → Ctx
  getDirectNodeOrNull : Ctx → Function → Option (CallGraphNode Ctx)
  getResolvedNode : Ctx → Instruction → List (CallGraphNode Ctx)

structure UnjoinedTask (Ctx : Type) where
  forkEvent : ForkEvent Ctx
  forkIR : IR
deriving DecidableEq

structure OpenMPRuntime (Ctx : Type) where
  inTeamsregion : Bool := false
  inSingleRegion : Bool := false
  masterRegions : AList (fun _ : Instruction => Instruction) := ∅
  currentMasterStart : Option Instruction := none
  unjoinedTasks : List (UnjoinedTask Ctx) := []

inductive LogEntry (Ctx : Type)
  | visited (thread : ThreadRef Ctx) (node : CallGraphNode Ctx) (ir : IR) (runtime : OpenMPRuntime Ctx)
  | created (node : CallGraphNode Ctx) (event : Event Ctx)
  | entered (caller callee : CallGraphNode Ctx)

structure ProgramBuildState (Ctx : Type) where
  currentTID : ℕ := 0
  inParallel : Bool := false
  runtime : OpenMPRuntime Ctx := {}
  /-- History variable: the builder writes it and never reads it. -/
  log : List (LogEntry Ctx) := []

structure ThreadBuildState (Ctx : Type) where
  programState : ProgramBuildState Ctx
  thread : ThreadRef Ctx
  events : List (Event Ctx) := []
  childThreads : List (ThreadTrace Ctx) := []
  skipUntil : Option Instruction := none
  /-- Context of the current `EventInfo`; its thread is always `thread`. -/
  einfo : Ctx
  callstack : List Function := []

inductive BuildError
  | outOfFuel
  | summary (error : SummaryError)
  | threadHasNoEntry
  | masterStartWithoutEnd
  | twoMasterStarts
  | masterEndWithoutStart
  | notACall
deriving DecidableEq

namespace ThreadBuildState

variable {Ctx : Type}

def logEntry (state : ThreadBuildState Ctx) (entry : LogEntry Ctx) : ThreadBuildState Ctx :=
  { state with programState.log := state.programState.log ++ [entry] }

def withRuntime (state : ThreadBuildState Ctx) (runtime : OpenMPRuntime Ctx) : ThreadBuildState Ctx :=
  { state with programState.runtime := runtime }

/-- The event that `push_back` appends next. -/
def nextEvent (state : ThreadBuildState Ctx) (type : EventType) (ir : IR)
    (forkEvent : Option (ForkEvent Ctx)) : Event Ctx :=
  ⟨type, state.events.length, state.thread, state.einfo, ir, forkEvent⟩

def push (state : ThreadBuildState Ctx) (node : CallGraphNode Ctx) (type : EventType) (ir : IR)
    (forkEvent : Option (ForkEvent Ctx) := none) : ThreadBuildState Ctx :=
  let event := state.nextEvent type ir forkEvent
  { state.logEntry (.created node event) with events := state.events ++ [event] }

def enter (state : ThreadBuildState Ctx) (node : CallGraphNode Ctx) : ThreadBuildState Ctx :=
  { state with callstack := state.callstack ++ [node.function], einfo := node.context }

def leave (state : ThreadBuildState Ctx) : ThreadBuildState Ctx :=
  { state with callstack := state.callstack.dropLast }

def child (state : ThreadBuildState Ctx) (fork : ForkEvent Ctx) (entry : CallGraphNode Ctx) :
    ThreadBuildState Ctx where
  programState := { state.programState with currentTID := state.programState.currentTID + 1 }
  thread := ⟨state.programState.currentTID + 1, fork :: state.thread.spawnSites⟩
  einfo := entry.context

def trace (state : ThreadBuildState Ctx) : ThreadTrace Ctx :=
  .mk state.thread state.events state.childThreads

end ThreadBuildState

end OpenRace
