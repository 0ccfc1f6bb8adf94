import OpenRace.Trace.Build.State

/-! The OpenMP runtime model, asked before an instruction is traversed. -/

namespace OpenRace

variable {Ctx : Type}

def isOpenMPTeamSpecific (ir : IR) : Bool :=
  match ir.type with
  | .openMPBarrier | .openMPCriticalStart | .openMPCriticalEnd | .openMPSetLock
  | .openMPUnsetLock => true
  | _ => false

def isOpenMPThread (thread : ThreadRef Ctx) : Option IR :=
  match thread.spawnSite with
  | some fork => if fork.ir.type = .openMPFork then some fork.ir else none
  | none => none

def isOpenMPMasterThread (thread : ThreadRef Ctx) : Bool :=
  match isOpenMPThread thread with
  | some ompThread => ompThread.isForkingMaster
  | none => false

namespace OpenMPRuntime

/-- A region already known keeps its first end. -/
def markMasterEnd (runtime : OpenMPRuntime Ctx) (start «end» : LLVM.Instruction) : OpenMPRuntime Ctx :=
  { runtime with
    masterRegions :=
      if (runtime.masterRegions.lookup start).isSome then runtime.masterRegions
      else runtime.masterRegions.insert start «end»
    currentMasterStart := none }

def taskJoinIR (task : UnjoinedTask Ctx) : IR := ⟨.openMPTaskJoin, task.forkIR.inst, .other⟩

def joinTask (node : CallGraphNode Ctx) (state : ThreadBuildState Ctx) (task : UnjoinedTask Ctx) :
    ThreadBuildState Ctx :=
  state.push node .join (taskJoinIR task) (some task.forkEvent)

def joinTasks (node : CallGraphNode Ctx) (state : ThreadBuildState Ctx) : ThreadBuildState Ctx :=
  let runtime := state.programState.runtime
  (runtime.unjoinedTasks.foldl (joinTask node) state).withRuntime { runtime with unjoinedTasks := [] }

def preVisit (node : CallGraphNode Ctx) (ir : IR) (state : ThreadBuildState Ctx) :
    Except BuildError (Bool × ThreadBuildState Ctx) :=
  let runtime := state.programState.runtime
  if runtime.inTeamsregion && isOpenMPTeamSpecific ir then .ok (true, state)
  else if ir.type = .openMPTaskFork && runtime.inSingleRegion && !isOpenMPMasterThread state.thread then
    .ok (true, state)
  else match ir.type with
    | .openMPForkTeams => .ok (false, state.withRuntime { runtime with inTeamsregion := true })
    | .openMPBarrier | .openMPTaskWait | .openMPJoin => .ok (false, joinTasks node state)
    | .openMPMasterStart =>
      if isOpenMPMasterThread state.thread then
        match runtime.currentMasterStart with
        | some _ => .error .twoMasterStarts
        | none => .ok (false, state.withRuntime { runtime with currentMasterStart := some ir.inst })
      else
        match runtime.masterRegions.lookup ir.inst with
        | some «end» => .ok (true, { state with skipUntil := some «end» })
        | none => .error .masterStartWithoutEnd
    | .openMPMasterEnd =>
      if isOpenMPMasterThread state.thread then
        match runtime.currentMasterStart with
        | some start => .ok (false, state.withRuntime (runtime.markMasterEnd start ir.inst))
        | none => .error .masterEndWithoutStart
      else .ok (false, state)
    | .openMPSingleStart => .ok (false, state.withRuntime { runtime with inSingleRegion := true })
    | .openMPSingleEnd => .ok (false, state.withRuntime { runtime with inSingleRegion := false })
    | _ => .ok (false, state)

def preFork (runtime : OpenMPRuntime Ctx) (forkIR : IR) (forkEvent : ForkEvent Ctx) :
    OpenMPRuntime Ctx :=
  if forkIR.type = .openMPTaskFork then
    { runtime with unjoinedTasks := runtime.unjoinedTasks ++ [⟨forkEvent, forkIR⟩] }
  else runtime

def postFork (runtime : OpenMPRuntime Ctx) (forkIR : IR) : OpenMPRuntime Ctx :=
  if forkIR.type = .openMPForkTeams then { runtime with inTeamsregion := false } else runtime

end OpenMPRuntime

end OpenRace
