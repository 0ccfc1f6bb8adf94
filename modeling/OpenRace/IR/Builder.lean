import OpenRace.IR.Statement
import OpenRace.LanguageModel.OpenMP

/-! Summaries of function bodies. -/

namespace OpenRace

open LLVM LanguageModel

inductive SummaryError
  /-- `getCalledFunction()` is null where its name is asked for. -/
  | nullCalledFunction
  /-- A fork without duplicate ends its block, and the message prints the next instruction. -/
  | nullNextNode
  | unhandledOpenMPCall
deriving DecidableEq

def hasThreadLocalOperand (pointer : Value) : Bool :=
  match pointer with
  | .globalVariable _ isThreadLocal => isThreadLocal
  | _ => false

inductive RegionKind
  | parallel | teams
deriving DecidableEq

def RegionKind.isForkName : RegionKind → String → Bool
  | .parallel => OpenMPModel.isFork
  | .teams => OpenMPModel.isForkTeams

def RegionKind.forkType : RegionKind → IRType
  | .parallel => .openMPFork
  | .teams => .openMPForkTeams

def RegionKind.joinType : RegionKind → IRType
  | .parallel => .openMPJoin
  | .teams => .openMPJoinTeams

/-- Only parallel regions tell the master's fork from the other one. -/
def RegionKind.firstThread : RegionKind → ThreadType
  | .parallel => .master
  | .teams => .other

inductive CallAction
  | skip
  | push (type : IRType)
  | pair (region : RegionKind)
  | unhandled
deriving DecidableEq

def recognize (funcName : String) : CallAction :=
  if LLVMModel.isNoEffect funcName then .skip
  else if PthreadModel.isPthreadCreate funcName then .push .pthreadCreate
  else if PthreadModel.isPthreadJoin funcName then .push .pthreadJoin
  else if PthreadModel.isPthreadMutexLock funcName then .push .pthreadMutexLock
  else if PthreadModel.isPthreadMutexUnlock funcName then .push .pthreadMutexUnlock
  else if PthreadModel.isPthreadSpinLock funcName then .push .pthreadSpinLock
  else if PthreadModel.isPthreadSpinUnlock funcName then .push .pthreadSpinUnlock
  else if OpenMPModel.isForStaticInit funcName then .push .openMPForInit
  else if OpenMPModel.isForStaticFini funcName then .push .openMPForFini
  else if OpenMPModel.isForDispatchInit funcName then .push .openMPDispatchInit
  else if OpenMPModel.isForDispatchNext funcName then .push .openMPDispatchNext
  else if OpenMPModel.isForDispatchFini funcName then .push .openMPDispatchFini
  else if OpenMPModel.isSingleStart funcName then .push .openMPSingleStart
  else if OpenMPModel.isSingleEnd funcName then .push .openMPSingleEnd
  else if OpenMPModel.isMasterStart funcName then .push .openMPMasterStart
  else if OpenMPModel.isMasterEnd funcName then .push .openMPMasterEnd
  else if OpenMPModel.isBarrier funcName then .push .openMPBarrier
  else if OpenMPModel.isReduceStart funcName || OpenMPModel.isReduceNowaitStart funcName then
    .push .openMPReduce
  else if OpenMPModel.isCriticalStart funcName then .push .openMPCriticalStart
  else if OpenMPModel.isCriticalEnd funcName then .push .openMPCriticalEnd
  else if OpenMPModel.isSetLock funcName then .push .openMPSetLock
  else if OpenMPModel.isUnsetLock funcName then .push .openMPUnsetLock
  else if OpenMPModel.isTask funcName then .push .openMPTaskFork
  else if OpenMPModel.isTaskWait funcName then .push .openMPTaskWait
  else if OpenMPModel.isSetNestLock funcName then .push .openMPSetLock
  else if OpenMPModel.isUnsetNestLock funcName then .push .openMPUnsetLock
  else if OpenMPModel.isGetThreadNum funcName then .push .openMPGetThreadNum
  else if OpenMPModel.isGetThreadNumGuardStart funcName then .push .openMPGetThreadNumGuardStart
  else if OpenMPModel.isGetThreadNumGuardEnd funcName then .push .openMPGetThreadNumGuardEnd
  else if OpenMPModel.isOrderedStart funcName then .push .openMPOrderedStart
  else if OpenMPModel.isOrderedEnd funcName then .push .openMPOrderedEnd
  else if OpenMPModel.isFork funcName then .pair .parallel
  else if OpenMPModel.isForkTeams funcName then .pair .teams
  else if funcName == "printf" then .skip
  else if OpenMPModel.isOpenMP funcName && !OpenMPModel.isNoEffect funcName then .unhandled
  else .push .call

def callAction (call : CallBase) : CallAction :=
  if call.isIndirectCall then .push .call
  else match resolveTargetFunction call with
    | none => .skip
    | some f => if f.isIntrinsic || f.isDebugInfoForProfiling then .skip else recognize f.name

/-- `OpenMPModel::isFork` and `isForkTeams` on a call read the name of its called function. -/
def callsNamed (isName : String → Bool) (call : CallBase) : Except SummaryError Bool :=
  match call.getCalledFunction with
  | none => .error .nullCalledFunction
  | some f => .ok (f.hasName && isName f.name)

def forkPair (region : RegionKind) (fork twin : CallBase) : List IR :=
  [⟨region.forkType, .call fork, region.firstThread⟩, ⟨region.forkType, .call twin, .other⟩,
    ⟨region.joinType, .call fork, .other⟩, ⟨region.joinType, .call twin, .other⟩]

def summarizeAccess (type : IRType) (inst : Instruction) (pointer : Value)
    (isAtomic isVolatile : Bool) : List IR :=
  if isAtomic || isVolatile || hasThreadLocalOperand pointer then [] else [⟨type, inst, .other⟩]

def summarizeBlock : BasicBlock → Except SummaryError (List IR)
  | [] => .ok []
  | .load id pointer isAtomic isVolatile :: rest => do
    return summarizeAccess .load (.load id pointer isAtomic isVolatile) pointer isAtomic isVolatile ++
      (← summarizeBlock rest)
  | .store id pointer isAtomic isVolatile :: rest => do
    return summarizeAccess .store (.store id pointer isAtomic isVolatile) pointer isAtomic isVolatile ++
      (← summarizeBlock rest)
  | .call inst :: rest =>
    match callAction inst with
    | .skip => summarizeBlock rest
    | .push type => do return ⟨type, .call inst, .other⟩ :: (← summarizeBlock rest)
    | .unhandled => .error .unhandledOpenMPCall
    | .pair region =>
      -- the duplicate of a fork is looked for in the very next instruction, and consumed with it
      match rest with
      | .call twin :: afterTwin => do
        if ← callsNamed region.isForkName twin then
          return forkPair region inst twin ++ (← summarizeBlock afterTwin)
        else summarizeBlock (.call twin :: afterTwin)
      | [] => .error .nullNextNode
      | rest => summarizeBlock rest
  | .alloca _ :: rest => summarizeBlock rest
  | .other _ :: rest => summarizeBlock rest

def generateFunctionSummary (blocks : List BasicBlock) : Except SummaryError (List IR) := do
  return (← blocks.mapM summarizeBlock).flatten

end OpenRace
