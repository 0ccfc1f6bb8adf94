import OpenRace.LLVM.Instructions

/-! The statements that function summaries are made of. -/

namespace OpenRace

open LLVM

inductive IRType
  | load | apiRead | store | apiWrite
  | pthreadCreate | openMPFork | openMPTaskFork | openMPForkTeams
  | pthreadJoin | openMPJoin | openMPTaskJoin | openMPJoinTeams
  | pthreadMutexLock | pthreadSpinLock | openMPCriticalStart | openMPSetLock | openMPOrderedStart
  | pthreadMutexUnlock | pthreadSpinUnlock | openMPCriticalEnd | openMPUnsetLock | openMPOrderedEnd
  | openMPBarrier
  | call | openMPForInit | openMPForFini | openMPDispatchInit | openMPDispatchNext
  | openMPDispatchFini | openMPSingleStart | openMPSingleEnd | openMPReduce | openMPMasterStart
  | openMPMasterEnd | openMPGetThreadNum | openMPTaskWait | openMPGetThreadNumGuardStart
  | openMPGetThreadNumGuardEnd
deriving DecidableEq

inductive IRKind
  | read | write | fork | join | lock | unlock | barrier | call
deriving DecidableEq

def IRType.kind : IRType → IRKind
  | .load | .apiRead => .read
  | .store | .apiWrite => .write
  | .pthreadCreate | .openMPFork | .openMPTaskFork | .openMPForkTeams => .fork
  | .pthreadJoin | .openMPJoin | .openMPTaskJoin | .openMPJoinTeams => .join
  | .pthreadMutexLock | .pthreadSpinLock | .openMPCriticalStart | .openMPSetLock
  | .openMPOrderedStart => .lock
  | .pthreadMutexUnlock | .pthreadSpinUnlock | .openMPCriticalEnd | .openMPUnsetLock
  | .openMPOrderedEnd => .unlock
  | .openMPBarrier => .barrier
  | _ => .call

inductive ThreadType
  | master | other
deriving DecidableEq

structure IR where
  type : IRType
  inst : Instruction
  forkedThreadType : ThreadType := .other
deriving DecidableEq

def IR.args (ir : IR) : List Value :=
  match ir.inst with
  | .call call => call.args
  | _ => []

def IR.isForkingMaster (ir : IR) : Bool := ir.forkedThreadType == .master

/-- Function run by the forked thread; a task finds it in its allocation call. -/
def IR.getThreadEntry (ir : IR) : Option Value :=
  if ir.type = .openMPTaskFork ∨ ir.type = .openMPTaskJoin then
    match ir.args[2]?.map Value.stripPointerCasts with
    | some (.taskAlloc _ entry) => some entry.stripPointerCasts
    | _ => none
  else ir.args[2]?.map Value.stripPointerCasts

def IR.getThreadHandle (ir : IR) : Option Value :=
  if ir.type = .openMPTaskFork ∨ ir.type = .openMPTaskJoin then ir.getThreadEntry
  else ir.args[0]?.map Value.stripPointerCasts

/-- The lock that is taken or given back; a critical section has an argument for its identity. -/
def IR.getLockValue (ir : IR) : Option Value :=
  if ir.type = .openMPCriticalStart ∨ ir.type = .openMPCriticalEnd then ir.args[2]?.map Value.stripPointerCasts
  else ir.args[0]?.map Value.stripPointerCasts

def resolveTargetFunction (call : CallBase) : Option Function :=
  match call.calledOperand with
  | .function f => if f.hasName then some f else none
  | .bitcast (.function f) => some f
  | .globalAlias value =>
    match value.stripPointerCasts with
    | .function f => some f
    | _ => none
  | _ => none

end OpenRace
