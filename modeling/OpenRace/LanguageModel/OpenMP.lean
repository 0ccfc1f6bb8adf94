import Mathlib.Data.List.Basic

/-! Recognisers of runtime functions by name. -/

namespace OpenRace.LanguageModel

def startsWith (name start : String) : Bool := start.toList.isPrefixOf name.toList

namespace LLVMModel

def isDebug (funcName : String) : Bool :=
  funcName == "llvm.dbg.declare" || funcName == "llvm.dbg.value"

def isLifetime (funcName : String) : Bool := startsWith funcName "llvm.lifetime"

def isStackSave (funcName : String) : Bool := funcName == "llvm.stacksave"

def isStackRestore (funcName : String) : Bool := funcName == "llvm.stackrestore"

def isMemcpy (funcName : String) : Bool := startsWith funcName "llvm.memcpy"

def isNoEffect (funcName : String) : Bool :=
  isDebug funcName || isLifetime funcName || isStackSave funcName || isStackRestore funcName ||
    isMemcpy funcName

end LLVMModel

namespace PthreadModel

def isPthreadCreate (funcName : String) : Bool := funcName == "pthread_create"

def isPthreadJoin (funcName : String) : Bool := funcName == "pthread_join"

def isPthreadMutexLock (funcName : String) : Bool := funcName == "pthread_mutex_lock"

def isPthreadMutexUnlock (funcName : String) : Bool := funcName == "pthread_mutex_unlock"

def isPthreadSpinLock (funcName : String) : Bool := funcName == "pthread_spin_lock"

def isPthreadSpinUnlock (funcName : String) : Bool := funcName == "pthread_spin_unlock"

end PthreadModel

namespace OpenMPModel

def isFork (funcName : String) : Bool := funcName == "__kmpc_fork_call"

def isForkTeams (funcName : String) : Bool := funcName == "__kmpc_fork_teams"

def isForStaticInit (funcName : String) : Bool :=
  ["__kmpc_for_static_init_4", "__kmpc_for_static_init_4u", "__kmpc_for_static_init_8",
    "__kmpc_for_static_init_8u"].contains funcName

def isForStaticFini (funcName : String) : Bool := funcName == "__kmpc_for_static_fini"

def isForDispatchInit (funcName : String) : Bool := startsWith funcName "__kmpc_dispatch_init"

def isForDispatchNext (funcName : String) : Bool := startsWith funcName "__kmpc_dispatch_next"

def isForDispatchFini (funcName : String) : Bool := startsWith funcName "__kmpc_dispatch_fini"

def isSingleStart (funcName : String) : Bool := funcName == "__kmpc_single"

def isSingleEnd (funcName : String) : Bool := funcName == "__kmpc_end_single"

def isBarrier (funcName : String) : Bool := funcName == "__kmpc_barrier"

def isReduceStart (funcName : String) : Bool := funcName == "__kmpc_reduce"

def isReduceEnd (funcName : String) : Bool := funcName == "__kmpc_end_reduce"

def isReduceNowaitStart (funcName : String) : Bool := funcName == "__kmpc_reduce_nowait"

def isReduceNowaitEnd (funcName : String) : Bool := funcName == "__kmpc_end_reduce_nowait"

def isCriticalStart (funcName : String) : Bool := funcName == "__kmpc_critical"

def isCriticalEnd (funcName : String) : Bool := funcName == "__kmpc_end_critical"

def isMasterStart (funcName : String) : Bool := funcName == "__kmpc_master"

def isMasterEnd (funcName : String) : Bool := funcName == "__kmpc_end_master"

def isSetLock (funcName : String) : Bool := funcName == "omp_set_lock"

def isUnsetLock (funcName : String) : Bool := funcName == "omp_unset_lock"

def isTaskAlloc (funcName : String) : Bool := funcName == "__kmpc_omp_task_alloc"

def isTask (funcName : String) : Bool := funcName == "__kmpc_omp_task"

def isTaskWait (funcName : String) : Bool := funcName == "__kmpc_omp_taskwait"

def isSetNestLock (funcName : String) : Bool := funcName == "omp_set_nest_lock"

def isUnsetNestLock (funcName : String) : Bool := funcName == "omp_unset_nest_lock"

def isOrderedStart (funcName : String) : Bool := funcName == "__kmpc_ordered"

def isOrderedEnd (funcName : String) : Bool := funcName == "__kmpc_end_ordered"

def isNoEffect (funcName : String) : Bool :=
  ["__kmpc_push_num_threads", "__kmpc_global_thread_num", "__kmpc_copyprivate",
    "__kmpc_push_num_teams"].contains funcName ||
    isReduceEnd funcName || isReduceNowaitEnd funcName || isTaskAlloc funcName

def isOpenMP (funcName : String) : Bool := startsWith funcName "__kmpc"

def isOutlined (funcName : String) : Bool := startsWith funcName ".omp_outlined."

def isGetThreadNum (funcName : String) : Bool := funcName == "omp_get_thread_num"

def isGetThreadNumGuardStart (funcName : String) : Bool :=
  funcName == "omp_get_thread_num_guard_start"

def isGetThreadNumGuardEnd (funcName : String) : Bool :=
  funcName == "omp_get_thread_num_guard_end"

end OpenMPModel

end OpenRace.LanguageModel
