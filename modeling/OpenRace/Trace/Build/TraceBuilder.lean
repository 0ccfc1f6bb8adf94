import OpenRace.Trace.Build.OpenMPRuntime

/-! Construction of the trace of a thread, and of the threads it spawns. -/

namespace OpenRace

open LLVM

variable {Ctx : Type}

/-- Whether the statement is skipped, and the state after the target of skipping was reached. -/
def shouldSkipIR (ir : IR) (state : ThreadBuildState Ctx) : Bool × ThreadBuildState Ctx :=
  match state.skipUntil with
  | none => (false, state)
  | some target =>
    if ir.inst ≠ target then (true, state) else (false, { state with skipUntil := none })

def Program.getThreadEntry (program : Program Ctx) (fork : ForkEvent Ctx) : Option (CallGraphNode Ctx) :=
  match fork.ir.getThreadEntry with
  | none => none
  | some (.function entryFunc) =>
    program.getDirectNodeOrNull (program.contextEvolve fork.context fork.ir.inst) entryFunc
  | some _ => (program.getResolvedNode fork.context fork.ir.inst).head?

/-- `count` entries of `entryFunc` have been met on the way up to the main thread. -/
def isRecursiveThreadSpawn (program : Program Ctx) (entryFunc : Function) (n : ℕ) :
    List (ForkEvent Ctx) → ℕ → Bool
  | [], _ => false
  | fork :: rest, count =>
    if (program.getThreadEntry fork).map CallGraphNode.function = some entryFunc then
      if count + 1 ≥ n then true else isRecursiveThreadSpawn program entryFunc n rest (count + 1)
    else isRecursiveThreadSpawn program entryFunc n rest count

inductive VisitStep (Ctx : Type)
  | next (state : ThreadBuildState Ctx)
  | call (callee : CallGraphNode Ctx) (state : ThreadBuildState Ctx)
  | fork (fork : ForkEvent Ctx) (entry : CallGraphNode Ctx) (state : ThreadBuildState Ctx)

def visitFork (program : Program Ctx) (node : CallGraphNode Ctx) (ir : IR)
    (state : ThreadBuildState Ctx) : Except BuildError (VisitStep Ctx) :=
  let fork := (state.nextEvent .fork ir none).asFork
  match program.getThreadEntry fork with
  | none => .error .threadHasNoEntry
  | some entry =>
    -- the same entry is allowed twice in one thread stack
    if isRecursiveThreadSpawn program entry.function 2 state.thread.spawnSites 1 then .ok (.next state)
    else
      let state := state.push node .fork ir
      .ok (.fork fork entry { state with
        programState.inParallel := true
        programState.runtime := state.programState.runtime.preFork ir fork })

def visitCall (program : Program Ctx) (node : CallGraphNode Ctx) (ir : IR)
    (state : ThreadBuildState Ctx) : Except BuildError (VisitStep Ctx) :=
  match ir.inst with
  | .call call =>
    if call.isIndirectCall then .ok (.next state)
    else match resolveTargetFunction call with
      | none => .ok (.next state)
      | some callee =>
        if callee.isIntrinsic || callee.isDebugInfoForProfiling then .ok (.next state)
        else match program.getDirectNodeOrNull (program.contextEvolve node.context ir.inst) callee with
          | none => .ok (.next state)
          | some directNode =>
            if directNode.isExtFunction then .ok (.next (state.push node .externCall ir))
            else .ok (.call directNode (state.push node .call ir))
  | _ => .error .notACall

def dispatch (program : Program Ctx) (node : CallGraphNode Ctx) (ir : IR)
    (state : ThreadBuildState Ctx) : Except BuildError (VisitStep Ctx) :=
  match ir.type.kind with
  | .read => .ok (.next (state.push node .read ir))
  | .write => .ok (.next (state.push node .write ir))
  | .fork => visitFork program node ir state
  | .join => .ok (.next (state.push node .join ir))
  | .lock => .ok (.next (state.push node .lock ir))
  | .unlock => .ok (.next (state.push node .unlock ir))
  | .barrier => .ok (.next (state.push node .barrier ir))
  | .call => visitCall program node ir state

/-- Nothing but forks and calls matters before the first thread is spawned. -/
def isBeforeParallel (ir : IR) (state : ThreadBuildState Ctx) : Bool :=
  !state.programState.inParallel && ir.type.kind != .fork && ir.type.kind != .call

def visitStart (program : Program Ctx) (node : CallGraphNode Ctx) (ir : IR)
    (state : ThreadBuildState Ctx) : Except BuildError (VisitStep Ctx) :=
  let (skip, state) := shouldSkipIR ir state
  if skip || isBeforeParallel ir state then .ok (.next state)
  else do
    let visited := LogEntry.visited state.thread node ir state.programState.runtime
    let (skipThisIR, state) ← OpenMPRuntime.preVisit node ir (state.logEntry visited)
    if skipThisIR then return .next state else dispatch program node ir state

def ThreadBuildState.logCall (state : ThreadBuildState Ctx) (node callee : CallGraphNode Ctx) :
    ThreadBuildState Ctx :=
  if callee.function ∈ state.callstack then state else state.logEntry (.entered node callee)

def ThreadBuildState.finishFork (state : ThreadBuildState Ctx) (ir : IR)
    (childState : ThreadBuildState Ctx) : ThreadBuildState Ctx :=
  { state with
    programState := { childState.programState with
      runtime := childState.programState.runtime.postFork ir }
    childThreads := state.childThreads ++ [childState.trace] }

/-- The traversal of one statement, given that of whole functions. -/
def visit (program : Program Ctx)
    (build : CallGraphNode Ctx → ThreadBuildState Ctx → Except BuildError (ThreadBuildState Ctx))
    (node : CallGraphNode Ctx) (state : ThreadBuildState Ctx) (ir : IR) :
    Except BuildError (ThreadBuildState Ctx) := do
  match ← visitStart program node ir state with
  | .next state => return state
  | .call callee state =>
    return (← build callee (state.logCall node callee)).push node .callEnd ir
  | .fork fork entry state => return state.finishFork ir (← build entry (state.child fork entry))

def buildTrace (program : Program Ctx) :
    ℕ → CallGraphNode Ctx → ThreadBuildState Ctx → Except BuildError (ThreadBuildState Ctx)
  | 0, _, _ => .error .outOfFuel
  | fuel + 1, node, state =>
    if node.function ∈ state.callstack then .ok state
    else match program.getFunctionSummary node.function with
      | .error error => .error (.summary error)
      | .ok summary => do
        let state ← summary.foldlM (visit program (buildTrace program fuel) node) (state.enter node)
        return state.leave

def ThreadBuildState.main (entry : CallGraphNode Ctx) : ThreadBuildState Ctx where
  programState := {}
  thread := ⟨0, []⟩
  einfo := entry.context

def buildMainThread (program : Program Ctx) (fuel : ℕ) (entry : CallGraphNode Ctx) :
    Except BuildError (ThreadBuildState Ctx) :=
  buildTrace program fuel entry (.main entry)

end OpenRace
