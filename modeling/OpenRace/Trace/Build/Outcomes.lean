import OpenRace.Trace.Build.Run

/-! What the traversal of a single statement can do. -/

namespace OpenRace

open LLVM

variable {Ctx : Type}

/-- The state in which the statement is looked at: skipping may end at it. -/
def resume (ir : IR) (state : ThreadBuildState Ctx) : ThreadBuildState Ctx := (shouldSkipIR ir state).2

inductive Asked (node : CallGraphNode Ctx) (ir : IR) (state : ThreadBuildState Ctx) :
    Bool → ThreadBuildState Ctx → Prop
  | team (ht : state.programState.runtime.inTeamsregion = true) (hs : isOpenMPTeamSpecific ir = true) :
      Asked node ir state true state
  | single (h : ir.type = .openMPTaskFork) (hs : state.programState.runtime.inSingleRegion = true)
      (hm : isOpenMPMasterThread state.thread = false) : Asked node ir state true state
  | forkTeams (h : ir.type = .openMPForkTeams) : Asked node ir state false
      (state.withRuntime { state.programState.runtime with inTeamsregion := true })
  | joins (h : ir.type = .openMPBarrier ∨ ir.type = .openMPTaskWait ∨ ir.type = .openMPJoin)
      (ht : ir.type = .openMPBarrier → state.programState.runtime.inTeamsregion = false) :
      Asked node ir state false (OpenMPRuntime.joinTasks node state)
  | masterStart (h : ir.type = .openMPMasterStart) (hm : isOpenMPMasterThread state.thread = true)
      (hn : state.programState.runtime.currentMasterStart = none) : Asked node ir state false
      (state.withRuntime { state.programState.runtime with currentMasterStart := some ir.inst })
  | masterSkip (h : ir.type = .openMPMasterStart) (hm : isOpenMPMasterThread state.thread = false)
      (last : Instruction) (hl : state.programState.runtime.masterRegions.lookup ir.inst = some last) :
      Asked node ir state true { state with skipUntil := some last }
  | masterEnd (h : ir.type = .openMPMasterEnd) (hm : isOpenMPMasterThread state.thread = true)
      (start : Instruction) (hs : state.programState.runtime.currentMasterStart = some start) :
      Asked node ir state false
        (state.withRuntime (state.programState.runtime.markMasterEnd start ir.inst))
  | otherEnd (h : ir.type = .openMPMasterEnd) (hm : isOpenMPMasterThread state.thread = false) :
      Asked node ir state false state
  | singleStart (h : ir.type = .openMPSingleStart) : Asked node ir state false
      (state.withRuntime { state.programState.runtime with inSingleRegion := true })
  | singleEnd (h : ir.type = .openMPSingleEnd) : Asked node ir state false
      (state.withRuntime { state.programState.runtime with inSingleRegion := false })
  | other (h : ir.type ∉ [.openMPForkTeams, .openMPBarrier, .openMPTaskWait, .openMPJoin,
        .openMPMasterStart, .openMPMasterEnd, .openMPSingleStart, .openMPSingleEnd])
      (hs : ir.type = .openMPTaskFork → state.programState.runtime.inSingleRegion = true →
        isOpenMPMasterThread state.thread = true)
      (ht : state.programState.runtime.inTeamsregion = true → isOpenMPTeamSpecific ir = false) :
      Asked node ir state false state

lemma asked_of_preVisit {node : CallGraphNode Ctx} {ir : IR} {state asked : ThreadBuildState Ctx}
    {skip : Bool} (h : OpenMPRuntime.preVisit node ir state = .ok (skip, asked)) :
    Asked node ir state skip asked := by
  rw [OpenMPRuntime.preVisit] at h
  split at h
  · rename_i hteam
    obtain ⟨rfl, rfl⟩ : true = skip ∧ state = asked := by simpa using h
    rw [Bool.and_eq_true] at hteam
    exact .team hteam.1 hteam.2
  · rename_i hteam
    split at h
    · rename_i hsingle
      obtain ⟨rfl, rfl⟩ : true = skip ∧ state = asked := by simpa using h
      simp only [Bool.and_eq_true, decide_eq_true_eq, Bool.not_eq_true'] at hsingle
      exact .single hsingle.1.1 hsingle.1.2 hsingle.2
    · rename_i hsingle
      split at h
      · rename_i htype
        obtain ⟨rfl, rfl⟩ := by simpa using h
        exact .forkTeams htype
      · rename_i htype
        obtain ⟨rfl, rfl⟩ := by simpa using h
        exact .joins (Or.inl htype) (fun _ => by simpa [isOpenMPTeamSpecific, htype] using hteam)
      · rename_i htype
        obtain ⟨rfl, rfl⟩ := by simpa using h
        exact .joins (Or.inr (Or.inl htype)) (fun hb => by simp [htype] at hb)
      · rename_i htype
        obtain ⟨rfl, rfl⟩ := by simpa using h
        exact .joins (Or.inr (Or.inr htype)) (fun hb => by simp [htype] at hb)
      · rename_i htype
        split at h
        · rename_i hm
          split at h
          · exact absurd h (by simp)
          · rename_i hn
            obtain ⟨rfl, rfl⟩ := by simpa using h
            exact .masterStart htype hm hn
        · rename_i hm
          split at h
          · rename_i last hl
            obtain ⟨rfl, rfl⟩ := by simpa using h
            exact .masterSkip htype (by simpa using hm) last hl
          · exact absurd h (by simp)
      · rename_i htype
        split at h
        · rename_i hm
          split at h
          · rename_i start hs
            obtain ⟨rfl, rfl⟩ := by simpa using h
            exact .masterEnd htype hm start hs
          · exact absurd h (by simp)
        · rename_i hm
          obtain ⟨rfl, rfl⟩ := by simpa using h
          exact .otherEnd htype (by simpa using hm)
      · rename_i htype
        obtain ⟨rfl, rfl⟩ := by simpa using h
        exact .singleStart htype
      · rename_i htype
        obtain ⟨rfl, rfl⟩ := by simpa using h
        exact .singleEnd htype
      · obtain ⟨rfl, rfl⟩ := by simpa using h
        refine .other (by simp; tauto) ?_ ?_
        · intro htype hin
          simpa [htype, hin] using hsingle
        · intro hin
          simpa [hin] using hteam

/-- Event of the statements that the traversal only records. -/
def IRKind.plainEvent : IRKind → Option EventType
  | .read => some .read
  | .write => some .write
  | .join => some .join
  | .lock => some .lock
  | .unlock => some .unlock
  | .barrier => some .barrier
  | .fork => none
  | .call => none

def forked (node : CallGraphNode Ctx) (ir : IR) (fork : ForkEvent Ctx)
    (state : ThreadBuildState Ctx) : ThreadBuildState Ctx :=
  let state := state.push node .fork ir
  { state with
    programState.inParallel := true
    programState.runtime := state.programState.runtime.preFork ir fork }

/-- Node that a call statement leads to, if it is followed or recorded at all. -/
def Program.callee (program : Program Ctx) (context : Ctx) (inst : Instruction) :
    Option (CallGraphNode Ctx) :=
  match inst with
  | .call call =>
    if call.isIndirectCall then none
    else match resolveTargetFunction call with
      | none => none
      | some callee =>
        if callee.isIntrinsic || callee.isDebugInfoForProfiling then none
        else program.getDirectNodeOrNull (program.contextEvolve context inst) callee
  | _ => none

inductive Dispatched (program : Program Ctx) (node : CallGraphNode Ctx) (ir : IR)
    (state : ThreadBuildState Ctx) : VisitStep Ctx → Prop
  | plain (type : EventType) (h : ir.type.kind.plainEvent = some type) :
      Dispatched program node ir state (.next (state.push node type ir))
  | recursiveFork (h : ir.type.kind = .fork) (entry : CallGraphNode Ctx)
      (he : program.getThreadEntry (state.nextEvent .fork ir none).asFork = some entry)
      (hr : isRecursiveThreadSpawn program entry.function 2 state.thread.spawnSites 1 = true) :
      Dispatched program node ir state (.next state)
  | fork (h : ir.type.kind = .fork) (entry : CallGraphNode Ctx)
      (he : program.getThreadEntry (state.nextEvent .fork ir none).asFork = some entry)
      (hr : isRecursiveThreadSpawn program entry.function 2 state.thread.spawnSites 1 = false) :
      Dispatched program node ir state (.fork (state.nextEvent .fork ir none).asFork entry
        (forked node ir (state.nextEvent .fork ir none).asFork state))
  | noCall (h : ir.type.kind = .call) (hc : program.callee node.context ir.inst = none) :
      Dispatched program node ir state (.next state)
  | externCall (h : ir.type.kind = .call) (callee : CallGraphNode Ctx)
      (hc : program.callee node.context ir.inst = some callee) (he : callee.isExtFunction = true) :
      Dispatched program node ir state (.next (state.push node .externCall ir))
  | call (h : ir.type.kind = .call) (callee : CallGraphNode Ctx)
      (hc : program.callee node.context ir.inst = some callee) (he : callee.isExtFunction = false) :
      Dispatched program node ir state (.call callee (state.push node .call ir))

lemma dispatched_of_visitFork {program : Program Ctx} {node : CallGraphNode Ctx} {ir : IR}
    {state : ThreadBuildState Ctx} {step : VisitStep Ctx} (hkind : ir.type.kind = .fork)
    (h : visitFork program node ir state = .ok step) : Dispatched program node ir state step := by
  rw [visitFork] at h
  split at h
  · exact absurd h (by simp)
  · rename_i entry he
    split at h
    · rename_i hr
      obtain rfl := by simpa using h
      exact .recursiveFork hkind entry he hr
    · rename_i hr
      obtain rfl := by simpa using h
      exact .fork hkind entry he (by simpa using hr)

lemma dispatched_of_visitCall {program : Program Ctx} {node : CallGraphNode Ctx} {ir : IR}
    {state : ThreadBuildState Ctx} {step : VisitStep Ctx} (hkind : ir.type.kind = .call)
    (h : visitCall program node ir state = .ok step) : Dispatched program node ir state step := by
  rw [visitCall] at h
  split at h
  · rename_i call hinst
    split at h
    · rename_i hindirect
      obtain rfl := by simpa using h
      refine .noCall hkind ?_
      rw [hinst]
      exact if_pos hindirect
    · rename_i hindirect
      have hcallee : program.callee node.context ir.inst =
          match resolveTargetFunction call with
          | none => none
          | some callee => if callee.isIntrinsic || callee.isDebugInfoForProfiling then none
            else program.getDirectNodeOrNull (program.contextEvolve node.context ir.inst) callee := by
        rw [hinst]
        exact if_neg hindirect
      split at h
      · rename_i hresolve
        obtain rfl := by simpa using h
        exact .noCall hkind (by rw [hcallee, hresolve])
      · rename_i callee hresolve
        rw [hresolve] at hcallee
        split at h
        · rename_i hskip
          obtain rfl := by simpa using h
          exact .noCall hkind (hcallee.trans (if_pos hskip))
        · rename_i hskip
          have hdirect := hcallee.trans (if_neg hskip)
          split at h
          · rename_i hnone
            obtain rfl := by simpa using h
            exact .noCall hkind (hdirect.trans hnone)
          · rename_i directNode hsome
            split at h
            · rename_i hext
              obtain rfl := by simpa using h
              exact .externCall hkind directNode (hdirect.trans hsome) hext
            · rename_i hext
              obtain rfl := by simpa using h
              exact .call hkind directNode (hdirect.trans hsome) (by simpa using hext)
  · exact absurd h (by simp)

lemma dispatched_of_dispatch {program : Program Ctx} {node : CallGraphNode Ctx} {ir : IR}
    {state : ThreadBuildState Ctx} {step : VisitStep Ctx}
    (h : dispatch program node ir state = .ok step) : Dispatched program node ir state step := by
  rw [dispatch] at h
  cases hkind : ir.type.kind with
  | fork => exact dispatched_of_visitFork hkind (by simpa [hkind] using h)
  | call => exact dispatched_of_visitCall hkind (by simpa [hkind] using h)
  | read | write | join | lock | unlock | barrier =>
    obtain rfl := by simpa [hkind] using h
    exact .plain _ (by rw [hkind]; rfl)

def VisitStep.state : VisitStep Ctx → ThreadBuildState Ctx
  | .next state => state
  | .call _ state => state
  | .fork _ _ state => state

/-- The record of a visit, made before the runtime model is asked. -/
def recordVisit (node : CallGraphNode Ctx) (ir : IR) (state : ThreadBuildState Ctx) :
    ThreadBuildState Ctx :=
  (resume ir state).logEntry
    (.visited (resume ir state).thread node ir (resume ir state).programState.runtime)

def passes (ir : IR) (state : ThreadBuildState Ctx) : Bool :=
  (shouldSkipIR ir state).1 || isBeforeParallel ir (resume ir state)

lemma visitStart_eq (program : Program Ctx) (node : CallGraphNode Ctx) (ir : IR) (state : ThreadBuildState Ctx) :
    visitStart program node ir state =
      if passes ir state then .ok (.next (resume ir state))
      else OpenMPRuntime.preVisit node ir (recordVisit node ir state) >>= fun result =>
        if result.1 then .ok (.next result.2) else dispatch program node ir result.2 := rfl

lemma visitStart_cases {program : Program Ctx} {node : CallGraphNode Ctx} {ir : IR}
    {state : ThreadBuildState Ctx} {step : VisitStep Ctx} (h : visitStart program node ir state = .ok step) :
    passes ir state = true ∧ step = .next (resume ir state) ∨ passes ir state = false ∧
      ((∃ skipped, OpenMPRuntime.preVisit node ir (recordVisit node ir state) = .ok (true, skipped) ∧
        step = .next skipped) ∨
      ∃ asked, OpenMPRuntime.preVisit node ir (recordVisit node ir state) = .ok (false, asked) ∧
        dispatch program node ir asked = .ok step) := by
  rw [visitStart_eq] at h
  split at h
  · rename_i hpass
    exact Or.inl ⟨hpass, by simpa using h.symm⟩
  · rename_i hpass
    refine Or.inr ⟨by simpa using hpass, ?_⟩
    cases hpre : OpenMPRuntime.preVisit node ir (recordVisit node ir state) with
    | error e => simp [hpre, bind, Except.bind] at h
    | ok result =>
      obtain ⟨skip, asked⟩ := result
      simp only [hpre, bind, Except.bind] at h
      cases skip with
      | true => exact Or.inl ⟨asked, rfl, by simpa using h.symm⟩
      | false => exact Or.inr ⟨asked, rfl, by simpa using h⟩

end OpenRace
