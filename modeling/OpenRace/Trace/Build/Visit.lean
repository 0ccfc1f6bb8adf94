import OpenRace.Trace.Build.Emits

/-! What a visit does to the tasks and to the single-region flag. -/

namespace OpenRace

open LLVM

variable {Ctx : Type}

def JoinsTasks (ir : IR) (runtime : OpenMPRuntime Ctx) : Prop :=
  ir.type = .openMPTaskWait ∨ ir.type = .openMPJoin ∨
    ir.type = .openMPBarrier ∧ runtime.inTeamsregion = false

instance (ir : IR) (runtime : OpenMPRuntime Ctx) : Decidable (JoinsTasks ir runtime) :=
  inferInstanceAs (Decidable (_ ∨ _ ∨ _ ∧ _))

def OpenMPRuntime.openForks (runtime : OpenMPRuntime Ctx) : List (ForkEvent Ctx) :=
  runtime.unjoinedTasks.map UnjoinedTask.forkEvent

def stepSingle (ir : IR) (inSingle : Bool) : Bool :=
  match ir.type with
  | .openMPSingleStart => true
  | .openMPSingleEnd => false
  | _ => inSingle

def createdAt (node : CallGraphNode Ctx) (events : List (Event Ctx)) : List (LogEntry Ctx) :=
  events.map (.created node)

structure AskedOutcome (node : CallGraphNode Ctx) (ir : IR) (state : ThreadBuildState Ctx)
    (skip : Bool) (asked : ThreadBuildState Ctx) (joins : List (Event Ctx)) : Prop where
  log : asked.log = state.log ++ createdAt node joins
  forks : joins.map Event.forkEvent =
    if JoinsTasks ir state.programState.runtime then state.programState.runtime.openForks.map some else []
  events : ∀ event ∈ joins, event.type = .join ∧ event.thread = state.thread ∧
    event.ir.type = .openMPTaskJoin
  openForks : asked.programState.runtime.openForks =
    if JoinsTasks ir state.programState.runtime then [] else state.programState.runtime.openForks
  inSingle : asked.programState.runtime.inSingleRegion =
    stepSingle ir state.programState.runtime.inSingleRegion
  skips : ir.type = .openMPTaskFork → (skip = true ↔
    state.programState.runtime.inSingleRegion = true ∧ isOpenMPMasterThread state.thread = false)

lemma AskedOutcome.silent {node : CallGraphNode Ctx} {ir : IR} {state asked : ThreadBuildState Ctx}
    {skip : Bool} (hlog : asked.log = state.log)
    (htasks : asked.programState.runtime.unjoinedTasks = state.programState.runtime.unjoinedTasks)
    (hj : ¬ JoinsTasks ir state.programState.runtime) (hs : asked.programState.runtime.inSingleRegion =
      stepSingle ir state.programState.runtime.inSingleRegion)
    (ht : ir.type = .openMPTaskFork → (skip = true ↔
      state.programState.runtime.inSingleRegion = true ∧ isOpenMPMasterThread state.thread = false)) :
    AskedOutcome node ir state skip asked [] := by
  refine ⟨by simp [hlog, createdAt], by simp [hj], by simp, ?_, hs, ht⟩
  rw [if_neg hj, OpenMPRuntime.openForks, htasks, OpenMPRuntime.openForks]

lemma joins_outcome (node : CallGraphNode Ctx) (tasks : List (UnjoinedTask Ctx))
    (state : ThreadBuildState Ctx) : ∃ joins : List (Event Ctx),
    (tasks.foldl (OpenMPRuntime.joinTask node) state).log = state.log ++ createdAt node joins ∧
      joins.map Event.forkEvent = tasks.map (some ∘ UnjoinedTask.forkEvent) ∧
      ∀ event ∈ joins, event.type = .join ∧ event.thread = state.thread ∧
        event.ir.type = .openMPTaskJoin := by
  induction tasks generalizing state with
  | nil => exact ⟨[], by simp [createdAt], rfl, by simp⟩
  | cons task tasks ih =>
    obtain ⟨joins, hlog, hforks, hevents⟩ := ih (OpenMPRuntime.joinTask node state task)
    refine ⟨state.nextEvent .join (OpenMPRuntime.taskJoinIR task) (some task.forkEvent) :: joins,
      ?_, ?_, ?_⟩
    · rw [List.foldl_cons, hlog]
      exact List.append_assoc _ _ _
    · rw [List.map_cons, hforks]
      rfl
    · intro event hevent
      cases hevent with
      | head => exact ⟨rfl, rfl, rfl⟩
      | tail _ hm => exact hevents event hm

lemma askedOutcome_of_asked {node : CallGraphNode Ctx} {ir : IR} {state asked : ThreadBuildState Ctx}
    {skip : Bool} (h : Asked node ir state skip asked) :
    ∃ joins, AskedOutcome node ir state skip asked joins := by
  cases h with
  | team ht hs =>
    refine ⟨[], .silent rfl rfl ?_ ?_ ?_⟩
    · rintro (h | h | ⟨h, hn⟩)
      · simp [isOpenMPTeamSpecific, h] at hs
      · simp [isOpenMPTeamSpecific, h] at hs
      · simp [ht] at hn
    · rw [stepSingle]
      split <;> simp_all [isOpenMPTeamSpecific]
    · intro h
      simp [isOpenMPTeamSpecific, h] at hs
  | single h hs hm =>
    exact ⟨[], .silent rfl rfl (by simp [JoinsTasks, h]) (by simp [stepSingle, h]) (by simp [hs, hm])⟩
  | forkTeams h =>
    exact ⟨[], .silent rfl rfl (by simp [JoinsTasks, h]) (by simp [stepSingle, h]; rfl) (by simp [h])⟩
  | joins h ht =>
    obtain ⟨joins, hlog, hforks, hevents⟩ :=
      joins_outcome node state.programState.runtime.unjoinedTasks state
    have hj : JoinsTasks ir state.programState.runtime := by
      rcases h with h | h | h
      · exact Or.inr (Or.inr ⟨h, ht h⟩)
      · exact Or.inl h
      · exact Or.inr (Or.inl h)
    refine ⟨joins, hlog, ?_, hevents, by rw [if_pos hj]; rfl, ?_, ?_⟩
    · rw [if_pos hj, hforks, OpenMPRuntime.openForks, List.map_map]
    · rcases h with h | h | h <;> simp [stepSingle, h] <;> rfl
    · intro htype
      rcases h with h | h | h <;> simp [h] at htype
  | masterStart h =>
    exact ⟨[], .silent rfl rfl (by simp [JoinsTasks, h]) (by simp [stepSingle, h]; rfl) (by simp [h])⟩
  | masterSkip h =>
    exact ⟨[], .silent rfl rfl (by simp [JoinsTasks, h]) (by simp [stepSingle, h]) (by simp [h])⟩
  | masterEnd h =>
    exact ⟨[], .silent rfl rfl (by simp [JoinsTasks, h]) (by simp [stepSingle, h]; rfl) (by simp [h])⟩
  | otherEnd h =>
    exact ⟨[], .silent rfl rfl (by simp [JoinsTasks, h]) (by simp [stepSingle, h]) (by simp [h])⟩
  | singleStart h =>
    exact ⟨[], .silent rfl rfl (by simp [JoinsTasks, h]) (by simp [stepSingle, h]; rfl) (by simp [h])⟩
  | singleEnd h =>
    exact ⟨[], .silent rfl rfl (by simp [JoinsTasks, h]) (by simp [stepSingle, h]; rfl) (by simp [h])⟩
  | other h hs =>
    refine ⟨[], .silent rfl rfl ?_ ?_ ?_⟩
    · simp only [List.mem_cons, not_or] at h
      rintro (h' | h' | ⟨h', -⟩)
      · exact h.2.2.1 h'
      · exact h.2.2.2.1 h'
      · exact h.2.1 h'
    · rw [stepSingle]
      split <;> simp_all
    · intro htype
      cases hin : state.programState.runtime.inSingleRegion with
      | false => simp
      | true => simp [hs htype hin]

def Event.taskFork (event : Event Ctx) : Option (ForkEvent Ctx) :=
  if event.type = .fork ∧ event.ir.type = .openMPTaskFork then some event.asFork else none

def RecursiveSpawn (program : Program Ctx) (thread : ThreadRef Ctx) (ir : IR) : Prop :=
  ∃ pid context entry, program.getThreadEntry ⟨pid, context, ir⟩ = some entry ∧
    isRecursiveThreadSpawn program entry.function 2 thread.spawnSites 1 = true

/-- Only a step that forks has a fork event, and it has nothing else. -/
def VisitStep.Forks (own : List (Event Ctx)) : VisitStep Ctx → Prop
  | .fork spawn _ _ => ∃ event, own = [event] ∧ event.type = .fork ∧ event.asFork = spawn
  | _ => ∀ event ∈ own, event.type ≠ .fork

structure DispatchOutcome (program : Program Ctx) (node : CallGraphNode Ctx) (ir : IR)
    (state : ThreadBuildState Ctx) (step : VisitStep Ctx) (own : List (Event Ctx)) : Prop where
  log : step.state.log = state.log ++ createdAt node own
  events : ∀ event ∈ own, event.forkEvent = none ∧ event.ir = ir ∧ event.thread = state.thread
  openForks : step.state.programState.runtime.openForks =
    state.programState.runtime.openForks ++ own.filterMap Event.taskFork
  inSingle : step.state.programState.runtime.inSingleRegion =
    state.programState.runtime.inSingleRegion
  forks : step.Forks own
  kept : ir.type.kind = .fork → (∃ event, own = [event] ∧ event.type = .fork) ∨
    own = [] ∧ RecursiveSpawn program state.thread ir

section Dispatch

variable {program : Program Ctx} {node : CallGraphNode Ctx} {ir : IR} {state : ThreadBuildState Ctx}

lemma DispatchOutcome.silent {step : VisitStep Ctx} (hs : step.state = state) (hf : step.Forks [])
    (hk : ir.type.kind = .fork → RecursiveSpawn program state.thread ir) :
    DispatchOutcome program node ir state step [] :=
  ⟨by simp [hs, createdAt], by simp, by simp [hs], by rw [hs], hf, fun h => Or.inr ⟨rfl, hk h⟩⟩

lemma DispatchOutcome.pushed {step : VisitStep Ctx} {type : EventType}
    (hs : step.state = state.push node type ir) (ht : type ≠ .fork) (hk : ir.type.kind ≠ .fork)
    (hf : step.Forks [state.nextEvent type ir none]) :
    DispatchOutcome program node ir state step [state.nextEvent type ir none] := by
  refine ⟨by rw [hs]; rfl, ?_, ?_, by rw [hs]; rfl, hf, fun h => absurd h hk⟩
  · intro event hevent
    obtain rfl := List.mem_singleton.mp hevent
    exact ⟨rfl, rfl, rfl⟩
  · have hnone : (state.nextEvent type ir none).taskFork = none := if_neg (fun h => ht h.1)
    rw [hs, List.filterMap_cons_none hnone, List.filterMap_nil, List.append_nil]
    rfl

lemma plainEvent_ne_fork {kind : IRKind} {type : EventType} (h : kind.plainEvent = some type) :
    type ≠ .fork ∧ kind ≠ .fork := by
  cases kind <;> simp [IRKind.plainEvent] at h <;> subst h <;> simp

lemma forked_openForks : (forked node ir (state.nextEvent .fork ir none).asFork
      state).programState.runtime.openForks =
    state.programState.runtime.openForks ++
      [state.nextEvent .fork ir none].filterMap Event.taskFork := by
  change (OpenMPRuntime.preFork state.programState.runtime ir _).openForks = _
  rw [OpenMPRuntime.preFork]
  by_cases htask : ir.type = .openMPTaskFork
  · have hsome : (state.nextEvent .fork ir none).taskFork =
        some (state.nextEvent .fork ir none).asFork := if_pos ⟨rfl, htask⟩
    rw [if_pos htask, List.filterMap_cons_some hsome, List.filterMap_nil]
    simp [OpenMPRuntime.openForks]
  · have hnone : (state.nextEvent .fork ir none).taskFork = none := if_neg (fun h => htask h.2)
    rw [if_neg htask, List.filterMap_cons_none hnone, List.filterMap_nil, List.append_nil]

lemma dispatchOutcome_of_dispatched {step : VisitStep Ctx} (h : Dispatched program node ir state step) :
    ∃ own, DispatchOutcome program node ir state step own := by
  cases h with
  | plain type h =>
    obtain ⟨ht, hk⟩ := plainEvent_ne_fork h
    refine ⟨_, .pushed rfl ht hk ?_⟩
    simp [VisitStep.Forks, ThreadBuildState.nextEvent, ht]
  | recursiveFork h entry he hr =>
    exact ⟨[], .silent rfl (by simp [VisitStep.Forks]) (fun _ => ⟨_, _, entry, he, hr⟩)⟩
  | fork h entry he hr =>
    refine ⟨[state.nextEvent .fork ir none], rfl, ?_, forked_openForks, ?_, ?_, ?_⟩
    · intro event hevent
      obtain rfl := List.mem_singleton.mp hevent
      exact ⟨rfl, rfl, rfl⟩
    · change (OpenMPRuntime.preFork state.programState.runtime ir _).inSingleRegion = _
      rw [OpenMPRuntime.preFork]
      split <;> rfl
    · exact ⟨_, rfl, rfl, rfl⟩
    · exact fun _ => Or.inl ⟨_, rfl, rfl⟩
  | noCall h => exact ⟨[], .silent rfl (by simp [VisitStep.Forks]) (by simp [h])⟩
  | externCall h =>
    refine ⟨_, .pushed rfl (by simp) (by simp [h]) ?_⟩
    simp [VisitStep.Forks, ThreadBuildState.nextEvent]
  | call h =>
    refine ⟨_, .pushed rfl (by simp) (by simp [h]) ?_⟩
    simp [VisitStep.Forks, ThreadBuildState.nextEvent]

end Dispatch

structure VisitOutcome (program : Program Ctx) (node : CallGraphNode Ctx) (ir : IR)
    (state : ThreadBuildState Ctx) (step : VisitStep Ctx) (joins own : List (Event Ctx)) : Prop where
  log : step.state.log = state.log ++
    .visited state.thread node ir state.programState.runtime :: createdAt node (joins ++ own)
  joined : joins.map Event.forkEvent =
    if JoinsTasks ir state.programState.runtime then state.programState.runtime.openForks.map some else []
  joinEvents : ∀ event ∈ joins, event.type = .join ∧ event.thread = state.thread ∧
    event.ir.type = .openMPTaskJoin
  ownEvents : ∀ event ∈ own, event.forkEvent = none ∧ event.ir = ir ∧ event.thread = state.thread
  openForks : step.state.programState.runtime.openForks =
    (if JoinsTasks ir state.programState.runtime then [] else state.programState.runtime.openForks) ++
      own.filterMap Event.taskFork
  inSingle : step.state.programState.runtime.inSingleRegion =
    stepSingle ir state.programState.runtime.inSingleRegion
  forks : step.Forks own
  dropped : ir.type = .openMPTaskFork → state.programState.runtime.inSingleRegion = true →
    isOpenMPMasterThread state.thread = false → own = []
  kept : ir.type = .openMPTaskFork → (state.programState.runtime.inSingleRegion = true →
    isOpenMPMasterThread state.thread = true) → (∃ event, own = [event] ∧ event.type = .fork) ∨
      own = [] ∧ RecursiveSpawn program state.thread ir

lemma resume_fields (ir : IR) (state : ThreadBuildState Ctx) : (resume ir state).thread = state.thread ∧
    (resume ir state).programState = state.programState ∧ (resume ir state).events = state.events ∧
      (resume ir state).childThreads = state.childThreads := by
  rw [resume, shouldSkipIR]
  split
  · exact ⟨rfl, rfl, rfl, rfl⟩
  · split <;> exact ⟨rfl, rfl, rfl, rfl⟩

lemma recordVisit_fields (node : CallGraphNode Ctx) (ir : IR) (state : ThreadBuildState Ctx) :
    (recordVisit node ir state).thread = state.thread ∧
      (recordVisit node ir state).programState.runtime = state.programState.runtime ∧
      (recordVisit node ir state).log =
        state.log ++ [.visited state.thread node ir state.programState.runtime] := by
  obtain ⟨hthread, hprogram, -⟩ := resume_fields ir state
  refine ⟨hthread, congrArg (·.runtime) hprogram, ?_⟩
  change (resume ir state).programState.log ++ [.visited (resume ir state).thread node ir
    (resume ir state).programState.runtime] = _
  rw [hthread, hprogram]

lemma visitOutcome {program : Program Ctx} {node : CallGraphNode Ctx} {ir : IR}
    {state : ThreadBuildState Ctx} {step : VisitStep Ctx} (h : visitStart program node ir state = .ok step) :
    passes ir state = true ∧ step = .next (resume ir state) ∨ passes ir state = false ∧
      ∃ joins own, VisitOutcome program node ir state step joins own := by
  obtain ⟨hthread, hruntime, hlog⟩ := recordVisit_fields node ir state
  rcases visitStart_cases h with hpass | ⟨hvisit, ⟨skipped, hpre, rfl⟩ | ⟨asked, hpre, hdispatch⟩⟩
  · exact Or.inl hpass
  · refine Or.inr ⟨hvisit, ?_⟩
    obtain ⟨joins, ha⟩ := askedOutcome_of_asked (asked_of_preVisit hpre)
    refine ⟨joins, [], ?_, ?_, ?_, by simp, ?_, ?_, by simp [VisitStep.Forks], fun _ _ _ => rfl, ?_⟩
    · change skipped.log = _
      rw [ha.log, hlog, List.append_nil, List.append_assoc]
      rfl
    · simpa [hruntime] using ha.forks
    · simpa [hthread] using ha.events
    · simpa [hruntime, VisitStep.state] using ha.openForks
    · simpa [hruntime, VisitStep.state] using ha.inSingle
    · intro htask hm
      have hskip := (ha.skips htask).mp rfl
      rw [hruntime, hthread] at hskip
      exact absurd (hm hskip.1) (by simp [hskip.2])
  · refine Or.inr ⟨hvisit, ?_⟩
    obtain ⟨joins, ha⟩ := askedOutcome_of_asked (asked_of_preVisit hpre)
    have hasked := (preVisit_emits (asked_of_preVisit hpre)).thread.trans hthread
    obtain ⟨own, hd⟩ := dispatchOutcome_of_dispatched (dispatched_of_dispatch hdispatch)
    refine ⟨joins, own, ?_, ?_, ?_, ?_, ?_, ?_, hd.forks, ?_, ?_⟩
    · rw [hd.log, ha.log, hlog, createdAt, createdAt, createdAt, List.map_append]
      simp
    · simpa [hruntime] using ha.forks
    · simpa [hthread] using ha.events
    · simpa [hasked] using hd.events
    · rw [hd.openForks, ha.openForks, hruntime]
    · rw [hd.inSingle, ha.inSingle, hruntime]
    · intro htask hs hm
      have hskip := (ha.skips htask).mpr (by rw [hruntime, hthread]; exact ⟨hs, hm⟩)
      cases hskip
    · intro htask _
      rw [← hasked]
      exact hd.kept (by rw [htask]; rfl)

lemma eventsOf_visit (node : CallGraphNode Ctx) (ir : IR) (thread : ThreadRef Ctx)
    (runtime : OpenMPRuntime Ctx) (events : List (Event Ctx)) :
    eventsOf (.visited thread node ir runtime :: createdAt node events) = events := by
  rw [eventsOf, List.filterMap_cons_none rfl, createdAt, List.filterMap_map]
  exact List.filterMap_some

lemma VisitOutcome.events {program : Program Ctx} {node : CallGraphNode Ctx} {ir : IR}
    {state : ThreadBuildState Ctx} {step : VisitStep Ctx} {joins own : List (Event Ctx)}
    (h : VisitOutcome program node ir state step joins own) (he : Emits node state step.state) :
    step.state.events = state.events ++ (joins ++ own) := by
  obtain ⟨entries, hlog, hevents, -⟩ := he.log
  obtain rfl := List.append_cancel_left (hlog.symm.trans h.log)
  rw [hevents, eventsOf_visit]

end OpenRace
