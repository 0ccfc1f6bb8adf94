import OpenRace.Trace.Build.MasterRuns

/-! What stays the same while the threads of a parallel region are built. -/

namespace OpenRace

open LLVM

variable {Ctx : Type}

def newEntries (state last : ThreadBuildState Ctx) : List (LogEntry Ctx) :=
  last.log.drop state.log.length

def NoTeams (state last : ThreadBuildState Ctx) : Prop :=
  ∀ thread node ir runtime, .visited thread node ir runtime ∈ newEntries state last →
    ir.type ≠ .openMPForkTeams

def Extends (state last : ThreadBuildState Ctx) : Prop := ∃ entries, last.log = state.log ++ entries

namespace Extends

variable {state mid last : ThreadBuildState Ctx}

lemma refl (state : ThreadBuildState Ctx) : Extends state state := ⟨[], by simp⟩

lemma trans (h : Extends state mid) (h' : Extends mid last) : Extends state last := by
  obtain ⟨entries, hlog⟩ := h
  obtain ⟨entries', hlog'⟩ := h'
  exact ⟨entries ++ entries', by rw [hlog', hlog, List.append_assoc]⟩

lemma of_emits {node : CallGraphNode Ctx} (h : Emits node state last) : Extends state last := by
  obtain ⟨entries, hlog, -⟩ := h.log
  exact ⟨entries, hlog⟩

lemma newEntries_eq {entries : List (LogEntry Ctx)} (h : last.log = state.log ++ entries) :
    newEntries state last = entries := by
  rw [newEntries, h, List.drop_left]

lemma noTeams (h : Extends state mid) (h' : Extends mid last) (hn : NoTeams state last) :
    NoTeams state mid ∧ NoTeams mid last := by
  obtain ⟨entries, hlog⟩ := h
  obtain ⟨entries', hlog'⟩ := h'
  have hall : last.log = state.log ++ (entries ++ entries') := by rw [hlog', hlog, List.append_assoc]
  rw [NoTeams, newEntries_eq hall] at hn
  rw [NoTeams, NoTeams, newEntries_eq hlog, newEntries_eq hlog']
  exact ⟨fun t n i r hm => hn t n i r (List.mem_append_left _ hm),
    fun t n i r hm => hn t n i r (List.mem_append_right _ hm)⟩

end Extends

lemma logCall_extends (state : ThreadBuildState Ctx) (node callee : CallGraphNode Ctx) :
    Extends state (state.logCall node callee) := by
  obtain ⟨entries, hlog, -⟩ := (Frame.of_logCall state node callee).log
  exact ⟨entries, hlog⟩

lemma push_extends (state : ThreadBuildState Ctx) (node : CallGraphNode Ctx) (type : EventType) (ir : IR) :
    Extends state (state.push node type ir) :=
  .of_emits (.push node state type ir none)

lemma Run.extends {program : Program Ctx} {task : Task Ctx} {state last : ThreadBuildState Ctx}
    (h : Run program task state last) : Extends state last := by
  induction h with
  | recursive => exact .refl _
  | function _ _ _ ih => exact ih
  | done => exact .refl _
  | next hstart _ ih => exact (Extends.of_emits (visitStart_emits hstart)).trans ih
  | @call node ir _ _ callee state' returned _ hstart _ _ ihcall ihrest =>
    have hvisit : Extends _ state' := .of_emits (visitStart_emits hstart)
    have hcall : Extends _ returned := (hvisit.trans (logCall_extends state' node callee)).trans ihcall
    exact (hcall.trans (push_extends returned node .callEnd ir)).trans ihrest
  | @fork node ir _ _ fork entry state' childState _ hstart _ _ ihchild ihrest =>
    have hvisit : Extends _ state' := .of_emits (visitStart_emits hstart)
    have hchild : Extends state' (state'.finishFork ir childState) := ihchild
    exact (hvisit.trans hchild).trans ihrest

def InTeams (teams : Bool) (state : ThreadBuildState Ctx) : Prop :=
  state.programState.inParallel = true ∧ state.programState.runtime.inTeamsregion = teams

lemma joinTasks_parallel (node : CallGraphNode Ctx) (state : ThreadBuildState Ctx) :
    (OpenMPRuntime.joinTasks node state).programState.inParallel = state.programState.inParallel := by
  have hjoins : ∀ (tasks : List (UnjoinedTask Ctx)) (s : ThreadBuildState Ctx),
      (tasks.foldl (OpenMPRuntime.joinTask node) s).programState.inParallel = s.programState.inParallel := by
    intro tasks
    induction tasks with
    | nil => exact fun _ => rfl
    | cons task tasks ih => exact fun s => ih _
  exact hjoins _ state

lemma asked_inTeams {node : CallGraphNode Ctx} {ir : IR} {state asked : ThreadBuildState Ctx}
    {skip teams : Bool} (h : Asked node ir state skip asked) (ht : ir.type ≠ .openMPForkTeams)
    (hs : InTeams teams state) : InTeams teams asked := by
  cases h with
  | forkTeams hteams => exact absurd hteams ht
  | joins => exact ⟨(joinTasks_parallel node state).trans hs.1, hs.2⟩
  | _ => exact hs

lemma dispatched_inTeams {program : Program Ctx} {node : CallGraphNode Ctx} {ir : IR} {teams : Bool}
    {state : ThreadBuildState Ctx} {step : VisitStep Ctx} (h : Dispatched program node ir state step)
    (hs : InTeams teams state) : InTeams teams step.state := by
  cases h with
  | fork =>
    refine ⟨rfl, ?_⟩
    change (OpenMPRuntime.preFork state.programState.runtime ir _).inTeamsregion = teams
    rw [OpenMPRuntime.preFork]
    split <;> exact hs.2
  | _ => exact hs

lemma visited_noTeams {program : Program Ctx} {node : CallGraphNode Ctx} {ir : IR}
    {state : ThreadBuildState Ctx} {step : VisitStep Ctx}
    (h : visitStart program node ir state = .ok step) (hn : NoTeams state step.state)
    (hne : step ≠ .next (resume ir state)) : ir.type ≠ .openMPForkTeams := by
  rcases visitOutcome h with ⟨-, hpass⟩ | ⟨-, joins, own, ho⟩
  · exact absurd hpass hne
  · refine hn state.thread node ir state.programState.runtime ?_
    rw [Extends.newEntries_eq ho.log]
    exact List.mem_cons_self

lemma visitStart_inTeams {program : Program Ctx} {node : CallGraphNode Ctx} {ir : IR} {teams : Bool}
    {state : ThreadBuildState Ctx} {step : VisitStep Ctx}
    (h : visitStart program node ir state = .ok step) (hn : NoTeams state step.state)
    (hs : InTeams teams state) : InTeams teams step.state := by
  have hprogram := (resume_fields ir state).2.1
  have hrecord : InTeams teams (recordVisit node ir state) :=
    ⟨(congrArg (·.inParallel) hprogram).trans hs.1, (congrArg (·.runtime.inTeamsregion) hprogram).trans hs.2⟩
  by_cases hpass : step = .next (resume ir state)
  · rw [hpass]
    exact hrecord
  · have ht := visited_noTeams h hn hpass
    rcases visitStart_cases h with ⟨-, hnext⟩ | ⟨-, ⟨skipped, hpre, rfl⟩ | ⟨asked, hpre, hdispatch⟩⟩
    · exact absurd hnext hpass
    · exact asked_inTeams (asked_of_preVisit hpre) ht hrecord
    · exact dispatched_inTeams (dispatched_of_dispatch hdispatch)
        (asked_inTeams (asked_of_preVisit hpre) ht hrecord)

lemma finishFork_inTeams (state : ThreadBuildState Ctx) {childState : ThreadBuildState Ctx} {ir : IR}
    {teams : Bool} (ht : ir.type ≠ .openMPForkTeams) (hs : InTeams teams childState) :
    InTeams teams (state.finishFork ir childState) := by
  refine ⟨hs.1, ?_⟩
  change (OpenMPRuntime.postFork childState.programState.runtime ir).inTeamsregion = teams
  rw [OpenMPRuntime.postFork, if_neg ht]
  exact hs.2

lemma Run.inTeams {program : Program Ctx} {task : Task Ctx} {state last : ThreadBuildState Ctx}
    (h : Run program task state last) {teams : Bool} (hn : NoTeams state last)
    (hs : InTeams teams state) : InTeams teams last := by
  induction h with
  | recursive => exact hs
  | function _ _ _ ih => exact ih hn hs
  | done => exact hs
  | next hstart hrest ih =>
    obtain ⟨hvisit, htail⟩ := (Extends.of_emits (visitStart_emits hstart)).noTeams hrest.extends hn
    exact ih htail (visitStart_inTeams hstart hvisit hs)
  | @call node ir _ _ callee state' returned _ hstart hcall hrest ihcall ihrest =>
    have hlog := Frame.of_logCall state' node callee
    have henter : Extends state' (state'.logCall node callee) := by
      obtain ⟨entries, hentries, -⟩ := hlog.log
      exact ⟨entries, hentries⟩
    have hend : Extends returned (returned.push node .callEnd ir) :=
      .of_emits (.push node returned .callEnd ir none)
    have htail := hend.trans hrest.extends
    obtain ⟨hvisit, hn⟩ := (Extends.of_emits (visitStart_emits hstart)).noTeams
      ((henter.trans hcall.extends).trans htail) hn
    obtain ⟨-, hn⟩ := henter.noTeams (hcall.extends.trans htail) hn
    obtain ⟨hbody, hn⟩ := hcall.extends.noTeams htail hn
    obtain ⟨-, hn⟩ := hend.noTeams hrest.extends hn
    have hentered : InTeams teams (state'.logCall node callee) := by
      have hs' := visitStart_inTeams hstart hvisit hs
      rw [ThreadBuildState.logCall]
      split <;> exact hs'
    exact ihrest hn (ihcall hbody hentered)
  | @fork node ir _ _ fork entry state' childState _ hstart hchild hrest ihchild ihrest =>
    have hbuilt : Extends state' (state'.finishFork ir childState) := hchild.extends
    obtain ⟨hvisit, hn⟩ := (Extends.of_emits (visitStart_emits hstart)).noTeams
      (hbuilt.trans hrest.extends) hn
    obtain ⟨hchildTeams, hn⟩ := hbuilt.noTeams hrest.extends hn
    have ht := visited_noTeams hstart hvisit (by simp)
    have hs' := visitStart_inTeams hstart hvisit hs
    exact ihrest hn (finishFork_inTeams state' ht (ihchild hchildTeams hs'))

end OpenRace
