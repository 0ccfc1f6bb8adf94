import OpenRace.Trace.Build.Tally

/-! The history of a construction, visit by visit. -/

namespace OpenRace

open LLVM

variable {Ctx : Type} [DecidableEq Ctx]

inductive Block (program : Program Ctx) : List (LogEntry Ctx) → List (LogEntry Ctx) → Prop
  | visit {node ir state step joins own} (h : VisitOutcome program node ir state step joins own)
      (hl : Logged state) (ht : Tallied state) : Block program state.log
        (.visited state.thread node ir state.programState.runtime :: createdAt node (joins ++ own))
  | entered {before} (caller callee : CallGraphNode Ctx) : Block program before [.entered caller callee]
  | left {before} (node : CallGraphNode Ctx) (event : Event Ctx) (h : event.type = .callEnd)
      (hf : event.forkEvent = none) : Block program before [.created node event]

inductive Chronicle (program : Program Ctx) : List (LogEntry Ctx) → List (LogEntry Ctx) → Prop
  | nil {before} : Chronicle program before []
  | cons {before block rest} (hb : Block program before block)
      (hr : Chronicle program (before ++ block) rest) : Chronicle program before (block ++ rest)

lemma Chronicle.append {program : Program Ctx} {before entries rest : List (LogEntry Ctx)}
    (h : Chronicle program before entries) (h' : Chronicle program (before ++ entries) rest) :
    Chronicle program before (entries ++ rest) := by
  induction h with
  | nil => simpa using h'
  | cons hb _ ih =>
    rw [List.append_assoc]
    exact .cons hb (ih (by simpa using h'))

def Continues (program : Program Ctx) (state state' : ThreadBuildState Ctx) : Prop :=
  ∃ entries, state'.log = state.log ++ entries ∧ Chronicle program state.log entries

namespace Continues

variable {program : Program Ctx} {state state' state'' : ThreadBuildState Ctx}

lemma of_log (h : state'.log = state.log) : Continues program state state' :=
  ⟨[], by simp [h], .nil⟩

lemma of_block {block : List (LogEntry Ctx)} (hb : Block program state.log block)
    (h : state'.log = state.log ++ block) : Continues program state state' :=
  ⟨block ++ [], by simp [h], .cons hb .nil⟩

lemma trans (h : Continues program state state') (h' : Continues program state' state'') :
    Continues program state state'' := by
  obtain ⟨entries, hlog, hc⟩ := h
  obtain ⟨entries', hlog', hc'⟩ := h'
  refine ⟨entries ++ entries', by rw [hlog', hlog, List.append_assoc], hc.append ?_⟩
  rwa [← hlog]

end Continues

lemma visitStart_continues {program : Program Ctx} {node : CallGraphNode Ctx} {ir : IR}
    {state : ThreadBuildState Ctx} {step : VisitStep Ctx} (hl : Logged state) (ht : Tallied state)
    (h : visitStart program node ir state = .ok step) :
    Continues program state step.state ∧ Tallied step.state := by
  have hemit := visitStart_emits h
  rcases visitOutcome h with ⟨-, rfl⟩ | ⟨-, joins, own, ho⟩
  · obtain ⟨hthread, hprogram, -⟩ := resume_fields ir state
    have hlog : (resume ir state).log = state.log := congrArg (·.log) hprogram
    refine ⟨.of_log hlog, ht.of_fields hlog ?_ ?_ ?_⟩
    · exact congrArg (·.runtime.openForks) hprogram
    · exact congrArg (·.runtime.inSingleRegion) hprogram
    · change ∀ fork ∈ (resume ir state).thread.spawnSites, fork.pid.tid < (resume ir state).thread.id
      rw [hthread]
      exact ht.sites
  · exact ⟨.of_block (.visit ho hl ht) ho.log, ht.visit ho hl (hl.emits hemit) hemit.thread⟩

lemma logCall_continues {program : Program Ctx} {state : ThreadBuildState Ctx} (ht : Tallied state)
    (node callee : CallGraphNode Ctx) : Continues program state (state.logCall node callee) ∧
      Tallied (state.logCall node callee) := by
  rw [ThreadBuildState.logCall]
  split
  · exact ⟨.of_log rfl, ht⟩
  · exact ⟨.of_block (.entered node callee) rfl,
      ht.of_quiet rfl rfl rfl rfl rfl (by simp [singleOpen, LogEntry.stepSingle])⟩

lemma callEnd_continues {program : Program Ctx} {state : ThreadBuildState Ctx} (ht : Tallied state)
    (node : CallGraphNode Ctx) (ir : IR) : Continues program state (state.push node .callEnd ir) ∧
      Tallied (state.push node .callEnd ir) :=
  ⟨.of_block (.left node (state.nextEvent .callEnd ir none) rfl rfl) rfl,
    ht.of_quiet rfl rfl rfl rfl rfl (by simp [singleOpen, LogEntry.stepSingle])⟩

lemma Tallied.child {state : ThreadBuildState Ctx} {fork : ForkEvent Ctx} (ht : Tallied state)
    (hn : state.Numbered) (hfork : fork.pid.tid = state.thread.id) (entry : CallGraphNode Ctx) :
    Tallied (state.child fork entry) := by
  refine ht.of_fields rfl rfl rfl ?_
  intro site hsite
  rw [ThreadBuildState.Numbered] at hn
  change site.pid.tid < state.programState.currentTID + 1
  cases hsite with
  | head => omega
  | tail _ hm =>
    have hlt := ht.sites site hm
    omega

lemma Tallied.finishFork {state childState : ThreadBuildState Ctx} (ht : Tallied childState)
    (hs : ∀ fork ∈ state.thread.spawnSites, fork.pid.tid < state.thread.id) (ir : IR) :
    Tallied (state.finishFork ir childState) := by
  have hpost : (childState.programState.runtime.postFork ir).openForks =
        childState.programState.runtime.openForks ∧
      (childState.programState.runtime.postFork ir).inSingleRegion =
        childState.programState.runtime.inSingleRegion := by
    rw [OpenMPRuntime.postFork]
    split <;> exact ⟨rfl, rfl⟩
  exact ht.of_fields rfl hpost.1 hpost.2 hs

omit [DecidableEq Ctx] in
lemma visitStart_fork_tid {program : Program Ctx} {node entry : CallGraphNode Ctx} {ir : IR}
    {state state' : ThreadBuildState Ctx} {fork : ForkEvent Ctx}
    (h : visitStart program node ir state = .ok (.fork fork entry state')) :
    fork.pid.tid = state.thread.id := by
  rcases visitOutcome h with ⟨-, hnext⟩ | ⟨-, joins, own, ho⟩
  · cases hnext
  · obtain ⟨event, rfl, -, rfl⟩ := ho.forks
    exact congrArg ThreadRef.id (ho.ownEvents event List.mem_cons_self).2.2

theorem Run.continues {program : Program Ctx} {task : Task Ctx} {state last : ThreadBuildState Ctx}
    (h : Run program task state last) (hl : Logged state) (ht : Tallied state) :
    Continues program state last ∧ Tallied last := by
  induction h with
  | recursive h => exact ⟨.of_log rfl, ht⟩
  | function _ _ _ ih =>
    obtain ⟨hc, hlast⟩ := ih ⟨hl.numbered, hl.threads, hl.own, hl.ids, hl.located, hl.distinct⟩
      (ht.of_fields rfl rfl rfl ht.sites)
    exact ⟨hc, hlast.of_fields rfl rfl rfl hlast.sites⟩
  | done => exact ⟨.of_log rfl, ht⟩
  | next hstart _ ih =>
    obtain ⟨hc, ht'⟩ := visitStart_continues hl ht hstart
    obtain ⟨hrest, hlast⟩ := ih (hl.emits (visitStart_emits hstart)) ht'
    exact ⟨hc.trans hrest, hlast⟩
  | @call node ir _ _ callee state' returned _ hstart hcall _ ihcall ihrest =>
    have hl' := (hl.emits (visitStart_emits hstart)).logCall node callee
    obtain ⟨hvisit, ht'⟩ := visitStart_continues hl ht hstart
    obtain ⟨henter, ht'⟩ := logCall_continues ht' node callee
    obtain ⟨hbody, ht'⟩ := ihcall hl' ht'
    obtain ⟨hend, ht'⟩ := callEnd_continues ht' node ir
    obtain ⟨hrest, hlast⟩ := ihrest ((hcall.logged hl').emits (.push node returned _ ir none)) ht'
    exact ⟨(((hvisit.trans henter).trans hbody).trans hend).trans hrest, hlast⟩
  | @fork node ir _ _ fork entry state' childState _ hstart hchild _ ihchild ihrest =>
    have hl' : Logged state' := hl.emits (visitStart_emits hstart)
    have hchildLogged := hl'.child fork entry
    have htid : fork.pid.tid = state'.thread.id :=
      (visitStart_fork_tid hstart).trans (congrArg _ (visitStart_emits hstart).thread).symm
    obtain ⟨hvisit, ht'⟩ := visitStart_continues hl ht hstart
    obtain ⟨hbody, htc⟩ := ihchild hchildLogged (ht'.child hl'.numbered htid entry)
    have hend := hl'.finishFork ir (hchild.frame hchildLogged.numbered) (hchild.logged hchildLogged)
    obtain ⟨hrest, hlast⟩ := ihrest hend (htc.finishFork ht'.sites ir)
    have hbody' : Continues program state' (state'.finishFork ir childState) := hbody
    exact ⟨(hvisit.trans hbody').trans hrest, hlast⟩

inductive VisitedAt (program : Program Ctx) : List (LogEntry Ctx) → ThreadRef Ctx →
    CallGraphNode Ctx → IR → OpenMPRuntime Ctx → List (LogEntry Ctx) → Prop
  | mk {node ir state step joins own rest} (ho : VisitOutcome program node ir state step joins own)
      (hl : Logged state) (ht : Tallied state) (hr : Chronicle program step.state.log rest) :
      VisitedAt program state.log state.thread node ir state.programState.runtime
        (createdAt node (joins ++ own) ++ rest)

lemma Block.visitedAt {program : Program Ctx} {before block pre post rest : List (LogEntry Ctx)}
    {thread : ThreadRef Ctx} {node : CallGraphNode Ctx} {ir : IR} {runtime : OpenMPRuntime Ctx}
    (h : Block program before block) (heq : block = pre ++ .visited thread node ir runtime :: post)
    (hr : Chronicle program (before ++ block) rest) :
    VisitedAt program (before ++ pre) thread node ir runtime (post ++ rest) := by
  cases h with
  | visit ho hl ht =>
    cases pre with
    | nil =>
      obtain ⟨hv, rfl⟩ := List.cons.inj heq
      cases hv
      rw [← ho.log] at hr
      rw [List.append_nil]
      exact .mk ho hl ht hr
    | cons _ pre =>
      obtain ⟨-, hrest⟩ := List.cons.inj heq
      have hmem : LogEntry.visited thread node ir runtime ∈ pre ++ .visited thread node ir runtime :: post :=
        List.mem_append_right _ List.mem_cons_self
      rw [show pre ++ _ = createdAt _ _ from hrest.symm] at hmem
      obtain ⟨_, _, hne⟩ := List.mem_map.mp hmem
      cases hne
  | entered | left =>
    cases pre with
    | nil => cases heq
    | cons _ pre => cases pre <;> cases heq

lemma Chronicle.visitedAt {program : Program Ctx} {before entries pre post : List (LogEntry Ctx)}
    {thread : ThreadRef Ctx} {node : CallGraphNode Ctx} {ir : IR} {runtime : OpenMPRuntime Ctx}
    (h : Chronicle program before entries) (heq : entries = pre ++ .visited thread node ir runtime :: post) :
    VisitedAt program (before ++ pre) thread node ir runtime post := by
  induction h generalizing pre with
  | nil => exact absurd heq (by simp)
  | @cons before block rest hb hr ih =>
    rcases List.append_eq_append_iff.mp heq with ⟨pre', rfl, hrest⟩ | ⟨block', hblock, hpost⟩
    · rw [← List.append_assoc]
      exact ih hrest
    · cases block' with
      | nil =>
        rw [List.append_nil] at hblock
        subst hblock
        simpa using ih (show rest = [] ++ .visited thread node ir runtime :: post from hpost.symm)
      | cons entry block' =>
        obtain ⟨rfl, rfl⟩ := List.cons.inj hpost
        exact hb.visitedAt hblock hr

lemma Chronicle.joined_at {program : Program Ctx} {before entries : List (LogEntry Ctx)}
    {event : Event Ctx} {fork : ForkEvent Ctx} (h : Chronicle program before entries)
    (he : event ∈ eventsOf entries) (hf : event.forkEvent = some fork) :
    ∃ node ir runtime, .visited event.thread node ir runtime ∈ entries ∧ JoinsTasks ir runtime ∧
      fork ∈ runtime.openForks := by
  induction h with
  | nil => exact absurd he List.not_mem_nil
  | @cons before block rest hb _ ih =>
    rw [eventsOf_append, List.mem_append] at he
    cases he with
    | inr hrest =>
      obtain ⟨node, ir, runtime, hv, hj⟩ := ih hrest
      exact ⟨node, ir, runtime, List.mem_append_right _ hv, hj⟩
    | inl hblock =>
      cases hb with
      | @visit node ir state _ joins own ho =>
        have hevent : event ∈ joins ++ own := by
          rw [← eventsOf_createdAt node (joins ++ own)]
          exact hblock
        cases List.mem_append.mp hevent with
        | inr hown => simp [(ho.ownEvents event hown).1] at hf
        | inl hjoin =>
          have hforks : fork ∈ joins.filterMap Event.forkEvent := List.mem_filterMap.mpr ⟨event, hjoin, hf⟩
          rw [ho.joined_forks] at hforks
          split at hforks
          · rename_i hj
            rw [(ho.joinEvents event hjoin).2.1]
            exact ⟨node, ir, _, List.mem_append_left _ List.mem_cons_self, hj, hforks⟩
          · exact absurd hforks List.not_mem_nil
      | entered => exact absurd hblock List.not_mem_nil
      | left node event' _ hnone =>
        obtain rfl := List.mem_singleton.mp hblock
        simp [hnone] at hf

end OpenRace
