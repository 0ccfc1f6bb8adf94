import OpenRace.Trace.Build.TwinThreads

/-! What the forks of a construction do to the region flags of the runtime model. -/

namespace OpenRace

open LLVM

variable {Ctx : Type}

/-- The part of the runtime model that says in which regions the traversal is. -/
@[ext]
structure RegionFlags where
  inSingleRegion : Bool
  inTeamsregion : Bool
  currentMasterStart : Option Instruction

def OpenMPRuntime.flags (runtime : OpenMPRuntime Ctx) : RegionFlags :=
  ⟨runtime.inSingleRegion, runtime.inTeamsregion, runtime.currentMasterStart⟩

def ThreadBuildState.flags (state : ThreadBuildState Ctx) : RegionFlags := state.programState.runtime.flags

namespace RegionFlags

/-- Effect of a marker that a master twin, or any other thread, comes across. -/
def mark (master : Bool) (ir : IR) (flags : RegionFlags) : RegionFlags :=
  match ir.type with
  | .openMPSingleStart => { flags with inSingleRegion := true }
  | .openMPSingleEnd => { flags with inSingleRegion := false }
  | .openMPMasterStart => if master then { flags with currentMasterStart := some ir.inst } else flags
  | .openMPMasterEnd => if master then { flags with currentMasterStart := none } else flags
  | _ => flags

/-- Effect of an entry of the history on the flags, if it is a visit of the thread itself. -/
def own (thread : ThreadRef Ctx) (flags : RegionFlags) : LogEntry Ctx → RegionFlags
  | .visited visitor _ ir _ =>
    if visitor.id = thread.id then flags.mark (isOpenMPMasterThread thread) ir else flags
  | _ => flags

def ownAll (thread : ThreadRef Ctx) (entries : List (LogEntry Ctx)) (flags : RegionFlags) : RegionFlags :=
  entries.foldl (own thread) flags

def setTeams (inTeams : Bool) (flags : RegionFlags) : RegionFlags := { flags with inTeamsregion := inTeams }

lemma mark_setTeams (master : Bool) (ir : IR) (inTeams : Bool) (flags : RegionFlags) :
    (flags.setTeams inTeams).mark master ir = (flags.mark master ir).setTeams inTeams := by
  rw [mark, mark]
  split <;> try rfl
  · split <;> rfl
  · split <;> rfl

lemma ownAll_setTeams (thread : ThreadRef Ctx) (entries : List (LogEntry Ctx)) (inTeams : Bool)
    (flags : RegionFlags) :
    ownAll thread entries (flags.setTeams inTeams) = (ownAll thread entries flags).setTeams inTeams := by
  induction entries generalizing flags with
  | nil => rfl
  | cons entry rest ih =>
    have hstep : own thread (flags.setTeams inTeams) entry = (own thread flags entry).setTeams inTeams := by
      cases entry with
      | visited visitor _ ir _ =>
        rw [own, own]
        split
        · exact mark_setTeams _ _ _ _
        · rfl
      | created | entered => rfl
    rw [ownAll, ownAll, List.foldl_cons, List.foldl_cons, hstep]
    exact ih _

lemma ownAll_append (thread : ThreadRef Ctx) (entries rest : List (LogEntry Ctx)) (flags : RegionFlags) :
    ownAll thread (entries ++ rest) flags = ownAll thread rest (ownAll thread entries flags) :=
  List.foldl_append

lemma ownAll_foreign {thread : ThreadRef Ctx} {entries : List (LogEntry Ctx)}
    (h : ∀ entry ∈ entries, entry.isVisitBy thread.id = false) (flags : RegionFlags) :
    ownAll thread entries flags = flags := by
  induction entries with
  | nil => rfl
  | cons entry rest ih =>
    have hentry := h entry List.mem_cons_self
    have hstep : own thread flags entry = flags := by
      cases entry with
      | visited visitor _ ir _ =>
        rw [LogEntry.isVisitBy, beq_eq_false_iff_ne] at hentry
        rw [own, if_neg hentry]
      | created | entered => rfl
    rw [ownAll, List.foldl_cons, hstep]
    exact ih fun entry hm => h entry (List.mem_cons_of_mem _ hm)

lemma ownAll_teams (thread : ThreadRef Ctx) (entries : List (LogEntry Ctx)) (flags : RegionFlags) :
    (ownAll thread entries flags).inTeamsregion = flags.inTeamsregion := by
  have h := ownAll_setTeams thread entries flags.inTeamsregion flags
  have hself : flags.setTeams flags.inTeamsregion = flags := rfl
  rw [hself] at h
  rw [h]
  rfl

end RegionFlags

section Visit

variable {program : Program Ctx} {node : CallGraphNode Ctx} {ir : IR} {state : ThreadBuildState Ctx}

/-- What the runtime model does to its flags before a statement is traversed. -/
def RegionFlags.ask (master : Bool) (ir : IR) (flags : RegionFlags) : RegionFlags :=
  if ir.type = .openMPForkTeams then flags.setTeams true else flags.mark master ir

lemma joinTasks_flags (node : CallGraphNode Ctx) (state : ThreadBuildState Ctx) :
    (OpenMPRuntime.joinTasks node state).flags = state.flags := by
  simp [OpenMPRuntime.joinTasks, ThreadBuildState.flags, ThreadBuildState.withRuntime, OpenMPRuntime.flags]

lemma asked_flags {asked : ThreadBuildState Ctx} {skip : Bool} (h : Asked node ir state skip asked) :
    asked.flags = state.flags.ask (isOpenMPMasterThread state.thread) ir := by
  cases h with
  | team ht hs =>
    cases htype : ir.type <;> simp [isOpenMPTeamSpecific, htype] at hs <;>
      simp [RegionFlags.ask, RegionFlags.mark, htype]
  | single h => simp [RegionFlags.ask, RegionFlags.mark, h]
  | forkTeams h => simp [RegionFlags.ask, h]; rfl
  | joins h =>
    rw [joinTasks_flags]
    rcases h with h | h | h <;> simp [RegionFlags.ask, RegionFlags.mark, h]
  | masterStart h hm => simp [RegionFlags.ask, RegionFlags.mark, h, hm]; rfl
  | masterSkip h hm => simp [RegionFlags.ask, RegionFlags.mark, h, hm]; rfl
  | masterEnd h hm => simp [RegionFlags.ask, RegionFlags.mark, h, hm]; rfl
  | otherEnd h hm => simp [RegionFlags.ask, RegionFlags.mark, h, hm]
  | singleStart h => simp [RegionFlags.ask, RegionFlags.mark, h]; rfl
  | singleEnd h => simp [RegionFlags.ask, RegionFlags.mark, h]; rfl
  | other h =>
    simp only [List.mem_cons, List.not_mem_nil, not_or, or_false] at h
    cases htype : ir.type <;> simp [htype] at h <;> simp [RegionFlags.ask, RegionFlags.mark, htype]

lemma dispatched_flags {step : VisitStep Ctx} (h : Dispatched program node ir state step) :
    step.state.flags = state.flags := by
  cases h with
  | fork =>
    simp only [VisitStep.state, ThreadBuildState.flags, forked, OpenMPRuntime.preFork, OpenMPRuntime.flags]
    split <;> rfl
  | _ => rfl

lemma visitStart_flags {step : VisitStep Ctx} (h : visitStart program node ir state = .ok step) :
    step.state.flags = if passes ir state then state.flags
      else state.flags.ask (isOpenMPMasterThread state.thread) ir := by
  have hrecord : (recordVisit node ir state).flags = state.flags :=
    congrArg (·.runtime.flags) (resume_fields ir state).2.1
  have hthread : (recordVisit node ir state).thread = state.thread := (resume_fields ir state).1
  rcases visitStart_cases h with ⟨hp, rfl⟩ | ⟨hp, ⟨skipped, hpre, rfl⟩ | ⟨asked, hpre, hdispatch⟩⟩
  · rw [if_pos hp]
    exact hrecord
  · rw [hp, if_neg (by simp), ← hrecord, ← hthread]
    exact asked_flags (asked_of_preVisit hpre)
  · rw [hp, if_neg (by simp), ← hrecord, ← hthread]
    exact (dispatched_flags (dispatched_of_dispatch hdispatch)).trans (asked_flags (asked_of_preVisit hpre))

end Visit

inductive Handled (program : Program Ctx) (node : CallGraphNode Ctx) (ir : IR) (state : ThreadBuildState Ctx) :
    ThreadBuildState Ctx → Prop
  | dropped {after} (hv : visitStart program node ir state = .ok (.next after)) :
      Handled program node ir state after
  | built {fork entry state' childState} (hv : visitStart program node ir state = .ok (.fork fork entry state'))
      (hr : Run program (.build entry) (state'.child fork entry) childState) :
      Handled program node ir state (state'.finishFork ir childState)

/-- After every fork that the construction meets, the flags are what they were before it. -/
def ForksKeepFlags (program : Program Ctx) (main : CallGraphNode Ctx) : Prop :=
  ∀ node ir rest state after, Reached program main (.body node (ir :: rest)) state → ir.type.kind = .fork →
    Handled program node ir state after → after.flags = state.flags

/-- Teams are forked outside teams regions only, unless they are dropped, which they are inside only; and
the markers that a forked thread meets itself lead back to the flags that it was forked under. -/
structure ForksNeutral (program : Program Ctx) (main : CallGraphNode Ctx) : Prop where
  dropped : ∀ node ir rest state after, Reached program main (.body node (ir :: rest)) state →
    visitStart program node ir state = .ok (.next after) → passes ir state = false →
      ir.type = .openMPForkTeams → state.flags.inTeamsregion = true
  teams : ∀ node ir rest state fork entry state' childState, Reached program main (.body node (ir :: rest)) state →
    visitStart program node ir state = .ok (.fork fork entry state') →
      Run program (.build entry) (state'.child fork entry) childState →
        ir.type = .openMPForkTeams → state.flags.inTeamsregion = false
  thread : ∀ node ir rest state fork entry state' childState, Reached program main (.body node (ir :: rest)) state →
    visitStart program node ir state = .ok (.fork fork entry state') →
      Run program (.build entry) (state'.child fork entry) childState →
        RegionFlags.ownAll childState.thread childState.log state.flags = state.flags

section Forks

variable {program : Program Ctx} {main node entry : CallGraphNode Ctx} {ir : IR} {fork : ForkEvent Ctx}
  {state state' childState : ThreadBuildState Ctx}

lemma fork_kind (h : visitStart program node ir state = .ok (.fork fork entry state')) :
    ir.type.kind = .fork ∧ passes ir state = false := by
  rcases visitStart_cases h with ⟨-, hnext⟩ | ⟨hp, ⟨_, -, hnext⟩ | ⟨asked, -, hdispatch⟩⟩
  · cases hnext
  · cases hnext
  · have hd := dispatched_of_dispatch hdispatch
    generalize hstep : VisitStep.fork fork entry state' = step at hd
    cases hd with
    | fork hkind => exact ⟨hkind, hp⟩
    | _ => cases hstep

lemma fork_mark (hkind : ir.type.kind = .fork) (master : Bool) (flags : RegionFlags) :
    flags.mark master ir = flags := by
  cases htype : ir.type <;> simp [htype, IRType.kind] at hkind <;> simp [RegionFlags.mark, htype]

lemma fork_ask (hkind : ir.type.kind = .fork) (master : Bool) (flags : RegionFlags) :
    flags.ask master ir = if ir.type = .openMPForkTeams then flags.setTeams true else flags := by
  rw [RegionFlags.ask, fork_mark hkind]

lemma finishFork_flags (state childState : ThreadBuildState Ctx) (ir : IR) :
    (state.finishFork ir childState).flags =
      if ir.type = .openMPForkTeams then childState.flags.setTeams false else childState.flags := by
  rw [ThreadBuildState.flags, ThreadBuildState.finishFork]
  dsimp only
  rw [OpenMPRuntime.postFork]
  split <;> rfl

lemma child_flags (h : visitStart program node ir state = .ok (.fork fork entry state')) :
    (state'.child fork entry).flags =
      if ir.type = .openMPForkTeams then state.flags.setTeams true else state.flags := by
  obtain ⟨hkind, hp⟩ := fork_kind h
  have hflags := visitStart_flags h
  rw [hp, if_neg (by simp), fork_ask hkind] at hflags
  exact hflags

lemma built_flags (h : visitStart program node ir state = .ok (.fork fork entry state'))
    (hown : childState.flags = RegionFlags.ownAll childState.thread childState.log (state'.child fork entry).flags) :
    (state'.finishFork ir childState).flags = state.flags ↔
      (ir.type = .openMPForkTeams → state.flags.inTeamsregion = false) ∧
        RegionFlags.ownAll childState.thread childState.log state.flags = state.flags := by
  rw [finishFork_flags, hown, child_flags h]
  by_cases hteams : ir.type = .openMPForkTeams
  · rw [if_pos hteams, if_pos hteams, RegionFlags.ownAll_setTeams]
    have hkeeps := RegionFlags.ownAll_teams childState.thread childState.log state.flags
    generalize RegionFlags.ownAll childState.thread childState.log state.flags = after at hkeeps
    simp only [RegionFlags.setTeams, RegionFlags.ext_iff, hteams, true_implies]
    constructor
    · rintro ⟨hs, ht, hc⟩
      exact ⟨ht.symm, hs, hkeeps, hc⟩
    · rintro ⟨ht, hs, -, hc⟩
      exact ⟨hs, ht.symm, hc⟩
  · rw [if_neg hteams, if_neg hteams]
    exact ⟨fun heq => ⟨fun ht => absurd ht hteams, heq⟩, And.right⟩

end Forks

lemma Extends.newEntries_append {state mid last : ThreadBuildState Ctx} (h : Extends state mid)
    (h' : Extends mid last) : newEntries state last = newEntries state mid ++ newEntries mid last := by
  obtain ⟨entries, hlog⟩ := h
  obtain ⟨entries', hlog'⟩ := h'
  have hall : last.log = state.log ++ (entries ++ entries') := by rw [hlog', hlog, List.append_assoc]
  rw [Extends.newEntries_eq hall, Extends.newEntries_eq hlog, Extends.newEntries_eq hlog']

section Runs

variable {program : Program Ctx} {main node entry : CallGraphNode Ctx} {ir : IR} {fork : ForkEvent Ctx}
  {state state' mid last childState : ThreadBuildState Ctx}

def FlagsOwn (state last : ThreadBuildState Ctx) : Prop :=
  last.flags = RegionFlags.ownAll state.thread (newEntries state last) state.flags

lemma FlagsOwn.of_log (hl : last.log = state.log) (hf : last.flags = state.flags) : FlagsOwn state last := by
  rw [FlagsOwn, Extends.newEntries_eq (show last.log = state.log ++ [] by simp [hl]), hf]
  rfl

lemma FlagsOwn.trans (h : FlagsOwn state mid) (h' : FlagsOwn mid last) (ht : mid.thread = state.thread)
    (he : Extends state mid) (he' : Extends mid last) : FlagsOwn state last := by
  rw [FlagsOwn, he.newEntries_append he', RegionFlags.ownAll_append, ← h, ← ht]
  exact h'

lemma FlagsOwn.foreign {entries : List (LogEntry Ctx)} (hlog : last.log = state.log ++ entries)
    (h : ∀ entry ∈ entries, entry.isVisitBy state.thread.id = false) (hf : last.flags = state.flags) :
    FlagsOwn state last := by
  rw [FlagsOwn, Extends.newEntries_eq hlog, RegionFlags.ownAll_foreign h, hf]

lemma visited_own {joins own : List (Event Ctx)} (flags : RegionFlags) :
    RegionFlags.ownAll state.thread
      (.visited state.thread node ir state.programState.runtime :: createdAt node (joins ++ own)) flags =
        flags.mark (isOpenMPMasterThread state.thread) ir := by
  rw [RegionFlags.ownAll, List.foldl_cons]
  exact (RegionFlags.ownAll_foreign (created_not_visitBy _) _).trans (if_pos rfl)

lemma visitStart_own {step : VisitStep Ctx} (h : visitStart program node ir state = .ok step)
    (hf : ir.type.kind = .fork → step.state.flags = state.flags) : FlagsOwn state step.state := by
  rcases visitOutcome h with ⟨-, rfl⟩ | ⟨hp, joins, own, ho⟩
  · have hprogram := (resume_fields ir state).2.1
    exact .of_log (congrArg (·.log) hprogram) (congrArg (·.runtime.flags) hprogram)
  · rw [FlagsOwn, Extends.newEntries_eq ho.log, visited_own]
    by_cases hkind : ir.type.kind = .fork
    · rw [hf hkind, fork_mark hkind]
    · have hteams : ir.type ≠ .openMPForkTeams := fun ht => hkind (by rw [ht]; rfl)
      rw [visitStart_flags h, hp, if_neg (by simp), RegionFlags.ask, if_neg hteams]

lemma logCall_own (state : ThreadBuildState Ctx) (node callee : CallGraphNode Ctx) :
    FlagsOwn state (state.logCall node callee) := by
  rw [ThreadBuildState.logCall]
  split
  · exact .of_log rfl rfl
  · exact .foreign rfl (by simp [LogEntry.isVisitBy]) rfl

lemma child_foreign (hl : Logged state') (hr : Run program (.build entry) (state'.child fork entry) childState) :
    ∃ entries, childState.log = state'.log ++ entries ∧
      ∀ e ∈ entries, e.isVisitBy state'.thread.id = false := by
  obtain ⟨entries, hlog, -, hthread⟩ := (hr.frame (Frame.child_numbered state' fork entry)).log
  refine ⟨entries, hlog, fun e he => ?_⟩
  cases e with
  | visited visitor _ _ _ =>
    have hnumbered : state'.thread.id ≤ state'.programState.currentTID := hl.numbered
    have hne : visitor.id ≠ state'.thread.id := by
      cases hthread _ he visitor rfl with
      | inl heq =>
        rw [heq]
        exact (Nat.lt_succ_of_le hnumbered).ne'
      | inr hlt => exact (hnumbered.trans_lt ((Nat.lt_succ_self _).trans hlt)).ne'
    simpa [LogEntry.isVisitBy] using hne
  | created | entered => rfl

lemma child_own (hl : Logged state') (hr : Run program (.build entry) (state'.child fork entry) childState)
    (h : FlagsOwn (state'.child fork entry) childState) :
    childState.flags = RegionFlags.ownAll childState.thread childState.log (state'.child fork entry).flags := by
  obtain ⟨entries, hlog⟩ := hr.extends
  have hold : ∀ e ∈ (state'.child fork entry).log, e.isVisitBy childState.thread.id = false := by
    intro e he
    cases e with
    | visited visitor _ _ _ =>
      have hle := hl.threads _ he visitor rfl
      have hne : visitor.id ≠ childState.thread.id := by
        rw [hr.returns.1]
        exact (Nat.lt_succ_of_le hle).ne
      simpa [LogEntry.isVisitBy] using hne
    | created | entered => rfl
  rw [FlagsOwn, Extends.newEntries_eq hlog, ← hr.returns.1] at h
  rw [hlog, RegionFlags.ownAll_append, RegionFlags.ownAll_foreign hold, ← h]

variable [DecidableEq Ctx]

theorem Run.flagsOwn
    (hdrop : ∀ node ir rest state after, Reached program main (.body node (ir :: rest)) state →
      visitStart program node ir state = .ok (.next after) → ir.type.kind = .fork → after.flags = state.flags)
    (hbuilt : ∀ node ir rest state fork entry state' childState, Reached program main (.body node (ir :: rest)) state →
      visitStart program node ir state = .ok (.fork fork entry state') →
        Run program (.build entry) (state'.child fork entry) childState →
          childState.flags = RegionFlags.ownAll childState.thread childState.log (state'.child fork entry).flags →
            (state'.finishFork ir childState).flags = state.flags)
    {task : Task Ctx} (h : Run program task state last) (hr : Reached program main task state) :
    FlagsOwn state last := by
  induction h with
  | recursive => exact .of_log rfl rfl
  | function hnot hsum _ ih => exact ih (.function hr hnot hsum)
  | done => exact .of_log rfl rfl
  | next hstart hrest ih =>
    have hemit := visitStart_emits hstart
    exact (visitStart_own hstart (hdrop _ _ _ _ _ hr hstart)).trans (ih (.next hr hstart)) hemit.thread
      (.of_emits hemit) hrest.extends
  | @call node ir rest state callee state' returned last hstart hcall hrest ihcall ihrest =>
    have hemit := visitStart_emits hstart
    have hlog := Frame.of_logCall state' node callee
    have hkind : ir.type.kind ≠ .fork := by
      rcases visitStart_cases hstart with ⟨-, hnext⟩ | ⟨-, ⟨_, -, hnext⟩ | ⟨asked, -, hdispatch⟩⟩
      · cases hnext
      · cases hnext
      · have hd := dispatched_of_dispatch hdispatch
        generalize hstep : VisitStep.call callee state' = step at hd
        cases hd with
        | call hk => simp [hk]
        | _ => cases hstep
    have hvisit := visitStart_own hstart fun hk => absurd hk hkind
    have hentered := hvisit.trans (logCall_own state' node callee) hemit.thread (.of_emits hemit)
      (logCall_extends state' node callee)
    have hthread : (state'.logCall node callee).thread = state.thread := hlog.thread.trans hemit.thread
    have hextends : Extends state (state'.logCall node callee) :=
      (Extends.of_emits hemit).trans (logCall_extends state' node callee)
    have hbody := hentered.trans (ihcall (.call hr hstart)) hthread hextends hcall.extends
    have hend : FlagsOwn returned (returned.push node .callEnd ir) :=
      .foreign rfl (by simp [LogEntry.isVisitBy]) rfl
    have hreturned := hbody.trans hend (hcall.returns.1.trans hthread) (hextends.trans hcall.extends)
      (push_extends returned node .callEnd ir)
    exact hreturned.trans (ihrest (.returned hr hstart hcall)) (hcall.returns.1.trans hthread)
      ((hextends.trans hcall.extends).trans (push_extends returned node .callEnd ir)) hrest.extends
  | @fork node ir rest state fork entry state' childState last hstart hchild hrest ihchild ihrest =>
    have hemit := visitStart_emits hstart
    have hl' : Logged state' := hr.tallied.1.emits hemit
    have hkept := hbuilt _ _ _ _ _ _ _ _ hr hstart hchild (child_own hl' hchild (ihchild (.fork hr hstart)))
    have hextends : Extends state (state'.finishFork ir childState) := by
      have hvisit : Extends state state' := .of_emits hemit
      have hforked : Extends state' (state'.finishFork ir childState) := hchild.extends
      exact hvisit.trans hforked
    have hforked : FlagsOwn state (state'.finishFork ir childState) := by
      obtain ⟨hkind, hp⟩ := fork_kind hstart
      rcases visitOutcome hstart with ⟨hpass, -⟩ | ⟨-, joins, own, ho⟩
      · rw [hp] at hpass
        cases hpass
      · obtain ⟨entries, hlog, hforeign⟩ := child_foreign hl' hchild
        have hall := (hlog.trans (congrArg (· ++ entries) ho.log)).trans (List.append_assoc _ _ _)
        have hthread : state'.thread.id = state.thread.id := congrArg ThreadRef.id hemit.thread
        rw [hthread] at hforeign
        have hnew : newEntries state (state'.finishFork ir childState) = _ := Extends.newEntries_eq hall
        rw [FlagsOwn, hnew, RegionFlags.ownAll_append,
          RegionFlags.ownAll_foreign hforeign, visited_own, fork_mark hkind, hkept]
    exact hforked.trans (ihrest (.forked hr hstart hchild)) hemit.thread hextends hrest.extends

/-- Forks leave the flags alone exactly when they are neutral. -/
theorem forksKeepFlags_iff (program : Program Ctx) (main : CallGraphNode Ctx) :
    ForksKeepFlags program main ↔ ForksNeutral program main := by
  constructor
  · intro hkeep
    have hbuilt : ∀ node ir rest state fork entry state' childState,
        Reached program main (.body node (ir :: rest)) state →
        visitStart program node ir state = .ok (.fork fork entry state') →
          Run program (.build entry) (state'.child fork entry) childState →
            (ir.type = .openMPForkTeams → state.flags.inTeamsregion = false) ∧
              RegionFlags.ownAll childState.thread childState.log state.flags = state.flags := by
      intro node ir rest state fork entry state' childState hr hv hrun
      have hl' : Logged state' := hr.tallied.1.emits (visitStart_emits hv)
      have hown := Run.flagsOwn (fun _ _ _ _ _ hr hv hk => hkeep _ _ _ _ _ hr hk (.dropped hv))
        (fun _ _ _ _ _ _ _ _ hr hv hrun _ => hkeep _ _ _ _ _ hr (fork_kind hv).1 (.built hv hrun)) hrun
        (.fork hr hv)
      exact (built_flags hv (child_own hl' hrun hown)).mp
        (hkeep _ _ _ _ _ hr (fork_kind hv).1 (.built hv hrun))
    refine ⟨?_, fun _ _ _ _ _ _ _ _ hr hv hrun => (hbuilt _ _ _ _ _ _ _ _ hr hv hrun).1,
      fun _ _ _ _ _ _ _ _ hr hv hrun => (hbuilt _ _ _ _ _ _ _ _ hr hv hrun).2⟩
    intro node ir rest state after hr hv hp hteams
    have hkind : ir.type.kind = .fork := by rw [hteams]; rfl
    have hflags : after.flags = _ := visitStart_flags hv
    rw [hp, if_neg (by simp), fork_ask hkind, if_pos hteams, hkeep _ _ _ _ _ hr hkind (.dropped hv)] at hflags
    rw [hflags]
    rfl
  · intro hneutral
    have hdrop : ∀ node ir rest state after, Reached program main (.body node (ir :: rest)) state →
        visitStart program node ir state = .ok (.next after) → ir.type.kind = .fork →
          after.flags = state.flags := by
      intro node ir rest state after hr hv hkind
      have hflags : after.flags = _ := visitStart_flags hv
      rw [hflags]
      split
      · rfl
      · rename_i hp
        rw [fork_ask hkind]
        split
        · rename_i hteams
          rw [RegionFlags.setTeams, ← hneutral.dropped _ _ _ _ _ hr hv (by simpa using hp) hteams]
        · rfl
    intro node ir rest state after hr hkind hhandled
    cases hhandled with
    | dropped hv => exact hdrop _ _ _ _ _ hr hv hkind
    | built hv hrun =>
      have hbuilt : ∀ node ir rest state fork entry state' childState,
          Reached program main (.body node (ir :: rest)) state →
          visitStart program node ir state = .ok (.fork fork entry state') →
            Run program (.build entry) (state'.child fork entry) childState →
            childState.flags = RegionFlags.ownAll childState.thread childState.log (state'.child fork entry).flags →
              (state'.finishFork ir childState).flags = state.flags :=
        fun _ _ _ _ _ _ _ _ hr hv hrun hown => (built_flags hv hown).mpr
          ⟨hneutral.teams _ _ _ _ _ _ _ _ hr hv hrun, hneutral.thread _ _ _ _ _ _ _ _ hr hv hrun⟩
      have hl' := hr.tallied.1.emits (visitStart_emits hv)
      exact hbuilt _ _ _ _ _ _ _ _ hr hv hrun
        (child_own hl' hrun (hrun.flagsOwn hdrop hbuilt (.fork hr hv)))

end Runs

namespace NestedSingle

open NestedTask (mainFunction outlined entry runtimeCall forkCall)
open InnerSingle (single endSingle first second joins)

/-- `single { parallel { single { } } }`. -/
def body (f : Function) : List BasicBlock :=
  if f = mainFunction then [[.call single], [.call (forkCall 1), .call (forkCall 2)]]
  else [[.call single], [.call endSingle]]

def program : Program Unit := { InnerSingle.program false with getFunctionSummary f := generateFunctionSummary (body f) }

def marker : IR := ⟨.openMPSingleStart, .call single, .other⟩

lemma main_summary :
    program.getFunctionSummary mainFunction = .ok (marker :: first :: second :: joins) := by decide +kernel

def start : ThreadBuildState Unit := (ThreadBuildState.main entry).enter entry

def inSingle : ThreadBuildState Unit :=
  match visitStart program entry marker start with
  | .ok (.next state) => state
  | _ => start

lemma inSingle_reached : Reached program entry (.body entry (first :: second :: joins)) inSingle := by
  have hmain : Reached program entry (.body entry (marker :: first :: second :: joins)) start :=
    .function .main List.not_mem_nil main_summary
  exact hmain.next rfl

lemma spawned : (spawnedBy program 3 entry inSingle first).isSome := by decide +kernel

def region : Spawned program entry inSingle first := (spawnedBy program 3 entry inSingle first).get spawned

/-- The inner region's end marker makes the builder forget the outer region. -/
theorem fork_loses_single : ¬ ForksKeepFlags program entry := by
  intro hkeep
  have hflags := hkeep _ _ _ _ _ inSingle_reached rfl (.built region.visit region.run)
  have hlost : region.after.flags.inSingleRegion ≠ inSingle.flags.inSingleRegion := by decide +kernel
  exact hlost (congrArg RegionFlags.inSingleRegion hflags)

end NestedSingle

end OpenRace
