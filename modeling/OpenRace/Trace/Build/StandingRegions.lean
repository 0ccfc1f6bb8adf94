import OpenRace.Trace.Build.Reached
import OpenRace.Trace.Build.ToldRegions

/-! Wherever the builder gets to, the runtime model knows of the master regions what the threads have met. -/

namespace OpenRace

open LLVM

variable {Ctx : Type}

section Steps

variable {state : ThreadBuildState Ctx} {node : CallGraphNode Ctx}

lemma logCall_silent (state : ThreadBuildState Ctx) (node callee : CallGraphNode Ctx) :
    ∃ entries, (state.logCall node callee).log = state.log ++ entries ∧ ∀ entry ∈ entries, entry.isVisit = false := by
  rw [ThreadBuildState.logCall]
  split
  · exact ⟨[], (List.append_nil _).symm, by simp⟩
  · exact ⟨[.entered node callee], rfl, by simp [LogEntry.isVisit]⟩

lemma logCall_open (state : ThreadBuildState Ctx) (node callee : CallGraphNode Ctx) (t : ThreadRef Ctx) :
    openRegion (state.logCall node callee).log t = openRegion state.log t := by
  obtain ⟨entries, hlog, hsilent⟩ := logCall_silent state node callee
  rw [hlog, openRegion_silent hsilent]

lemma push_open (type : EventType) (ir : IR) (t : ThreadRef Ctx) :
    openRegion (state.push node type ir).log t = openRegion state.log t := by
  have hlog : (state.push node type ir).log = state.log ++ [.created node (state.nextEvent type ir none)] := rfl
  rw [hlog, openRegion_silent (by simp [LogEntry.isVisit])]

lemma Told.logCall (h : Told state) (node callee : CallGraphNode Ctx) : Told (state.logCall node callee) := by
  obtain ⟨entries, hlog, hsilent⟩ := logCall_silent state node callee
  have hmarks := logCall_marks state node callee
  exact h.silent (Frame.of_logCall state node callee).thread hlog hsilent
    (congrArg Marks.currentMasterStart hmarks) (congrArg Marks.masterRegions hmarks)

lemma Told.push (h : Told state) (type : EventType) (ir : IR) : Told (state.push node type ir) := by
  have hlog : (state.push node type ir).log = state.log ++ [.created node (state.nextEvent type ir none)] := rfl
  exact h.silent rfl hlog (by simp [LogEntry.isVisit]) rfl rfl

lemma visitStart_fork_emitted {program : Program Ctx} {ir : IR} {state' : ThreadBuildState Ctx} {fork : ForkEvent Ctx}
    {entry : CallGraphNode Ctx} (hv : visitStart program node ir state = .ok (.fork fork entry state')) :
    fork.pid.tid = state'.thread.id :=
  (visitStart_fork_tid hv).trans (congrArg _ (visitStart_emits hv).thread).symm

end Steps

section Runs

variable {program : Program Ctx} {partner : Instruction → Instruction} {task : Task Ctx}
  {state last : ThreadBuildState Ctx}

lemma Frame.openRegion (h : Frame state last) {t : ThreadRef Ctx} (hne : t.id ≠ state.thread.id)
    (hle : t.id ≤ state.programState.currentTID) :
    OpenRace.openRegion last.log t = OpenRace.openRegion state.log t := by
  obtain ⟨entries, hlog, -, hthread⟩ := h.log
  rw [hlog]
  apply openRegion_foreign
  intro entry hentry
  cases entry with
  | visited visitor _ _ _ =>
    apply beq_eq_false_iff_ne.mpr
    rcases hthread _ hentry visitor rfl with rfl | hlt
    · exact hne.symm
    · exact (hle.trans_lt hlt).ne'
  | created | entered => rfl

lemma Run.ancestors_open (h : Run program task state last) (ht : Told state) (hl : Logged state) :
    ∀ t ∈ state.thread.ancestors, openRegion last.log t = openRegion state.log t := by
  intro t hmem
  have hlt := ht.older t hmem
  exact (h.frame hl.numbered).openRegion hlt.ne (hlt.le.trans hl.numbered)

lemma child_line_open {fork : ForkEvent Ctx} {entry : CallGraphNode Ctx} {childState : ThreadBuildState Ctx}
    (h : Run program (.build entry) (state.child fork entry) childState) (ht : Told state) (hl : Logged state) :
    ∀ t ∈ state.thread.line, openRegion childState.log t = openRegion state.log t := by
  have hnumbered : state.thread.id ≤ state.programState.currentTID := hl.numbered
  have hle : ∀ t ∈ state.thread.line, t.id ≤ state.programState.currentTID := by
    rw [ThreadRef.line, List.forall_mem_cons]
    exact ⟨hnumbered, fun t hmem => (ht.older t hmem).le.trans hnumbered⟩
  intro t hmem
  have hframe := h.frame (Frame.child_numbered state fork entry)
  exact hframe.openRegion (Nat.lt_succ_of_le (hle t hmem)).ne ((hle t hmem).trans (Nat.le_succ _))

structure Standing (partner : Instruction → Instruction) (task : Task Ctx) (state : ThreadBuildState Ctx) : Prop where
  told : Told state
  logged : Logged state
  paired : state.marks.Paired partner
  position : ∃ outer, task.At partner state outer ∧
    (outer = none → ∀ t ∈ state.thread.ancestors, openRegion state.log t = none)

namespace Standing

variable {node callee entry : CallGraphNode Ctx} {summary rest : List IR} {ir : IR} {spawn : ForkEvent Ctx}
  {state' back childState : ThreadBuildState Ctx}

lemma entered (ht : Told state) (hl : Logged state) (hp : state.marks.Paired partner)
    (hskip : state.skipUntil = none) :
    Standing partner (.build node) state :=
  ⟨ht, hl, hp, _, ⟨hskip, rfl⟩, fun hnone t hmem => ht.above hnone t (List.mem_cons_of_mem _ hmem)⟩

lemma main (main : CallGraphNode Ctx) : Standing partner (.build main) (.main main) :=
  .entered (.initial main) (.initial main)
    (fun _ _ hm => absurd hm (by simp [ThreadBuildState.main, ThreadBuildState.marks])) rfl

lemma function (h : Standing partner (.build node) state) (hs : Structured partner summary) :
    Standing partner (.body node summary) (state.enter node) := by
  have hl := h.logged
  obtain ⟨outer, hat, habove⟩ := h.position
  refine ⟨h.told.silent rfl (List.append_nil _).symm (by simp) rfl rfl,
    ⟨hl.numbered, hl.threads, hl.own, hl.ids, hl.located, hl.distinct⟩, h.paired, _, .outside hs hat.1, ?_⟩
  exact fun hnone => habove (hat.2.symm.trans hnone)

section Visit

variable (h : Standing partner (.body node (ir :: rest)) state)

include h

lemma visited {step : VisitStep Ctx} (hv : visitStart program node ir state = .ok step) :
    Told step.state ∧ Logged step.state ∧ step.state.marks.Paired partner ∧
      ((∀ last, step ≠ .next last) → step.state.skipUntil = none) ∧
      ∃ outer, Position partner (isOpenMPMasterThread step.state.thread) step.state.marks rest outer ∧
        (outer = none → ∀ t ∈ step.state.thread.ancestors, openRegion step.state.log t = none) := by
  obtain ⟨outer, hat, habove⟩ := h.position
  obtain ⟨hpos, hp', hskip⟩ := visitStart_position hv h.paired hat
  obtain ⟨hvisit, hsame⟩ := h.told.visit hat habove hv
  have hemit := visitStart_emits hv
  rw [hemit.thread]
  exact ⟨hvisit, h.logged.emits hemit, hp', hskip, outer, hpos,
    fun hnone t ht => (hsame t ht).trans (habove hnone t ht)⟩

lemma next (hv : visitStart program node ir state = .ok (.next state')) :
    Standing partner (.body node rest) state' := by
  obtain ⟨htold, hl, hp, -, hpos⟩ := h.visited hv
  exact ⟨htold, hl, hp, hpos⟩

lemma call (hv : visitStart program node ir state = .ok (.call callee state')) :
    Standing partner (.build callee) (state'.logCall node callee) := by
  obtain ⟨htold, hl, hp, hskip, -⟩ := h.visited hv
  refine .entered (htold.logCall node callee) (hl.logCall node callee) (by rw [logCall_marks]; exact hp) ?_
  exact (congrArg Marks.skipUntil (logCall_marks state' node callee)).trans (hskip (by simp))

lemma returned (hv : visitStart program node ir state = .ok (.call callee state'))
    (hr : Run program (.build callee) (state'.logCall node callee) back) (htold : Told back)
    (hprog : program.MasterRegionsClosed partner) :
    Standing partner (.body node rest) (back.push node .callEnd ir) := by
  obtain ⟨-, hl, -, hskip, outer, hpos, habove⟩ := h.visited hv
  have hcalled := h.call hv
  have hnone : state'.skipUntil = none := hskip (by simp)
  have hthread : back.thread = state'.thread := hr.returned_thread
  have hopen : ∀ t ∈ state'.thread.ancestors, openRegion back.log t = openRegion state'.log t := by
    rw [← (Frame.of_logCall state' node callee).thread]
    intro t ht
    rw [hr.ancestors_open hcalled.told hcalled.logged t ht, logCall_open]
  obtain ⟨hpb, hsb, hcb⟩ := hr.marks hprog hcalled.paired (at_called hnone)
  refine ⟨htold.push .callEnd ir, (hr.logged hcalled.logged).emits (.push _ _ _ _ _), hpb, outer, ?_, fun ho t ht => ?_⟩
  · exact at_returned hpos hthread hnone hsb hcb
  · change t ∈ back.thread.ancestors at ht
    rw [hthread] at ht
    exact ((push_open _ _ t).trans (hopen t ht)).trans (habove ho t ht)

lemma fork (hv : visitStart program node ir state = .ok (.fork spawn entry state')) :
    Standing partner (.build entry) (state'.child spawn entry) := by
  obtain ⟨htold, hl, hp, -⟩ := h.visited hv
  exact .entered (htold.child hl (visitStart_fork_emitted hv)) (hl.child spawn entry) hp rfl

lemma forked (hv : visitStart program node ir state = .ok (.fork spawn entry state'))
    (hr : Run program (.build entry) (state'.child spawn entry) childState) (htold : Told childState)
    (hprog : program.MasterRegionsClosed partner) :
    Standing partner (.body node rest) (state'.finishFork ir childState) := by
  obtain ⟨htold', hl, -, -, outer, hpos, habove⟩ := h.visited hv
  have hchild := h.fork hv
  have hopen := child_line_open hr htold' hl
  have hat : (Task.build entry).At partner (state'.child spawn entry) state'.marks.currentMasterStart := ⟨rfl, rfl⟩
  obtain ⟨hpc, -, hcc⟩ := hr.marks hprog hchild.paired hat
  refine ⟨htold'.finishFork htold ir hcc hopen, hl.finishFork ir (hr.frame hchild.logged.numbered)
    (hr.logged hchild.logged), by rw [finishFork_marks]; exact hpc, outer, ?_, fun ho t ht => ?_⟩
  · exact at_forked hpos rfl hcc
  · exact (hopen t (List.mem_cons_of_mem _ ht)).trans (habove ho t ht)

end Visit

end Standing

theorem Run.told (hprog : program.MasterRegionsClosed partner) (h : Run program task state last)
    (hs : Standing partner task state) : Told last := by
  induction h with
  | recursive => exact hs.told
  | function _ hsummary _ ih =>
    exact (ih (hs.function (hprog _ _ hsummary))).silent rfl (List.append_nil _).symm (by simp) rfl rfl
  | done => exact hs.told
  | next hv _ ih => exact ih (hs.next hv)
  | call hv hcall _ ihcall ihrest => exact ihrest (hs.returned hv hcall (ihcall (hs.call hv)) hprog)
  | fork hv hchild _ ihchild ihrest => exact ihrest (hs.forked hv hchild (ihchild (hs.fork hv)) hprog)

theorem Reached.standing (hprog : program.MasterRegionsClosed partner) {main : CallGraphNode Ctx}
    (h : Reached program main task state) : Standing partner task state := by
  induction h with
  | main => exact .main _
  | function _ _ hsummary ih => exact ih.function (hprog _ _ hsummary)
  | next _ hv ih => exact ih.next hv
  | call _ hv ih => exact ih.call hv
  | returned _ hv hr ih => exact ih.returned hv hr (hr.told hprog (ih.call hv)) hprog
  | fork _ hv ih => exact ih.fork hv
  | forked _ hv hr ih => exact ih.forked hv hr (hr.told hprog (ih.fork hv)) hprog

end Runs

end OpenRace
