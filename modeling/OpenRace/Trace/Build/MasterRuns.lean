import OpenRace.Trace.Build.Logged
import OpenRace.Trace.Build.MasterRegions

/-! Master regions over whole runs. -/

namespace OpenRace

open LLVM

variable {Ctx : Type}

lemma visitStart_position {program : Program Ctx} {node : CallGraphNode Ctx} {ir : IR} {rest : List IR}
    {state : ThreadBuildState Ctx} {step : VisitStep Ctx} {partner : Instruction → Instruction}
    {outer : Option Instruction} (h : visitStart program node ir state = .ok step)
    (hp : state.marks.Paired partner)
    (hpos : Position partner (isOpenMPMasterThread state.thread) state.marks (ir :: rest) outer) :
    Position partner (isOpenMPMasterThread state.thread) step.state.marks rest outer ∧
      step.state.marks.Paired partner ∧ ((∀ last, step ≠ .next last) → step.state.skipUntil = none) := by
  cases hpass : passes ir state with
  | true =>
    have hstep : step = .next (resume ir state) := by
      rcases visitStart_cases h with ⟨-, hstep⟩ | ⟨hvisit, -⟩
      · exact hstep
      · rw [hpass] at hvisit
        cases hvisit
    rw [hstep]
    refine ⟨hpos.pass hpass, ?_, fun hnext => absurd rfl (hnext _)⟩
    change (resume ir state).marks.Paired partner
    rw [resume_marks]
    exact hp
  | false =>
    obtain ⟨hstep, hskip⟩ := visit_marks h hpass
    obtain ⟨hpos', hp'⟩ := hpos.visit (fun _ => visited_target hpass) hp hstep
    exact ⟨hpos', hp', hskip⟩

lemma Run.returns {program : Program Ctx} {task : Task Ctx} {state last : ThreadBuildState Ctx}
    (h : Run program task state last) : last.thread = state.thread ∧ last.callstack = state.callstack := by
  induction h with
  | recursive => exact ⟨rfl, rfl⟩
  | @function node _ state last _ _ _ ih =>
    have hstack : last.callstack = state.callstack ++ [node.function] := ih.2
    exact ⟨ih.1, by simp [ThreadBuildState.leave, hstack]⟩
  | done => exact ⟨rfl, rfl⟩
  | next hstart _ ih =>
    have hemit := visitStart_emits hstart
    exact ⟨ih.1.trans hemit.thread, ih.2.trans hemit.callstack⟩
  | @call node _ _ _ callee state' _ _ hstart _ _ ihcall ihrest =>
    have hemit := visitStart_emits hstart
    have hlog := Frame.of_logCall state' node callee
    exact ⟨((ihrest.1.trans ihcall.1).trans hlog.thread).trans hemit.thread,
      ((ihrest.2.trans ihcall.2).trans hlog.callstack).trans hemit.callstack⟩
  | fork hstart _ _ _ ihrest =>
    have hemit := visitStart_emits hstart
    exact ⟨ihrest.1.trans hemit.thread, ihrest.2.trans hemit.callstack⟩

lemma Run.returned_thread {program : Program Ctx} {node callee : CallGraphNode Ctx}
    {state returned : ThreadBuildState Ctx} (h : Run program (.build callee) (state.logCall node callee) returned) :
    returned.thread = state.thread :=
  h.returns.1.trans (Frame.of_logCall state node callee).thread

def Task.At (partner : Instruction → Instruction) (state : ThreadBuildState Ctx)
    (outer : Option Instruction) : Task Ctx → Prop
  | .build _ => state.skipUntil = none ∧ state.marks.currentMasterStart = outer
  | .body _ summary =>
    Position partner (isOpenMPMasterThread state.thread) state.marks summary outer

lemma logCall_marks (state : ThreadBuildState Ctx) (node callee : CallGraphNode Ctx) :
    (state.logCall node callee).marks = state.marks := by
  rw [ThreadBuildState.logCall]
  split <;> rfl

lemma finishFork_marks (state childState : ThreadBuildState Ctx) (ir : IR) :
    (state.finishFork ir childState).marks = { childState.marks with skipUntil := state.skipUntil } := by
  simp only [ThreadBuildState.finishFork, ThreadBuildState.marks, OpenMPRuntime.postFork]
  split <;> rfl

section Behind

variable {partner : Instruction → Instruction} {node : CallGraphNode Ctx} {ir : IR} {rest : List IR}
  {state state' : ThreadBuildState Ctx} {outer : Option Instruction}

lemma at_called {callee : CallGraphNode Ctx} (hs : state.skipUntil = none) :
    (Task.build callee).At partner (state.logCall node callee) state.marks.currentMasterStart := by
  have hlog := logCall_marks state node callee
  exact ⟨(congrArg Marks.skipUntil hlog).trans hs, congrArg Marks.currentMasterStart hlog⟩

variable (hpos : Position partner (isOpenMPMasterThread state.thread) state'.marks rest outer)

include hpos

lemma at_next (hthread : state'.thread = state.thread) : (Task.body node rest).At partner state' outer := by
  rw [Task.At, hthread]
  exact hpos

lemma at_returned {returned : ThreadBuildState Ctx} (hthread : returned.thread = state.thread)
    (hs : state'.skipUntil = none) (hsr : returned.skipUntil = none)
    (hcr : returned.marks.currentMasterStart = state'.marks.currentMasterStart) :
    (Task.body node rest).At partner (returned.push node .callEnd ir) outer := by
  change Position partner (isOpenMPMasterThread returned.thread) returned.marks rest outer
  rw [hthread]
  exact hpos.congr (hsr.trans hs.symm) hcr

lemma at_forked {childState : ThreadBuildState Ctx} (hthread : state'.thread = state.thread)
    (hcc : childState.marks.currentMasterStart = state'.marks.currentMasterStart) :
    (Task.body node rest).At partner (state'.finishFork ir childState) outer := by
  change Position partner (isOpenMPMasterThread state'.thread) (state'.finishFork ir childState).marks rest outer
  rw [hthread, finishFork_marks]
  exact hpos.congr rfl hcc

end Behind

section Runs

variable {program : Program Ctx} {partner : Instruction → Instruction}

theorem Run.marks (hprog : program.MasterRegionsClosed partner) {task : Task Ctx}
    {state last : ThreadBuildState Ctx} (h : Run program task state last)
    (hp : state.marks.Paired partner) {outer : Option Instruction} (ha : task.At partner state outer) :
    last.marks.Paired partner ∧ last.skipUntil = none ∧ last.marks.currentMasterStart = outer := by
  induction h generalizing outer with
  | recursive => exact ⟨hp, ha⟩
  | @function node summary state _ _ hs _ ih =>
    have hpos : Task.At partner (state.enter node) outer (.body node summary) := by
      rw [← ha.2]
      exact .outside (hprog _ _ hs) ha.1
    exact ih hp hpos
  | @done _ state =>
    generalize hsum : ([] : List IR) = summary at ha
    have hpos : Position partner (isOpenMPMasterThread state.thread) state.marks summary outer := ha
    cases hpos with
    | outside _ hs => exact ⟨hp, hs, rfl⟩
    | inside => simp at hsum
    | skipping => simp at hsum
  | next hstart _ ih =>
    obtain ⟨hpos, hp', -⟩ := visitStart_position hstart hp ha
    exact ih hp' (at_next hpos (visitStart_emits hstart).thread)
  | @call node ir rest state callee state' returned _ hstart hcall _ ihcall ihrest =>
    obtain ⟨hpos, hp', hskip⟩ := visitStart_position hstart hp ha
    have hnone : state'.skipUntil = none := hskip (by simp)
    have hpl : (state'.logCall node callee).marks.Paired partner := by
      rw [logCall_marks]
      exact hp'
    obtain ⟨hpr, hsr, hcr⟩ := ihcall hpl (at_called hnone)
    have hthread := hcall.returned_thread.trans (visitStart_emits hstart).thread
    exact ihrest hpr (at_returned hpos hthread hnone hsr hcr)
  | @fork node ir rest state fork entry state' childState _ hstart _ _ ihchild ihrest =>
    obtain ⟨hpos, hp', -⟩ := visitStart_position hstart hp ha
    have hat : (Task.build entry).At partner (state'.child fork entry) state'.marks.currentMasterStart := ⟨rfl, rfl⟩
    obtain ⟨hpc, -, hcc⟩ := ihchild hp' hat
    have hmarks := finishFork_marks state' childState ir
    exact ihrest (by rw [hmarks]; exact hpc) (at_forked hpos (visitStart_emits hstart).thread hcc)

lemma visitStart_unmarked {node : CallGraphNode Ctx} {ir : IR} {rest : List IR}
    {state : ThreadBuildState Ctx} {step : VisitStep Ctx} {start : Instruction}
    (h : visitStart program node ir state = .ok step) (hm : isOpenMPMasterThread state.thread = true)
    (hpos : Position partner (isOpenMPMasterThread state.thread) state.marks (ir :: rest) (some start)) :
    ir.isMasterMarker = false := by
  rw [hm] at hpos
  generalize hsum : ir :: rest = summary at hpos
  generalize houter : some start = outer at hpos
  cases hpos with
  | skipping _ _ _ hother => cases hother
  | inside => cases houter
  | outside hs hnone =>
    subst hsum
    cases hs with
    | plain hun => exact hun
    | region hstart =>
      cases hpass : passes ir state with
      | true =>
        rcases passed hpass with ⟨target, hsome, -⟩ | ⟨hun, -⟩
        · rw [show state.skipUntil = none from hnone] at hsome
          cases hsome
        · exact hun
      | false =>
        have hstep := (visit_marks h hpass).1
        rw [hm] at hstep
        generalize hother : true = master at hstep
        generalize hmarks : { state.marks with skipUntil := none } = marks at hstep
        generalize step.state.marks = marks' at hstep
        cases hstep with
        | start _ _ hn =>
          rw [← hmarks] at hn
          rw [show state.marks.currentMasterStart = none from hn] at houter
          cases houter
        | skip _ hfalse => rw [hfalse] at hother; cases hother
        | finish htype => rw [hstart] at htype; cases htype
        | other hun =>
          rcases hun with hun | ⟨-, hfalse⟩
          · exact hun
          · rw [hfalse] at hother
            cases hother

lemma visitStart_events {node : CallGraphNode Ctx} {ir : IR} {state : ThreadBuildState Ctx}
    {step : VisitStep Ctx} (h : visitStart program node ir state = .ok step) :
    ∃ new, step.state.events = state.events ++ new ∧
      ∀ event ∈ new, event.ir = ir ∨ event.ir.type = .openMPTaskJoin := by
  have hemit := visitStart_emits h
  rcases visitOutcome h with ⟨-, rfl⟩ | ⟨-, joins, own, ho⟩
  · exact ⟨[], by simpa [VisitStep.state] using (resume_fields ir state).2.2.1, by simp⟩
  · refine ⟨joins ++ own, ho.events hemit, ?_⟩
    intro event hevent
    cases List.mem_append.mp hevent with
    | inl hj => exact Or.inr (ho.joinEvents event hj).2.2
    | inr ho' => exact Or.inl (ho.ownEvents event ho').2.1

lemma Position.still_open {marks : Marks} {summary : List IR} {start : Instruction}
    (h : Position partner true marks summary (some start)) : marks.currentMasterStart = some start := by
  generalize houter : some start = outer at h
  cases h with
  | outside => rfl
  | inside => cases houter
  | skipping _ _ _ hm => cases hm

lemma unmarked_of_join {ir : IR} (h : ir.type = .openMPTaskJoin) : ir.isMasterMarker = false := by
  rw [IR.isMasterMarker, h]
  rfl

def AddsUnmarked (state last : ThreadBuildState Ctx) : Prop :=
  ∃ new, last.events = state.events ++ new ∧ ∀ event ∈ new, event.ir.isMasterMarker = false

namespace AddsUnmarked

variable {state mid last : ThreadBuildState Ctx}

lemma of_events (h : last.events = state.events) : AddsUnmarked state last := ⟨[], by simp [h], by simp⟩

lemma trans (h : AddsUnmarked state mid) (h' : AddsUnmarked mid last) : AddsUnmarked state last := by
  obtain ⟨new, hnew, hunmarked⟩ := h
  obtain ⟨new', hnew', hunmarked'⟩ := h'
  refine ⟨new ++ new', by rw [hnew', hnew, List.append_assoc], ?_⟩
  intro event hevent
  rcases List.mem_append.mp hevent with hm | hm
  · exact hunmarked event hm
  · exact hunmarked' event hm

lemma visit {node : CallGraphNode Ctx} {ir : IR} {step : VisitStep Ctx}
    (h : visitStart program node ir state = .ok step) (hun : ir.isMasterMarker = false) :
    AddsUnmarked state step.state := by
  obtain ⟨new, hnew, hirs⟩ := visitStart_events h
  refine ⟨new, hnew, ?_⟩
  intro event hevent
  rcases hirs event hevent with hir | hjoin
  · rw [hir]
    exact hun
  · exact unmarked_of_join hjoin

lemma callEnd {ir : IR} (state : ThreadBuildState Ctx) (node : CallGraphNode Ctx) (hun : ir.isMasterMarker = false) :
    AddsUnmarked state (state.push node .callEnd ir) := by
  refine ⟨[state.nextEvent .callEnd ir none], rfl, ?_⟩
  intro event hevent
  rw [List.mem_singleton.mp hevent]
  exact hun

end AddsUnmarked

lemma Run.unmarked (hprog : program.MasterRegionsClosed partner) {task : Task Ctx}
    {state last : ThreadBuildState Ctx} (h : Run program task state last)
    (hp : state.marks.Paired partner) {start : Instruction} (ha : task.At partner state (some start))
    (hm : isOpenMPMasterThread state.thread = true) : AddsUnmarked state last := by
  induction h with
  | recursive => exact .of_events rfl
  | @function node summary state _ _ hs _ ih =>
    have hpos : Task.At partner (state.enter node) (some start) (.body node summary) := by
      rw [← ha.2]
      exact .outside (hprog _ _ hs) ha.1
    exact ih hp hpos hm
  | done => exact .of_events rfl
  | next hstart _ ih =>
    obtain ⟨hpos, hp', -⟩ := visitStart_position hstart hp ha
    have hthread := (visitStart_emits hstart).thread
    have hvisit := AddsUnmarked.visit hstart (visitStart_unmarked hstart hm ha)
    exact hvisit.trans (ih hp' (at_next hpos hthread) (hthread ▸ hm))
  | @call node ir rest state callee state' returned _ hstart hcall _ ihcall ihrest =>
    obtain ⟨hpos, hp', hskip⟩ := visitStart_position hstart hp ha
    have hun := visitStart_unmarked hstart hm ha
    have hnone : state'.skipUntil = none := hskip (by simp)
    have hthread : state'.thread = state.thread := (visitStart_emits hstart).thread
    have hopen : state'.marks.currentMasterStart = some start := by
      rw [hm] at hpos
      exact hpos.still_open
    have hat : (Task.build callee).At partner (state'.logCall node callee) (some start) := by
      rw [← hopen]
      exact at_called hnone
    have hpl : (state'.logCall node callee).marks.Paired partner := by
      rw [logCall_marks]
      exact hp'
    have hmaster : isOpenMPMasterThread (state'.logCall node callee).thread = true := by
      rw [(Frame.of_logCall state' node callee).thread, hthread]
      exact hm
    obtain ⟨hpr, hsr, hcr⟩ := hcall.marks hprog hpl hat
    have hreturned : returned.thread = state.thread := hcall.returned_thread.trans hthread
    have hvisit : AddsUnmarked state state' := .visit hstart hun
    have henter : AddsUnmarked state' (state'.logCall node callee) := by
      rw [ThreadBuildState.logCall]
      split <;> exact .of_events rfl
    have hcalled := (hvisit.trans henter).trans (ihcall hpl hat hmaster)
    refine (hcalled.trans (.callEnd returned node hun)).trans (ihrest hpr ?_ ?_)
    · exact at_returned hpos hreturned hnone hsr (hcr.trans hopen.symm)
    · change isOpenMPMasterThread returned.thread = true
      rw [hreturned]
      exact hm
  | @fork node ir rest state fork entry state' childState _ hstart hchild _ _ ihrest =>
    obtain ⟨hpos, hp', -⟩ := visitStart_position hstart hp ha
    have hthread : state'.thread = state.thread := (visitStart_emits hstart).thread
    have hopen : state'.marks.currentMasterStart = some start := by
      rw [hm] at hpos
      exact hpos.still_open
    have hat : (Task.build entry).At partner (state'.child fork entry) (some start) := ⟨rfl, hopen⟩
    obtain ⟨hpc, -, hcc⟩ := hchild.marks hprog hp' hat
    -- the events of the child are not events of the thread that forks it
    have hvisit : AddsUnmarked state (state'.finishFork ir childState) :=
      AddsUnmarked.visit hstart (visitStart_unmarked hstart hm ha)
    refine hvisit.trans (ihrest ?_ ?_ ?_)
    · rw [finishFork_marks]
      exact hpc
    · exact at_forked hpos hthread (hcc.trans hopen.symm)
    · change isOpenMPMasterThread state'.thread = true
      rw [hthread]
      exact hm

end Runs

end OpenRace
