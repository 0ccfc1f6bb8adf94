import OpenRace.Trace.Build.CallNesting
import OpenRace.Trace.Build.Reached

/-! The call events of a construction are those of the calls that it enters. -/

namespace OpenRace

open LLVM

variable {Ctx : Type}

def ReachesDispatch (node : CallGraphNode Ctx) (ir : IR) (state : ThreadBuildState Ctx) : Prop :=
  passes ir state = false ∧ ∃ asked, OpenMPRuntime.preVisit node ir (recordVisit node ir state) = .ok (false, asked)

structure Enters (program : Program Ctx) (node : CallGraphNode Ctx) (ir : IR) (state : ThreadBuildState Ctx) :
    Prop where
  dispatched : ReachesDispatch node ir state
  kind : ir.type.kind = .call
  callee : ∃ callee, program.callee node.context ir.inst = some callee ∧ callee.isExtFunction = false

section Step

variable {program : Program Ctx} {node : CallGraphNode Ctx} {ir : IR} {state : ThreadBuildState Ctx}

lemma visitCall_enters {callee : CallGraphNode Ctx} (hc : program.callee node.context ir.inst = some callee)
    (he : callee.isExtFunction = false) :
    visitCall program node ir state = .ok (.call callee (state.push node .call ir)) := by
  cases hinst : ir.inst with
  | call call =>
    simp only [Program.callee, hinst] at hc
    simp only [visitCall, hinst]
    split at hc
    · cases hc
    · rename_i hdirect
      rw [if_neg hdirect]
      cases hf : resolveTargetFunction call with
      | none =>
        rw [hf] at hc
        cases hc
      | some f =>
        simp only [hf] at hc ⊢
        split at hc
        · cases hc
        · rename_i hplain
          simp [hplain, hc, he]
  | alloca id => simp [Program.callee, hinst] at hc
  | load id pointer isAtomic isVolatile => simp [Program.callee, hinst] at hc
  | store id pointer isAtomic isVolatile => simp [Program.callee, hinst] at hc
  | other id => simp [Program.callee, hinst] at hc

lemma enters_iff : Enters program node ir state ↔
    ∃ callee state', visitStart program node ir state = .ok (.call callee state') := by
  constructor
  · rintro ⟨⟨hpasses, asked, hpre⟩, hkind, callee, hc, he⟩
    refine ⟨callee, asked.push node .call ir, ?_⟩
    have hdispatch : dispatch program node ir asked = .ok (.call callee (asked.push node .call ir)) := by
      rw [dispatch, hkind]
      exact visitCall_enters hc he
    rw [visitStart_eq, hpasses, hpre]
    exact hdispatch
  · rintro ⟨callee, state', hv⟩
    rcases visitStart_cases hv with ⟨-, hnext⟩ | ⟨hpasses, ⟨skipped, -, hnext⟩ | ⟨asked, hpre, hdispatch⟩⟩
    · cases hnext
    · cases hnext
    · cases dispatched_of_dispatch hdispatch with
      | call hkind callee hc he => exact ⟨⟨hpasses, asked, hpre⟩, hkind, callee, hc, he⟩

lemma stackAction_enter {event : Event Ctx} {inst : Instruction} (h : stackAction event = .enter inst) :
    event.type = .call ∧ event.ir.inst = inst := by
  rw [stackAction] at h
  cases htype : event.type <;> rw [htype] at h <;> cases h
  exact ⟨rfl, rfl⟩

lemma eventsOf_visitStart {step : VisitStep Ctx} (h : visitStart program node ir state = .ok step) :
    ∃ joins own, eventsOf step.state.log = eventsOf state.log ++ (joins ++ own) ∧
      (∀ event ∈ joins, stackAction event = .keep) ∧ step.Records ir own := by
  obtain ⟨joins, own, hevents, hjoins, hown⟩ := visitStart_records h
  obtain ⟨entries, hlog, hevents', -⟩ := (visitStart_emits h).log
  refine ⟨joins, own, ?_, hjoins, hown⟩
  rw [hlog, eventsOf_append, List.append_cancel_left (hevents'.symm.trans hevents)]

lemma call_of_visitStart {step : VisitStep Ctx} (h : visitStart program node ir state = .ok step)
    {event : Event Ctx} (hevent : event ∈ eventsOf step.state.log) (htype : event.type = .call) :
    event ∈ eventsOf state.log ∨ Enters program node ir state ∧ event.ir.inst = ir.inst := by
  obtain ⟨joins, own, hevents, hjoins, hown⟩ := eventsOf_visitStart h
  have henter : stackAction event = .enter event.ir.inst := by rw [stackAction, htype]
  rw [hevents] at hevent
  rcases List.mem_append.mp hevent with hold | hnew
  · exact .inl hold
  · rcases List.mem_append.mp hnew with hm | hm
    · rw [hjoins event hm] at henter
      cases henter
    · cases step with
      | next state' =>
        rw [hown event hm] at henter
        cases henter
      | call callee state' =>
        obtain ⟨only, rfl, honly⟩ := hown
        rw [List.mem_singleton.mp hm]
        exact .inr ⟨enters_iff.mpr ⟨callee, state', h⟩, (stackAction_enter honly).2⟩
      | fork spawn entry state' =>
        obtain ⟨only, rfl, honly, -⟩ := hown
        rw [List.mem_singleton.mp hm, honly] at htype
        cases htype

lemma visitStart_creates {callee : CallGraphNode Ctx} {state' : ThreadBuildState Ctx}
    (h : visitStart program node ir state = .ok (.call callee state')) :
    ∃ event ∈ eventsOf state'.log, event.type = .call ∧ event.ir.inst = ir.inst := by
  obtain ⟨joins, own, hevents, -, event, rfl, hevent⟩ := eventsOf_visitStart h
  refine ⟨event, ?_, stackAction_enter hevent⟩
  change event ∈ eventsOf (VisitStep.call callee state').state.log
  rw [hevents]
  simp

end Step

lemma Extends.events {state last : ThreadBuildState Ctx} (h : Extends state last) {event : Event Ctx}
    (hevent : event ∈ eventsOf state.log) : event ∈ eventsOf last.log := by
  obtain ⟨entries, hlog⟩ := h
  rw [hlog, eventsOf_append]
  exact List.mem_append_left _ hevent

section Construction

variable {program : Program Ctx} {main : CallGraphNode Ctx} {task : Task Ctx} {state last : ThreadBuildState Ctx}

def EnteredIn (program : Program Ctx) (main : CallGraphNode Ctx) (inst : Instruction) : Prop :=
  ∃ node ir rest state, Reached program main (.body node (ir :: rest)) state ∧ Enters program node ir state ∧
    ir.inst = inst

lemma Run.entered (h : Run program task state last) (hr : Reached program main task state) {event : Event Ctx}
    (hevent : event ∈ eventsOf last.log) (htype : event.type = .call) :
    event ∈ eventsOf state.log ∨ EnteredIn program main event.ir.inst := by
  have hvisit : ∀ {node ir rest state step}, Reached program main (.body node (ir :: rest)) state →
      visitStart program node ir state = .ok step → event ∈ eventsOf step.state.log →
      event ∈ eventsOf state.log ∨ EnteredIn program main event.ir.inst := by
    intro node ir rest state step hr hv he
    rcases call_of_visitStart hv he htype with hold | ⟨henters, hinst⟩
    · exact .inl hold
    · exact .inr ⟨node, ir, rest, state, hr, henters, hinst.symm⟩
  induction h with
  | recursive => exact .inl hevent
  | function hn hs _ ih => exact ih (hr.function hn hs) hevent
  | done => exact .inl hevent
  | next hv _ ih =>
    rcases ih (hr.next hv) hevent with hold | hentered
    · exact hvisit hr hv hold
    · exact .inr hentered
  | @call node ir rest state callee state' returned last hv hcall hrest ihcall ihrest =>
    rcases ihrest (hr.returned hv hcall) hevent with hold | hentered
    · have hreturned : event ∈ eventsOf returned.log := by
        have hpush : eventsOf (returned.push node .callEnd ir).log =
            eventsOf returned.log ++ [returned.nextEvent .callEnd ir none] := eventsOf_append _ _
        rw [hpush, List.mem_append, List.mem_singleton] at hold
        refine hold.resolve_right fun heq => ?_
        rw [heq] at htype
        cases htype
      rcases ihcall (hr.call hv) hreturned with hold | hentered
      · have hlog : eventsOf (state'.logCall node callee).log = eventsOf state'.log := by
          rw [ThreadBuildState.logCall]
          split
          · rfl
          · exact (eventsOf_append _ _).trans (List.append_nil _)
        exact hvisit hr hv (hlog ▸ hold)
      · exact .inr hentered
    · exact .inr hentered
  | @fork node ir rest state fork entry state' childState last hv hchild hrest ihchild ihrest =>
    rcases ihrest (hr.forked hv hchild) hevent with hold | hentered
    · rcases ihchild (hr.fork hv) hold with hold | hentered
      · exact hvisit hr hv hold
      · exact .inr hentered
    · exact .inr hentered

lemma EnteredIn.event {inst : Instruction} (h : EnteredIn program main inst)
    (hmain : Run program (.build main) (.main main) last) :
    ∃ event ∈ eventsOf last.log, event.type = .call ∧ event.ir.inst = inst := by
  obtain ⟨node, ir, rest, state, hr, henters, rfl⟩ := h
  obtain ⟨callee, state', hv⟩ := enters_iff.mp henters
  obtain ⟨event, hevent, htype, hinst⟩ := visitStart_creates hv
  obtain ⟨returned, hrun, hext⟩ := (hr.call hv).extends hmain
  have hlogged : Extends state' last := ((logCall_extends state' node callee).trans hrun.extends).trans hext
  exact ⟨event, hlogged.events hevent, htype, hinst⟩

end Construction

end OpenRace
