import OpenRace.Trace.Build.Outcomes

/-! What the traversal of a single statement leaves behind. -/

namespace OpenRace

open LLVM

variable {Ctx : Type}

abbrev ThreadBuildState.log (state : ThreadBuildState Ctx) : List (LogEntry Ctx) :=
  state.programState.log

def LogEntry.event : LogEntry Ctx → Option (Event Ctx)
  | .created _ event => some event
  | _ => none

def eventsOf (log : List (LogEntry Ctx)) : List (Event Ctx) := log.filterMap LogEntry.event

def LogEntry.IsFrom (node : CallGraphNode Ctx) (state : ThreadBuildState Ctx) : LogEntry Ctx → Prop
  | .visited thread entryNode _ _ => thread = state.thread ∧ entryNode = node
  | .created entryNode event =>
    entryNode = node ∧ event.thread = state.thread ∧ event.context = state.einfo
  | .entered _ _ => False

structure Emits (node : CallGraphNode Ctx) (state state' : ThreadBuildState Ctx) : Prop where
  thread : state'.thread = state.thread
  callstack : state'.callstack = state.callstack
  einfo : state'.einfo = state.einfo
  childThreads : state'.childThreads = state.childThreads
  currentTID : state'.programState.currentTID = state.programState.currentTID
  log : ∃ entries, state'.log = state.log ++ entries ∧
    state'.events = state.events ++ eventsOf entries ∧ (∀ entry ∈ entries, entry.IsFrom node state) ∧
    (eventsOf entries).map Event.id = List.range' state.events.length (eventsOf entries).length

namespace Emits

variable {node : CallGraphNode Ctx} {state state' state'' : ThreadBuildState Ctx}

lemma quiet (hp : state'.log = state.log) (he : state'.events = state.events)
    (ht : state'.thread = state.thread) (hc : state'.callstack = state.callstack)
    (hi : state'.einfo = state.einfo) (hch : state'.childThreads = state.childThreads)
    (hid : state'.programState.currentTID = state.programState.currentTID) :
    Emits node state state' :=
  ⟨ht, hc, hi, hch, hid, [], by simp [hp], by simp [eventsOf, he], by simp, by simp [eventsOf]⟩

lemma refl (node : CallGraphNode Ctx) (state : ThreadBuildState Ctx) : Emits node state state :=
  quiet rfl rfl rfl rfl rfl rfl rfl

lemma trans (h : Emits node state state') (h' : Emits node state' state'') :
    Emits node state state'' := by
  obtain ⟨entries, hlog, hevents, hfrom, hids⟩ := h.log
  obtain ⟨entries', hlog', hevents', hfrom', hids'⟩ := h'.log
  have happend : eventsOf (entries ++ entries') = eventsOf entries ++ eventsOf entries' :=
    List.filterMap_append
  refine ⟨h'.thread.trans h.thread, h'.callstack.trans h.callstack, h'.einfo.trans h.einfo,
    h'.childThreads.trans h.childThreads, h'.currentTID.trans h.currentTID, entries ++ entries',
    by rw [hlog', hlog, List.append_assoc], ?_, ?_, ?_⟩
  · rw [hevents', hevents, List.append_assoc, happend]
  · intro entry hentry
    cases List.mem_append.mp hentry with
    | inl hm => exact hfrom entry hm
    | inr hm =>
      have hf := hfrom' entry hm
      cases entry with
      | visited thread entryNode ir runtime => exact ⟨hf.1.trans h.thread, hf.2⟩
      | created entryNode event => exact ⟨hf.1, hf.2.1.trans h.thread, hf.2.2.trans h.einfo⟩
      | entered caller callee => exact hf
  · rw [happend, List.map_append, hids, hids', hevents, List.length_append, List.length_append]
    exact List.range'_append_1

lemma push (node : CallGraphNode Ctx) (state : ThreadBuildState Ctx) (type : EventType) (ir : IR)
    (forkEvent : Option (ForkEvent Ctx)) : Emits node state (state.push node type ir forkEvent) :=
  ⟨rfl, rfl, rfl, rfl, rfl, [.created node (state.nextEvent type ir forkEvent)], rfl, rfl, by
    simp [LogEntry.IsFrom, ThreadBuildState.nextEvent], rfl⟩

lemma logVisited (node : CallGraphNode Ctx) (state : ThreadBuildState Ctx) (ir : IR)
    (runtime : OpenMPRuntime Ctx) :
    Emits node state (state.logEntry (.visited state.thread node ir runtime)) :=
  ⟨rfl, rfl, rfl, rfl, rfl, [.visited state.thread node ir runtime], rfl, by simp [eventsOf,
    LogEntry.event, ThreadBuildState.logEntry], by simp [LogEntry.IsFrom], rfl⟩

lemma withRuntime (node : CallGraphNode Ctx) (state : ThreadBuildState Ctx)
    (runtime : OpenMPRuntime Ctx) : Emits node state (state.withRuntime runtime) :=
  quiet rfl rfl rfl rfl rfl rfl rfl

lemma joins (node : CallGraphNode Ctx) (tasks : List (UnjoinedTask Ctx))
    (state : ThreadBuildState Ctx) :
    Emits node state (tasks.foldl (OpenMPRuntime.joinTask node) state) := by
  induction tasks generalizing state with
  | nil => exact refl node state
  | cons task tasks ih => exact (push node state _ _ _).trans (ih _)

lemma joinTasks (node : CallGraphNode Ctx) (state : ThreadBuildState Ctx) :
    Emits node state (OpenMPRuntime.joinTasks node state) :=
  (joins node _ state).trans (withRuntime node _ _)

end Emits

lemma resume_emits (node : CallGraphNode Ctx) (ir : IR) (state : ThreadBuildState Ctx) :
    Emits node state (resume ir state) := by
  rw [resume, shouldSkipIR]
  split
  · exact Emits.refl node state
  · split
    · exact Emits.refl node state
    · exact Emits.quiet rfl rfl rfl rfl rfl rfl rfl

lemma preVisit_emits {node : CallGraphNode Ctx} {ir : IR} {state asked : ThreadBuildState Ctx}
    {skip : Bool} (h : Asked node ir state skip asked) : Emits node state asked := by
  cases h with
  | team => exact .refl node state
  | single => exact .refl node state
  | forkTeams => exact .withRuntime node state _
  | joins => exact .joinTasks node state
  | masterStart => exact .withRuntime node state _
  | masterSkip => exact .quiet rfl rfl rfl rfl rfl rfl rfl
  | masterEnd => exact .withRuntime node state _
  | otherEnd => exact .refl node state
  | singleStart => exact .withRuntime node state _
  | singleEnd => exact .withRuntime node state _
  | other => exact .refl node state

lemma dispatch_emits {program : Program Ctx} {node : CallGraphNode Ctx} {ir : IR}
    {state : ThreadBuildState Ctx} {step : VisitStep Ctx}
    (h : Dispatched program node ir state step) : Emits node state step.state := by
  cases h with
  | plain => exact .push node state _ ir none
  | recursiveFork => exact .refl node state
  | fork =>
    refine (Emits.push node state .fork ir none).trans ?_
    exact .quiet rfl rfl rfl rfl rfl rfl rfl
  | noCall => exact .refl node state
  | externCall => exact .push node state _ ir none
  | call => exact .push node state _ ir none

lemma recordVisit_emits (node : CallGraphNode Ctx) (ir : IR) (state : ThreadBuildState Ctx) :
    Emits node state (recordVisit node ir state) :=
  (resume_emits node ir state).trans (.logVisited node _ ir _)

lemma visitStart_emits {program : Program Ctx} {node : CallGraphNode Ctx} {ir : IR}
    {state : ThreadBuildState Ctx} {step : VisitStep Ctx}
    (h : visitStart program node ir state = .ok step) : Emits node state step.state := by
  rcases visitStart_cases h with ⟨-, rfl⟩ | ⟨-, ⟨skipped, hpre, rfl⟩ | ⟨asked, hpre, hdispatch⟩⟩
  · exact resume_emits node ir state
  · exact (recordVisit_emits node ir state).trans (preVisit_emits (asked_of_preVisit hpre))
  · have hasked := (recordVisit_emits node ir state).trans (preVisit_emits (asked_of_preVisit hpre))
    exact hasked.trans (dispatch_emits (dispatched_of_dispatch hdispatch))

end OpenRace
