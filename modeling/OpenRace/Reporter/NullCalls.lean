import OpenRace.IR.CalledFunctions
import OpenRace.Reporter.Callstack
import OpenRace.Trace.Build.EnteredCalls

/-! Where the called function of a call is read, and where it is null. -/

namespace OpenRace

open LLVM

variable {Ctx : Type}

def callId : Value → Option ℕ
  | .call id => some id
  | .taskAlloc id _ => some id
  | _ => none

/-- The call of the function that a task fork takes its task from. -/
def IR.AllocatedBy (ir : IR) (blocks : List BasicBlock) (call : CallBase) : Prop :=
  ir.type = .openMPTaskFork ∧ (∃ block ∈ blocks, .call call ∈ block) ∧
    (ir.args[2]?.map Value.stripPointerCasts).bind callId = some call.id

def Program.summarizing (program : Program Ctx) (body : Function → List BasicBlock) : Program Ctx :=
  { program with getFunctionSummary := fun f => generateFunctionSummary (body f) }

section Calls

variable (program : Program Ctx) (body : Function → List BasicBlock) (main : CallGraphNode Ctx)

/-- No null called function is read of a call that resolves to a function: by the summaries, by the message about a
missing node, by the assertion about the call that allocates a task, and for the signatures of a call stack. -/
structure ReadsNoNull (storeUsers : Value → List Value) : Prop where
  summaries : ∀ node state, Reached program main (.build node) state → node.function ∉ state.callstack →
    ∀ call ∈ summaryReads (body node.function), ¬NullWhereResolved call
  messages : ∀ node ir rest state, Reached program main (.body node (ir :: rest)) state → ∀ call callee,
    ir.inst = .call call → resolveTargetFunction call = some callee →
    program.getDirectNodeOrNull (program.contextEvolve node.context ir.inst) callee = none →
    ir.getCalledFunction ≠ none
  allocations : ∀ node ir rest state, Reached program main (.body node (ir :: rest)) state →
    ReachesDispatch node ir state → ∀ call, ir.AllocatedBy (body node.function) call → ¬NullWhereResolved call
  callstacks : ∀ fuel final, buildMainThread program fuel main = .ok final →
    ∀ t ∈ (buildProgramTrace final storeUsers).threads, ∀ event ∈ t.events, ∀ call,
      .call call ∈ callstackReads (buildProgramTrace final storeUsers) event →
      resolveTargetFunction call ≠ none → callSignature call ≠ none

/-- A call through a cast or an alias is not directly behind a fork that still looks for its duplicate, allocates no
task, and is not entered in a construction that comes to an end. -/
structure DirectWhereRead : Prop where
  twins : ∀ node state, Reached program main (.build node) state → node.function ∉ state.callstack →
    ∀ fork call rest region, GetsTo (body node.function) (.call fork :: .call call :: rest) →
      callAction fork = .pair region → ¬NullWhereResolved call
  allocations : ∀ node ir rest state, Reached program main (.body node (ir :: rest)) state →
    ReachesDispatch node ir state → ∀ call, ir.AllocatedBy (body node.function) call → ¬NullWhereResolved call
  entered : (∃ fuel final, buildMainThread program fuel main = .ok final) → ∀ node ir rest state,
    Reached program main (.body node (ir :: rest)) state → Enters program node ir state →
    ∀ call, ir.inst = .call call → ¬NullWhereResolved call

end Calls

section Reads

variable {program : Program Ctx} {main : CallGraphNode Ctx} {fuel : ℕ} {final : ThreadBuildState Ctx}

lemma callSignature_ne_none {call : CallBase} : callSignature call ≠ none ↔ call.getCalledFunction ≠ none := by
  simp [callSignature]

lemma mem_enterReads {trace : ProgramTrace Ctx} {target : EventPID} {inst : Instruction}
    (h : inst ∈ enterReads trace target) : ∃ t ∈ trace.threads, ∃ event ∈ t.events,
      event.type = .call ∧ event.ir.inst = inst := by
  obtain ⟨event, hevent, rfl⟩ := List.mem_map.mp h
  obtain ⟨htaken, htype⟩ := List.mem_filter.mp hevent
  have hmem := (List.takeWhile_sublist _).subset htaken
  rw [ProgramTrace.eventsOf] at hmem
  cases hfind : trace.threads.find? (·.id = target.tid) with
  | none =>
    rw [hfind] at hmem
    cases hmem
  | some t =>
    rw [hfind] at hmem
    exact ⟨t, List.mem_of_find?_eq_some hfind, event, hmem, by simpa using htype, rfl⟩

lemma mem_callstackReads {trace : ProgramTrace Ctx} {target : Event Ctx} {inst : Instruction}
    (h : inst ∈ callstackReads trace target) : ∃ t ∈ trace.threads, ∃ event ∈ t.events,
      event.type = .call ∧ event.ir.inst = inst := by
  rcases List.mem_append.mp h with h | h
  · obtain ⟨fork, -, hfork⟩ := List.mem_flatMap.mp h
    exact mem_enterReads hfork
  · exact mem_enterReads h

lemma exists_thread (h : buildMainThread program fuel main = .ok final) {event : Event Ctx}
    (hevent : event ∈ eventsOf final.log) : ∃ t ∈ final.trace.threads, event ∈ t.events := by
  obtain ⟨hl, hframe, hadds⟩ := buildMainThread_adds h
  have hthread : ∃ t ∈ final.trace.threads, t.id = event.thread.id := by
    have hknown := hl.known event hevent
    by_cases hzero : event.thread.id = 0
    · exact ⟨final.trace, List.mem_cons_self, (congrArg ThreadRef.id hframe.thread).trans hzero.symm⟩
    · have hid : event.thread.id ∈ (threadsBelow final.childThreads).map ThreadTrace.id := by
        rw [hadds.ids, List.mem_range'_1]
        have hcount := hadds.count
        change final.programState.currentTID = 0 + _ at hcount
        change 0 + 1 ≤ _ ∧ _ < 0 + 1 + _
        omega
      obtain ⟨t, ht, heq⟩ := List.mem_map.mp hid
      exact ⟨t, List.mem_cons_of_mem _ ht, heq⟩
  obtain ⟨t, ht, heq⟩ := hthread
  refine ⟨t, ht, ?_⟩
  rw [threads_of_log h t ht, List.mem_filter]
  exact ⟨hevent, by simp [heq]⟩

lemma call_mem_callstackReads (h : buildMainThread program fuel main = .ok final) (storeUsers : Value → List Value)
    {t : ThreadTrace Ctx} (ht : t ∈ final.trace.threads) {event : Event Ctx} (hevent : event ∈ t.events)
    (htype : event.type = .call) : event.ir.inst ∈ callstackReads (buildProgramTrace final storeUsers) event := by
  obtain ⟨before, after, hsplit⟩ := List.append_of_mem hevent
  refine List.mem_append_right _ (List.mem_map_of_mem (List.mem_filter.mpr ⟨?_, by simp [htype]⟩))
  rw [Event.pid, events_located h t ht event hevent]
  change event ∈ ((buildProgramTrace final storeUsers).eventsOf t.id).takeWhile _
  rw [eventsOf_thread h storeUsers ht, takeWhile_upTo (events_numbered h t ht) hsplit]
  simp

end Reads

theorem readsNoNull_iff (program : Program Ctx) (body : Function → List BasicBlock) (main : CallGraphNode Ctx)
    (storeUsers : Value → List Value) : ReadsNoNull (program.summarizing body) body main storeUsers ↔
      DirectWhereRead (program.summarizing body) body main := by
  constructor
  · intro h
    refine ⟨?_, h.allocations, ?_⟩
    · intro node state hr hn fork call rest region hgets haction
      exact h.summaries node state hr hn call (mem_summaryReads.mpr ⟨fork, rest, region, hgets, haction⟩)
    · rintro ⟨fuel, final, hbuilt⟩ node ir rest state hr henters call hinst ⟨hresolves, hnull⟩
      obtain ⟨event, hevent, htype, hcall⟩ :=
        EnteredIn.event ⟨node, ir, rest, state, hr, henters, hinst⟩ (run_of_buildTrace hbuilt)
      obtain ⟨t, ht, hmem⟩ := exists_thread hbuilt hevent
      have hread := call_mem_callstackReads hbuilt storeUsers ht hmem htype
      rw [hcall] at hread
      exact callSignature_ne_none.mp (h.callstacks fuel final hbuilt t ht event hmem call hread hresolves) hnull
  · intro h
    refine ⟨?_, ?_, h.allocations, ?_⟩
    · intro node state hr hn call hread
      obtain ⟨fork, rest, region, hgets, haction⟩ := mem_summaryReads.mp hread
      exact h.twins node state hr hn fork call rest region hgets haction
    · intro node ir rest state _ call callee hinst hresolves _
      rw [IR.getCalledFunction, hinst]
      simp [hresolves]
    · intro fuel final hbuilt t _ event _ call hread hresolves
      obtain ⟨s, hs, entered, hentered, htype, hcall⟩ := mem_callstackReads hread
      have hlog : entered ∈ eventsOf final.log := by
        rw [threads_of_log hbuilt s hs] at hentered
        exact (List.mem_filter.mp hentered).1
      rcases (run_of_buildTrace hbuilt).entered .main hlog htype with hold | hentered
      · cases hold
      · obtain ⟨node, ir, rest, state, hr, henters, hinst⟩ := hentered
        refine callSignature_ne_none.mpr fun hnull => ?_
        exact h.entered ⟨fuel, final, hbuilt⟩ node ir rest state hr henters call (hinst.trans hcall)
          ⟨hresolves, hnull⟩

namespace CastedCall

def mainFunction : Function := { id := 10, name := "main" }
def worker : Function := { id := 11, name := "worker" }
def work : Function := { id := 12, name := "work" }

def create : CallBase where
  id := 1
  calledOperand := .function { id := 0, name := "pthread_create" }
  args := [.alloca 20, .undef, .function worker, .undef]

/-- The worker calls the function that stores through a cast of its type. -/
def castedCall : CallBase := { id := 2, calledOperand := .bitcast (.function work) }

def body (f : Function) : List BasicBlock :=
  if f = mainFunction then [[.call create]]
  else if f = worker then [[.call castedCall]]
  else [[.store 3 (.globalVariable 21 false) false false]]

def program : Program Unit where
  getFunctionSummary _ := .ok []
  contextEvolve _ _ := ()
  getDirectNodeOrNull context f := some { context := context, function := f, isExtFunction := decide (f.id = 0) }
  getResolvedNode _ _ := []

def entry : CallGraphNode Unit := { context := (), function := mainFunction }

lemma built : EndsIn (buildMainThread (program.summarizing body) 4 entry) (fun final =>
    ∃ t ∈ (buildProgramTrace final fun _ => []).threads, ∃ event ∈ t.events, event.type = .write ∧
      .call castedCall ∈ callstackReads (buildProgramTrace final fun _ => []) event) := by decide +kernel

/-- The call stack of the store needs the signature of the call that is entered through the cast. -/
theorem castedCall_read_null : resolveTargetFunction castedCall = some work ∧
    ¬ReadsNoNull (program.summarizing body) body entry (fun _ => []) := by
  refine ⟨rfl, fun h => ?_⟩
  obtain ⟨final, hbuilt, t, ht, event, hevent, -, hread⟩ := built
  exact h.callstacks 4 final hbuilt t ht event hevent castedCall hread (by decide) rfl

end CastedCall

end OpenRace
