import OpenRace.Library.Nesting
import OpenRace.Trace.ProgramTrace

/-! Calls that are entered and left on each thread, and the forks that threads come from. -/

namespace OpenRace

open LLVM Library

variable {Ctx : Type}

def stackAction (event : Event Ctx) : StackAction Instruction :=
  match event.type with
  | .call => .enter event.ir.inst
  | .callEnd => .leave event.ir.inst
  | _ => .keep

def VisitStep.Records (ir : IR) (own : List (Event Ctx)) : VisitStep Ctx → Prop
  | .next _ => ∀ event ∈ own, stackAction event = .keep
  | .call _ _ => ∃ event, own = [event] ∧ stackAction event = .enter ir.inst
  | .fork spawn _ _ => ∃ event, own = [event] ∧ event.type = .fork ∧ event.asFork = spawn

section Step

variable {program : Program Ctx} {node : CallGraphNode Ctx} {ir : IR} {state : ThreadBuildState Ctx}
  {step : VisitStep Ctx}

lemma stackAction_plain {kind : IRKind} {type : EventType} (h : kind.plainEvent = some type) {event : Event Ctx}
    (htype : event.type = type) : stackAction event = .keep := by
  rw [stackAction, htype]
  cases kind <;> cases h <;> rfl

lemma dispatched_records (h : Dispatched program node ir state step) :
    ∃ own, step.state.events = state.events ++ own ∧ step.Records ir own := by
  cases h with
  | plain type h =>
    refine ⟨[state.nextEvent type ir none], rfl, fun event hevent => ?_⟩
    obtain rfl := List.mem_singleton.mp hevent
    exact stackAction_plain h rfl
  | recursiveFork => exact ⟨[], (List.append_nil _).symm, fun event hevent => absurd hevent List.not_mem_nil⟩
  | fork => exact ⟨[state.nextEvent .fork ir none], rfl, _, rfl, rfl, rfl⟩
  | noCall => exact ⟨[], (List.append_nil _).symm, fun event hevent => absurd hevent List.not_mem_nil⟩
  | externCall =>
    refine ⟨[state.nextEvent .externCall ir none], rfl, fun event hevent => ?_⟩
    obtain rfl := List.mem_singleton.mp hevent
    rfl
  | call => exact ⟨[state.nextEvent .call ir none], rfl, _, rfl, rfl⟩

lemma asked_records {asked : ThreadBuildState Ctx} {skip : Bool}
    (h : OpenMPRuntime.preVisit node ir (recordVisit node ir state) = .ok (skip, asked)) :
    ∃ joins, asked.events = state.events ++ joins ∧ ∀ event ∈ joins, stackAction event = .keep := by
  have hasked := asked_of_preVisit h
  obtain ⟨joins, hjoins⟩ := askedOutcome_of_asked hasked
  obtain ⟨entries, hlog, hevents, -⟩ := (preVisit_emits hasked).log
  obtain rfl : entries = createdAt node joins := List.append_cancel_left (hlog.symm.trans hjoins.log)
  refine ⟨joins, ?_, fun event hevent => ?_⟩
  · rw [hevents, eventsOf, createdAt, List.filterMap_map]
    exact congrArg₂ (· ++ ·) (resume_fields ir state).2.2.1 List.filterMap_some
  · rw [stackAction, (hjoins.events event hevent).1]

lemma visitStart_records (h : visitStart program node ir state = .ok step) :
    ∃ joins own, step.state.events = state.events ++ (joins ++ own) ∧
      (∀ event ∈ joins, stackAction event = .keep) ∧ step.Records ir own := by
  rcases visitStart_cases h with ⟨-, rfl⟩ | ⟨-, ⟨skipped, hpre, rfl⟩ | ⟨asked, hpre, hdispatch⟩⟩
  · refine ⟨[], [], ?_, by simp, fun event hevent => absurd hevent List.not_mem_nil⟩
    rw [List.append_nil, List.append_nil]
    exact (resume_fields ir state).2.2.1
  · obtain ⟨joins, hevents, hkeep⟩ := asked_records hpre
    refine ⟨joins, [], ?_, hkeep, fun event hevent => absurd hevent List.not_mem_nil⟩
    rw [List.append_nil]
    exact hevents
  · obtain ⟨joins, hevents, hkeep⟩ := asked_records hpre
    obtain ⟨own, hown, hrecords⟩ := dispatched_records (dispatched_of_dispatch hdispatch)
    exact ⟨joins, own, by rw [hown, hevents, List.append_assoc], hkeep, hrecords⟩

end Step

structure ThreadTrace.Nested (trace : ThreadTrace Ctx) : Prop where
  calls : Balanced stackAction trace.events
  forks : ∀ child ∈ trace.childThreads, ∃ fork ∈ trace.events, fork.type = .fork ∧
    child.thread.spawnSites = fork.asFork :: trace.thread.spawnSites

/-- A part of the construction leaves every call that it enters, and the threads that it adds are nested. -/
structure Nests (state last : ThreadBuildState Ctx) : Prop where
  thread : last.thread = state.thread
  events : ∃ new, last.events = state.events ++ new ∧ Balanced stackAction new
  children : ∃ added, last.childThreads = state.childThreads ++ added ∧
    (∀ child ∈ added, ∃ fork ∈ last.events, fork.type = .fork ∧
      child.thread.spawnSites = fork.asFork :: state.thread.spawnSites) ∧
    ∀ t ∈ threadsBelow added, t.Nested

namespace Nests

variable {state state' last : ThreadBuildState Ctx}

lemma refl (state : ThreadBuildState Ctx) : Nests state state :=
  ⟨rfl, ⟨[], (List.append_nil _).symm, .nil⟩, [], (List.append_nil _).symm, by simp, by simp [threadsBelow]⟩

lemma trans (h : Nests state state') (h' : Nests state' last) : Nests state last := by
  obtain ⟨new, hevents, hnew⟩ := h.events
  obtain ⟨new', hevents', hnew'⟩ := h'.events
  obtain ⟨added, hchildren, hforks, hnested⟩ := h.children
  obtain ⟨added', hchildren', hforks', hnested'⟩ := h'.children
  refine ⟨h'.thread.trans h.thread, ⟨new ++ new', ?_, hnew.append hnew'⟩, added ++ added', ?_, ?_, ?_⟩
  · rw [hevents', hevents, List.append_assoc]
  · rw [hchildren', hchildren, List.append_assoc]
  · intro child hchild
    rcases List.mem_append.mp hchild with hchild | hchild
    · obtain ⟨fork, hfork, hrest⟩ := hforks child hchild
      exact ⟨fork, by rw [hevents']; exact List.mem_append_left _ hfork, hrest⟩
    · obtain ⟨fork, hfork, htype, hsites⟩ := hforks' child hchild
      exact ⟨fork, hfork, htype, by rw [hsites, h.thread]⟩
  · intro t ht
    rw [threadsBelow_append, List.mem_append] at ht
    exact ht.elim (hnested t) (hnested' t)

lemma of_events {new : List (Event Ctx)} (ht : last.thread = state.thread) (he : last.events = state.events ++ new)
    (hnew : Balanced stackAction new) (hc : last.childThreads = state.childThreads) : Nests state last :=
  ⟨ht, ⟨new, he, hnew⟩, [], by rw [hc, List.append_nil], by simp, by simp [threadsBelow]⟩

lemma nested (h : Nests state last) (hevents : state.events = []) (hchildren : state.childThreads = []) :
    ∀ t ∈ last.trace.threads, t.Nested := by
  obtain ⟨new, hnew, hbalanced⟩ := h.events
  obtain ⟨added, hadded, hforks, hnested⟩ := h.children
  rw [hevents, List.nil_append] at hnew
  rw [hchildren, List.nil_append] at hadded
  intro t ht
  rcases List.mem_cons.mp ht with rfl | ht
  · refine ⟨hnew ▸ hbalanced, fun child hchild => ?_⟩
    obtain ⟨fork, hfork, htype, hsites⟩ := hforks child (hadded ▸ hchild)
    exact ⟨fork, hfork, htype, by rw [hsites, ← h.thread]; rfl⟩
  · exact hnested t (hadded ▸ ht)

lemma call {joins : List (Event Ctx)} {event : Event Ctx} {node : CallGraphNode Ctx} {ir : IR}
    {returned : ThreadBuildState Ctx} (ht : state'.thread = state.thread)
    (he : state'.events = state.events ++ (joins ++ [event])) (hc : state'.childThreads = state.childThreads)
    (hjoins : ∀ event ∈ joins, stackAction event = .keep) (henter : stackAction event = .enter ir.inst)
    (h : Nests state' returned) : Nests state (returned.push node .callEnd ir) := by
  obtain ⟨inner, hinner, hbalanced⟩ := h.events
  obtain ⟨added, hadded, hforks, hnested⟩ := h.children
  refine ⟨h.thread.trans ht, ⟨joins ++ event :: (inner ++ [returned.nextEvent .callEnd ir none]), ?_, ?_⟩,
    added, by rw [← hc]; exact hadded, fun child hchild => ?_, hnested⟩
  · change returned.events ++ [returned.nextEvent .callEnd ir none] = _
    rw [hinner, he]
    simp
  · exact (Balanced.of_keep hjoins).append (.call henter hbalanced rfl)
  · obtain ⟨fork, hfork, htype, hsites⟩ := hforks child hchild
    exact ⟨fork, List.mem_append_left _ hfork, htype, by rw [hsites, ht]⟩

lemma fork {joins : List (Event Ctx)} {event : Event Ctx} {entry : CallGraphNode Ctx}
    {childState : ThreadBuildState Ctx} (ir : IR) (ht : state'.thread = state.thread)
    (he : state'.events = state.events ++ (joins ++ [event])) (hc : state'.childThreads = state.childThreads)
    (hjoins : ∀ event ∈ joins, stackAction event = .keep) (htype : event.type = .fork)
    (h : Nests (state'.child event.asFork entry) childState) : Nests state (state'.finishFork ir childState) := by
  have hkeep : stackAction event = .keep := by rw [stackAction, htype]
  refine ⟨ht, ⟨joins ++ [event], he, (Balanced.of_keep hjoins).append (.keep hkeep)⟩, [childState.trace], ?_, ?_, ?_⟩
  · rw [← hc]
    rfl
  · intro child hchild
    obtain rfl := List.mem_singleton.mp hchild
    refine ⟨event, ?_, htype, ?_⟩
    · change event ∈ state'.events
      rw [he]
      simp
    · rw [← ht]
      exact congrArg ThreadRef.spawnSites h.thread
  · rw [threadsBelow, threadsBelow, List.append_nil]
    exact h.nested rfl rfl

end Nests

lemma logCall_fields (state : ThreadBuildState Ctx) (node callee : CallGraphNode Ctx) :
    (state.logCall node callee).thread = state.thread ∧ (state.logCall node callee).events = state.events ∧
      (state.logCall node callee).childThreads = state.childThreads := by
  rw [ThreadBuildState.logCall]
  split <;> exact ⟨rfl, rfl, rfl⟩

theorem Run.nests {program : Program Ctx} {task : Task Ctx} {state last : ThreadBuildState Ctx}
    (h : Run program task state last) : Nests state last := by
  induction h with
  | recursive => exact .refl _
  | function _ _ _ ih => exact ⟨ih.thread, ih.events, ih.children⟩
  | done => exact .refl _
  | next hstart _ ih =>
    have hemit := visitStart_emits hstart
    obtain ⟨joins, own, hevents, hjoins, hown⟩ := visitStart_records hstart
    have hnew : Balanced stackAction (joins ++ own) := (Balanced.of_keep hjoins).append (.of_keep hown)
    exact (Nests.of_events hemit.thread hevents hnew hemit.childThreads).trans ih
  | @call node ir rest state callee state' returned last hstart _ _ ihcall ihrest =>
    have hemit := visitStart_emits hstart
    obtain ⟨joins, own, hevents, hjoins, event, rfl, henter⟩ := visitStart_records hstart
    obtain ⟨hthread, hsame, hchildren⟩ := logCall_fields state' node callee
    exact (Nests.call (hthread.trans hemit.thread) (hsame.trans hevents) (hchildren.trans hemit.childThreads) hjoins
      henter ihcall).trans ihrest
  | @fork node ir rest state fork entry state' childState last hstart _ _ ihchild ihrest =>
    have hemit := visitStart_emits hstart
    obtain ⟨joins, own, hevents, hjoins, event, rfl, htype, rfl⟩ := visitStart_records hstart
    exact (Nests.fork ir hemit.thread hevents hemit.childThreads hjoins htype ihchild).trans ihrest

lemma nested_parent {final : ThreadBuildState Ctx} (h : ∀ t ∈ final.trace.threads, t.Nested)
    {s : ThreadTrace Ctx} (hs : s ∈ final.trace.threads) :
    s = final.trace ∨ ∃ t ∈ final.trace.threads, ∃ fork ∈ t.events, fork.type = .fork ∧
      s.thread.spawnSites = fork.asFork :: t.thread.spawnSites := by
  have hthreads : final.trace.threads = threadsBelow [final.trace] := by
    rw [threadsBelow, threadsBelow, List.append_nil]
  rw [hthreads] at hs
  rcases exists_parent hs with hs | ⟨t, ht, hchild⟩
  · exact Or.inl (List.mem_singleton.mp hs)
  · rw [← hthreads] at ht
    exact Or.inr ⟨t, ht, (h t ht).forks s hchild⟩

end OpenRace
