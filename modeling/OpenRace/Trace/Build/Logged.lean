import OpenRace.Trace.Build.Frame
import Mathlib.Data.List.Nodup

/-! The history of a construction numbers all events apart. -/

namespace OpenRace

variable {Ctx : Type}

lemma eventsOf_append (log entries : List (LogEntry Ctx)) :
    eventsOf (log ++ entries) = eventsOf log ++ eventsOf entries :=
  List.filterMap_append

structure Logged (state : ThreadBuildState Ctx) : Prop where
  numbered : state.Numbered
  threads : ∀ entry ∈ state.log, ∀ thread, entry.thread = some thread →
    thread.id ≤ state.programState.currentTID
  own : (eventsOf state.log).filter (·.thread.id = state.thread.id) = state.events
  ids : state.events.map Event.id = List.range' 0 state.events.length
  located : ∀ event ∈ state.events, event.thread = state.thread
  distinct : ((eventsOf state.log).map Event.pid).Nodup

lemma LogEntry.IsFrom.owner {node : CallGraphNode Ctx} {state : ThreadBuildState Ctx}
    {entry : LogEntry Ctx} {thread : ThreadRef Ctx} (h : entry.IsFrom node state)
    (ht : entry.thread = some thread) : thread = state.thread := by
  cases entry with
  | visited _ _ _ _ =>
    obtain rfl := Option.some.inj ht
    exact h.1
  | created _ _ =>
    obtain rfl := Option.some.inj ht
    exact h.2.1
  | entered _ _ => cases ht

lemma LogEntry.IsFrom.thread_eq {node : CallGraphNode Ctx} {state : ThreadBuildState Ctx}
    {entry : LogEntry Ctx} {event : Event Ctx} (h : entry.IsFrom node state)
    (he : entry.event = some event) : event.thread = state.thread := by
  cases entry with
  | created _ _ =>
    obtain rfl := Option.some.inj he
    exact h.2.1
  | visited _ _ _ _ => cases he
  | entered _ _ => cases he

lemma thread_of_event {entry : LogEntry Ctx} {event : Event Ctx} (h : entry.event = some event) :
    entry.thread = some event.thread := by
  cases entry with
  | created _ _ =>
    obtain rfl := Option.some.inj h
    rfl
  | visited _ _ _ _ => cases h
  | entered _ _ => cases h

namespace Logged

variable {node : CallGraphNode Ctx} {state state' : ThreadBuildState Ctx}

lemma known (h : Logged state) : ∀ event ∈ eventsOf state.log,
    event.thread.id ≤ state.programState.currentTID := by
  intro event hevent
  obtain ⟨entry, hentry, heq⟩ := List.mem_filterMap.mp hevent
  exact h.threads entry hentry _ (thread_of_event heq)

lemma initial (entry : CallGraphNode Ctx) : Logged (.main entry) :=
  ⟨le_rfl, fun _ h => absurd h List.not_mem_nil, rfl, rfl, fun _ h => absurd h List.not_mem_nil,
    List.nodup_nil⟩

lemma fresh (h : Logged state) {event : Event Ctx} (ht : event.thread.id = state.thread.id)
    (hid : state.events.length ≤ event.id) : event.pid ∉ (eventsOf state.log).map Event.pid := by
  intro hm
  obtain ⟨old, hold, heq⟩ := List.mem_map.mp hm
  have htid : old.thread.id = event.thread.id := congrArg EventPID.tid heq
  have heid : old.id = event.id := congrArg EventPID.eid heq
  have hmem : old ∈ state.events := by
    rw [← h.own]
    simp [hold, htid, ht]
  have hlt : old.id ∈ List.range' 0 state.events.length := by
    rw [← h.ids]
    exact List.mem_map_of_mem hmem
  rw [List.mem_range'_1] at hlt
  omega

lemma emits (h : Logged state) (he : Emits node state state') : Logged state' := by
  obtain ⟨entries, hlog, hevents, hfrom, hids⟩ := he.log
  have hthread : ∀ event ∈ eventsOf entries, event.thread = state.thread := by
    intro event hevent
    obtain ⟨entry, hentry, heq⟩ := List.mem_filterMap.mp hevent
    exact (hfrom entry hentry).thread_eq heq
  have hframe := Frame.of_emits he
  refine ⟨hframe.numbered h.numbered, ?_, ?_, ?_, ?_, ?_⟩
  · intro entry hentry thread ht
    rw [hlog, List.mem_append] at hentry
    rw [he.currentTID]
    cases hentry with
    | inl hold => exact h.threads entry hold thread ht
    | inr hnew =>
      rw [(hfrom entry hnew).owner ht]
      exact h.numbered
  · rw [hlog, eventsOf_append, List.filter_append, he.thread, h.own, hevents,
      List.filter_eq_self.mpr]
    intro event hevent
    simp [hthread event hevent]
  · rw [hevents, List.map_append, h.ids, hids, List.length_append, ← List.range'_append_1,
      Nat.zero_add]
  · intro event hevent
    rw [hevents, List.mem_append] at hevent
    rw [he.thread]
    cases hevent with
    | inl hold => exact h.located event hold
    | inr hnew => exact hthread event hnew
  · rw [hlog, eventsOf_append, List.map_append, List.nodup_append]
    refine ⟨h.distinct, ?_, ?_⟩
    · apply List.Nodup.of_map EventPID.eid
      rw [List.map_map]
      change ((eventsOf entries).map Event.id).Nodup
      rw [hids]
      exact List.nodup_range'
    · intro old hold new hnew heq
      obtain ⟨event, hevent, rfl⟩ := List.mem_map.mp hnew
      have hid : event.id ∈ (eventsOf entries).map Event.id := List.mem_map_of_mem hevent
      rw [hids, List.mem_range'_1] at hid
      exact h.fresh (congrArg _ (hthread event hevent)) hid.1 (heq ▸ hold)

lemma child (h : Logged state) (fork : ForkEvent Ctx) (entry : CallGraphNode Ctx) :
    Logged (state.child fork entry) := by
  refine ⟨le_rfl, ?_, ?_, rfl, fun _ h => absurd h List.not_mem_nil, h.distinct⟩
  · intro logged hlogged thread ht
    exact (h.threads logged hlogged thread ht).trans (Nat.le_succ _)
  · change (eventsOf state.log).filter _ = []
    rw [List.filter_eq_nil_iff]
    intro event hevent
    have hle := h.known event hevent
    change ¬ decide (event.thread.id = state.programState.currentTID + 1) = true
    rw [decide_eq_true_eq]
    omega

lemma logCall (h : Logged state) (node callee : CallGraphNode Ctx) :
    Logged (state.logCall node callee) := by
  rw [ThreadBuildState.logCall]
  split
  · exact h
  · have hsame : eventsOf (state.logEntry (.entered node callee)).log = eventsOf state.log := by
      simp [ThreadBuildState.log, ThreadBuildState.logEntry, eventsOf, LogEntry.event]
    have hthreads : ∀ entry ∈ (state.logEntry (.entered node callee)).log, ∀ thread,
        entry.thread = some thread → thread.id ≤ state.programState.currentTID := by
      intro entry hentry thread ht
      cases List.mem_append.mp hentry with
      | inl hold => exact h.threads entry hold thread ht
      | inr hnew =>
        obtain rfl := List.mem_singleton.mp hnew
        cases ht
    exact ⟨h.numbered, hthreads, by rw [hsame]; exact h.own, h.ids, h.located,
      by rw [hsame]; exact h.distinct⟩

lemma finishFork {fork : ForkEvent Ctx} {entry : CallGraphNode Ctx}
    {childState : ThreadBuildState Ctx} (ir : IR) (h : Logged state)
    (hf : Frame (state.child fork entry) childState) (hc : Logged childState) :
    Logged (state.finishFork ir childState) := by
  have hframe := Frame.of_fork ir h.numbered hf
  refine ⟨hframe.numbered h.numbered, hc.threads, ?_, h.ids, h.located, hc.distinct⟩
  obtain ⟨entries, hlog, hevents, -⟩ := hframe.log
  rw [hlog, eventsOf_append, List.filter_append, hevents]
  exact congrArg (· ++ _) h.own

end Logged

theorem Run.logged {program : Program Ctx} {task : Task Ctx} {state last : ThreadBuildState Ctx}
    (h : Run program task state last) (hl : Logged state) : Logged last := by
  induction h with
  | recursive h => exact hl
  | function _ _ _ ih =>
    have hlast := ih ⟨hl.numbered, hl.threads, hl.own, hl.ids, hl.located, hl.distinct⟩
    exact ⟨hlast.numbered, hlast.threads, hlast.own, hlast.ids, hlast.located,
      hlast.distinct⟩
  | done => exact hl
  | next hstart _ ih => exact ih (hl.emits (visitStart_emits hstart))
  | call hstart _ _ ihcall ihrest =>
    have hvisit := hl.emits (visitStart_emits hstart)
    exact ihrest ((ihcall (hvisit.logCall _ _)).emits (.push _ _ _ _ _))
  | fork hstart hchild _ ihchild ihrest =>
    have hvisit := hl.emits (visitStart_emits hstart)
    have hchildState := ihchild (hvisit.child _ _)
    exact ihrest (hvisit.finishFork _ (hchild.frame (Frame.child_numbered _ _ _)) hchildState)

end OpenRace
