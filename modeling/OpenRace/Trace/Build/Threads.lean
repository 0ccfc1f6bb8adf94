import OpenRace.Trace.Build.Logged
import OpenRace.Trace.Build.Visit
import OpenRace.Analysis.ThreadMatching

/-! The threads of a construction and the forks that spawned them. -/

namespace OpenRace

open LLVM

variable {Ctx : Type}

mutual

/-- A thread and all threads below it, parents first. -/
def ThreadTrace.threads : ThreadTrace Ctx → List (ThreadTrace Ctx)
  | .mk thread events childThreads => .mk thread events childThreads :: threadsBelow childThreads

def threadsBelow : List (ThreadTrace Ctx) → List (ThreadTrace Ctx)
  | [] => []
  | trace :: rest => trace.threads ++ threadsBelow rest

end

lemma threadsBelow_append (first rest : List (ThreadTrace Ctx)) :
    threadsBelow (first ++ rest) = threadsBelow first ++ threadsBelow rest := by
  induction first with
  | nil => rfl
  | cons trace first ih => rw [List.cons_append, threadsBelow, threadsBelow, ih, List.append_assoc]

lemma threadsBelow_cons (trace : ThreadTrace Ctx) (worklist : List (ThreadTrace Ctx)) :
    threadsBelow (trace :: worklist) = trace :: threadsBelow (trace.childThreads ++ worklist) := by
  cases trace
  rw [threadsBelow, ThreadTrace.threads, threadsBelow_append]
  rfl

def buildProgramTrace (final : ThreadBuildState Ctx) (storeUsers : Value → List Value) :
    ProgramTrace Ctx where
  threads := final.trace.threads
  storeUsers := storeUsers

def forksOf (log : List (LogEntry Ctx)) : List (ForkEvent Ctx) :=
  ((eventsOf log).filter (·.type = .fork)).map Event.asFork

lemma forksOf_append (log entries : List (LogEntry Ctx)) :
    forksOf (log ++ entries) = forksOf log ++ forksOf entries := by
  rw [forksOf, eventsOf_append, List.filter_append, List.map_append]
  rfl

lemma Logged.forksOf_nodup {state : ThreadBuildState Ctx} (h : Logged state) :
    (forksOf state.log).Nodup := by
  apply List.Nodup.of_map ForkEvent.pid
  rw [forksOf, List.map_map]
  exact (List.filter_sublist.map _).nodup h.distinct

structure Adds (state last : ThreadBuildState Ctx) (entries : List (LogEntry Ctx))
    (threads : List (ThreadTrace Ctx)) : Prop where
  log : last.log = state.log ++ entries
  below : threadsBelow last.childThreads = threadsBelow state.childThreads ++ threads
  sites : threads.map (·.thread.spawnSite) = (forksOf entries).map some
  ids : threads.map ThreadTrace.id = List.range' (state.programState.currentTID + 1) threads.length
  count : last.programState.currentTID = state.programState.currentTID + threads.length
  events : ∀ t ∈ threads, t.events = (eventsOf entries).filter (·.thread.id = t.id)
  numbered : ∀ t ∈ threads, t.events.map Event.id = List.range' 0 t.events.length
  located : ∀ t ∈ threads, ∀ e ∈ t.events, e.thread = t.thread

namespace Adds

variable {state state' last : ThreadBuildState Ctx} {entries entries' : List (LogEntry Ctx)}
  {threads threads' : List (ThreadTrace Ctx)}

lemma nothing (hlog : last.log = state.log ++ entries) (hf : forksOf entries = [])
    (hc : last.childThreads = state.childThreads)
    (ht : last.programState.currentTID = state.programState.currentTID) : Adds state last entries [] :=
  ⟨hlog, by simp [hc], by simp [hf], rfl, by simp [ht], by simp, by simp, by simp⟩

lemma id_bounds (h : Adds state last entries threads) {t : ThreadTrace Ctx} (ht : t ∈ threads) :
    state.programState.currentTID < t.id ∧ t.id ≤ last.programState.currentTID := by
  have hm : t.id ∈ threads.map ThreadTrace.id := List.mem_map_of_mem ht
  rw [h.ids, List.mem_range'_1] at hm
  rw [h.count]
  omega

lemma foreign {log : List (LogEntry Ctx)} {t : ThreadTrace Ctx}
    (h : ∀ event ∈ eventsOf log, event.thread.id ≠ t.id) :
    (eventsOf log).filter (·.thread.id = t.id) = [] := by
  rw [List.filter_eq_nil_iff]
  intro event hevent
  simpa using h event hevent

lemma trans (h : Adds state state' entries threads) (h' : Adds state' last entries' threads')
    (hn : state.Numbered) (hl' : Logged state') (hthread : state'.thread = state.thread)
    (hf : Frame state' last) : Adds state last (entries ++ entries') (threads ++ threads') := by
  have hold : ∀ t ∈ threads', ∀ event ∈ eventsOf entries, event.thread.id ≠ t.id := by
    intro t ht event hevent
    have hknown := hl'.known event (by rw [h.log, eventsOf_append]; exact List.mem_append_right _ hevent)
    have hlt := (h'.id_bounds ht).1
    omega
  have hnew : ∀ t ∈ threads, ∀ event ∈ eventsOf entries', event.thread.id ≠ t.id := by
    intro t ht event hevent
    obtain ⟨added, hadded, -, hthreads⟩ := hf.log
    obtain rfl : added = entries' := List.append_cancel_left (hadded.symm.trans h'.log)
    obtain ⟨entry, hentry, heq⟩ := List.mem_filterMap.mp hevent
    have hsome : entry.thread = some event.thread := by
      cases entry <;> simp_all [LogEntry.event, LogEntry.thread]
    have hbounds := h.id_bounds ht
    rw [ThreadBuildState.Numbered] at hn
    cases hthreads entry hentry _ hsome with
    | inl hown =>
      rw [hown, hthread]
      omega
    | inr hlt => omega
  refine ⟨by rw [h'.log, h.log, List.append_assoc], ?_, ?_, ?_, ?_, ?_, ?_, ?_⟩
  · rw [h'.below, h.below, List.append_assoc]
  · rw [List.map_append, h.sites, h'.sites, forksOf_append, List.map_append]
  · rw [List.map_append, h.ids, h'.ids, h.count, List.length_append, ← List.range'_append_1]
    congr 2
    omega
  · rw [h'.count, h.count, List.length_append, Nat.add_assoc]
  · intro t ht
    rw [eventsOf_append, List.filter_append]
    cases List.mem_append.mp ht with
    | inl hm => rw [foreign (hnew t hm), List.append_nil, h.events t hm]
    | inr hm => rw [foreign (hold t hm), List.nil_append, h'.events t hm]
  · intro t ht
    exact (List.mem_append.mp ht).elim (h.numbered t) (h'.numbered t)
  · intro t ht
    exact (List.mem_append.mp ht).elim (h.located t) (h'.located t)

lemma finishFork {fork : ForkEvent Ctx} {entry : CallGraphNode Ctx}
    {childState : ThreadBuildState Ctx} (ir : IR) (h : Adds (state.child fork entry) childState entries threads)
    (hl : Logged state) (hc : Logged childState) (hf : Frame (state.child fork entry) childState)
    {spawn : List (LogEntry Ctx)} {before : ThreadBuildState Ctx} (hlog : state.log = before.log ++ spawn)
    (hchildren : state.childThreads = before.childThreads) (hspawn : forksOf spawn = [fork])
    (htid : state.programState.currentTID = before.programState.currentTID)
    (hevents : ∀ event ∈ eventsOf spawn, event.thread = state.thread) :
    Adds before (state.finishFork ir childState) (spawn ++ entries) (childState.trace :: threads) := by
  have hthread : childState.thread = ⟨state.programState.currentTID + 1, fork :: state.thread.spawnSites⟩ :=
    hf.thread
  have hid : childState.trace.id = state.programState.currentTID + 1 := congrArg ThreadRef.id hthread
  have hcount : childState.programState.currentTID = state.programState.currentTID + 1 + threads.length :=
    h.count
  have hbelow : threadsBelow childState.childThreads = threads := h.below
  have hparent : ∀ t : ThreadTrace Ctx, state.programState.currentTID < t.id →
      ∀ event ∈ eventsOf spawn, event.thread.id ≠ t.id := by
    intro t ht event hevent
    have hnumbered := hl.numbered
    rw [ThreadBuildState.Numbered] at hnumbered
    rw [hevents event hevent]
    omega
  refine ⟨?_, ?_, ?_, ?_, ?_, ?_, ?_, ?_⟩
  · change childState.log = _
    rw [h.log, ← List.append_assoc, ← hlog]
    rfl
  · change threadsBelow (state.childThreads ++ [childState.trace]) = _
    rw [threadsBelow_append, hchildren, threadsBelow, threadsBelow, List.append_nil,
      ThreadBuildState.trace, ThreadTrace.threads, hbelow]
  · rw [forksOf_append, hspawn, List.map_cons, h.sites]
    change childState.thread.spawnSite :: _ = _
    rw [hthread]
    rfl
  · rw [List.map_cons, hid, h.ids, List.length_cons, List.range'_succ, ← htid]
    rfl
  · change childState.programState.currentTID = _
    rw [hcount, htid, List.length_cons]
    omega
  · intro t ht
    rw [eventsOf_append, List.filter_append]
    cases ht with
    | head =>
      rw [foreign (hparent _ (by omega)), List.nil_append]
      obtain ⟨added, hadded, hown, -⟩ := hf.log
      obtain rfl : added = entries := List.append_cancel_left (hadded.symm.trans h.log)
      change childState.events = _
      rw [hown, hid]
      rfl
    | tail _ hm =>
      have hbound : state.programState.currentTID + 1 < t.id := (h.id_bounds hm).1
      rw [foreign (hparent t (by omega)), List.nil_append, h.events t hm]
  · intro t ht
    cases ht with
    | head => exact hc.ids
    | tail _ hm => exact h.numbered t hm
  · intro t ht
    cases ht with
    | head => exact hc.located
    | tail _ hm => exact h.located t hm

end Adds

lemma forksOf_visit {node : CallGraphNode Ctx} {ir : IR} {thread : ThreadRef Ctx}
    {runtime : OpenMPRuntime Ctx} {joins own : List (Event Ctx)} (hj : ∀ event ∈ joins, event.type = .join) :
    forksOf (.visited thread node ir runtime :: createdAt node (joins ++ own)) =
      (own.filter (·.type = .fork)).map Event.asFork := by
  have hnone : joins.filter (·.type = .fork) = [] := by
    rw [List.filter_eq_nil_iff]
    intro event hevent
    simp [hj event hevent]
  rw [forksOf, eventsOf_visit, List.filter_append, hnone, List.nil_append]

lemma visitStart_adds {program : Program Ctx} {node : CallGraphNode Ctx} {ir : IR}
    {state : ThreadBuildState Ctx} {step : VisitStep Ctx}
    (h : visitStart program node ir state = .ok step) (hf : ∀ spawn entry last, step ≠ .fork spawn entry last) :
    ∃ entries, Adds state step.state entries [] := by
  have hemit := visitStart_emits h
  rcases visitOutcome h with ⟨-, rfl⟩ | ⟨-, joins, own, ho⟩
  · obtain ⟨-, hprogram, -, hchildren⟩ := resume_fields ir state
    have hlog : (resume ir state).log = state.log ++ [] := by
      rw [List.append_nil]
      exact congrArg (·.log) hprogram
    exact ⟨[], .nothing hlog rfl hchildren (congrArg (·.currentTID) hprogram)⟩
  · refine ⟨_, .nothing ho.log ?_ hemit.childThreads hemit.currentTID⟩
    rw [forksOf_visit (fun event hevent => (ho.joinEvents event hevent).1)]
    have hnone : own.filter (·.type = .fork) = [] := by
      rw [List.filter_eq_nil_iff]
      intro event hevent
      have hne : event.type ≠ .fork := by
        have hforks := ho.forks
        cases step with
        | next => exact hforks event hevent
        | call => exact hforks event hevent
        | fork spawn entry last => exact absurd rfl (hf spawn entry last)
      simpa using hne
    rw [hnone, List.map_nil]

lemma visitStart_spawn {program : Program Ctx} {node entry : CallGraphNode Ctx} {ir : IR}
    {state state' : ThreadBuildState Ctx} {fork : ForkEvent Ctx}
    (h : visitStart program node ir state = .ok (.fork fork entry state')) :
    ∃ spawn, state'.log = state.log ++ spawn ∧ forksOf spawn = [fork] ∧
      ∀ event ∈ eventsOf spawn, event.thread = state.thread := by
  rcases visitOutcome h with ⟨-, hnext⟩ | ⟨-, joins, own, ho⟩
  · cases hnext
  · obtain ⟨event, rfl, htype, rfl⟩ := ho.forks
    refine ⟨_, ho.log, ?_, ?_⟩
    · rw [forksOf_visit (fun event hevent => (ho.joinEvents event hevent).1)]
      simp [htype]
    · intro event' hevent
      rw [eventsOf_visit] at hevent
      exact (List.mem_append.mp hevent).elim (fun hm => (ho.joinEvents event' hm).2.1)
        (fun hm => (ho.ownEvents event' hm).2.2)

lemma logCall_adds (state : ThreadBuildState Ctx) (node callee : CallGraphNode Ctx) :
    ∃ entries, Adds state (state.logCall node callee) entries [] := by
  rw [ThreadBuildState.logCall]
  split
  · exact ⟨[], .nothing (by simp) rfl rfl rfl⟩
  · exact ⟨_, .nothing rfl rfl rfl rfl⟩

lemma callEnd_adds (state : ThreadBuildState Ctx) (node : CallGraphNode Ctx) (ir : IR) :
    Adds state (state.push node .callEnd ir) [.created node (state.nextEvent .callEnd ir none)] [] :=
  .nothing rfl rfl rfl rfl

theorem Run.adds {program : Program Ctx} {task : Task Ctx} {state last : ThreadBuildState Ctx}
    (h : Run program task state last) (hl : Logged state) : ∃ entries threads, Adds state last entries threads := by
  induction h with
  | recursive h => exact ⟨[], [], .nothing (by simp) rfl rfl rfl⟩
  | function _ _ _ ih =>
    obtain ⟨entries, threads, h⟩ :=
      ih ⟨hl.numbered, hl.threads, hl.own, hl.ids, hl.located, hl.distinct⟩
    exact ⟨entries, threads, h.log, h.below, h.sites, h.ids, h.count, h.events, h.numbered, h.located⟩
  | done => exact ⟨[], [], .nothing (by simp) rfl rfl rfl⟩
  | next hstart hrest ih =>
    have hemit := visitStart_emits hstart
    obtain ⟨entries, hvisit⟩ := visitStart_adds hstart (by simp)
    obtain ⟨entries', threads', hadds⟩ := ih (hl.emits hemit)
    exact ⟨_, _, hvisit.trans hadds hl.numbered (hl.emits hemit) hemit.thread
      (hrest.frame (hl.emits hemit).numbered)⟩
  | @call node ir _ _ callee state' returned _ hstart hcall hrest ihcall ihrest =>
    have hemit := visitStart_emits hstart
    have hl' : Logged state' := hl.emits hemit
    have hlogCall := hl'.logCall node callee
    have hreturned := hcall.logged hlogCall
    have hend := hreturned.emits (.push node returned .callEnd ir none)
    obtain ⟨visit, hvisit⟩ := visitStart_adds hstart (by simp)
    obtain ⟨enter, henter⟩ := logCall_adds state' node callee
    obtain ⟨body, threads, hbody⟩ := ihcall hlogCall
    obtain ⟨rest, threads', hrest'⟩ := ihrest hend
    have hframe := hrest.frame hend.numbered
    have htail := (callEnd_adds returned node ir).trans hrest' hreturned.numbered hend rfl hframe
    have hcallFrame := hcall.frame hlogCall.numbered
    have htailFrame := (Frame.of_emits (.push node returned .callEnd ir none)).trans hframe
    have hcalled := hbody.trans htail hlogCall.numbered hreturned hcallFrame.thread htailFrame
    have hcalledFrame := hcallFrame.trans htailFrame
    have hlogFrame := Frame.of_logCall state' node callee
    have hentered := henter.trans hcalled hl'.numbered hlogCall hlogFrame.thread hcalledFrame
    exact ⟨_, _, hvisit.trans hentered hl.numbered hl' hemit.thread (hlogFrame.trans hcalledFrame)⟩
  | @fork node ir _ state fork entry state' childState _ hstart hchild hrest ihchild ihrest =>
    have hemit : Emits node state state' := visitStart_emits hstart
    have hl' : Logged state' := hl.emits hemit
    have hlchild := hl'.child fork entry
    have hchildFrame := hchild.frame hlchild.numbered
    obtain ⟨body, threads, hbody⟩ := ihchild hlchild
    obtain ⟨spawn, hlog, hspawn, hevents⟩ := visitStart_spawn hstart
    have hforked := hbody.finishFork ir hl' (hchild.logged hlchild) hchildFrame hlog hemit.childThreads
      hspawn hemit.currentTID (fun event he => (hevents event he).trans hemit.thread.symm)
    have hend := hl'.finishFork ir hchildFrame (hchild.logged hlchild)
    obtain ⟨rest, threads', hrest'⟩ := ihrest hend
    exact ⟨_, _, hforked.trans hrest' hl.numbered hend hemit.thread (hrest.frame hend.numbered)⟩

section Main

variable {program : Program Ctx} {fuel : ℕ} {entry : CallGraphNode Ctx} {final : ThreadBuildState Ctx}

lemma buildMainThread_adds (h : buildMainThread program fuel entry = .ok final) :
    Logged final ∧ Frame (.main entry) final ∧
      Adds (.main entry) final final.log (threadsBelow final.childThreads) := by
  have hrun := run_of_buildTrace h
  obtain ⟨entries, threads, hadds⟩ := hrun.adds (Logged.initial entry)
  obtain rfl : final.log = entries := hadds.log
  obtain rfl : threadsBelow final.childThreads = threads := hadds.below
  exact ⟨hrun.logged (Logged.initial entry), hrun.frame le_rfl, hadds⟩

theorem threads_of_log (h : buildMainThread program fuel entry = .ok final) :
    ∀ t ∈ final.trace.threads, t.events = (eventsOf final.log).filter (·.thread.id = t.id) := by
  obtain ⟨hl, -, hadds⟩ := buildMainThread_adds h
  intro t ht
  cases ht with
  | head => exact hl.own.symm
  | tail _ hm => exact hadds.events t hm

theorem forked_once (h : buildMainThread program fuel entry = .ok final) {fork : ForkEvent Ctx}
    (hfork : fork ∈ forksOf final.log) : ∃! t, t ∈ final.trace.threads ∧ t.thread.spawnSite = some fork := by
  obtain ⟨hl, hframe, hadds⟩ := buildMainThread_adds h
  have hsites : some fork ∈ (threadsBelow final.childThreads).map (·.thread.spawnSite) := by
    rw [hadds.sites]
    exact List.mem_map_of_mem hfork
  have hnodup : ((threadsBelow final.childThreads).map (·.thread.spawnSite)).Nodup := by
    rw [hadds.sites]
    exact hl.forksOf_nodup.map (fun _ _ => Option.some.inj)
  obtain ⟨t, ht, heq⟩ := List.mem_map.mp hsites
  refine ⟨t, ⟨List.mem_cons_of_mem _ ht, heq⟩, ?_⟩
  rintro other ⟨hother, hsame⟩
  cases hother with
  | head =>
    have hnone : final.trace.thread.spawnSite = none := congrArg ThreadRef.spawnSite hframe.thread
    exact absurd (hnone.symm.trans hsame) (by simp)
  | tail _ hm => exact List.inj_on_of_nodup_map hnodup hm ht (hsame.trans heq.symm)

lemma threads_distinct (h : buildMainThread program fuel entry = .ok final) :
    (final.trace.threads.map ThreadTrace.id).Nodup := by
  obtain ⟨-, hframe, hadds⟩ := buildMainThread_adds h
  have hid : final.trace.id = 0 := congrArg ThreadRef.id hframe.thread
  change (final.trace.id :: (threadsBelow final.childThreads).map ThreadTrace.id).Nodup
  rw [hadds.ids, hid, List.nodup_cons, List.mem_range'_1]
  exact ⟨by omega, List.nodup_range'⟩

lemma events_numbered (h : buildMainThread program fuel entry = .ok final) :
    ∀ t ∈ final.trace.threads, t.events.map Event.id = List.range t.events.length := by
  obtain ⟨hl, -, hadds⟩ := buildMainThread_adds h
  intro t ht
  rw [List.range_eq_range']
  cases ht with
  | head => exact hl.ids
  | tail _ hm => exact hadds.numbered t hm

lemma events_located (h : buildMainThread program fuel entry = .ok final) :
    ∀ t ∈ final.trace.threads, ∀ e ∈ t.events, e.thread = t.thread := by
  obtain ⟨hl, -, hadds⟩ := buildMainThread_adds h
  intro t ht
  cases ht with
  | head => exact hl.located
  | tail _ hm => exact hadds.located t hm

/-- Built traces are what the analyses expect, when all forks and joins name their handles. -/
theorem buildProgramTrace_wellFormed (h : buildMainThread program fuel entry = .ok final)
    (storeUsers : Value → List Value) (hh : ∀ event ∈ eventsOf final.log,
      event.type = .fork ∨ event.type = .join → event.ir.getThreadHandle.isSome) :
    (buildProgramTrace final storeUsers).WellFormed := by
  have hevents := threads_of_log h
  refine ⟨threads_distinct h, events_numbered h, events_located h, ?_, ?_⟩
  · intro t ht e he
    rw [hevents t ht, List.mem_filter] at he
    exact hh e he.1
  · intro t ht e he
    obtain ⟨hmem, htype⟩ := mem_getForkEvents.mp he
    rw [hevents t ht, List.mem_filter] at hmem
    have hfork : e.asFork ∈ forksOf final.log :=
      List.mem_map_of_mem (List.mem_filter.mpr ⟨hmem.1, by simpa using htype⟩)
    obtain ⟨s, hs, -⟩ := forked_once h hfork
    exact ⟨s, hs⟩

end Main

end OpenRace
