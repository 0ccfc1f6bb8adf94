import OpenRace.Trace.Build.Logged
import OpenRace.Trace.Build.Visit

/-! What the history of a construction says about tasks and single regions. -/

namespace OpenRace

open LLVM

variable {Ctx : Type}

def LogEntry.joined : LogEntry Ctx → Option (ForkEvent Ctx)
  | .created _ event => event.forkEvent
  | _ => none

def LogEntry.stepSingle (inSingle : Bool) : LogEntry Ctx → Bool
  | .visited _ _ ir _ => OpenRace.stepSingle ir inSingle
  | _ => inSingle

def taskForks (log : List (LogEntry Ctx)) : List (ForkEvent Ctx) :=
  (eventsOf log).filterMap Event.taskFork

def joinedForks (log : List (LogEntry Ctx)) : List (ForkEvent Ctx) := log.filterMap LogEntry.joined

/-- The last marker of a single region visited so far, on any thread, is a start. -/
def singleOpen (log : List (LogEntry Ctx)) : Bool := log.foldl LogEntry.stepSingle false

def LogEntry.isVisitBy (tid : ℕ) : LogEntry Ctx → Bool
  | .visited thread _ _ _ => thread.id == tid
  | _ => false

lemma created_not_visitBy {node : CallGraphNode Ctx} {events : List (Event Ctx)} (tid : ℕ) :
    ∀ entry ∈ createdAt node events, entry.isVisitBy tid = false := by
  intro entry hentry
  obtain ⟨event, -, rfl⟩ := List.mem_map.mp hentry
  rfl

/-- The same, told by the markers that one thread has visited. -/
def singleOpenOn (tid : ℕ) (log : List (LogEntry Ctx)) : Bool := singleOpen (log.filter (·.isVisitBy tid))

lemma eventsOf_createdAt (node : CallGraphNode Ctx) (events : List (Event Ctx)) :
    eventsOf (createdAt node events) = events := by
  rw [eventsOf, createdAt, List.filterMap_map]
  exact List.filterMap_some

lemma joinedForks_createdAt (node : CallGraphNode Ctx) (events : List (Event Ctx)) :
    joinedForks (createdAt node events) = events.filterMap Event.forkEvent := by
  rw [joinedForks, createdAt, List.filterMap_map]
  rfl

lemma singleOpen_createdAt (log : List (LogEntry Ctx)) (node : CallGraphNode Ctx)
    (events : List (Event Ctx)) : singleOpen (log ++ createdAt node events) = singleOpen log := by
  rw [singleOpen, List.foldl_append]
  change (events.map (LogEntry.created node)).foldl LogEntry.stepSingle (singleOpen log) = _
  rw [List.foldl_map]
  exact List.foldl_fixed _

lemma taskForks_append (log entries : List (LogEntry Ctx)) :
    taskForks (log ++ entries) = taskForks log ++ taskForks entries := by
  rw [taskForks, eventsOf_append, List.filterMap_append]
  rfl

lemma joinedForks_append (log entries : List (LogEntry Ctx)) :
    joinedForks (log ++ entries) = joinedForks log ++ joinedForks entries :=
  List.filterMap_append

lemma taskForks_pids (events : List (Event Ctx)) :
    ((events.filterMap Event.taskFork).map ForkEvent.pid).Sublist (events.map Event.pid) := by
  induction events with
  | nil => exact List.Sublist.refl _
  | cons event events ih =>
    rw [List.filterMap_cons, List.map_cons]
    unfold Event.taskFork
    split
    · exact ih.cons _
    · rename_i fork hfork
      split at hfork
      · obtain rfl := Option.some.inj hfork
        exact ih.cons_cons _
      · cases hfork

lemma Logged.taskForks_nodup {state : ThreadBuildState Ctx} (h : Logged state) :
    (taskForks state.log).Nodup :=
  List.Nodup.of_map ForkEvent.pid ((taskForks_pids _).nodup h.distinct)

section Tally

variable [DecidableEq Ctx]

/-- The tasks forked so far that no thread has joined. -/
def outstanding (log : List (LogEntry Ctx)) : List (ForkEvent Ctx) :=
  (taskForks log).filter (· ∉ joinedForks log)

structure Tallied (state : ThreadBuildState Ctx) : Prop where
  openForks : state.programState.runtime.openForks = outstanding state.log
  inSingle : state.programState.runtime.inSingleRegion = singleOpen state.log
  joined : ∀ fork ∈ joinedForks state.log, fork ∈ taskForks state.log
  once : (joinedForks state.log).Nodup
  sites : ∀ fork ∈ state.thread.spawnSites, fork.pid.tid < state.thread.id

lemma outstanding_quiet {log entries : List (LogEntry Ctx)} (hf : taskForks entries = [])
    (hj : joinedForks entries = []) : outstanding (log ++ entries) = outstanding log := by
  rw [outstanding, taskForks_append, joinedForks_append, hf, hj, List.append_nil, List.append_nil]
  rfl

lemma Tallied.initial (entry : CallGraphNode Ctx) : Tallied (.main entry) :=
  ⟨rfl, rfl, fun _ h => absurd h List.not_mem_nil, List.nodup_nil, fun _ h => absurd h List.not_mem_nil⟩

lemma Tallied.of_fields {state state' : ThreadBuildState Ctx} (h : Tallied state)
    (hp : state'.log = state.log)
    (ho : state'.programState.runtime.openForks = state.programState.runtime.openForks)
    (hs : state'.programState.runtime.inSingleRegion = state.programState.runtime.inSingleRegion)
    (hsites : ∀ fork ∈ state'.thread.spawnSites, fork.pid.tid < state'.thread.id) : Tallied state' := by
  refine ⟨?_, ?_, ?_, ?_, hsites⟩
  · rw [ho, h.openForks, hp]
  · rw [hs, h.inSingle, hp]
  · rw [hp]
    exact h.joined
  · rw [hp]
    exact h.once

lemma Tallied.of_quiet {state state' : ThreadBuildState Ctx} {entry : LogEntry Ctx} (h : Tallied state)
    (hp : state'.log = state.log ++ [entry]) (hr : state'.programState.runtime = state.programState.runtime)
    (ht : state'.thread = state.thread) (hf : taskForks [entry] = []) (hj : joinedForks [entry] = [])
    (hs : singleOpen (state.log ++ [entry]) = singleOpen state.log) : Tallied state' := by
  refine ⟨?_, ?_, ?_, ?_, by rw [ht]; exact h.sites⟩
  · rw [hp, hr, h.openForks, outstanding_quiet hf hj]
  · rw [hp, hr, h.inSingle, hs]
  · rw [hp, joinedForks_append, taskForks_append, hf, hj, List.append_nil, List.append_nil]
    exact h.joined
  · rw [hp, joinedForks_append, hj, List.append_nil]
    exact h.once

section Visit

variable {program : Program Ctx} {node : CallGraphNode Ctx} {ir : IR} {state : ThreadBuildState Ctx}
  {step : VisitStep Ctx} {joins own : List (Event Ctx)}

omit [DecidableEq Ctx] in
lemma VisitOutcome.joined_forks (h : VisitOutcome program node ir state step joins own) :
    joins.filterMap Event.forkEvent = if JoinsTasks ir state.programState.runtime then
      state.programState.runtime.openForks else [] := by
  have hmap : joins.filterMap Event.forkEvent = (joins.map Event.forkEvent).filterMap id := by
    rw [List.filterMap_map]
    rfl
  rw [hmap, h.joined]
  split
  · rw [List.filterMap_map]
    exact List.filterMap_some
  · rfl

omit [DecidableEq Ctx] in
lemma VisitOutcome.joined_log (h : VisitOutcome program node ir state step joins own) :
    joinedForks step.state.log = joinedForks state.log ++
      if JoinsTasks ir state.programState.runtime then state.programState.runtime.openForks else [] := by
  have hown : own.filterMap Event.forkEvent = [] := by
    rw [List.filterMap_eq_nil_iff]
    exact fun event hevent => (h.ownEvents event hevent).1
  rw [h.log, joinedForks_append, joinedForks, joinedForks, List.filterMap_cons_none rfl]
  change _ ++ joinedForks (createdAt node (joins ++ own)) = _
  rw [joinedForks_createdAt, List.filterMap_append, hown, List.append_nil, h.joined_forks]

omit [DecidableEq Ctx] in
lemma VisitOutcome.taskForks_log (h : VisitOutcome program node ir state step joins own) :
    taskForks step.state.log = taskForks state.log ++ own.filterMap Event.taskFork := by
  have hjoins : joins.filterMap Event.taskFork = [] := by
    rw [List.filterMap_eq_nil_iff]
    intro event hevent
    exact if_neg (fun hf => by simp [(h.joinEvents event hevent).1] at hf)
  have hvisited : ∀ entries, taskForks (.visited state.thread node ir state.programState.runtime :: entries) =
      taskForks entries := fun _ => rfl
  rw [h.log, taskForks_append, hvisited, taskForks, taskForks, eventsOf_createdAt,
    List.filterMap_append, hjoins, List.nil_append]

lemma VisitOutcome.outstanding_log (h : VisitOutcome program node ir state step joins own)
    (hl : Logged step.state) (ht : Tallied state) :
    outstanding step.state.log = (if JoinsTasks ir state.programState.runtime then []
      else outstanding state.log) ++ own.filterMap Event.taskFork := by
  have hnodup := hl.taskForks_nodup
  rw [h.taskForks_log, List.nodup_append] at hnodup
  rw [outstanding, h.taskForks_log, h.joined_log, List.filter_append, ht.openForks]
  congr 1
  · split
    · rw [List.filter_eq_nil_iff]
      intro fork hfork
      simp only [List.mem_append, not_or, decide_eq_true_eq, not_and, not_not]
      intro hnot
      exact List.mem_filter.mpr ⟨hfork, by simpa using hnot⟩
    · rw [List.append_nil]
      rfl
  · rw [List.filter_eq_self]
    intro fork hfork
    have hold : fork ∉ taskForks state.log := fun hm => hnodup.2.2 fork hm fork hfork rfl
    rw [decide_eq_true_eq, List.mem_append, not_or]
    refine ⟨fun hm => hold (ht.joined fork hm), fun hm => hold ?_⟩
    split at hm
    · exact (List.mem_filter.mp hm).1
    · exact absurd hm List.not_mem_nil

lemma Tallied.visit (ht : Tallied state) (h : VisitOutcome program node ir state step joins own)
    (hl : Logged state) (hl' : Logged step.state) (hthread : step.state.thread = state.thread) :
    Tallied step.state := by
  have hsub : ∀ fork, fork ∈ (if JoinsTasks ir state.programState.runtime then
      state.programState.runtime.openForks else []) → fork ∈ outstanding state.log := by
    intro fork hm
    split at hm
    · rw [← ht.openForks]
      exact hm
    · exact absurd hm List.not_mem_nil
  refine ⟨?_, ?_, ?_, ?_, by rw [hthread]; exact ht.sites⟩
  · rw [h.openForks, h.outstanding_log hl' ht, ht.openForks]
  · rw [h.inSingle, ht.inSingle, h.log, List.append_cons, singleOpen_createdAt]
    simp [singleOpen, LogEntry.stepSingle]
  · intro fork hfork
    rw [h.joined_log, List.mem_append] at hfork
    rw [h.taskForks_log]
    refine List.mem_append_left _ ?_
    cases hfork with
    | inl hold => exact ht.joined fork hold
    | inr hnew => exact (List.mem_filter.mp (hsub fork hnew)).1
  · rw [h.joined_log, List.nodup_append]
    refine ⟨ht.once, ?_, ?_⟩
    · split
      · rw [ht.openForks]
        exact hl.taskForks_nodup.filter _
      · exact List.nodup_nil
    · intro fork hold new hnew heq
      have hm := (List.mem_filter.mp (hsub new hnew)).2
      rw [decide_eq_true_eq] at hm
      exact hm (heq ▸ hold)

end Visit

end Tally

end OpenRace
