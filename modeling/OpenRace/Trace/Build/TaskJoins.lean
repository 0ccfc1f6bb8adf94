import OpenRace.Trace.Build.Chronicle

/-! Which tasks are joined, and where. -/

namespace OpenRace

open LLVM

variable {Ctx : Type} [DecidableEq Ctx]

/-- The forks that the joins at the head of a history refer to. -/
def leadingJoins (log : List (LogEntry Ctx)) : List (ForkEvent Ctx) :=
  joinedForks (log.takeWhile (·.joined.isSome))

/-- Joins of tasks are placed and counted as a reader of the program expects. -/
structure JoinsOwnTasks (log : List (LogEntry Ctx)) : Prop where
  others : ∀ event ∈ eventsOf log, ∀ fork, event.forkEvent = some fork → fork ∉ event.thread.spawnSites
  taskwait : ∀ before thread node ir runtime after,
    log = before ++ .visited thread node ir runtime :: after → ir.type = .openMPTaskWait →
      leadingJoins after = (outstanding before).filter (·.pid.tid = thread.id)
  once : (joinedForks log).Nodup

/-- At a taskwait all open tasks are the thread's own; at a barrier or join, none of them is an
ancestor of the thread. -/
def OpenTasksJoinable (log : List (LogEntry Ctx)) : Prop :=
  ∀ thread node ir runtime, .visited thread node ir runtime ∈ log →
    (ir.type = .openMPTaskWait → ∀ fork ∈ runtime.openForks, fork.pid.tid = thread.id) ∧
    (ir.type = .openMPJoin ∨ ir.type = .openMPBarrier ∧ runtime.inTeamsregion = false →
      ∀ fork ∈ runtime.openForks, fork ∉ thread.spawnSites)

omit [DecidableEq Ctx] in
lemma leadingJoins_append {joins : List (Event Ctx)} {rest : List (LogEntry Ctx)}
    (node : CallGraphNode Ctx) (hj : ∀ event ∈ joins, event.forkEvent.isSome)
    (hr : leadingJoins rest = []) :
    leadingJoins (createdAt node joins ++ rest) = joins.filterMap Event.forkEvent := by
  have hall : ∀ entry ∈ createdAt node joins, entry.joined.isSome = true := by
    intro entry hentry
    obtain ⟨event, hevent, rfl⟩ := List.mem_map.mp hentry
    exact hj event hevent
  rw [leadingJoins, List.takeWhile_append_of_pos hall, joinedForks_append, joinedForks_createdAt]
  change _ ++ leadingJoins rest = _
  rw [hr, List.append_nil]

omit [DecidableEq Ctx] in
lemma leadingJoins_of_head {rest : List (LogEntry Ctx)}
    (h : ∀ entry, rest.head? = some entry → entry.joined = none) : leadingJoins rest = [] := by
  cases rest with
  | nil => rfl
  | cons entry rest =>
    rw [leadingJoins, List.takeWhile_cons_of_neg (by simp [h entry rfl])]
    rfl

lemma Chronicle.head {program : Program Ctx} {before entries : List (LogEntry Ctx)}
    (h : Chronicle program before entries) : ∀ entry, entries.head? = some entry → entry.joined = none := by
  intro entry hentry
  cases h with
  | nil => cases hentry
  | cons hb _ =>
    cases hb with
    | visit => cases hentry; rfl
    | entered => cases hentry; rfl
    | left _ _ _ hf => cases hentry; exact hf

lemma VisitedAt.joins {program : Program Ctx} {before after : List (LogEntry Ctx)}
    {thread : ThreadRef Ctx} {node : CallGraphNode Ctx} {ir : IR} {runtime : OpenMPRuntime Ctx}
    (h : VisitedAt program before thread node ir runtime after) (hj : JoinsTasks ir runtime) :
    leadingJoins after = runtime.openForks ∧ runtime.openForks = outstanding before := by
  cases h with
  | @mk node ir state _ joins own rest ho hl ht hr =>
    refine ⟨?_, ht.openForks⟩
    have hsome : ∀ event ∈ joins, event.forkEvent.isSome := by
      intro event hevent
      have hm : event.forkEvent ∈ joins.map Event.forkEvent := List.mem_map_of_mem hevent
      rw [ho.joined, if_pos hj] at hm
      obtain ⟨fork, -, hfork⟩ := List.mem_map.mp hm
      rw [← hfork]
      rfl
    have hnext : leadingJoins (createdAt node own ++ rest) = [] := by
      apply leadingJoins_of_head
      intro entry hentry
      cases own with
      | nil => exact hr.head entry hentry
      | cons event own =>
        cases hentry
        exact (ho.ownEvents event List.mem_cons_self).1
    rw [createdAt, List.map_append, List.append_assoc]
    change leadingJoins (createdAt node joins ++ (createdAt node own ++ rest)) = _
    rw [leadingJoins_append node hsome hnext, ho.joined_forks, if_pos hj]

lemma VisitedAt.sites {program : Program Ctx} {before after : List (LogEntry Ctx)}
    {thread : ThreadRef Ctx} {node : CallGraphNode Ctx} {ir : IR} {runtime : OpenMPRuntime Ctx}
    (h : VisitedAt program before thread node ir runtime after) :
    ∀ fork ∈ thread.spawnSites, fork.pid.tid < thread.id := by
  cases h with
  | mk _ _ ht _ => exact ht.sites

lemma Chronicle.visited_mem {program : Program Ctx} {entries : List (LogEntry Ctx)}
    {thread : ThreadRef Ctx} {node : CallGraphNode Ctx} {ir : IR} {runtime : OpenMPRuntime Ctx}
    (h : Chronicle program [] entries) (hv : .visited thread node ir runtime ∈ entries) :
    ∃ before after, entries = before ++ .visited thread node ir runtime :: after ∧
      VisitedAt program before thread node ir runtime after := by
  obtain ⟨before, after, heq⟩ := List.append_of_mem hv
  exact ⟨before, after, heq, h.visitedAt heq⟩

lemma OpenTasksJoinable.others {program : Program Ctx} {entries : List (LogEntry Ctx)}
    (h : OpenTasksJoinable entries) (hc : Chronicle program [] entries) :
    ∀ event ∈ eventsOf entries, ∀ fork, event.forkEvent = some fork → fork ∉ event.thread.spawnSites := by
  intro event hevent fork hfork hsite
  obtain ⟨node, ir, runtime, hv, hj, hopen⟩ := hc.joined_at hevent hfork
  obtain ⟨htaskwait, hother⟩ := h event.thread node ir runtime hv
  cases hj with
  | inl hw =>
    obtain ⟨_, _, _, hat⟩ := hc.visited_mem hv
    have hlt := hat.sites fork hsite
    have heq := htaskwait hw fork hopen
    omega
  | inr hb => exact hother hb fork hopen hsite

lemma openTasksJoinable_iff {program : Program Ctx} {entries : List (LogEntry Ctx)}
    (hc : Chronicle program [] entries) (honce : (joinedForks entries).Nodup) :
    JoinsOwnTasks entries ↔ OpenTasksJoinable entries := by
  constructor
  · intro h thread node ir runtime hv
    obtain ⟨before, after, heq, hat⟩ := hc.visited_mem hv
    constructor
    · intro hw fork hfork
      obtain ⟨hlead, hopen⟩ := hat.joins (Or.inl hw)
      have hexact := h.taskwait _ _ _ _ _ _ heq hw
      rw [hlead, hopen] at hexact
      rw [hopen, hexact] at hfork
      simpa using (List.mem_filter.mp hfork).2
    · intro hb fork hfork
      cases hat with
      | @mk node ir state _ joins own rest ho _ _ _ =>
        have hjoined : fork ∈ joins.filterMap Event.forkEvent := by
          rw [ho.joined_forks, if_pos (show JoinsTasks ir _ from Or.inr hb)]
          exact hfork
        obtain ⟨event, hevent, hf⟩ := List.mem_filterMap.mp hjoined
        rw [← (ho.joinEvents event hevent).2.1]
        refine h.others event ?_ fork hf
        have hnext : event ∈ eventsOf (createdAt node (joins ++ own)) := by
          rw [eventsOf_createdAt]
          exact List.mem_append_left _ hevent
        obtain ⟨entry, hentry, hsome⟩ := List.mem_filterMap.mp hnext
        rw [heq, eventsOf, List.mem_filterMap]
        exact ⟨entry, List.mem_append_right _ (List.mem_cons_of_mem _
          (List.mem_append_left _ hentry)), hsome⟩
  · intro h
    refine ⟨h.others hc, ?_, honce⟩
    intro before thread node ir runtime after heq hw
    obtain ⟨hlead, hopen⟩ := (hc.visitedAt heq).joins (Or.inl hw)
    have hown := (h thread node ir runtime (by rw [heq]; simp)).1 hw
    rw [hlead, List.nil_append] at *
    rw [hopen, eq_comm, List.filter_eq_self]
    intro fork hfork
    rw [← hopen] at hfork
    simpa using hown fork hfork

/-- Task joins are as expected exactly when no wait sees another thread's open task. -/
theorem task_joins_iff {program : Program Ctx} {fuel : ℕ} {entry : CallGraphNode Ctx}
    {final : ThreadBuildState Ctx} (h : buildMainThread program fuel entry = .ok final) :
    JoinsOwnTasks final.log ↔ OpenTasksJoinable final.log := by
  obtain ⟨⟨entries, hlog, hc⟩, ht⟩ :=
    (run_of_buildTrace h).continues (Logged.initial entry) (Tallied.initial entry)
  obtain rfl : final.log = entries := hlog
  exact openTasksJoinable_iff hc ht.once

namespace WaitingTask

def mainFunction : Function := { id := 10, name := "main" }

def taskEntry : Function := { id := 11, name := ".omp_task_entry." }

def runtimeCall (id : ℕ) (name : String) (args : List Value) : CallBase :=
  { id := id, calledOperand := .function { id := 0, name := name }, args := args }

def taskAlloc : CallBase := runtimeCall 1 "__kmpc_omp_task_alloc" [.undef, .undef, .function taskEntry]

def task : CallBase :=
  runtimeCall 2 "__kmpc_omp_task" [.undef, .undef, .taskAlloc 1 (.function taskEntry)]

def taskWait : CallBase := runtimeCall 3 "__kmpc_omp_taskwait" [.undef, .undef]

/-- `main` has one task, and the task waits for the tasks it has made: none. -/
def body (f : Function) : List BasicBlock :=
  if f = mainFunction then [[.call taskAlloc, .call task]] else [[.call taskWait]]

def program : Program Unit where
  getFunctionSummary f := generateFunctionSummary (body f)
  contextEvolve _ _ := ()
  getDirectNodeOrNull context f :=
    some { context := context, function := f, isExtFunction := decide (f.id = 0) }
  getResolvedNode _ _ := []

def entry : CallGraphNode Unit := { context := (), function := mainFunction }

lemma built : EndsIn (buildMainThread program 3 entry) (fun _ => True) := by decide +kernel

theorem task_joins_iff_waiting : EndsIn (buildMainThread program 3 entry)
    (fun final => JoinsOwnTasks final.log ↔ OpenTasksJoinable final.log) := by
  obtain ⟨final, h, -⟩ := built
  exact ⟨final, h, task_joins_iff h⟩

/-- The task's wait joins the task itself. -/
theorem task_joins_itself : EndsIn (buildMainThread program 3 entry)
    (fun final => ¬ JoinsOwnTasks final.log) := by
  have hjoin : EndsIn (buildMainThread program 3 entry) (fun final => ∃ event ∈ eventsOf final.log,
      ∃ fork ∈ event.thread.spawnSites, event.forkEvent = some fork) := by decide +kernel
  obtain ⟨final, h, event, hevent, fork, hsite, hfork⟩ := hjoin
  exact ⟨final, h, fun hown => hown.others event hevent fork hfork hsite⟩

end WaitingTask

end OpenRace
