import OpenRace.Trace.Build.Chronicle
import OpenRace.Trace.Build.Threads

/-! Tasks of single regions: every one is forked once in a team. -/

namespace OpenRace

open LLVM

variable {Ctx : Type}

/-- The thread whose tasks, or tasks of tasks, the thread is one of; itself when it is no task. -/
def taskRoot : ℕ → List (ForkEvent Ctx) → ThreadRef Ctx
  | id, [] => ⟨id, []⟩
  | id, fork :: rest =>
    if fork.ir.type = .openMPTaskFork then taskRoot fork.pid.tid rest else ⟨id, fork :: rest⟩

def ThreadRef.root (thread : ThreadRef Ctx) : ThreadRef Ctx := taskRoot thread.id thread.spawnSites

/-- The thread's twin has a single region open, by the markers that this twin has visited. -/
def underSingle (before : List (LogEntry Ctx)) (thread : ThreadRef Ctx) : Bool :=
  (isOpenMPThread thread.root).isSome && singleOpenOn thread.root.id before

/-- The visit made one fork event, and that fork one thread. -/
def Kept (final : ThreadBuildState Ctx) (node : CallGraphNode Ctx) (ir : IR)
    (after : List (LogEntry Ctx)) : Prop :=
  ∃ event, after.head? = some (.created node event) ∧ event.type = .fork ∧ event.ir = ir ∧
    ∃! t, t ∈ final.trace.threads ∧ t.thread.spawnSite = some event.asFork

def Dropped (after : List (LogEntry Ctx)) : Prop :=
  ∀ node event, after.head? = some (.created node event) → event.type ≠ .fork

/-- Of the task constructs under single regions, those reached from the master twin are kept and
those on the other twin are dropped. -/
def SingleTasksOnce (final : ThreadBuildState Ctx) : Prop :=
  ∀ before thread node ir runtime after,
    final.log = before ++ .visited thread node ir runtime :: after → ir.type = .openMPTaskFork →
    underSingle before thread = true →
      (isOpenMPMasterThread thread.root = true → Kept final node ir after) ∧
      (isOpenMPMasterThread thread.root = false → thread.root = thread → Dropped after)

/-- The last single marker visited by any thread is an end when a task body of the master twin
reaches a task construct, and a start when the other twin itself does. -/
def LastMarkersFit (log : List (LogEntry Ctx)) : Prop :=
  ∀ before thread node ir runtime after,
    log = before ++ .visited thread node ir runtime :: after → ir.type = .openMPTaskFork →
    underSingle before thread = true →
      (isOpenMPMasterThread thread.root = true → thread.root ≠ thread → singleOpen before = false) ∧
      (isOpenMPMasterThread thread.root = false → thread.root = thread → singleOpen before = true)

lemma task_not_master {thread : ThreadRef Ctx} (h : thread.root ≠ thread) :
    isOpenMPMasterThread thread = false := by
  obtain ⟨id, spawnSites⟩ := thread
  cases spawnSites with
  | nil => exact absurd rfl h
  | cons fork rest =>
    by_cases htask : fork.ir.type = .openMPTaskFork
    · simp [isOpenMPMasterThread, isOpenMPThread, ThreadRef.spawnSite, htask]
    · exact absurd (if_neg htask) h

lemma Kept.not_dropped {final : ThreadBuildState Ctx} {node : CallGraphNode Ctx} {ir : IR}
    {after : List (LogEntry Ctx)} (h : Kept final node ir after) : ¬ Dropped after := by
  obtain ⟨event, hhead, htype, -⟩ := h
  exact fun hd => hd node event hhead htype

variable [DecidableEq Ctx]

lemma Chronicle.dropped {program : Program Ctx} {before entries : List (LogEntry Ctx)}
    (h : Chronicle program before entries) : Dropped entries := by
  intro node event hhead
  cases h with
  | nil => cases hhead
  | cons hb _ =>
    cases hb with
    | visit => cases hhead
    | entered => cases hhead
    | left _ _ htype _ =>
      cases hhead
      simp [htype]

section Visit

variable {program : Program Ctx} {before after : List (LogEntry Ctx)} {thread : ThreadRef Ctx}
  {node : CallGraphNode Ctx} {ir : IR} {runtime : OpenMPRuntime Ctx}

lemma VisitedAt.task_dropped (h : VisitedAt program before thread node ir runtime after)
    (htask : ir.type = .openMPTaskFork) (hs : singleOpen before = true)
    (hm : isOpenMPMasterThread thread = false) : Dropped after := by
  cases h with
  | @mk _ _ state _ joins own rest ho _ ht hr =>
    have hjoins : joins = [] := by
      have hnot : ¬ JoinsTasks ir state.programState.runtime := by simp [JoinsTasks, htask]
      simpa [hnot] using ho.joined
    rw [hjoins, ho.dropped htask (ht.inSingle.trans hs) hm]
    exact hr.dropped

lemma VisitedAt.task_kept (h : VisitedAt program before thread node ir runtime after)
    (htask : ir.type = .openMPTaskFork) (hr : ¬ RecursiveSpawn program thread ir)
    (hk : singleOpen before = true → isOpenMPMasterThread thread = true) :
    ∃ event rest, after = .created node event :: rest ∧ event.type = .fork ∧ event.ir = ir := by
  cases h with
  | @mk _ _ state _ joins own rest ho _ ht _ =>
    have hjoins : joins = [] := by
      have hnot : ¬ JoinsTasks ir state.programState.runtime := by simp [JoinsTasks, htask]
      simpa [hnot] using ho.joined
    rcases ho.kept htask (fun hs => hk (ht.inSingle.symm.trans hs)) with ⟨event, rfl, htype⟩ | ⟨-, hrec⟩
    · rw [hjoins]
      exact ⟨event, rest, rfl, htype, (ho.ownEvents event List.mem_cons_self).2.1⟩
    · exact absurd hrec hr

end Visit

/-- Tasks of single regions are forked once exactly when the last marker is always the right one. -/
theorem single_tasks_once_iff {program : Program Ctx} {fuel : ℕ} {entry : CallGraphNode Ctx}
    {final : ThreadBuildState Ctx} (h : buildMainThread program fuel entry = .ok final)
    (hr : ∀ thread node ir runtime, .visited thread node ir runtime ∈ final.log →
      ir.type = .openMPTaskFork → ¬ RecursiveSpawn program thread ir) :
    SingleTasksOnce final ↔ LastMarkersFit final.log := by
  obtain ⟨⟨entries, hlog, hc⟩, -⟩ :=
    (run_of_buildTrace h).continues (Logged.initial entry) (Tallied.initial entry)
  obtain rfl : final.log = entries := hlog
  have hkept : ∀ before thread node ir runtime after,
      final.log = before ++ .visited thread node ir runtime :: after → ir.type = .openMPTaskFork →
        (singleOpen before = true → isOpenMPMasterThread thread = true) → Kept final node ir after := by
    intro before thread node ir runtime after heq htask hk
    have hv : LogEntry.visited thread node ir runtime ∈ final.log := by simp [heq]
    obtain ⟨event, rest, hafter, htype, hir⟩ :=
      (hc.visitedAt heq).task_kept htask (hr _ _ _ _ hv htask) hk
    refine ⟨event, by simp [hafter], htype, hir, forked_once h ?_⟩
    have hevent : event ∈ eventsOf final.log := by
      rw [heq, hafter]
      exact List.mem_filterMap.mpr ⟨.created node event, by simp, rfl⟩
    exact List.mem_map_of_mem (List.mem_filter.mpr ⟨hevent, by simpa using htype⟩)
  constructor
  · intro honce before thread node ir runtime after heq htask hu
    obtain ⟨hmaster, hother⟩ := honce before thread node ir runtime after heq htask hu
    constructor
    · intro hroot hne
      rw [← Bool.not_eq_true]
      intro hopen
      exact (hmaster hroot).not_dropped
        ((hc.visitedAt heq).task_dropped htask hopen (task_not_master hne))
    · intro hroot hself
      by_contra hopen
      exact (hkept _ _ _ _ _ _ heq htask (fun hs => absurd hs hopen)).not_dropped (hother hroot hself)
  · intro hfit before thread node ir runtime after heq htask hu
    obtain ⟨hmaster, hother⟩ := hfit before thread node ir runtime after heq htask hu
    constructor
    · intro hroot
      apply hkept _ _ _ _ _ _ heq htask
      intro hopen
      by_cases hself : thread.root = thread
      · rw [← hself]
        exact hroot
      · rw [hmaster hroot hself] at hopen
        cases hopen
    · intro hroot hself
      apply (hc.visitedAt heq).task_dropped htask (hother hroot hself)
      rw [← hself]
      exact hroot

namespace NestedTask

def mainFunction : Function := { id := 10, name := "main" }

def outlined : Function := { id := 11, name := ".omp_outlined." }

def outerTask : Function := { id := 12, name := ".omp_task_entry." }

def innerTask : Function := { id := 13, name := ".omp_task_entry..2" }

def runtimeCall (id : ℕ) (name : String) (args : List Value) : CallBase :=
  { id := id, calledOperand := .function { id := 0, name := name }, args := args }

def forkCall (id : ℕ) : CallBase :=
  runtimeCall id "__kmpc_fork_call" [.alloca id, .undef, .bitcast (.function outlined)]

def task (id : ℕ) (entry : Function) : CallBase :=
  runtimeCall id "__kmpc_omp_task" [.undef, .undef, .taskAlloc (id + 1) (.function entry)]

/-- `parallel { single { task { task { } } } }`, with the fork of the region already doubled. -/
def body (f : Function) : List BasicBlock :=
  if f = mainFunction then [[.call (forkCall 1), .call (forkCall 2)]]
  else if f = outlined then
    [[.call (runtimeCall 3 "__kmpc_single" [])], [.call (task 4 outerTask)],
      [.call (runtimeCall 6 "__kmpc_end_single" [])]]
  else if f = outerTask then [[.call (task 7 innerTask)]]
  else [[.store 9 (.globalVariable 20 false) false false]]

def program : Program Unit where
  getFunctionSummary f := generateFunctionSummary (body f)
  contextEvolve _ _ := ()
  getDirectNodeOrNull context f :=
    some { context := context, function := f, isExtFunction := decide (f.id = 0) }
  getResolvedNode context callsite :=
    match callsite with
    | .call call => call.args.filterMap fun arg => match arg with
      | .bitcast (.function f) => some { context := context, function := f }
      | _ => none
    | _ => []

def entry : CallGraphNode Unit := { context := (), function := mainFunction }

def taskVisit : LogEntry Unit → Option (ThreadRef Unit × IR)
  | .visited thread _ ir _ => if ir.type = .openMPTaskFork then some (thread, ir) else none
  | _ => none

lemma built : EndsIn (buildMainThread program 5 entry) (fun final =>
    ∀ visit ∈ final.log.filterMap taskVisit, ∀ entry ∈ program.getThreadEntry ⟨⟨0, 0⟩, (), visit.2⟩,
      isRecursiveThreadSpawn program entry.function 2 visit.1.spawnSites 1 = false) := by decide +kernel

theorem single_tasks_once_iff_nested : EndsIn (buildMainThread program 5 entry)
    (fun final => SingleTasksOnce final ↔ LastMarkersFit final.log) := by
  obtain ⟨final, h, hrec⟩ := built
  refine ⟨final, h, single_tasks_once_iff h ?_⟩
  rintro thread node ir runtime hv htask ⟨pid, context, entry, hentry, hr⟩
  have hvisit : (thread, ir) ∈ final.log.filterMap taskVisit :=
    List.mem_filterMap.mpr ⟨_, hv, if_pos htask⟩
  rw [hrec _ hvisit entry hentry] at hr
  cases hr

/-- The history at a position where a task body of the master twin reaches a task construct. -/
def DroppedAt (log : List (LogEntry Unit)) (i : ℕ) : Bool :=
  match log[i]? with
  | some (.visited thread _ ir _) =>
    decide (ir.type = .openMPTaskFork) && underSingle (log.take i) thread &&
      isOpenMPMasterThread thread.root &&
      ((log.drop (i + 1)).head?.bind LogEntry.event).all (·.type != .fork)
  | _ => false

theorem inner_task_dropped : EndsIn (buildMainThread program 5 entry)
    (fun final => ¬ SingleTasksOnce final) := by
  have hdropped : EndsIn (buildMainThread program 5 entry)
      (fun final => ∃ i ∈ List.range 30, DroppedAt final.log i = true) := by decide +kernel
  obtain ⟨final, h, i, -, hi⟩ := hdropped
  refine ⟨final, h, fun honce => ?_⟩
  rw [DroppedAt] at hi
  split at hi
  · rename_i thread node ir runtime hget
    obtain ⟨hlt, hentry⟩ := List.getElem?_eq_some_iff.mp hget
    have heq : final.log = final.log.take i ++ .visited thread node ir runtime :: final.log.drop (i + 1) := by
      rw [← hentry, ← List.drop_eq_getElem_cons hlt, List.take_append_drop]
    simp only [Bool.and_eq_true, decide_eq_true_eq] at hi
    obtain ⟨event, hhead, htype, -⟩ := (honce _ _ _ _ _ _ heq hi.1.1.1 hi.1.1.2).1 hi.1.2
    have hnone := hi.2
    rw [hhead] at hnone
    simp [LogEntry.event, htype] at hnone
  · cases hi

end NestedTask

end OpenRace
