import OpenRace.Trace.Build.Reached
import OpenRace.Trace.Build.Termination

/-! When a thread counts as spawned recursively. -/

namespace OpenRace

open LLVM

variable {Ctx : Type}

/-- The fork is dropped exactly if its entry is on the chain of threads `n` times already. -/
def DroppedFromTimes (program : Program Ctx) (entryFunc : Function) (n : ℕ) (sites : List (ForkEvent Ctx)) : Prop :=
  isRecursiveThreadSpawn program entryFunc n sites 1 = true ↔ n ≤ (chainEntries program sites).count entryFunc

instance (program : Program Ctx) (entryFunc : Function) (n : ℕ) (sites : List (ForkEvent Ctx)) :
    Decidable (DroppedFromTimes program entryFunc n sites) :=
  inferInstanceAs (Decidable (_ ↔ _))

section Count

variable {program : Program Ctx} {entryFunc : Function} {n : ℕ}

lemma count_cons (fork : ForkEvent Ctx) (rest : List (ForkEvent Ctx)) :
    (chainEntries program (fork :: rest)).count entryFunc = (chainEntries program rest).count entryFunc +
      if (program.getThreadEntry fork).map CallGraphNode.function = some entryFunc then 1 else 0 := by
  rw [chainEntries, List.filterMap_cons]
  cases hentry : (program.getThreadEntry fork).map CallGraphNode.function with
  | none => rfl
  | some f =>
    dsimp only
    rw [List.count_cons, chainEntries]
    simp

lemma isRecursiveThreadSpawn_iff (sites : List (ForkEvent Ctx)) : ∀ {count : ℕ},
    isRecursiveThreadSpawn program entryFunc n sites count = true ↔
      0 < (chainEntries program sites).count entryFunc ∧ n ≤ count + (chainEntries program sites).count entryFunc := by
  induction sites with
  | nil => simp [isRecursiveThreadSpawn, chainEntries]
  | cons fork rest ih =>
    intro count
    rw [isRecursiveThreadSpawn, count_cons]
    split
    · split
      · next henough => exact iff_of_true rfl ⟨by omega, by omega⟩
      · rw [ih]
        omega
    · exact ih

end Count

lemma Reached.entries_nodup {program : Program Ctx} {main : CallGraphNode Ctx} {task : Task Ctx}
    {state : ThreadBuildState Ctx} (h : Reached program main task state) :
    (chainEntries program state.thread.spawnSites).Nodup := by
  induction h with
  | main => exact List.nodup_nil
  | function _ _ _ ih => exact ih
  | next _ hv ih =>
    rw [← (visitStart_emits hv).thread] at ih
    exact ih
  | call _ hv ih =>
    rw [← (visitStart_emits hv).thread] at ih
    rw [(Frame.of_logCall _ _ _).thread]
    exact ih
  | @returned _ _ _ state callee state' returned _ hv hr ih =>
    have hthread : returned.thread = state.thread :=
      hr.returned_thread.trans (visitStart_emits hv).thread
    change (chainEntries program returned.thread.spawnSites).Nodup
    rw [hthread]
    exact ih
  | @fork node ir rest state fork entry state' _ hv ih =>
    rw [← (visitStart_emits hv).thread] at ih
    obtain ⟨hentry, hnew⟩ := visitStart_fork hv
    have hentries : chainEntries program (state'.child fork entry).thread.spawnSites =
        entry.function :: chainEntries program state'.thread.spawnSites := by
      simp [ThreadBuildState.child, chainEntries, hentry]
    rw [hentries]
    exact List.nodup_cons.mpr ⟨not_recursive_spawn hnew, ih⟩
  | forked _ hv _ ih =>
    rw [← (visitStart_emits hv).thread] at ih
    exact ih

/-- The count of the child is one short, but for a limit of zero and an entry that is new; the builder lets no entry
occur twice on a chain of threads. -/
theorem recursive_spawns_iff (program : Program Ctx) :
    (∀ entryFunc n sites, DroppedFromTimes program entryFunc n sites ↔
      ((chainEntries program sites).count entryFunc + 1 = n → (chainEntries program sites).count entryFunc = 0) ∧
        (n = 0 → (chainEntries program sites).count entryFunc ≠ 0)) ∧
      ∀ main task state, Reached program main task state →
        (chainEntries program state.thread.spawnSites).Nodup := by
  refine ⟨fun entryFunc n sites => ?_, fun main task state h => h.entries_nodup⟩
  rw [DroppedFromTimes, isRecursiveThreadSpawn_iff]
  omega

namespace RecursiveWorker

def mainFunction : Function := { id := 10, name := "main" }

def worker : Function := { id := 11, name := "worker" }

def create (id : ℕ) : CallBase where
  id := id
  calledOperand := .function { id := 0, name := "pthread_create" }
  args := [.alloca id, .undef, .function worker, .undef]

/-- The worker starts another worker. -/
def body (f : Function) : List BasicBlock :=
  if f = mainFunction then [[.call (create 1)]]
  else [[.store 3 (.globalVariable 20 false) false false, .call (create 2)]]

def program : Program Unit where
  getFunctionSummary f := generateFunctionSummary (body f)
  contextEvolve _ _ := ()
  getDirectNodeOrNull context f :=
    some { context := context, function := f, isExtFunction := decide (f.id = 0) }
  getResolvedNode _ _ := []

def entry : CallGraphNode Unit := { context := (), function := mainFunction }

/-- The second worker is never built, although there is only one on its chain. -/
theorem second_worker_dropped : EndsIn (buildMainThread program 5 entry) (fun final =>
    final.trace.threads.length = 2 ∧ ∃ trace ∈ final.trace.threads,
      ¬ DroppedFromTimes program worker 2 trace.thread.spawnSites) := by decide +kernel

end RecursiveWorker

end OpenRace
