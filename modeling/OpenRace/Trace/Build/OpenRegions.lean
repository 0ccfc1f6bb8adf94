import OpenRace.Trace.Build.RegionFlags

/-! The master regions that threads stand in, by the markers they have met themselves. -/

namespace OpenRace

open LLVM

variable {Ctx : Type}

/-- The threads that were forked on the way from the main thread, the nearest first. -/
def ancestorsOf : List (ForkEvent Ctx) → List (ThreadRef Ctx)
  | [] => []
  | fork :: rest => ⟨fork.pid.tid, rest⟩ :: ancestorsOf rest

def ThreadRef.ancestors (thread : ThreadRef Ctx) : List (ThreadRef Ctx) := ancestorsOf thread.spawnSites

/-- The thread, with those that wait for it. -/
def ThreadRef.line (thread : ThreadRef Ctx) : List (ThreadRef Ctx) := thread :: thread.ancestors

/-- The start of the master region that the thread stands in, if it is an OpenMP master. -/
def openRegion (log : List (LogEntry Ctx)) (thread : ThreadRef Ctx) : Option Instruction :=
  (RegionFlags.ownAll thread log ⟨false, false, none⟩).currentMasterStart

/-- Some OpenMP master has come to the end of the region that it stood in. -/
def Left (log : List (LogEntry Ctx)) (start : Instruction) : Prop :=
  ∃ before thread node ir runtime, before ++ [.visited thread node ir runtime] <+: log ∧
    isOpenMPMasterThread thread = true ∧ ir.type = .openMPMasterEnd ∧ openRegion before thread = some start

section Markers

def stepRegion (master : Bool) (ir : IR) (current : Option Instruction) : Option Instruction :=
  if master && ir.type == .openMPMasterStart then some ir.inst
  else if master && ir.type == .openMPMasterEnd then none
  else current

lemma mark_region (master : Bool) (ir : IR) (flags : RegionFlags) :
    (flags.mark master ir).currentMasterStart = stepRegion master ir flags.currentMasterStart := by
  cases master <;> cases htype : ir.type <;> simp [RegionFlags.mark, stepRegion, htype]

lemma stepRegion_unmarked {master : Bool} {ir : IR} {current : Option Instruction}
    (h : ir.isMasterMarker = false ∨ ir.type = .openMPMasterEnd ∧ master = false) :
    stepRegion master ir current = current := by
  rw [IR.isMasterMarker] at h
  rcases h with h | ⟨-, rfl⟩
  · obtain ⟨hs, he⟩ := Bool.or_eq_false_iff.mp h
    simp [stepRegion, hs, he]
  · simp [stepRegion]

end Markers

section History

variable {log entries : List (LogEntry Ctx)} {thread : ThreadRef Ctx} {start : Instruction}

lemma openRegion_foreign (h : ∀ entry ∈ entries, entry.isVisitBy thread.id = false) :
    openRegion (log ++ entries) thread = openRegion log thread := by
  rw [openRegion, RegionFlags.ownAll_append, RegionFlags.ownAll_foreign h, openRegion]

lemma openRegion_own {node : CallGraphNode Ctx} {ir : IR} {runtime : OpenMPRuntime Ctx} :
    openRegion (log ++ [.visited thread node ir runtime]) thread =
      stepRegion (isOpenMPMasterThread thread) ir (openRegion log thread) := by
  rw [openRegion, RegionFlags.ownAll_append, openRegion, ← mark_region]
  congr 1
  exact if_pos rfl

def LogEntry.isVisit : LogEntry Ctx → Bool
  | .visited .. => true
  | _ => false

lemma not_visitBy {entry : LogEntry Ctx} (h : entry.isVisit = false) (tid : ℕ) : entry.isVisitBy tid = false := by
  cases entry with
  | visited => cases h
  | created | entered => rfl

lemma openRegion_silent (h : ∀ entry ∈ entries, entry.isVisit = false) :
    openRegion (log ++ entries) thread = openRegion log thread :=
  openRegion_foreign fun entry hentry => not_visitBy (h entry hentry) thread.id

lemma left_concat {entry : LogEntry Ctx} : Left (log ++ [entry]) start ↔ Left log start ∨
    ∃ thread node ir runtime, entry = .visited thread node ir runtime ∧ isOpenMPMasterThread thread = true ∧
      ir.type = .openMPMasterEnd ∧ openRegion log thread = some start := by
  constructor
  · rintro ⟨before, thread, node, ir, runtime, hprefix, hm, htype, hopen⟩
    rcases List.prefix_concat_iff.mp hprefix with heq | hprefix
    · obtain ⟨rfl, hentry⟩ := List.append_inj' heq rfl
      exact Or.inr ⟨thread, node, ir, runtime, (List.singleton_inj.mp hentry).symm, hm, htype, hopen⟩
    · exact Or.inl ⟨before, thread, node, ir, runtime, hprefix, hm, htype, hopen⟩
  · rintro (⟨before, thread, node, ir, runtime, hprefix, hrest⟩ | ⟨thread, node, ir, runtime, rfl, hrest⟩)
    · exact ⟨before, thread, node, ir, runtime, hprefix.trans (List.prefix_append _ _), hrest⟩
    · exact ⟨log, thread, node, ir, runtime, List.prefix_rfl, hrest⟩

lemma left_silent (h : ∀ entry ∈ entries, entry.isVisit = false) : Left (log ++ entries) start ↔ Left log start := by
  induction entries generalizing log with
  | nil => rw [List.append_nil]
  | cons entry rest ih =>
    obtain ⟨hentry, hrest⟩ := List.forall_mem_cons.mp h
    rw [List.append_cons, ih hrest, left_concat]
    constructor
    · rintro (hleft | ⟨_, _, _, _, rfl, -⟩)
      · exact hleft
      · cases hentry
    · exact Or.inl

end History

end OpenRace
