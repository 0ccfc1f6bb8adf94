import OpenRace.Trace.Build.StandingRegions
import OpenRace.Trace.Build.SingleTasks

/-! Whether the runtime model finds what it asks for at the markers of master regions. -/

namespace OpenRace

open LLVM

variable {Ctx : Type}

def masterFailures : List BuildError := [.masterStartWithoutEnd, .twoMasterStarts, .masterEndWithoutStart]

structure MarkerFits (partner : Instruction → Instruction) (state : ThreadBuildState Ctx) (ir : IR) : Prop where
  recorded : ir.type = .openMPMasterStart → isOpenMPMasterThread state.thread = false →
    state.programState.runtime.masterRegions.lookup ir.inst = some (partner ir.inst)
  closed : ir.type = .openMPMasterStart → isOpenMPMasterThread state.thread = true →
    state.programState.runtime.currentMasterStart = none
  opened : ir.type = .openMPMasterEnd → isOpenMPMasterThread state.thread = true →
    ∃ start, state.programState.runtime.currentMasterStart = some start ∧ partner start = ir.inst

def MasterSafe (program : Program Ctx) (partner : Instruction → Instruction) (main : CallGraphNode Ctx) : Prop :=
  ∀ node ir rest state, Reached program main (.body node (ir :: rest)) state → passes ir state = false →
    MarkerFits partner state ir ∧ ∀ error ∈ masterFailures, visitStart program node ir state ≠ .error error

/-- An OpenMP master comes to a region while neither it nor a thread that waits for it stands in one, and other
threads come to it when some OpenMP master has gone through it. -/
def SettledAt (state : ThreadBuildState Ctx) (ir : IR) : Prop :=
  ir.type = .openMPMasterStart →
    if isOpenMPMasterThread state.thread then ∀ t ∈ state.thread.line, openRegion state.log t = none
    else Left state.log ir.inst

def MastersSettled (program : Program Ctx) (main : CallGraphNode Ctx) : Prop :=
  ∀ node ir rest state, Reached program main (.body node (ir :: rest)) state → passes ir state = false →
    SettledAt state ir

section Failures

variable {program : Program Ctx} {node : CallGraphNode Ctx} {ir : IR} {state : ThreadBuildState Ctx}
  {error : BuildError}

lemma preVisit_error (h : OpenMPRuntime.preVisit node ir state = .error error) :
    ir.type = .openMPMasterStart ∧ isOpenMPMasterThread state.thread = true ∧
        state.programState.runtime.currentMasterStart ≠ none ∨
      ir.type = .openMPMasterStart ∧ isOpenMPMasterThread state.thread = false ∧
        state.programState.runtime.masterRegions.lookup ir.inst = none ∨
      ir.type = .openMPMasterEnd ∧ isOpenMPMasterThread state.thread = true ∧
        state.programState.runtime.currentMasterStart = none := by
  rw [OpenMPRuntime.preVisit] at h
  split at h
  · cases h
  split at h
  · cases h
  split at h
  any_goals cases h
  · rename_i htype
    split at h
    · rename_i hm
      split at h
      · rename_i hsome
        exact Or.inl ⟨htype, hm, by simp [hsome]⟩
      · cases h
    · rename_i hm
      split at h
      · cases h
      · rename_i hnone
        exact Or.inr (Or.inl ⟨htype, by simpa using hm, hnone⟩)
  · rename_i htype
    split at h
    · rename_i hm
      split at h
      · cases h
      · rename_i hnone
        exact Or.inr (Or.inr ⟨htype, hm, hnone⟩)
    · cases h

lemma dispatch_error (h : dispatch program node ir state = .error error) :
    error = .threadHasNoEntry ∨ error = .notACall := by
  rw [dispatch] at h
  cases hkind : ir.type.kind with
  | fork =>
    simp only [hkind, visitFork] at h
    split at h
    · exact Or.inl (Except.error.inj h).symm
    · split at h <;> cases h
  | call =>
    simp only [hkind, visitCall] at h
    split at h
    · split at h
      · cases h
      · split at h
        · cases h
        · split at h
          · cases h
          · split at h
            · cases h
            · split at h <;> cases h
    · exact Or.inr (Except.error.inj h).symm
  | read | write | join | lock | unlock | barrier =>
    simp only [hkind] at h
    cases h

lemma visitStart_failure (h : visitStart program node ir state = .error error) (he : error ∈ masterFailures) :
    OpenMPRuntime.preVisit node ir (recordVisit node ir state) = .error error := by
  rw [visitStart_eq] at h
  split at h
  · cases h
  · cases hpre : OpenMPRuntime.preVisit node ir (recordVisit node ir state) with
    | error e =>
      rw [hpre] at h
      exact congrArg _ (Except.error.inj h)
    | ok result =>
      obtain ⟨skip, asked⟩ := result
      rw [hpre] at h
      cases skip with
      | true => cases h
      | false =>
        rcases dispatch_error h with rfl | rfl <;> simp [masterFailures] at he

lemma MarkerFits.no_failure {partner : Instruction → Instruction} (h : MarkerFits partner state ir)
    (he : error ∈ masterFailures) : visitStart program node ir state ≠ .error error := by
  intro hv
  obtain ⟨hthread, hruntime, -⟩ := recordVisit_fields node ir state
  have hpre := preVisit_error (visitStart_failure hv he)
  rw [hthread, hruntime] at hpre
  rcases hpre with ⟨htype, hm, hopen⟩ | ⟨htype, hm, hnone⟩ | ⟨htype, hm, hnone⟩
  · exact hopen (h.closed htype hm)
  · rw [h.recorded htype hm] at hnone
    cases hnone
  · obtain ⟨start, hsome, -⟩ := h.opened htype hm
    rw [hsome] at hnone
    cases hnone

end Failures

section Safety

variable {program : Program Ctx} {partner : Instruction → Instruction} {main node : CallGraphNode Ctx} {ir : IR}
  {rest : List IR} {state : ThreadBuildState Ctx}

lemma Standing.fits_iff (h : Standing partner (.body node (ir :: rest)) state) :
    MarkerFits partner state ir ↔ SettledAt state ir := by
  constructor
  · intro hfits htype
    split_ifs with hm
    · exact h.told.above (hfits.closed htype hm)
    · have hsome := hfits.recorded htype (by simpa using hm)
      exact (h.told.recorded _).mp (Option.isSome_iff_exists.mpr ⟨_, hsome⟩)
  · intro hsettled
    refine ⟨fun htype hm => ?_, fun htype hm => ?_, fun htype hm => ?_⟩
    · have hleft := hsettled htype
      rw [if_neg (by simp [hm])] at hleft
      obtain ⟨last, hlast⟩ := Option.isSome_iff_exists.mp ((h.told.recorded _).mpr hleft)
      obtain rfl := h.paired _ _ hlast
      exact hlast
    · have hnone := hsettled htype
      rw [if_pos hm] at hnone
      exact h.told.current.trans (List.findSome?_eq_none_iff.mpr hnone)
    · obtain ⟨outer, hat, -⟩ := h.position
      rw [Task.At, hm] at hat
      exact (hat.at_end htype).2

/-- The runtime model never fails at a master region just when every such region is settled when it is come to. -/
theorem masterSafe_iff (hprog : program.MasterRegionsClosed partner) :
    MasterSafe program partner main ↔ MastersSettled program main := by
  constructor
  · intro hsafe node ir rest state hreached hvisit
    exact (hreached.standing hprog).fits_iff.mp (hsafe node ir rest state hreached hvisit).1
  · intro hsettled node ir rest state hreached hvisit
    have hfits := (hreached.standing hprog).fits_iff.mpr (hsettled node ir rest state hreached hvisit)
    exact ⟨hfits, fun error he => hfits.no_failure he⟩

lemma Standing.fits_of_visit {step : VisitStep Ctx} (h : Standing partner (.body node (ir :: rest)) state)
    (hvisit : passes ir state = false) (hv : visitStart program node ir state = .ok step) :
    MarkerFits partner state ir := by
  have hstep := (visit_marks hv hvisit).1
  rw [h.fits_iff]
  intro htype
  generalize step.state.marks = marks' at hstep
  cases hstep with
  | start _ hm hn =>
    rw [if_pos hm]
    exact h.told.above hn
  | skip _ hm last hl =>
    rw [if_neg (by simp [hm])]
    exact (h.told.recorded _).mp (Option.isSome_iff_exists.mpr ⟨last, hl⟩)
  | finish hend => simp [hend] at htype
  | other hother => rcases hother with hun | ⟨hend, -⟩ <;> simp_all [IR.isMasterMarker]

theorem masterSafe_of_built {fuel : ℕ} {final : ThreadBuildState Ctx} (hprog : program.MasterRegionsClosed partner)
    (h : buildMainThread program fuel main = .ok final) : MasterSafe program partner main := by
  intro node ir rest state hreached hvisit
  obtain ⟨last, hrun, -⟩ := hreached.extends (run_of_buildTrace h)
  obtain ⟨step, hv⟩ := hrun.visited
  have hfits := (hreached.standing hprog).fits_of_visit hvisit hv
  exact ⟨hfits, fun error he => hfits.no_failure he⟩

lemma visits_of_error {error : BuildError} (h : visitStart program node ir state = .error error) :
    passes ir state = false := by
  rw [Bool.eq_false_iff]
  intro hpass
  rw [visitStart_eq, if_pos hpass] at h
  cases h

lemma MasterSafe.not_failing {error : BuildError} (h : MasterSafe program partner main) (he : error ∈ masterFailures)
    (fuel : ℕ) : buildMainThread program fuel main ≠ .error error := by
  intro hbuild
  have hfuel : error ≠ .outOfFuel := by rintro rfl; simp [masterFailures] at he
  have hsummary : ∀ e, error ≠ .summary e := by rintro e rfl; simp [masterFailures] at he
  obtain ⟨node, ir, rest, state, hreached, hv⟩ := failsAt_of_build .main hbuild hfuel hsummary
  exact (h node ir rest state hreached (visits_of_error hv)).2 error he hv

end Safety

instance (built : Except BuildError (ThreadBuildState Ctx)) (error : BuildError) : Decidable (built = .error error) :=
  match built with
  | .ok _ => isFalse fun h => by cases h
  | .error e => decidable_of_iff (e = error) ⟨congrArg _, Except.error.inj⟩

namespace MasterPlaces

open NestedTask (mainFunction outlined runtimeCall forkCall entry)

inductive Place
  | parallel
  | orphaned
  | nested

def orphan : Function := { id := 12, name := "step" }

def innerOutlined : Function := { id := 13, name := ".omp_outlined..1" }

def master (id : ℕ) : Instruction := .call (runtimeCall id "__kmpc_master" [])

def endMaster (id : ℕ) : Instruction := .call (runtimeCall id "__kmpc_end_master" [])

def callOrphan (id : ℕ) : Instruction := .call { id := id, calledOperand := .function orphan, args := [] }

def innerFork (id : ℕ) : Instruction :=
  .call (runtimeCall id "__kmpc_fork_call" [.alloca id, .undef, .bitcast (.function innerOutlined)])

def store : Instruction := .store 9 (.globalVariable 20 false) false false

def sequential : Place → BasicBlock
  | .orphaned => [callOrphan 3]
  | _ => []

def team : Place → BasicBlock
  | .parallel => [master 4, store, endMaster 5]
  | .orphaned => [callOrphan 6]
  | .nested => [master 4, innerFork 7, innerFork 8, endMaster 5]

/-- `parallel { master { } }`, `step(); parallel { step(); }` where `step` is `master { }`, and
`parallel { master { parallel { master { } } } }`. -/
def body (place : Place) (f : Function) : List BasicBlock :=
  if f = mainFunction then [sequential place ++ [.call (forkCall 1), .call (forkCall 2)]]
  else if f = outlined then [team place]
  else if f = orphan ∨ f = innerOutlined then [[master 10, store, endMaster 11]]
  else [[store]]

def program (place : Place) : Program Unit := { NestedTask.program with
  getFunctionSummary := fun f => generateFunctionSummary (body place f) }

def partner (start : Instruction) : Instruction := if start = master 4 then endMaster 5 else endMaster 11

def startMark (id : ℕ) : IR := ⟨.openMPMasterStart, master id, .other⟩

def endMark (id : ℕ) : IR := ⟨.openMPMasterEnd, endMaster id, .other⟩

def storeIR : IR := ⟨.store, store, .other⟩

def region (first last : ℕ) (body : List IR) : List IR := startMark first :: (body ++ [endMark last])

def inner : Place → List IR
  | .nested => [⟨.openMPFork, innerFork 7, .master⟩, ⟨.openMPFork, innerFork 8, .other⟩,
      ⟨.openMPJoin, innerFork 7, .other⟩, ⟨.openMPJoin, innerFork 8, .other⟩]
  | _ => [storeIR]

lemma region_structured {first last : ℕ} {body : List IR} (hp : endMaster last = partner (master first))
    (hb : ∀ ir ∈ body, ir.isMasterMarker = false ∧ ir.inst ≠ endMaster last) :
    Structured partner (region first last body) :=
  .region rfl hb rfl hp .nil

lemma closed (place : Place) : (program place).MasterRegionsClosed partner := by
  intro f summary h
  change generateFunctionSummary (body place f) = .ok summary at h
  by_cases hmain : f = mainFunction
  · subst hmain
    have hun : ∀ summary ∈ (generateFunctionSummary (body place mainFunction)).toOption,
        ∀ ir ∈ summary, ir.isMasterMarker = false := by cases place <;> decide +kernel
    exact Structured.of_unmarked (hun summary (by simp [h, Except.toOption]))
  by_cases houtlined : f = outlined
  · subst houtlined
    cases place with
    | parallel =>
      have hs : generateFunctionSummary (body .parallel outlined) = .ok (region 4 5 (inner .parallel)) := by
        decide +kernel
      rw [← Except.ok.inj (hs.symm.trans h)]
      exact region_structured (by decide) (by decide)
    | nested =>
      have hs : generateFunctionSummary (body .nested outlined) = .ok (region 4 5 (inner .nested)) := by
        decide +kernel
      rw [← Except.ok.inj (hs.symm.trans h)]
      exact region_structured (by decide) (by decide)
    | orphaned =>
      have hun : ∀ summary ∈ (generateFunctionSummary (body .orphaned outlined)).toOption,
          ∀ ir ∈ summary, ir.isMasterMarker = false := by decide +kernel
      exact Structured.of_unmarked (hun summary (by simp [h, Except.toOption]))
  rw [body, if_neg hmain, if_neg houtlined] at h
  by_cases hinner : f = orphan ∨ f = innerOutlined
  · have hs : generateFunctionSummary [[master 10, store, endMaster 11]] = .ok (region 10 11 [storeIR]) := by
      decide +kernel
    rw [if_pos hinner] at h
    rw [← Except.ok.inj (hs.symm.trans h)]
    exact region_structured (by decide) (by decide)
  · have hs : generateFunctionSummary [[store]] = .ok [storeIR] := by decide +kernel
    rw [if_neg hinner] at h
    rw [← Except.ok.inj (hs.symm.trans h)]
    exact Structured.of_unmarked (by decide)

/-- The regions of a team are left by its master before the other thread comes to them. -/
theorem parallel_settled :
    MasterSafe (program .parallel) partner entry ∧ MastersSettled (program .parallel) entry := by
  have hends : EndsIn (buildMainThread (program .parallel) 9 entry) (fun _ => True) := by decide +kernel
  obtain ⟨final, hbuilt, -⟩ := hends
  have hsafe := masterSafe_of_built (closed .parallel) hbuilt
  exact ⟨hsafe, (masterSafe_iff (closed .parallel)).mp hsafe⟩

/-- A region in the sequential part has not been left by any master, and a team below a master region has a
master of its own. -/
theorem markers_fail :
    buildMainThread (program .orphaned) 9 entry = .error .masterStartWithoutEnd ∧
      (¬ ∃ ends, MasterSafe (program .orphaned) ends entry) ∧
      buildMainThread (program .nested) 9 entry = .error .twoMasterStarts ∧
      ¬ ∃ ends, MasterSafe (program .nested) ends entry := by
  have horphaned : buildMainThread (program .orphaned) 9 entry = .error .masterStartWithoutEnd := by
    decide +kernel
  have hnested : buildMainThread (program .nested) 9 entry = .error .twoMasterStarts := by decide +kernel
  refine ⟨horphaned, ?_, hnested, ?_⟩
  · rintro ⟨ends, hsafe⟩
    exact hsafe.not_failing (by decide) 9 horphaned
  · rintro ⟨ends, hsafe⟩
    exact hsafe.not_failing (by decide) 9 hnested

end MasterPlaces

end OpenRace
