import OpenRace.Analysis.GuardedThreads
import OpenRace.Library.BinarySearch
import OpenRace.Library.OrderedMap

/-! Regions of worksharing loops, and the search for the one that an event is in. -/

namespace OpenRace

open LLVM Library

variable {Ctx : Type}

abbrev LoopCache := OrderedMap ℕ (List Region)

namespace OpenMPAnalysis

def regionEndLessThan (region1 region2 : Region) : Bool := region1.stop < region2.stop

variable (program : ProgramTrace Ctx)

def getLoopRegions (tid : ℕ) : Except RegionError (List Region) :=
  getRegions .openMPForInit .openMPForFini program tid

def getOmpForLoops (ompForLoops : LoopCache) (tid : ℕ) : Except RegionError (List Region × LoopCache) :=
  match ompForLoops.find? tid with
  | some regions => .ok (regions, ompForLoops)
  | none => do
    let regions ← getLoopRegions program tid
    return (regions, ompForLoops.insert tid regions)

def inParallelFor (ompForLoops : LoopCache) (event : Event Ctx) : Except RegionError (Bool × LoopCache) := do
  let (loopRegions, ompForLoops) ← getOmpForLoops program ompForLoops event.thread.id
  let found := lowerBoundBy (regionEndLessThan · ⟨event.id, event.id, event.thread.id⟩) loopRegions
  return (found.any (·.contains event.id), ompForLoops)

inductive LoopsAsked : LoopCache → Prop
  | empty : LoopsAsked .empty
  | query {before after : LoopCache} {event : Event Ctx} {answer : Bool} (h : LoopsAsked before)
      (hquery : inParallelFor program before event = .ok (answer, after)) : LoopsAsked after

end OpenMPAnalysis

def ProgramTrace.LoopPair (program : ProgramTrace Ctx) (tid : ℕ) (start stop : Event Ctx) : Prop :=
  MarkerPair (·.ir.type = .openMPForInit) (·.ir.type = .openMPForFini) (program.eventsOf tid) start stop

def ProgramTrace.InLoop (program : ProgramTrace Ctx) (tid : ℕ) (event : Event Ctx) : Prop :=
  ∃ start stop, program.LoopPair tid start stop ∧ start.id ≤ event.id ∧ event.id ≤ stop.id

def ProgramTrace.LoopsAlternate (program : ProgramTrace Ctx) (tid : ℕ) : Prop :=
  Alternate (·.ir.type = .openMPForInit) (·.ir.type = .openMPForFini) (program.eventsOf tid)

section Scan

variable {Start End : IRType} {tid : ℕ} {events : List (Event Ctx)} {state state' : List Region × Option ℕ}

lemma foldlM_addEvent_ok_iff :
    (∃ final, events.foldlM (OpenMPAnalysis.addEvent Start End tid) state = .ok final) ↔
      AlternateFrom (·.ir.type = Start) (·.ir.type = End) state.2.isSome events := by
  induction events generalizing state with
  | nil => exact iff_of_true ⟨state, rfl⟩ alternateFrom_nil
  | cons event events ih =>
    rw [List.foldlM_cons, OpenMPAnalysis.addEvent]
    split
    · rename_i hstart
      refine Iff.trans ?_ (@alternateFrom_opens (Event Ctx) _ _ _ _ _ _ _ hstart).symm
      cases hopen : state.2 with
      | some start => simp [bind, Except.bind]
      | none => exact (@ih (state.1, some event.id)).trans (and_iff_right rfl).symm
    · rename_i hstart
      split
      · rename_i hend
        refine Iff.trans ?_ (@alternateFrom_closes (Event Ctx) _ _ _ _ _ _ _ hstart hend).symm
        cases hopen : state.2 with
        | some start => exact (@ih (state.1 ++ [⟨start, event.id, tid⟩], none)).trans (and_iff_right rfl).symm
        | none => simp [bind, Except.bind]
      · rename_i hend
        exact Iff.trans ih (@alternateFrom_other (Event Ctx) _ _ _ _ _ _ _ hstart hend).symm

structure Ordered (bound : ℕ) (state : List Region × Option ℕ) : Prop where
  regions : state.1.Pairwise fun r r' => r.stop < r'.start
  proper : ∀ region ∈ state.1, region.start < region.stop
  below : ∀ region ∈ state.1, region.stop < bound
  opened : ∀ start, state.2 = some start → start < bound ∧ ∀ region ∈ state.1, region.stop < start

lemma Ordered.addEvent {bound : ℕ} {event : Event Ctx} (h : Ordered bound state) (hbound : bound ≤ event.id)
    (hadd : OpenMPAnalysis.addEvent Start End tid state event = .ok state') : Ordered (event.id + 1) state' := by
  rw [OpenMPAnalysis.addEvent] at hadd
  split at hadd
  · split at hadd
    · cases hadd
    · cases hadd
      refine ⟨h.regions, h.proper, fun region hr => (h.below region hr).trans (by omega), ?_⟩
      rintro start ⟨⟩
      exact ⟨Nat.lt_succ_self _, fun region hr => (h.below region hr).trans_le hbound⟩
  · split at hadd
    · split at hadd
      · cases hadd
      · rename_i start hopen
        cases hadd
        obtain ⟨hstart, hbefore⟩ := h.opened start hopen
        refine ⟨List.pairwise_append.mpr ⟨h.regions, List.pairwise_singleton _ _, ?_⟩, ?_, ?_, ?_⟩
        · intro region hr last hlast
          rw [List.mem_singleton.mp hlast]
          exact hbefore region hr
        · intro region hr
          rcases List.mem_append.mp hr with hr | hr
          · exact h.proper region hr
          · rw [List.mem_singleton.mp hr]
            exact hstart.trans_le hbound
        · intro region hr
          rcases List.mem_append.mp hr with hr | hr
          · exact (h.below region hr).trans (by omega)
          · rw [List.mem_singleton.mp hr]
            exact Nat.lt_succ_self _
        · rintro _ ⟨⟩
    · cases hadd
      refine ⟨h.regions, h.proper, fun region hr => (h.below region hr).trans (by omega), fun start hopen => ?_⟩
      obtain ⟨hstart, hbefore⟩ := h.opened start hopen
      exact ⟨hstart.trans (by omega), hbefore⟩

lemma Ordered.foldlM {bound : ℕ} (h : Ordered bound state) (hevents : events.Pairwise fun a b => a.id < b.id)
    (hbound : ∀ event ∈ events, bound ≤ event.id)
    (hfold : events.foldlM (OpenMPAnalysis.addEvent Start End tid) state = .ok state') :
    ∃ bound, Ordered bound state' := by
  induction events generalizing state bound with
  | nil =>
    cases hfold
    exact ⟨bound, h⟩
  | cons event events ih =>
    rw [List.foldlM_cons] at hfold
    obtain ⟨next, hadd, hrest⟩ := exists_of_bind hfold
    rw [List.pairwise_cons] at hevents
    exact ih (h.addEvent (hbound event List.mem_cons_self) hadd) hevents.2 hevents.1 hrest

end Scan

section Search

variable {regions : List Region} {eid tid : ℕ}

lemma find_region_contains (hregions : regions.Pairwise fun r r' => r.stop < r'.start)
    (hproper : ∀ region ∈ regions, region.start < region.stop) :
    (regions.find? fun region => !OpenMPAnalysis.regionEndLessThan region ⟨eid, eid, tid⟩).any (·.contains eid) =
      regions.any (·.contains eid) := by
  induction regions with
  | nil => rfl
  | cons region regions ih =>
    rw [List.pairwise_cons] at hregions
    rw [List.forall_mem_cons] at hproper
    rw [List.find?_cons, List.any_cons, OpenMPAnalysis.regionEndLessThan]
    by_cases hlt : region.stop < eid
    · have hout : region.contains eid = false := by simp [Region.contains, hlt]
      rw [decide_eq_true hlt, hout, Bool.false_or]
      exact ih hregions.2 hproper.2
    · rw [decide_eq_false hlt]
      cases hin : region.contains eid with
      | true => exact hin
      | false =>
        have hstart : eid < region.start := by
          by_contra hle
          rw [Region.contains_iff.mpr ⟨not_lt.mp hle, not_lt.mp hlt⟩] at hin
          cases hin
        have hnone : regions.any (·.contains eid) = false := by
          refine List.any_eq_false.mpr fun later hlater hcontains => ?_
          have horder := hregions.1 later hlater
          have hle := (Region.contains_iff.mp hcontains).1
          omega
        rw [hnone]
        exact hin

lemma lowerBound_contains (hregions : regions.Pairwise fun r r' => r.stop < r'.start)
    (hproper : ∀ region ∈ regions, region.start < region.stop) :
    (lowerBoundBy (OpenMPAnalysis.regionEndLessThan · ⟨eid, eid, tid⟩) regions).any (·.contains eid) =
      regions.any (·.contains eid) := by
  rw [lowerBoundBy_eq_find?, find_region_contains hregions hproper]
  refine hregions.imp_of_mem fun {r r'} _ hr' hlt hbefore => ?_
  have hproper' := hproper r' hr'
  simp only [OpenMPAnalysis.regionEndLessThan, decide_eq_true_eq] at hbefore ⊢
  omega

end Search

section Queries

open OpenMPAnalysis

variable {program : ProgramTrace Ctx} {ompForLoops after : LoopCache} {tid : ℕ} {regions : List Region}

def ValidLoops (program : ProgramTrace Ctx) (ompForLoops : LoopCache) : Prop :=
  ∀ tid regions, ompForLoops.find? tid = some regions → getLoopRegions program tid = .ok regions

lemma ValidLoops.getOmpForLoops (h : ValidLoops program ompForLoops)
    (hok : OpenMPAnalysis.getOmpForLoops program ompForLoops tid = .ok (regions, after)) :
    ValidLoops program after ∧ getLoopRegions program tid = .ok regions := by
  rw [OpenMPAnalysis.getOmpForLoops] at hok
  split at hok
  · rename_i hfind
    cases hok
    exact ⟨h, h tid regions hfind⟩
  · obtain ⟨computed, hcompute, hsame⟩ := exists_of_bind hok
    cases hsame
    refine ⟨fun other known hknown => ?_, hcompute⟩
    by_cases heq : other = tid
    · rw [heq, OrderedMap.find?_insert] at hknown
      cases hknown
      rwa [heq]
    · rw [OrderedMap.find?_insert_ne _ heq] at hknown
      exact h other known hknown

lemma ValidLoops.exists_loops (h : ValidLoops program ompForLoops) (hok : getLoopRegions program tid = .ok regions) :
    ∃ after, OpenMPAnalysis.getOmpForLoops program ompForLoops tid = .ok (regions, after) := by
  rw [OpenMPAnalysis.getOmpForLoops]
  cases hfind : ompForLoops.find? tid with
  | none => exact ⟨ompForLoops.insert tid regions, by rw [hok]; rfl⟩
  | some cached =>
    have hcached := h tid cached hfind
    rw [hok] at hcached
    cases hcached
    exact ⟨ompForLoops, rfl⟩

lemma validLoops_of_asked (h : LoopsAsked program ompForLoops) : ValidLoops program ompForLoops := by
  induction h with
  | empty =>
    rintro tid regions hfind
    cases hfind
  | query _ hquery ih =>
    obtain ⟨⟨regions, after⟩, hloops, hsame⟩ := exists_of_bind hquery
    cases hsame
    exact (ih.getOmpForLoops hloops).1

lemma mem_loopRegions_iff (hok : getLoopRegions program tid = .ok regions) (region : Region) :
    region ∈ regions ↔ ∃ start stop, program.LoopPair tid start stop ∧ region = ⟨start.id, stop.id, tid⟩ :=
  mem_getRegions_iff (by decide) hok region

lemma contains_iff_inLoop (hok : getLoopRegions program tid = .ok regions) {event : Event Ctx} :
    (∃ region ∈ regions, region.contains event.id = true) ↔ program.InLoop tid event := by
  constructor
  · rintro ⟨region, hregion, hcontains⟩
    obtain ⟨start, stop, hpair, rfl⟩ := (mem_loopRegions_iff hok region).mp hregion
    exact ⟨start, stop, hpair, Region.contains_iff.mp hcontains⟩
  · rintro ⟨start, stop, hpair, hbetween⟩
    exact ⟨_, (mem_loopRegions_iff hok _).mpr ⟨start, stop, hpair, rfl⟩, Region.contains_iff.mpr hbetween⟩

lemma loopRegions_ordered (hn : program.Numbered) (hok : getLoopRegions program tid = .ok regions) :
    ∃ bound, Ordered bound (regions, none) := by
  obtain ⟨state, hfold, hstate⟩ := exists_of_bind hok
  cases hstate
  have hstart : Ordered 0 ([], none) := ⟨.nil, by simp, by simp, by simp⟩
  obtain ⟨bound, h⟩ := hstart.foldlM (hn.pairwise tid) (fun _ _ => Nat.zero_le _) hfold
  exact ⟨bound, h.regions, h.proper, h.below, by simp⟩

end Queries

open OpenMPAnalysis in
/-- The regions of a thread whose starts and ends alternate, and the answer for an access event after any queries. -/
theorem inParallelFor_spec {program : Program Ctx} {fuel : ℕ} {entry : CallGraphNode Ctx}
    {final : ThreadBuildState Ctx} (h : buildMainThread program fuel entry = .ok final)
    (storeUsers : Value → List Value) {tid : ℕ}
    (halternate : (buildProgramTrace final storeUsers).LoopsAlternate tid) :
    ∃ regions, getLoopRegions (buildProgramTrace final storeUsers) tid = .ok regions ∧
      (∀ region, region ∈ regions ↔ ∃ start stop, (buildProgramTrace final storeUsers).LoopPair tid start stop ∧
        region = ⟨start.id, stop.id, tid⟩) ∧
      (∀ region ∈ regions, region.start < region.stop) ∧ regions.Pairwise (fun r r' => r.stop < r'.start) ∧
      (∀ event ∈ (buildProgramTrace final storeUsers).eventsOf tid,
        (∃ region ∈ regions, region.contains event.id = true) ↔
          (buildProgramTrace final storeUsers).InLoop tid event) ∧
      ∀ ompForLoops, LoopsAsked (buildProgramTrace final storeUsers) ompForLoops → ∀ event : Event Ctx,
        event.thread.id = tid → ∃ after, inParallelFor (buildProgramTrace final storeUsers) ompForLoops event =
          .ok (regions.any (·.contains event.id), after) := by
  have hn := built_numbered h storeUsers
  obtain ⟨state, hfold⟩ := (@foldlM_addEvent_ok_iff Ctx _ _ tid _ ([], none)).mpr halternate
  have hok : getLoopRegions (buildProgramTrace final storeUsers) tid = .ok state.1 := by
    rw [getLoopRegions, getRegions, hfold]
    rfl
  obtain ⟨bound, hordered⟩ := loopRegions_ordered hn hok
  refine ⟨state.1, hok, mem_loopRegions_iff hok, hordered.proper, hordered.regions,
    fun event _ => contains_iff_inLoop hok, fun ompForLoops hasked event htid => ?_⟩
  obtain ⟨after, hloops⟩ := (validLoops_of_asked hasked).exists_loops hok
  refine ⟨after, ?_⟩
  rw [inParallelFor, htid, hloops]
  exact congrArg (fun answer => Except.ok (answer, after)) (lowerBound_contains hordered.regions hordered.proper)

namespace TwoLoops

open NestedTask (mainFunction runtimeCall forkCall entry)

/-- In a region, two worksharing loops with a store in each, and a store between them. -/
def body (f : Function) : List BasicBlock :=
  if f = mainFunction then [[.call (forkCall 1), .call (forkCall 2)]]
  else
    [[.call (runtimeCall 3 "__kmpc_for_static_init_4" []), .store 4 (.globalVariable 20 false) false false,
      .call (runtimeCall 5 "__kmpc_for_static_fini" []), .store 6 (.globalVariable 20 false) false false,
      .call (runtimeCall 7 "__kmpc_for_static_init_4" []), .store 8 (.globalVariable 20 false) false false,
      .call (runtimeCall 9 "__kmpc_for_static_fini" [])]]

def program : Program Unit :=
  { NestedTask.program with getFunctionSummary := fun f => generateFunctionSummary (body f) }

open OpenMPAnalysis

lemma built : EndsIn (buildMainThread program 5 entry) (fun final =>
    (getLoopRegions (buildProgramTrace final fun _ => []) 1).toOption =
      some [⟨0, 2, 1⟩, ⟨4, 6, 1⟩]) := by decide +kernel

/-- The store between the loops is in neither of them. -/
theorem inParallelFor_spec_stores : EndsIn (buildMainThread program 5 entry) (fun final =>
    ∀ ompForLoops, LoopsAsked (buildProgramTrace final fun _ => []) ompForLoops → ∀ event : Event Unit,
      event.thread.id = 1 → ∃ after, inParallelFor (buildProgramTrace final fun _ => []) ompForLoops event =
        .ok (event.id ≤ 2 || (4 ≤ event.id && event.id ≤ 6), after)) := by
  obtain ⟨final, h, hregions⟩ := built
  refine ⟨final, h, fun ompForLoops hasked event htid => ?_⟩
  cases hok : getLoopRegions (buildProgramTrace final fun _ => []) 1 with
  | error error =>
    rw [hok] at hregions
    cases hregions
  | ok regions =>
    rw [hok] at hregions
    cases hregions
    obtain ⟨state, hfold, -⟩ := exists_of_bind hok
    obtain ⟨regions, hok', -, -, -, -, hanswer⟩ :=
      inParallelFor_spec h (fun _ => []) (foldlM_addEvent_ok_iff.mp ⟨state, hfold⟩)
    rw [hok] at hok'
    cases hok'
    obtain ⟨after, hafter⟩ := hanswer ompForLoops hasked event htid
    refine ⟨after, hafter.trans ?_⟩
    simp [Region.contains, Bool.and_comm]

end TwoLoops

end OpenRace
