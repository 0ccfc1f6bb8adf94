import OpenRace.Analysis.ParallelRegions
import OpenRace.Library.Failure
import OpenRace.Library.Markers
import OpenRace.Reporter.Callstack

/-! Events that are guarded by a test of the thread's number, on their own thread or where their task is forked. -/

namespace OpenRace

open LLVM Library

variable {Ctx : Type}

inductive RegionError where
  | twoStarts
  | endWithoutStart
  /-- `value` of an empty optional. -/
  | noSpawnSite
  | notConstant
  | differentTIDs
  | differentRegions
deriving DecidableEq, Repr

structure Region where
  start : ℕ
  stop : ℕ
  tid : ℕ
deriving DecidableEq

def Region.contains (region : Region) (e : ℕ) : Bool := region.stop ≥ e && e ≥ region.start

def Event.guardedTID (event : Event Ctx) : Option ℕ :=
  match event.ir.args[0]? with
  | some (Value.constantInt value) => some value
  | _ => none

namespace OpenMPAnalysis

variable (Start End : IRType)

def addEvent (tid : ℕ) (state : List Region × Option ℕ) (event : Event Ctx) :
    Except RegionError (List Region × Option ℕ) :=
  if event.ir.type = Start then
    if state.2.isSome then .error .twoStarts else .ok (state.1, some event.id)
  else if event.ir.type = End then
    match state.2 with
    | none => .error .endWithoutStart
    | some start => .ok (state.1 ++ [⟨start, event.id, tid⟩], none)
  else .ok state

variable (program : ProgramTrace Ctx)

def getRegions (tid : ℕ) : Except RegionError (List Region) := do
  return (← (program.eventsOf tid).foldlM (addEvent Start End tid) ([], none)).1

/-- The thread of the event, then those of the forks of tasks above it, as long as there are no regions. -/
def getContainingRegion (pid : EventPID) : List (ForkEvent Ctx) → Except RegionError (Option Region)
  | [] => do
    let regions ← getRegions Start End program pid.tid
    if regions.isEmpty then .error .noSpawnSite else return regions.find? (·.contains pid.eid)
  | parent :: spawnSites => do
    let regions ← getRegions Start End program pid.tid
    if regions.isEmpty then
      if parent.ir.type = .openMPTaskFork then getContainingRegion parent.pid spawnSites else return none
    else return regions.find? (·.contains pid.eid)

def getGuardedTID (region : Region) (id : ℕ) : Except RegionError ℕ :=
  match ((program.eventsOf region.tid)[id]?).bind Event.guardedTID with
  | some value => .ok value
  | none => .error .notConstant

def sameGuardedTID (region : Region) : Except RegionError ℕ := do
  let start ← getGuardedTID program region region.start
  let stop ← getGuardedTID program region region.stop
  if start = stop then return start else .error .differentTIDs

def haveSameTID (event1 event2 : Event Ctx) : Except RegionError Bool :=
  if !fromSameParallelRegion event1 event2 then .error .differentRegions
  else do
    let region1 ← getContainingRegion Start End program event1.pid event1.thread.spawnSites
    let region2 ← getContainingRegion Start End program event2.pid event2.thread.spawnSites
    match region1, region2 with
    | some region1, some region2 =>
      let tid1 ← sameGuardedTID program region1
      let tid2 ← sameGuardedTID program region2
      return tid1 == tid2
    | _, _ => return false

def guardedBySameTID (event1 event2 : Event Ctx) : Except RegionError Bool :=
  haveSameTID .openMPGetThreadNumGuardStart .openMPGetThreadNumGuardEnd program event1 event2

end OpenMPAnalysis

def ProgramTrace.GuardPair (program : ProgramTrace Ctx) (tid : ℕ) (start stop : Event Ctx) : Prop :=
  MarkerPair (·.ir.type = .openMPGetThreadNumGuardStart) (·.ir.type = .openMPGetThreadNumGuardEnd)
    (program.eventsOf tid) start stop

def ProgramTrace.Around (program : ProgramTrace Ctx) (pid : EventPID) (start stop : Event Ctx) : Prop :=
  program.GuardPair pid.tid start stop ∧ start.id ≤ pid.eid ∧ pid.eid ≤ stop.id

/-- The innermost pair around the event, or around a fork of a task that leads to it, has the constant. -/
inductive GuardedBy (program : ProgramTrace Ctx) : EventPID → List (ForkEvent Ctx) → ℕ → Prop
  | own {pid : EventPID} {spawnSites : List (ForkEvent Ctx)} {start stop : Event Ctx} {value : ℕ}
      (haround : program.Around pid start stop) (hvalue : start.guardedTID = some value) :
      GuardedBy program pid spawnSites value
  | task {pid : EventPID} {parent : ForkEvent Ctx} {spawnSites : List (ForkEvent Ctx)} {value : ℕ}
      (hnone : ∀ start stop, ¬ program.Around pid start stop) (htask : parent.ir.type = .openMPTaskFork)
      (hparent : GuardedBy program parent.pid spawnSites value) : GuardedBy program pid (parent :: spawnSites) value

/-- The first of the threads with pairs has none around the event, or around the fork that leads to it. -/
inductive Shadowed (program : ProgramTrace Ctx) : EventPID → List (ForkEvent Ctx) → Prop
  | here {pid : EventPID} {spawnSites : List (ForkEvent Ctx)} {start stop : Event Ctx}
      (hpair : program.GuardPair pid.tid start stop) (hnone : ∀ start stop, ¬ program.Around pid start stop) :
      Shadowed program pid spawnSites
  | above {pid : EventPID} {parent : ForkEvent Ctx} {spawnSites : List (ForkEvent Ctx)}
      (hnone : ∀ start stop, ¬ program.GuardPair pid.tid start stop) (htask : parent.ir.type = .openMPTaskFork)
      (hparent : Shadowed program parent.pid spawnSites) : Shadowed program pid (parent :: spawnSites)

/-- The assertions about the markers of a thread: they alternate, and the two of a pair have the same constant. -/
def ProgramTrace.Marked (program : ProgramTrace Ctx) (tid : ℕ) : Prop :=
  ∃ regions,
    OpenMPAnalysis.getRegions .openMPGetThreadNumGuardStart .openMPGetThreadNumGuardEnd program tid = .ok regions ∧
    ∀ region ∈ regions, ∃ value, OpenMPAnalysis.sameGuardedTID program region = .ok value

section Regions

variable {Start End : IRType} {program : ProgramTrace Ctx} {tid : ℕ} {regions : List Region}

structure Gathered (Start End : IRType) (tid : ℕ) (done : List (Event Ctx)) (state : List Region × Option ℕ) : Prop where
  mem_iff : ∀ region, region ∈ state.1 ↔ ∃ start stop,
    MarkerPair (·.ir.type = Start) (·.ir.type = End) done start stop ∧ region = ⟨start.id, stop.id, tid⟩
  open_iff : ∀ id, state.2 = some id ↔ ∃ start,
    LastOpen (·.ir.type = Start) (·.ir.type = End) done start ∧ start.id = id

lemma gathered_nil : Gathered Start End tid ([] : List (Event Ctx)) ([], none) := by
  constructor
  · intro region
    simp [not_markerPair_nil]
  · intro id
    simp [not_lastOpen_nil]

lemma Gathered.addEvent {done : List (Event Ctx)} {state state' : List Region × Option ℕ} {event : Event Ctx}
    (hne : Start ≠ End) (h : Gathered Start End tid done state)
    (hadd : OpenMPAnalysis.addEvent Start End tid state event = .ok state') :
    Gathered Start End tid (done ++ [event]) state' := by
  rw [OpenMPAnalysis.addEvent] at hadd
  split at hadd
  · rename_i hstart
    split at hadd
    · cases hadd
    · cases hadd
      constructor
      · intro region
        simp [h.mem_iff, markerPair_concat, hstart, hne]
      · intro id
        simp [lastOpen_concat, hstart]
  · rename_i hstart
    split at hadd
    · rename_i hend
      split at hadd
      · cases hadd
      · rename_i start hopen
        cases hadd
        obtain ⟨opened, hopened, rfl⟩ := (h.open_iff start).mp hopen
        constructor
        · intro region
          rw [List.mem_append, h.mem_iff, List.mem_singleton]
          constructor
          · rintro (⟨first, last, hpair, rfl⟩ | rfl)
            · exact ⟨first, last, markerPair_concat.mpr (Or.inl hpair), rfl⟩
            · exact ⟨opened, event, markerPair_concat.mpr (Or.inr ⟨rfl, hend, hopened⟩), rfl⟩
          · rintro ⟨first, last, hpair, rfl⟩
            rcases markerPair_concat.mp hpair with hpair | ⟨rfl, -, hlast⟩
            · exact Or.inl ⟨first, last, hpair, rfl⟩
            · rw [hlast.unique hopened]
              exact Or.inr rfl
        · intro id
          simp [lastOpen_concat, hend, hne.symm]
    · rename_i hend
      cases hadd
      constructor
      · intro region
        simp [h.mem_iff, markerPair_concat, hend]
      · intro id
        simp [h.open_iff, lastOpen_concat, hstart, hend]

lemma mem_getRegions_iff (hne : Start ≠ End) (hok : OpenMPAnalysis.getRegions Start End program tid = .ok regions)
    (region : Region) : region ∈ regions ↔ ∃ start stop,
      MarkerPair (·.ir.type = Start) (·.ir.type = End) (program.eventsOf tid) start stop ∧
        region = ⟨start.id, stop.id, tid⟩ := by
  have hgathered : ∀ (events done : List (Event Ctx)) state state', Gathered Start End tid done state →
      events.foldlM (OpenMPAnalysis.addEvent Start End tid) state = .ok state' →
        Gathered Start End tid (done ++ events) state' := by
    intro events
    induction events with
    | nil =>
      rintro done state _ h ⟨⟩
      rwa [List.append_nil]
    | cons event events ih =>
      intro done state state' h hfold
      rw [List.foldlM_cons] at hfold
      obtain ⟨next, hadd, hrest⟩ := exists_of_bind hfold
      have hall := ih (done ++ [event]) next state' (h.addEvent hne hadd) hrest
      rwa [List.append_assoc] at hall
  obtain ⟨state, hfold, hstate⟩ := exists_of_bind hok
  cases hstate
  exact (hgathered _ [] _ _ gathered_nil hfold).mem_iff region

end Regions

section Guards

variable {program : ProgramTrace Ctx} {tid value : ℕ} {pid : EventPID} {regions : List Region} {region : Region}

def ProgramTrace.Numbered (program : ProgramTrace Ctx) : Prop :=
  ∀ tid, (program.eventsOf tid).map Event.id = List.range (program.eventsOf tid).length

lemma Region.contains_iff {e : ℕ} : region.contains e = true ↔ region.start ≤ e ∧ e ≤ region.stop := by
  rw [Region.contains, Bool.and_eq_true, decide_eq_true_eq, decide_eq_true_eq]
  exact and_comm

lemma ProgramTrace.Numbered.getElem? (hn : program.Numbered) {event : Event Ctx} (h : event ∈ program.eventsOf tid) :
    (program.eventsOf tid)[event.id]? = some event := by
  obtain ⟨before, after, hsplit⟩ := List.append_of_mem h
  rw [id_of_split (hn tid) hsplit, hsplit]
  simp

lemma ProgramTrace.Numbered.pairwise (hn : program.Numbered) (tid : ℕ) :
    (program.eventsOf tid).Pairwise fun a b => a.id < b.id := by
  rw [← List.pairwise_map, hn tid]
  exact List.pairwise_lt_range

open OpenMPAnalysis

lemma guardedTID_of_ok (hn : program.Numbered) {start stop : Event Ctx} (hpair : program.GuardPair tid start stop)
    (hok : sameGuardedTID program ⟨start.id, stop.id, tid⟩ = .ok value) : start.guardedTID = some value := by
  obtain ⟨first, hfirst, hrest⟩ := exists_of_bind hok
  obtain ⟨last, -, hsame⟩ := exists_of_bind hrest
  rw [getGuardedTID, hn.getElem? hpair.mem_start, Option.bind_some] at hfirst
  split at hsame
  · cases hsame
    split at hfirst
    · rename_i heq
      cases hfirst
      exact heq
    · cases hfirst
  · cases hsame

lemma mem_guardRegions_iff
    (hok : getRegions .openMPGetThreadNumGuardStart .openMPGetThreadNumGuardEnd program tid = .ok regions) :
    region ∈ regions ↔ ∃ start stop, program.GuardPair tid start stop ∧ region = ⟨start.id, stop.id, tid⟩ :=
  mem_getRegions_iff (by decide) hok region

lemma around_of_find
    (hok : getRegions .openMPGetThreadNumGuardStart .openMPGetThreadNumGuardEnd program pid.tid = .ok regions)
    (hfind : regions.find? (·.contains pid.eid) = some region) :
    ∃ start stop, program.Around pid start stop ∧ region = ⟨start.id, stop.id, pid.tid⟩ := by
  have hcontains : region.contains pid.eid = true :=
    List.find?_some (p := fun region : Region => region.contains pid.eid) hfind
  obtain ⟨start, stop, hpair, rfl⟩ := (mem_guardRegions_iff hok).mp (List.mem_of_find?_eq_some hfind)
  exact ⟨start, stop, ⟨hpair, Region.contains_iff.mp hcontains⟩, rfl⟩

lemma exists_find_of_around
    (hok : getRegions .openMPGetThreadNumGuardStart .openMPGetThreadNumGuardEnd program pid.tid = .ok regions)
    {start stop : Event Ctx} (haround : program.Around pid start stop) :
    ∃ region, regions.find? (·.contains pid.eid) = some region := by
  have hmem := (mem_guardRegions_iff hok).mpr ⟨start, stop, haround.1, rfl⟩
  have hsome : (regions.find? (·.contains pid.eid)).isSome :=
    List.find?_isSome.mpr ⟨_, hmem, Region.contains_iff.mpr haround.2⟩
  exact Option.isSome_iff_exists.mp hsome

variable {spawnSites : List (ForkEvent Ctx)}

lemma find_region_iff (hn : program.Numbered)
    (hok : getRegions .openMPGetThreadNumGuardStart .openMPGetThreadNumGuardEnd program pid.tid = .ok regions)
    (hmarked : ∀ region ∈ regions, ∃ value, sameGuardedTID program region = .ok value) (hne : regions ≠ []) :
    (∃ region, regions.find? (·.contains pid.eid) = some region ∧ sameGuardedTID program region = .ok value) ↔
      GuardedBy program pid spawnSites value ∧ ¬ Shadowed program pid spawnSites := by
  constructor
  · rintro ⟨region, hfind, hvalue⟩
    obtain ⟨start, stop, haround, rfl⟩ := around_of_find hok hfind
    refine ⟨.own haround (guardedTID_of_ok hn haround.1 hvalue), ?_⟩
    intro hshadowed
    cases hshadowed with
    | here _ hnone => exact hnone start stop haround
    | above hnone => exact hnone start stop haround.1
  · rintro ⟨hguarded, hshadowed⟩
    cases hguarded with
    | @own _ _ start stop _ haround hvalue =>
      obtain ⟨region, hfind⟩ := exists_find_of_around hok haround
      obtain ⟨value', hvalue'⟩ := hmarked region (List.mem_of_find?_eq_some hfind)
      obtain ⟨start', stop', haround', rfl⟩ := around_of_find hok hfind
      have hdisjoint : ∀ event : Event Ctx, event.ir.type = .openMPGetThreadNumGuardEnd →
          ¬ event.ir.type = .openMPGetThreadNumGuardStart := by
        intro event hend hstart
        rw [hend] at hstart
        cases hstart
      obtain ⟨rfl, rfl⟩ := haround.1.unique hdisjoint (hn.pairwise pid.tid) haround'.1 haround.2 haround'.2
      have hsame := hvalue.symm.trans (guardedTID_of_ok hn haround'.1 hvalue')
      obtain rfl := Option.some.inj hsame
      exact ⟨_, hfind, hvalue'⟩
    | task hnone =>
      obtain ⟨region, hregion⟩ := List.exists_mem_of_ne_nil regions hne
      obtain ⟨start, stop, hpair, -⟩ := (mem_guardRegions_iff hok).mp hregion
      exact absurd (.here hpair hnone) hshadowed

/-- The induction is on the forks above the event, one of which is not of a task. -/
lemma getContainingRegion_spec (hn : program.Numbered) (hm : ∀ tid, program.Marked tid)
    (hroot : ∃ fork ∈ spawnSites, fork.ir.type ≠ .openMPTaskFork) (pid : EventPID) :
    ∃ found, getContainingRegion .openMPGetThreadNumGuardStart .openMPGetThreadNumGuardEnd program pid spawnSites =
        .ok found ∧ (∀ region, found = some region → ∃ value, sameGuardedTID program region = .ok value) ∧
      ∀ value, (∃ region, found = some region ∧ sameGuardedTID program region = .ok value) ↔
        GuardedBy program pid spawnSites value ∧ ¬ Shadowed program pid spawnSites := by
  induction spawnSites generalizing pid with
  | nil =>
    obtain ⟨fork, hfork, -⟩ := hroot
    exact absurd hfork List.not_mem_nil
  | cons parent spawnSites ih =>
    obtain ⟨regions, hok, hmarked⟩ := hm pid.tid
    rw [getContainingRegion, hok]
    by_cases hempty : regions = []
    · have hnopair : ∀ start stop, ¬ program.GuardPair pid.tid start stop := by
        intro start stop hpair
        have hmem := (mem_guardRegions_iff hok).mpr ⟨start, stop, hpair, rfl⟩
        rw [hempty] at hmem
        exact absurd hmem List.not_mem_nil
      have hnone : ∀ start stop, ¬ program.Around pid start stop := fun start stop h => hnopair start stop h.1
      subst hempty
      by_cases htask : parent.ir.type = .openMPTaskFork
      · have hroot' : ∃ fork ∈ spawnSites, fork.ir.type ≠ .openMPTaskFork := by
          obtain ⟨fork, hfork, htype⟩ := hroot
          rcases List.mem_cons.mp hfork with rfl | hfork
          · exact absurd htask htype
          · exact ⟨fork, hfork, htype⟩
        obtain ⟨found, hfound, hvalues, hiff⟩ := ih hroot' parent.pid
        refine ⟨found, (if_pos htask).trans hfound, hvalues, fun value => (hiff value).trans ?_⟩
        refine and_congr ⟨fun h => .task hnone htask h, fun h => ?_⟩
          (not_congr ⟨fun h => .above hnopair htask h, fun h => ?_⟩)
        · cases h with
          | own haround => exact absurd haround (hnone _ _)
          | task _ _ hparent => exact hparent
        · cases h with
          | here hpair => exact absurd hpair (hnopair _ _)
          | above _ _ hparent => exact hparent
      · refine ⟨none, if_neg htask, by simp, fun value => ?_⟩
        simp only [reduceCtorEq, false_and, exists_false, false_iff, not_and]
        intro hguarded
        cases hguarded with
        | own haround => exact absurd haround (hnone _ _)
        | task _ htask' => exact absurd htask' htask
    · refine ⟨regions.find? (·.contains pid.eid), ?_, ?_, fun value => find_region_iff hn hok hmarked hempty⟩
      · exact if_neg (by simpa using hempty)
      · intro region hfind
        exact hmarked region (List.mem_of_find?_eq_some hfind)

end Guards

section Built

open OpenMPAnalysis

lemma parallelSite_mem {spawnSites : List (ForkEvent Ctx)} {fork : ForkEvent Ctx}
    (h : parallelSite spawnSites = some fork) : fork ∈ spawnSites ∧ fork.ir.type = .openMPFork := by
  induction spawnSites with
  | nil => cases h
  | cons site parents ih =>
    rw [parallelSite] at h
    split at h
    · exact ⟨List.mem_cons_of_mem _ (ih h).1, (ih h).2⟩
    · rename_i htype
      obtain rfl := Option.some.inj h
      exact ⟨List.mem_cons_self, not_not.mp htype⟩

lemma exists_fork_of_root {event : Event Ctx} {fork : ForkEvent Ctx} (h : getRootSpawnSite event = some fork) :
    ∃ fork ∈ event.thread.spawnSites, fork.ir.type ≠ .openMPTaskFork := by
  rw [getRootSpawnSite] at h
  split at h
  · cases h
  · rename_i site parents hsites
    rw [hsites]
    split at h
    · obtain ⟨hmem, htype⟩ := parallelSite_mem h
      exact ⟨fork, hmem, by simp [htype]⟩
    · rename_i htask
      exact ⟨site, List.mem_cons_self, htask⟩

variable {program : Program Ctx} {fuel : ℕ} {entry : CallGraphNode Ctx} {final : ThreadBuildState Ctx}

lemma eventsOf_cases (program : ProgramTrace Ctx) (tid : ℕ) :
    program.eventsOf tid = [] ∨ ∃ t ∈ program.threads, t.id = tid ∧ program.eventsOf tid = t.events := by
  rw [ProgramTrace.eventsOf]
  cases hfind : program.threads.find? (·.id = tid) with
  | none => exact Or.inl rfl
  | some t => exact Or.inr ⟨t, List.mem_of_find?_eq_some hfind, by simpa using List.find?_some hfind, rfl⟩

lemma built_numbered (h : buildMainThread program fuel entry = .ok final) (storeUsers : Value → List Value) :
    (buildProgramTrace final storeUsers).Numbered := by
  intro tid
  rcases eventsOf_cases (buildProgramTrace final storeUsers) tid with hnil | ⟨t, ht, -, hevents⟩
  · rw [hnil]
    rfl
  · rw [hevents]
    exact events_numbered h t ht

lemma marked_of_threads {program : ProgramTrace Ctx} (h : ∀ t ∈ program.threads, program.Marked t.id) (tid : ℕ) :
    program.Marked tid := by
  rcases eventsOf_cases program tid with hnil | ⟨t, ht, rfl, -⟩
  · refine ⟨[], ?_, by simp⟩
    rw [getRegions, hnil]
    rfl
  · exact h t ht

end Built

section Teams

open OpenMPAnalysis

def GuardedAlike (program : ProgramTrace Ctx) (event1 event2 : Event Ctx) : Prop :=
  ∃ tid, GuardedBy program event1.pid event1.thread.spawnSites tid ∧
    GuardedBy program event2.pid event2.thread.spawnSites tid

def EitherShadowed (program : ProgramTrace Ctx) (event1 event2 : Event Ctx) : Prop :=
  Shadowed program event1.pid event1.thread.spawnSites ∨ Shadowed program event2.pid event2.thread.spawnSites

variable {program : ProgramTrace Ctx} {event1 event2 : Event Ctx}

lemma fromSameParallelRegion_of_sameTeam (hteam : SameTeam event1 event2) :
    fromSameParallelRegion event1 event2 = true ↔
      enclosingFork event1.thread.spawnSites ≠ enclosingFork event2.thread.spawnSites := by
  obtain ⟨fork1, fork2, h1, h2, hforks⟩ := hteam
  have hroot1 := (getRootSpawnSite_of_enclosing h1).1
  have hroot2 := (getRootSpawnSite_of_enclosing h2).1
  have hadjacent : fromSameParallelRegion event1 event2 = true ↔ AdjacentForks fork1 fork2 := by
    simp [fromSameParallelRegion_iff, hroot1, hroot2]
  rw [hadjacent, h1, h2, ne_eq, Option.some.injEq]
  constructor
  · rintro ⟨-, heid | heid⟩ rfl <;> omega
  · intro hne
    rcases hforks with heq | ⟨htid, heid, -⟩ | ⟨htid, heid, -⟩
    · exact absurd heq hne
    · exact ⟨htid, Or.inl heid⟩
    · exact ⟨htid.symm, Or.inr heid⟩

lemma guardedBySameTID_answers (hn : program.Numbered) (hm : ∀ tid, program.Marked tid)
    (hregion : fromSameParallelRegion event1 event2 = true) :
    ∃ answer, guardedBySameTID program event1 event2 = .ok answer ∧
      (answer = true ↔ GuardedAlike program event1 event2 ∧ ¬ EitherShadowed program event1 event2) := by
  obtain ⟨fork1, fork2, hroot1, hroot2, -⟩ := (fromSameParallelRegion_iff event1 event2).mp hregion
  obtain ⟨found1, hfound1, hvalues1, hiff1⟩ := getContainingRegion_spec hn hm (exists_fork_of_root hroot1) event1.pid
  obtain ⟨found2, hfound2, hvalues2, hiff2⟩ := getContainingRegion_spec hn hm (exists_fork_of_root hroot2) event2.pid
  have hanswer : ∃ answer, guardedBySameTID program event1 event2 = .ok answer ∧
      (answer = true ↔ ∃ tid, (∃ region, found1 = some region ∧ sameGuardedTID program region = .ok tid) ∧
        ∃ region, found2 = some region ∧ sameGuardedTID program region = .ok tid) := by
    rw [guardedBySameTID, haveSameTID, hregion, hfound1, hfound2]
    cases found1 with
    | none => exact ⟨false, rfl, by simp⟩
    | some region1 =>
      cases found2 with
      | none => exact ⟨false, rfl, by simp⟩
      | some region2 =>
        obtain ⟨tid1, htid1⟩ := hvalues1 region1 rfl
        obtain ⟨tid2, htid2⟩ := hvalues2 region2 rfl
        refine ⟨tid1 == tid2, ?_, ?_⟩
        · change (do
            let tid1 ← sameGuardedTID program region1
            let tid2 ← sameGuardedTID program region2
            return tid1 == tid2) = _
          rw [htid1, htid2]
          rfl
        · simp only [Option.some.injEq, exists_eq_left', htid1, htid2, Except.ok.injEq, beq_iff_eq]
          exact eq_comm
  obtain ⟨answer, hok, htrue⟩ := hanswer
  refine ⟨answer, hok, htrue.trans ?_⟩
  simp only [hiff1, hiff2]
  constructor
  · rintro ⟨tid, ⟨h1, hclear1⟩, h2, hclear2⟩
    exact ⟨⟨tid, h1, h2⟩, fun hshadowed => hshadowed.elim hclear1 hclear2⟩
  · rintro ⟨⟨tid, h1, h2⟩, hclear⟩
    exact ⟨tid, ⟨h1, fun hs => hclear (Or.inl hs)⟩, h2, fun hs => hclear (Or.inr hs)⟩

end Teams

namespace GuardInTask

open NestedTask (mainFunction outlined outerTask runtimeCall forkCall task entry)

def guardStart (id tid : ℕ) : Instruction := .call (runtimeCall id "omp_get_thread_num_guard_start" [.constantInt tid])

def guardEnd (id tid : ℕ) : Instruction := .call (runtimeCall id "omp_get_thread_num_guard_end" [.constantInt tid])

/-- In a region, `if (omp_get_thread_num() == 0) { task { if (omp_get_thread_num() == 1) {} x = 1; } x = 2; }`. -/
def body (f : Function) : List BasicBlock :=
  if f = mainFunction then [[.call (forkCall 1), .call (forkCall 2)]]
  else if f = outlined then
    [[guardStart 3 0, .call (task 4 outerTask), .store 6 (.globalVariable 20 false) false false, guardEnd 7 0]]
  else [[guardStart 8 1, guardEnd 9 1, .store 10 (.globalVariable 20 false) false false]]

def program : Program Unit := { NestedTask.program with getFunctionSummary := fun f => generateFunctionSummary (body f) }

open OpenMPAnalysis

def markersHold (program : ProgramTrace Unit) (tid : ℕ) : Bool :=
  match getRegions .openMPGetThreadNumGuardStart .openMPGetThreadNumGuardEnd program tid with
  | .ok regions => regions.all fun region => (sameGuardedTID program region).toBool
  | .error _ => false

def ownTID (program : ProgramTrace Unit) (pid : EventPID) : Option ℕ :=
  match getRegions .openMPGetThreadNumGuardStart .openMPGetThreadNumGuardEnd program pid.tid with
  | .ok regions => (regions.find? (·.contains pid.eid)).bind fun region => (sameGuardedTID program region).toOption
  | .error _ => none

lemma marked_of_hold {program : ProgramTrace Unit} {tid : ℕ} (h : markersHold program tid = true) :
    program.Marked tid := by
  rw [markersHold] at h
  split at h
  · rename_i regions hok
    refine ⟨regions, hok, fun region hregion => ?_⟩
    have hbool := List.all_eq_true.mp h region hregion
    cases hvalue : sameGuardedTID program region with
    | ok value => exact ⟨value, rfl⟩
    | error error =>
      rw [hvalue] at hbool
      cases hbool
  · cases h

lemma guardedBy_of_ownTID {program : ProgramTrace Unit} (hn : program.Numbered) {pid : EventPID}
    {spawnSites : List (ForkEvent Unit)} {value : ℕ} (h : ownTID program pid = some value) :
    GuardedBy program pid spawnSites value := by
  rw [ownTID] at h
  split at h
  · rename_i regions hok
    obtain ⟨region, hfind, hvalue⟩ := Option.bind_eq_some_iff.mp h
    obtain ⟨start, stop, haround, rfl⟩ := around_of_find hok hfind
    refine .own haround (guardedTID_of_ok hn haround.1 ?_)
    cases hsame : sameGuardedTID program ⟨start.id, stop.id, pid.tid⟩ with
    | ok value' =>
      rw [hsame] at hvalue
      cases hvalue
      rfl
    | error error =>
      rw [hsame] at hvalue
      cases hvalue
  · cases h

lemma not_around_of_ownTID {program : ProgramTrace Unit} {pid : EventPID} (hm : program.Marked pid.tid)
    (h : ownTID program pid = none) (start stop : Event Unit) : ¬ program.Around pid start stop := by
  intro haround
  obtain ⟨regions, hok, hvalues⟩ := hm
  obtain ⟨region, hfind⟩ := exists_find_of_around hok haround
  obtain ⟨value, hvalue⟩ := hvalues region (List.mem_of_find?_eq_some hfind)
  rw [ownTID, hok] at h
  dsimp only at h
  rw [hfind, Option.bind_some, hvalue] at h
  cases h

def twinned (event1 event2 : Event Unit) : Bool :=
  (enclosingFork event1.thread.spawnSites).any fun fork1 => (enclosingFork event2.thread.spawnSites).any fun fork2 =>
    decide (fork1.pid.tid = fork2.pid.tid ∧ fork2.pid.eid = fork1.pid.eid + 1 ∧ fork1.ir.isForkingMaster = true ∧
      fork2.ir.isForkingMaster = false)

lemma sameTeam_of_twinned {event1 event2 : Event Unit} (h : twinned event1 event2 = true) : SameTeam event1 event2 := by
  rw [twinned, Option.any_eq_true] at h
  obtain ⟨fork1, h1, h⟩ := h
  obtain ⟨fork2, h2, h⟩ := (Option.any_eq_true _ _).mp h
  have htwins := of_decide_eq_true h
  exact ⟨fork1, fork2, h1, h2, Or.inr (Or.inl htwins)⟩

lemma built : EndsIn (buildMainThread program 5 entry) (fun final =>
    (∀ t ∈ final.trace.threads, markersHold (buildProgramTrace final fun _ => []) t.id = true) ∧
      ∃ t1 ∈ final.trace.threads, ∃ event1 ∈ t1.events, ∃ t2 ∈ final.trace.threads, ∃ event2 ∈ t2.events,
        twinned event1 event2 = true ∧
          guardedBySameTID (buildProgramTrace final fun _ => []) event1 event2 = .ok false ∧
          ownTID (buildProgramTrace final fun _ => []) event1.pid = none ∧
          ownTID (buildProgramTrace final fun _ => []) event2.pid = some 0 ∧
          event1.thread.spawnSites.head?.any (fun parent => parent.ir.type = .openMPTaskFork ∧
            ownTID (buildProgramTrace final fun _ => []) parent.pid = some 0) = true) := by decide +kernel

end GuardInTask

end OpenRace
