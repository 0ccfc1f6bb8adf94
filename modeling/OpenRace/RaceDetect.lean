import OpenRace.Analysis.GuardedThreads
import OpenRace.Analysis.IndexOverlap
import OpenRace.Analysis.Interleavings
import OpenRace.Analysis.LastprivateBlocks
import OpenRace.Analysis.NonOverlap
import OpenRace.Analysis.Reduces
import OpenRace.Analysis.Sections
import OpenRace.Analysis.SharedMemory
import OpenRace.Analysis.SimpleAlias
import OpenRace.Analysis.ThreadLocal
import OpenRace.Reporter.AbsentLocations
import OpenRace.Reporter.Callstack
import OpenRace.Reporter.RacePairs

/-! The detector from the trace to the report: every pair of accesses, one after the other, through all filters. -/

namespace OpenRace

open LLVM Library Library.Interleaving

variable {Ctx Obj : Type}

inductive DetectError
  | graph (error : GraphError)
  | lock (error : LockError)
  | index (error : IndexError)
  | region (error : RegionError)
  | reduce (error : ReduceError)
  | guard (error : GuardError)
  | absent (read : AbsentRead)
  | noCallstack
  | outOfFuel
  /-- The search for sections goes on past the last event. -/
  | pastEvents
  | noThread

namespace OpenMPAnalysis

variable (Start End : IRType) (program : ProgramTrace Ctx) (event1 event2 : Event Ctx)

def getRegionID (event : Event Ctx) : Except RegionError (Option ℕ) := do
  let regions ← getRegions Start End program event.thread.id
  return regions.findIdx? (·.contains event.id)

def inSame : Except RegionError Bool :=
  if !fromSameParallelRegion event1 event2 then .error .differentRegions
  else do
    let region1 ← getRegionID Start End program event1
    let region2 ← getRegionID Start End program event2
    match region1, region2 with
    | some region1, some region2 => return region1 == region2
    | _, _ => return false

def inSameSingleBlock : Except RegionError Bool := inSame .openMPSingleStart .openMPSingleEnd program event1 event2

end OpenMPAnalysis

structure Detector (Ctx Obj : Type) [LinearOrder Obj] where
  getAccessedMemory : Event Ctx → OrderedMultiset Obj
  getValue : Obj → Option Value
  simpleAlias : SimpleAlias
  getArrayEvent : Event Ctx → ArrayEvent
  fam : ℕ → FunctionAnalyses
  getParent : Instruction → ParentBlock
  code : SwitchModule
  used : UsedModule
  sameModule : used.module = code.module
  getDebugLoc : Instruction → Option DILocation
  fuel : ℕ

structure RacePair (Ctx : Type) where
  write : Event Ctx
  other : Event Ctx
  isWrite : write.type = .write
  isAccess : other.type = .read ∨ other.type = .write

def RacePair.accesses (pair : RacePair Ctx) : WriteEvent Instruction × MemAccessEvent Instruction :=
  (⟨⟨pair.write.type, pair.write.ir.inst, .inr pair.isWrite⟩, pair.isWrite⟩,
    ⟨pair.other.type, pair.other.ir.inst, pair.isAccess⟩)

@[simp] lemma RacePair.write_accesses (pair : RacePair Ctx) : pair.accesses.1.val.inst = pair.write.ir.inst := rfl
@[simp] lemma RacePair.other_accesses (pair : RacePair Ctx) : pair.accesses.2.inst = pair.other.ir.inst := rfl

def asRacePair (write other : Event Ctx) : Option (RacePair Ctx) :=
  if hwrite : write.type = .write then
    if hother : other.type = .read ∨ other.type = .write then some ⟨write, other, hwrite, hother⟩ else none
  else none

structure RaceState (Ctx : Type) [LinearOrder Value] where
  lockSet : LockSet := {}
  reduceBlocks : ReduceCache := []
  racepairs : List (RacePair Ctx) := []

def RaceState.collect [LinearOrder Value] (state : RaceState Ctx) (write other : Event Ctx) : RaceState Ctx :=
  { state with racepairs := state.racepairs ++ (asRacePair write other).toList }

def ProgramTrace.traceEvent [DecidableEq Ctx] (program : ProgramTrace Ctx) (event : Event Ctx) :
    Option (TraceEvent program) :=
  (program.threads.attach.find? (·.val.id = event.thread.id)).bind fun t =>
    (t.val.events.attach.find? (·.val = event)).map fun e => ⟨t.val, e.val, t.property, e.property⟩

namespace Detector

variable [LinearOrder Obj] (detector : Detector Ctx Obj)

def isNonOverlappingLoopAccess (write other : Event Ctx) : Except DetectError Bool :=
  match OpenRace.isNonOverlappingLoopAccess detector.fam detector.fuel (detector.getArrayEvent write)
    (detector.getArrayEvent other) with
  | none => .error .outOfFuel
  | some answer => answer.mapError .index

def isInLastprivate (lastprivate : BlockSet) (event : Event Ctx) : Bool :=
  match detector.used.module.getParent event.ir.inst with
  | none => false
  | some block => block.id ∈ lastprivate

variable [DecidableEq Ctx] {program : ProgramTrace Ctx} (write other : TraceEvent program)

def insideCompatibleSections : Except DetectError Bool :=
  match OpenRace.insideCompatibleSections detector.getParent write.thread write.event other.event with
  | none => .error .pastEvents
  | some answer => .ok answer

/-- The filters for accesses of one parallel region. -/
def filterInRegion (lastprivate : BlockSet) (reduceBlocks : ReduceCache) :
    Except DetectError (Bool × ReduceCache) := do
  if ← detector.isNonOverlappingLoopAccess write.event other.event then return (true, reduceBlocks)
  if ← (OpenMPAnalysis.inSameSingleBlock program write.event other.event).mapError .region then
    return (true, reduceBlocks)
  let (sameReduce, reduceBlocks) ←
    (detector.code.inSameReduce detector.fuel reduceBlocks write.thread write.event other.event).mapError .reduce
  if sameReduce then return (true, reduceBlocks)
  if ← detector.insideCompatibleSections write other then return (true, reduceBlocks)
  if ← (OpenMPAnalysis.guardedBySameTID program write.event other.event).mapError .region then
    return (true, reduceBlocks)
  return (detector.isInLastprivate lastprivate write.event && detector.isInLastprivate lastprivate other.event,
    reduceBlocks)

variable [LinearOrder Value]

def passesFilters (graph : HappensBeforeGraph) (lastprivate : BlockSet) (state : RaceState Ctx) :
    Except DetectError (Bool × RaceState Ctx) := do
  if !graph.areParallel write.event.pid other.event.pid then return (false, state)
  let (locked, lockSet) ← (state.lockSet.sharesLock write other).mapError .lock
  let state := { state with lockSet }
  if locked then return (false, state)
  if ThreadLocalAnalysis.isThreadLocalAccess detector.getValue (detector.getAccessedMemory write.event)
    (detector.getAccessedMemory other.event) then return (false, state)
  if detector.simpleAlias.mustNotAlias write.event other.event then return (false, state)
  if OpenMPAnalysis.fromSameParallelRegion write.event other.event then
    let (filtered, reduceBlocks) ← detector.filterInRegion write other lastprivate state.reduceBlocks
    return (!filtered, { state with reduceBlocks })
  return (true, state)

def checkRace (program : ProgramTrace Ctx) (graph : HappensBeforeGraph) (lastprivate : BlockSet) (state : RaceState Ctx)
    (pair : Event Ctx × Event Ctx) : Except DetectError (RaceState Ctx) :=
  match program.traceEvent pair.1, program.traceEvent pair.2 with
  | some write, some other => do
    let (race, state) ← detector.passesFilters write other graph lastprivate state
    return if race then state.collect write.event other.event else state
  | _, _ => .error .noThread

def checkedPairs (program : ProgramTrace Ctx) : List (Event Ctx × Event Ctx) :=
  OpenRace.detectRaces program fun event => (detector.getAccessedMemory event).elems

/-- The call stacks of a race are made with its accesses, and only printed. -/
def addRace [LinearOrder Instruction] (program : ProgramTrace Ctx) (races : OrderedSet (Race Instruction) Race.Less)
    (pair : RacePair Ctx) : Except DetectError (OrderedSet (Race Instruction) Race.Less) :=
  match computeCallstack program pair.write, computeCallstack program pair.other with
  | some _, some _ => (addReadRace detector.getDebugLoc races pair.accesses).mapError .absent
  | _, _ => .error .noCallstack

def detectRaces [LinearOrder Instruction] (program : ProgramTrace Ctx) :
    Except DetectError (OrderedSet (Race Instruction) Race.Less) := do
  let graph ← (buildHappensBefore program).mapError .graph
  let lastprivate ← (detector.used.lastprivateBlocks detector.fuel).mapError .guard
  let state ← (detector.checkedPairs program).foldlM (detector.checkRace program graph lastprivate) {}
  state.racepairs.foldlM (detector.addRace program) .empty

end Detector

lemma find?_attach {α : Type} {l : List α} {p : α → Bool} {a : α} (ha : a ∈ l) (hp : p a = true)
    (hunique : ∀ b ∈ l, p b = true → b = a) : l.attach.find? (p ·.val) = some ⟨a, ha⟩ := by
  cases hfound : l.attach.find? (p ·.val) with
  | none => exact absurd hp (List.find?_eq_none.mp hfound ⟨a, ha⟩ (List.mem_attach _ _))
  | some found =>
    have hp' : p found.val = true := List.find?_some (p := fun x : { b // b ∈ l } => p x.val) hfound
    exact congrArg some (Subtype.ext (hunique _ found.property hp'))

section Filters

variable [LinearOrder Obj] {detector : Detector Ctx Obj} [DecidableEq Ctx] {program : ProgramTrace Ctx}

namespace Detector

/-- The first reduction before the write that has one of the accesses has both. -/
def SharesReduce (code : SwitchModule) (write other : TraceEvent program) : Prop :=
  ∃ before after, write.thread.events = before ++ write.event :: after ∧
    code.FirstContains write.event other.event before

def DropsInRegion (detector : Detector Ctx Obj) (lastprivate : BlockSet) (write other : TraceEvent program) : Prop :=
  detector.isNonOverlappingLoopAccess write.event other.event = .ok true ∨
    OpenMPAnalysis.inSameSingleBlock program write.event other.event = .ok true ∨
    SharesReduce detector.code write other ∨ detector.insideCompatibleSections write other = .ok true ∨
    OpenMPAnalysis.guardedBySameTID program write.event other.event = .ok true ∨
    detector.isInLastprivate lastprivate write.event = true ∧ detector.isInLastprivate lastprivate other.event = true

/-- The filters for a parallel region fail no assertion on the pair, and their searches are given enough fuel. -/
structure Answers (detector : Detector Ctx Obj) (write other : TraceEvent program) : Prop where
  nonOverlapping : ∃ answer, detector.isNonOverlappingLoopAccess write.event other.event = .ok answer
  single : ∃ answer, OpenMPAnalysis.inSameSingleBlock program write.event other.event = .ok answer
  reduce : ∀ event ∈ write.thread.events, event.ir.type = .openMPReduce →
    detector.code.Enough event.ir.inst detector.fuel
  sections : ∃ answer, detector.insideCompatibleSections write other = .ok answer
  guarded : ∃ answer, OpenMPAnalysis.guardedBySameTID program write.event other.event = .ok answer

variable {write other : TraceEvent program} {reduceBlocks : ReduceCache}

lemma inSameReduce_ok (hw : program.WellFormed) (ha : detector.Answers write other)
    (hv : detector.code.Valid reduceBlocks) : ∃ answer known,
      detector.code.inSameReduce detector.fuel reduceBlocks write.thread write.event other.event =
        .ok (answer, known) ∧
      detector.code.Valid known ∧ (answer = true ↔ SharesReduce detector.code write other) := by
  obtain ⟨before, after, hsplit⟩ := List.append_of_mem write.event_mem
  have henough : ∀ event ∈ before, event.ir.type = .openMPReduce →
      detector.code.Enough event.ir.inst detector.fuel :=
    fun event he => ha.reduce event (hsplit ▸ List.mem_append_left _ he)
  obtain ⟨answer, known, hok, hanswer⟩ : ∃ answer known, detector.code.scanReduces detector.fuel write.event
      other.event (before ++ write.event :: after) reduceBlocks = .ok (answer, known) ∧
        (answer = true ↔ detector.code.FirstContains write.event other.event before) :=
    hv.scanReduces_spec (write.ids_before hw hsplit) henough
  rw [← hsplit] at hok
  refine ⟨answer, known, hok, hv.scanReduces hok, hanswer.trans ⟨fun h => ⟨before, after, hsplit, h⟩, ?_⟩⟩
  rintro ⟨before', after', hsplit', h⟩
  have hnodup := List.Nodup.of_map _ (write.ids_nodup hw)
  rw [hsplit, List.nodup_middle, List.nodup_cons, List.mem_append, not_or] at hnodup
  obtain ⟨rfl, -⟩ := (List.append_cons_inj_of_notMem hnodup.1.1 hnodup.1.2).mp (hsplit.symm.trans hsplit')
  exact h

lemma filterInRegion_ok (hw : program.WellFormed) (ha : detector.Answers write other)
    (hv : detector.code.Valid reduceBlocks) (lastprivate : BlockSet) : ∃ answer known,
      detector.filterInRegion write other lastprivate reduceBlocks = .ok (answer, known) ∧
        detector.code.Valid known ∧ (answer = true ↔ detector.DropsInRegion lastprivate write other) := by
  obtain ⟨nonOverlapping, hnon⟩ := ha.nonOverlapping
  obtain ⟨single, hsingle⟩ := ha.single
  obtain ⟨reduce, known, hreduce, hknown, hshares⟩ := inSameReduce_ok hw ha hv
  obtain ⟨sections, hsections⟩ := ha.sections
  obtain ⟨guarded, hguarded⟩ := ha.guarded
  rw [DropsInRegion, ← hshares, hnon, hsingle, hsections, hguarded, filterInRegion, hnon, hsingle, hreduce, hsections,
    hguarded]
  cases nonOverlapping with
  | true => exact ⟨true, reduceBlocks, rfl, hv, by simp⟩
  | false =>
    cases single with
    | true => exact ⟨true, reduceBlocks, rfl, hv, by simp⟩
    | false =>
      cases reduce with
      | true => exact ⟨true, known, rfl, hknown, by simp⟩
      | false =>
        cases sections with
        | true => exact ⟨true, known, rfl, hknown, by simp⟩
        | false =>
          cases guarded with
          | true => exact ⟨true, known, rfl, hknown, by simp⟩
          | false => exact ⟨_, known, rfl, hknown, by simp⟩

variable [LinearOrder Value] {state : RaceState Ctx}

structure Sound (detector : Detector Ctx Obj) (program : ProgramTrace Ctx) (state : RaceState Ctx) : Prop where
  locks : state.lockSet.Sound program
  reduces : detector.code.Valid state.reduceBlocks

/-- The accesses can meet in an object that is not thread local, and nothing about the parallel region that they may
have in common keeps them apart. -/
structure Exposed (detector : Detector Ctx Obj) (lastprivate : BlockSet) (write other : TraceEvent program) :
    Prop where
  shared : ∃ obj, 0 < (detector.getAccessedMemory write.event).count obj ∧
    0 < (detector.getAccessedMemory other.event).count obj ∧
      ThreadLocalAnalysis.isThreadLocal detector.getValue obj = false
  mayAlias : detector.simpleAlias.mustNotAlias write.event other.event = false
  kept : OpenMPAnalysis.fromSameParallelRegion write.event other.event = true →
    ¬detector.DropsInRegion lastprivate write other

structure IsRace (detector : Detector Ctx Obj) (graph : HappensBeforeGraph) (lastprivate : BlockSet)
    (write other : TraceEvent program) : Prop where
  parallel : graph.areParallel write.event.pid other.event.pid = true
  unlocked : ¬∃ lock, write.Holds lock ∧ other.Holds lock
  exposed : detector.Exposed lastprivate write other

omit [DecidableEq Ctx] [LinearOrder Value] in
lemma isThreadLocalAccess_false : ThreadLocalAnalysis.isThreadLocalAccess detector.getValue
    (detector.getAccessedMemory write.event) (detector.getAccessedMemory other.event) = false ↔
      ∃ obj, 0 < (detector.getAccessedMemory write.event).count obj ∧
        0 < (detector.getAccessedMemory other.event).count obj ∧
          ThreadLocalAnalysis.isThreadLocal detector.getValue obj = false := by
  rw [← Bool.not_eq_true, ThreadLocalAnalysis.isThreadLocalAccess, ThreadLocalAnalysis.sharedThreadLocal_iff
    (OrderedMultiset.sorted _) (OrderedMultiset.sorted _)]
  simp [OrderedMultiset.count_pos]

lemma passesFilters_ok (graph : HappensBeforeGraph) (lastprivate : BlockSet) (hw : program.WellFormed)
    (hnamed : program.LocksNamed) (hs : detector.Sound program state)
    (ha : OpenMPAnalysis.fromSameParallelRegion write.event other.event = true → detector.Answers write other) :
    ∃ race state', detector.passesFilters write other graph lastprivate state = .ok (race, state') ∧
      detector.Sound program state' ∧ state'.racepairs = state.racepairs ∧
        (race = true ↔ detector.IsRace graph lastprivate write other) := by
  obtain ⟨locked, lockSet, hlock, hlocks, hlocked⟩ := LockSet.sharesLock_ok hw hnamed hs.locks write other
  rw [passesFilters, hlock]
  cases hparallel : graph.areParallel write.event.pid other.event.pid with
  | false => exact ⟨false, state, rfl, hs, rfl, by simp, fun h => by simp [h.parallel] at hparallel⟩
  | true =>
    cases locked with
    | true => exact ⟨false, _, rfl, ⟨hlocks, hs.reduces⟩, rfl, by simp, fun h => absurd (hlocked.mp rfl) h.unlocked⟩
    | false =>
      have hunlocked := mt hlocked.mpr Bool.false_ne_true
      have hnow : detector.Sound program { state with lockSet } := ⟨hlocks, hs.reduces⟩
      cases hlocal : ThreadLocalAnalysis.isThreadLocalAccess detector.getValue
          (detector.getAccessedMemory write.event) (detector.getAccessedMemory other.event) with
      | true =>
        refine ⟨false, { state with lockSet }, rfl, hnow, rfl, by simp, fun h => ?_⟩
        simp [isThreadLocalAccess_false.mpr h.exposed.shared] at hlocal
      | false =>
        have hshared := isThreadLocalAccess_false.mp hlocal
        cases halias : detector.simpleAlias.mustNotAlias write.event other.event with
        | true =>
          refine ⟨false, { state with lockSet }, rfl, hnow, rfl, by simp, fun h => ?_⟩
          simp [h.exposed.mayAlias] at halias
        | false =>
          cases hregion : OpenMPAnalysis.fromSameParallelRegion write.event other.event with
          | false =>
            refine ⟨true, { state with lockSet }, rfl, hnow, rfl, fun _ => ?_, fun _ => rfl⟩
            exact ⟨hparallel, hunlocked, hshared, halias, fun h => absurd (hregion.symm.trans h) Bool.false_ne_true⟩
          | true =>
            obtain ⟨filtered, known, hok, hknown, hfiltered⟩ :=
              filterInRegion_ok hw (ha hregion) hs.reduces lastprivate
            dsimp only
            rw [hok]
            refine ⟨!filtered, { state with lockSet, reduceBlocks := known }, rfl, ⟨hlocks, hknown⟩, rfl, ?_⟩
            rw [Bool.not_eq_true', ← Bool.not_eq_true, hfiltered]
            exact ⟨fun h => ⟨hparallel, hunlocked, hshared, halias, fun _ => h⟩, fun h => h.exposed.kept hregion⟩

omit [LinearOrder Value] in
lemma traceEvent_eq (hw : program.WellFormed) (target : TraceEvent program) :
    program.traceEvent target.event = some target := by
  have hlocated := hw.located _ target.thread_mem _ target.event_mem
  have hthread := find?_attach target.thread_mem (p := fun t => decide (t.id = target.event.thread.id))
    (by simp [hlocated, ThreadTrace.id]) fun t ht hid => by
      simp only [hlocated, decide_eq_true_eq] at hid
      exact List.inj_on_of_nodup_map hw.distinct ht target.thread_mem hid
  have hevent := find?_attach target.event_mem (p := fun e => decide (e = target.event)) (by simp)
    fun e _ heq => of_decide_eq_true heq
  rw [ProgramTrace.traceEvent, hthread, Option.bind_some, hevent, Option.map_some]

omit [LinearOrder Value] in
lemma traceEvent_inj (hw : program.WellFormed) {target target' : TraceEvent program}
    (h : target.event = target'.event) : target = target' := by
  have heq := traceEvent_eq hw target
  rw [h, traceEvent_eq hw target'] at heq
  exact (Option.some.inj heq).symm

def Collects (detector : Detector Ctx Obj) (program : ProgramTrace Ctx) (graph : HappensBeforeGraph)
    (lastprivate : BlockSet) (pairs : List (Event Ctx × Event Ctx)) (racepair : RacePair Ctx) : Prop :=
  ∃ write other : TraceEvent program, (write.event, other.event) ∈ pairs ∧
    detector.IsRace graph lastprivate write other ∧ asRacePair write.event other.event = some racepair

lemma checkRace_ok (graph : HappensBeforeGraph) (lastprivate : BlockSet) (hw : program.WellFormed)
    (hnamed : program.LocksNamed) (hs : detector.Sound program state)
    (ha : OpenMPAnalysis.fromSameParallelRegion write.event other.event = true → detector.Answers write other) :
    ∃ state', detector.checkRace program graph lastprivate state (write.event, other.event) = .ok state' ∧
      detector.Sound program state' ∧ ∀ racepair, racepair ∈ state'.racepairs ↔ racepair ∈ state.racepairs ∨
        detector.IsRace graph lastprivate write other ∧ asRacePair write.event other.event = some racepair := by
  obtain ⟨race, state', hok, hs', hpairs, hrace⟩ := passesFilters_ok graph lastprivate hw hnamed hs ha
  rw [checkRace, traceEvent_eq hw, traceEvent_eq hw]
  dsimp only
  rw [hok]
  cases race with
  | true =>
    refine ⟨state'.collect write.event other.event, rfl, ⟨hs'.locks, hs'.reduces⟩, fun racepair => ?_⟩
    simp [RaceState.collect, hpairs, hrace.mp rfl]
  | false =>
    have hno := mt hrace.mpr Bool.false_ne_true
    exact ⟨state', rfl, hs', fun racepair => by simp [hpairs, hno]⟩

lemma foldlM_checkRace_ok (graph : HappensBeforeGraph) (lastprivate : BlockSet) (hw : program.WellFormed)
    (hnamed : program.LocksNamed) {pairs : List (Event Ctx × Event Ctx)}
    (hevents : ∀ pair ∈ pairs, ∃ write other : TraceEvent program, pair = (write.event, other.event))
    (ha : ∀ write other : TraceEvent program, (write.event, other.event) ∈ pairs →
      OpenMPAnalysis.fromSameParallelRegion write.event other.event = true → detector.Answers write other)
    (hs : detector.Sound program state) :
    ∃ state', pairs.foldlM (detector.checkRace program graph lastprivate) state = .ok state' ∧
      ∀ racepair, racepair ∈ state'.racepairs ↔ racepair ∈ state.racepairs ∨
        detector.Collects program graph lastprivate pairs racepair := by
  induction pairs generalizing state with
  | nil => exact ⟨state, rfl, by simp [Collects]⟩
  | cons pair pairs ih =>
    rw [List.forall_mem_cons] at hevents
    obtain ⟨⟨write, other, rfl⟩, hevents⟩ := hevents
    obtain ⟨first, hfirst, hs, hpair⟩ :=
      checkRace_ok graph lastprivate hw hnamed hs (ha write other List.mem_cons_self)
    obtain ⟨last, hlast, hpairs⟩ := ih hevents (fun write other hm => ha write other (List.mem_cons_of_mem _ hm)) hs
    refine ⟨last, ?_, fun racepair => ?_⟩
    · rw [List.foldlM_cons, hfirst]
      exact hlast
    · rw [hpairs, hpair, or_assoc]
      refine or_congr_right ⟨?_, ?_⟩
      · rintro (⟨hrace, heq⟩ | ⟨write', other', hm, hrest⟩)
        · exact ⟨write, other, List.mem_cons_self, hrace, heq⟩
        · exact ⟨write', other', List.mem_cons_of_mem _ hm, hrest⟩
      · rintro ⟨write', other', hm, hrace, heq⟩
        cases List.mem_cons.mp hm with
        | inl hsame =>
          obtain ⟨hwrite, hother⟩ := Prod.mk.inj hsame
          obtain rfl := traceEvent_inj hw hwrite
          obtain rfl := traceEvent_inj hw hother
          exact Or.inl ⟨hrace, heq⟩
        | inr hm => exact Or.inr ⟨write', other', hm, hrace, heq⟩

/-- A write is checked against the reads of all other threads, and against the writes of later threads. -/
def Checked (write other : TraceEvent program) : Prop :=
  write.event.type = .write ∧ (other.event.type = .read ∧ write.thread.id ≠ other.thread.id ∨
    other.event.type = .write ∧ write.thread.id < other.thread.id)

omit [LinearOrder Obj] [DecidableEq Ctx] [LinearOrder Value] in
lemma Checked.thread_ne (h : Checked write other) : write.thread.id ≠ other.thread.id :=
  h.2.elim And.right fun hlt => hlt.2.ne

omit [DecidableEq Ctx] [LinearOrder Value] in
lemma mem_accesses (hw : program.WellFormed) {tid : ℕ} {target : TraceEvent program} {obj : Obj} :
    (tid, target.event, obj) ∈ SharedMemory.accesses program (fun event => (detector.getAccessedMemory event).elems) ↔
      tid = target.thread.id ∧ target.IsAccess ∧ 0 < (detector.getAccessedMemory target.event).count obj := by
  rw [SharedMemory.mem_accesses_iff, OrderedMultiset.count_pos]
  constructor
  · rintro ⟨thread, ht, he, rfl, haccess, hobj⟩
    have hthread := (hw.located _ ht _ he).symm.trans (hw.located _ target.thread_mem _ target.event_mem)
    exact ⟨congrArg ThreadRef.id hthread, haccess, hobj⟩
  · rintro ⟨rfl, haccess, hobj⟩
    exact ⟨target.thread, target.thread_mem, target.event_mem, rfl, haccess, hobj⟩

omit [DecidableEq Ctx] [LinearOrder Value] in
lemma checked_of_mem {shared : SharedMemory Ctx Obj} (hw : program.WellFormed)
    (h : shared.Records (SharedMemory.accesses program fun event => (detector.getAccessedMemory event).elems))
    (hm : (write.event, other.event) ∈ shared.checkedPairs) : Checked write other := by
  obtain ⟨obj, -, hchecked⟩ := List.mem_flatMap.mp hm
  rcases mem_checkObject.mp hchecked with ⟨tid, writes, otid, reads, hwrites, hreads, hne, hmw, hmo⟩ |
    ⟨front, tid, writes, later, otid, others, hentries, hlater, hmw, hmo⟩
  · obtain ⟨hwrite, htype⟩ := h.listed_writes.mp ⟨writes, hwrites, hmw⟩
    obtain ⟨hother, hotype⟩ := h.listed_reads.mp ⟨reads, hreads, hmo⟩
    obtain ⟨rfl, -⟩ := (mem_accesses hw).mp hwrite
    obtain ⟨rfl, -⟩ := (mem_accesses hw).mp hother
    exact ⟨htype, .inl ⟨hotype, hne⟩⟩
  · have hwrites : (tid, writes) ∈ shared.getThreadedWrites obj := by simp [hentries]
    have hothers : (otid, others) ∈ shared.getThreadedWrites obj := by simp [hentries, hlater]
    obtain ⟨hwrite, htype⟩ := h.listed_writes.mp ⟨writes, hwrites, hmw⟩
    obtain ⟨hother, hotype⟩ := h.listed_writes.mp ⟨others, hothers, hmo⟩
    obtain ⟨rfl, -⟩ := (mem_accesses hw).mp hwrite
    obtain ⟨rfl, -⟩ := (mem_accesses hw).mp hother
    have hsorted : (shared.getThreadedWrites obj).Pairwise (·.1 < ·.1) := SharedMemory.getThreaded_sorted _ _ _
    rw [hentries] at hsorted
    exact ⟨htype, .inr ⟨hotype, (List.pairwise_cons.mp (List.pairwise_append.mp hsorted).2.1).1 _ hlater⟩⟩

omit [DecidableEq Ctx] [LinearOrder Value] in
lemma mem_checkedPairs (hw : program.WellFormed) : (write.event, other.event) ∈ detector.checkedPairs program ↔
    Checked write other ∧ ∃ obj, 0 < (detector.getAccessedMemory write.event).count obj ∧
      0 < (detector.getAccessedMemory other.event).count obj := by
  have h := SharedMemory.build_records program fun event => (detector.getAccessedMemory event).elems
  rw [checkedPairs, OpenRace.detectRaces]
  constructor
  · intro hm
    obtain ⟨obj, tid, otid, -, hwrite, hother, -⟩ := h.of_checkedPairs hm
    exact ⟨checked_of_mem hw h hm, obj, ((mem_accesses hw).mp hwrite).2.2, ((mem_accesses hw).mp hother).2.2⟩
  · rintro ⟨⟨htype, horder⟩, obj, hobj, hobj'⟩
    have haccess : other.IsAccess := horder.imp And.left And.left
    have hne : write.thread.id ≠ other.thread.id := horder.elim And.right fun hlt => hlt.2.ne
    have hwrite := (mem_accesses hw).mpr ⟨rfl, .inr htype, hobj⟩
    have hother := (mem_accesses hw).mpr ⟨rfl, haccess, hobj'⟩
    refine (h.checkedPairs hne hwrite hother htype haccess).resolve_right fun hm => ?_
    -- the other way round, the other access would be the write of the earlier thread
    obtain ⟨hotype, hback⟩ := checked_of_mem hw h hm
    rcases horder with ⟨hread, -⟩ | ⟨-, hlt⟩
    · simp [hread] at hotype
    · rcases hback with ⟨hread, -⟩ | ⟨-, hlt'⟩
      · simp [hread] at htype
      · exact lt_asymm hlt hlt'

omit [DecidableEq Ctx] [LinearOrder Value] in
lemma events_of_checkedPairs {pair : Event Ctx × Event Ctx} (h : pair ∈ detector.checkedPairs program) :
    ∃ write other : TraceEvent program, pair = (write.event, other.event) := by
  have hrecords := SharedMemory.build_records program fun event => (detector.getAccessedMemory event).elems
  obtain ⟨write, other⟩ := pair
  obtain ⟨obj, tid, otid, -, hwrite, hother, -⟩ := hrecords.of_checkedPairs h
  obtain ⟨thread, ht, he, -⟩ := SharedMemory.mem_accesses_iff.mp hwrite
  obtain ⟨thread', ht', he', -⟩ := SharedMemory.mem_accesses_iff.mp hother
  exact ⟨⟨thread, write, ht, he⟩, ⟨thread', other, ht', he'⟩, rfl⟩

omit [LinearOrder Obj] [DecidableEq Ctx] [LinearOrder Value] in
lemma asRacePair_eq {write other : Event Ctx} {racepair : RacePair Ctx} (h : asRacePair write other = some racepair) :
    racepair.write = write ∧ racepair.other = other := by
  rw [asRacePair] at h
  split at h
  · split at h
    · cases h
      exact ⟨rfl, rfl⟩
    · cases h
  · cases h

omit [LinearOrder Obj] [DecidableEq Ctx] [LinearOrder Value] in
lemma exists_racePair (h : Checked write other) : ∃ racepair, asRacePair write.event other.event = some racepair := by
  obtain ⟨hwrite, horder⟩ := h
  have hother : other.event.type = .read ∨ other.event.type = .write := horder.imp And.left And.left
  rw [asRacePair, dif_pos hwrite, dif_pos hother]
  exact ⟨_, rfl⟩

/-- What the report reads of the accesses is there: their locations, and the called functions of the calls that they
are in, on threads that leave only calls they have entered. -/
structure Reportable (getDebugLoc : Instruction → Option DILocation) (program : ProgramTrace Ctx) : Prop where
  located : ∀ target : TraceEvent program, target.IsAccess → (getDebugLoc target.event.ir.inst).isSome
  nested : ∀ t ∈ program.threads, Balanced stackAction t.events
  called : ∀ target : TraceEvent program, target.IsAccess →
    ∀ inst ∈ callstackReads program target.event ++ forkReads target.event, HasCalledFunction inst

variable [LinearOrder Instruction]

def Lists (races : OrderedSet (Race Instruction) Race.Less) (first second : Instruction) : Prop :=
  ∃ race ∈ races, race.first.inst = first ∧ race.second.inst = second

omit [LinearOrder Obj] [DecidableEq Ctx] [LinearOrder Value] in
lemma lists_iff {getDebugLoc : Instruction → Option DILocation}
    {racepairs : List (WriteEvent Instruction × MemAccessEvent Instruction)}
    {races : OrderedSet (Race Instruction) Race.Less} (hread : readReport getDebugLoc racepairs = .ok races)
    {first second : Instruction} : Lists races first second ↔ Reports racepairs first second := by
  constructor
  · rintro ⟨race, hrace, rfl, rfl⟩
    exact reports_of_mem hread hrace
  · exact fun h => h.exists_race hread

omit [LinearOrder Value] [DecidableEq Ctx] in
lemma foldlM_addRace {racepairs : List (RacePair Ctx)} (hstacks : ∀ pair ∈ racepairs,
      (∃ callstack, computeCallstack program pair.write = some callstack) ∧
        ∃ callstack, computeCallstack program pair.other = some callstack)
    (races : OrderedSet (Race Instruction) Race.Less) : racepairs.foldlM (detector.addRace program) races =
      ((racepairs.map RacePair.accesses).foldlM (addReadRace detector.getDebugLoc) races).mapError .absent := by
  induction racepairs generalizing races with
  | nil => rfl
  | cons pair pairs ih =>
    rw [List.forall_mem_cons] at hstacks
    obtain ⟨⟨⟨callstack, hwrite⟩, ⟨callstack', hother⟩⟩, hrest⟩ := hstacks
    rw [List.foldlM_cons, List.map_cons, List.foldlM_cons, addRace, hwrite, hother]
    dsimp only
    cases addReadRace detector.getDebugLoc races pair.accesses with
    | error error => rfl
    | ok next => exact ih hrest next

lemma detectRaces_ok {graph : HappensBeforeGraph} {lastprivate : BlockSet} (hw : program.WellFormed)
    (hnamed : program.LocksNamed) (hgraph : buildHappensBefore program = .ok graph)
    (hlast : detector.used.lastprivateBlocks detector.fuel = .ok lastprivate)
    (ha : ∀ write other : TraceEvent program, Checked write other →
      OpenMPAnalysis.fromSameParallelRegion write.event other.event = true → detector.Answers write other)
    (hreport : Reportable detector.getDebugLoc program) :
    ∃ races, detector.detectRaces program = .ok races ∧ ∀ first second, Lists races first second ↔
      ∃ write other : TraceEvent program, Checked write other ∧ detector.IsRace graph lastprivate write other ∧
        write.event.ir.inst = first ∧ other.event.ir.inst = second := by
  have hstart : detector.Sound program {} := by
    refine ⟨?_, ?_⟩
    · intro target locks hfind
      cases hfind
    · intro reduce blocks hlookup
      cases hlookup
  have hevents : ∀ pair ∈ detector.checkedPairs program, ∃ write other : TraceEvent program,
      pair = (write.event, other.event) := fun _ hm => events_of_checkedPairs hm
  obtain ⟨state, hstate, hpairs⟩ := foldlM_checkRace_ok graph lastprivate hw hnamed hevents
    (fun write other hm => ha write other ((mem_checkedPairs hw).mp hm).1) hstart
  have hcollects : ∀ racepair ∈ state.racepairs, ∃ write other : TraceEvent program, Checked write other ∧
      detector.IsRace graph lastprivate write other ∧ racepair.write = write.event ∧
        racepair.other = other.event := by
    intro racepair hm
    obtain ⟨write, other, hm, hrace, heq⟩ := ((hpairs racepair).mp hm).resolve_left List.not_mem_nil
    exact ⟨write, other, ((mem_checkedPairs hw).mp hm).1, hrace, asRacePair_eq heq⟩
  have hstack : ∀ target : TraceEvent program, target.IsAccess →
      ∃ callstack, computeCallstack program target.event = some callstack :=
    fun target htarget => computeCallstack_balanced hreport.nested (hreport.called target htarget)
  have hlocated : ∀ racepair ∈ state.racepairs.map RacePair.accesses, Located detector.getDebugLoc racepair := by
    rw [List.forall_mem_map]
    intro racepair hm
    obtain ⟨write, other, hchecked, -, hfirst, hsecond⟩ := hcollects racepair hm
    rw [Located, RacePair.write_accesses, RacePair.other_accesses, hfirst, hsecond]
    exact ⟨hreport.located write (.inr hchecked.1), hreport.located other (hchecked.2.imp And.left And.left)⟩
  obtain ⟨races, hread⟩ := readReport_of_located hlocated
  refine ⟨races, ?_, fun first second => (lists_iff hread).trans ⟨?_, ?_⟩⟩
  · rw [detectRaces, hgraph, hlast]
    change (do
      let state ← (detector.checkedPairs program).foldlM (detector.checkRace program graph lastprivate) {}
      state.racepairs.foldlM (detector.addRace program) .empty) = _
    rw [hstate]
    change state.racepairs.foldlM (detector.addRace program) .empty = _
    rw [foldlM_addRace, ← readReport, hread]
    · rfl
    · intro racepair hm
      obtain ⟨write, other, hchecked, -, hfirst, hsecond⟩ := hcollects racepair hm
      rw [hfirst, hsecond]
      exact ⟨hstack write (.inr hchecked.1), hstack other (hchecked.2.imp And.left And.left)⟩
  · rintro ⟨accesses, hm, rfl, rfl⟩
    obtain ⟨racepair, hpair, rfl⟩ := List.mem_map.mp hm
    obtain ⟨write, other, hchecked, hrace, hfirst, hsecond⟩ := hcollects racepair hpair
    exact ⟨write, other, hchecked, hrace, by simp [hfirst], by simp [hsecond]⟩
  · rintro ⟨write, other, hchecked, hrace, rfl, rfl⟩
    obtain ⟨racepair, heq⟩ := exists_racePair hchecked
    obtain ⟨hfirst, hsecond⟩ := asRacePair_eq heq
    have hobjs : ∃ obj, 0 < (detector.getAccessedMemory write.event).count obj ∧
        0 < (detector.getAccessedMemory other.event).count obj :=
      hrace.exposed.shared.imp fun _ h => ⟨h.1, h.2.1⟩
    have hm := (hpairs racepair).mpr (.inr ⟨write, other, (mem_checkedPairs hw).mpr ⟨hchecked, hobjs⟩, hrace, heq⟩)
    exact ⟨racepair.accesses, List.mem_map_of_mem hm, by simp [hfirst],
      by simp [hsecond]⟩

end Detector

section Runs

variable [LinearOrder Value] [LinearOrder Instruction] {lastprivate : BlockSet} (h : TeamTrace program)
  (hb : BarriersApart program) (hnamed : program.LocksNamed)
  (hlast : detector.used.lastprivateBlocks detector.fuel = .ok lastprivate)
  (ha : ∀ write other : TraceEvent program, Detector.Checked write other →
    OpenMPAnalysis.fromSameParallelRegion write.event other.event = true → detector.Answers write other)
  (hreport : Detector.Reportable detector.getDebugLoc program)

include h hb hnamed hlast ha hreport

end Runs

end Filters

namespace DetectedWrites

open TwoWriters

def module : CFGModule where
  functions := [⟨⟨101, ".omp_outlined.", false, false⟩, [⟨0, [], [.other 4], .ret 5, []⟩]⟩]
  users := []
  nextId := 200
  distinct := by decide
  closed := by decide
  entered := by decide
  conditional := by decide

def used : UsedModule where
  module := module
  users _ := []
  flagged := by decide
  agree _ := rfl
  conditional _ := by simp [ValueUser.constCmps]

/-- All accesses are of one object, and are no array accesses. -/
def detector : Detector Unit ℕ where
  getAccessedMemory _ := OrderedMultiset.empty.insert 0
  getValue _ := none
  simpleAlias := ⟨fun _ => ⟨101, ".omp_outlined.", false, false⟩, fun _ => {}, fun _ _ _ => .mayAlias⟩
  getArrayEvent _ := ⟨none⟩
  fam := SameIndex.fam
  getParent _ := ⟨0, ""⟩
  code := ⟨module, fun _ => none⟩
  used := used
  sameModule := rfl
  getDebugLoc _ := some ⟨"main.c", "", 4, 1, none⟩
  fuel := 1

lemma lastprivate : detector.used.lastprivateBlocks detector.fuel = .ok .empty := rfl

lemma regions_ok : ∀ t ∈ program.threads, ∀ e ∈ t.events, ∀ s ∈ program.threads, ∀ e' ∈ s.events,
    OpenMPAnalysis.fromSameParallelRegion e e' = true →
      OpenMPAnalysis.inSameSingleBlock program e e' = .ok false ∧
        OpenMPAnalysis.guardedBySameTID program e e' = .ok false ∧
          insideCompatibleSections detector.getParent t e e' = some false := by
  decide +kernel

lemma no_reduce : ∀ t ∈ program.threads, ∀ e ∈ t.events, e.ir.type ≠ .openMPReduce := by decide

lemma answers {write other : TraceEvent program}
    (h : OpenMPAnalysis.fromSameParallelRegion write.event other.event = true) : detector.Answers write other := by
  obtain ⟨hsingle, hguarded, hsections⟩ :=
    regions_ok _ write.thread_mem _ write.event_mem _ other.thread_mem _ other.event_mem h
  refine ⟨⟨false, rfl⟩, ⟨false, hsingle⟩, ?_, ⟨false, ?_⟩, ⟨false, hguarded⟩⟩
  · exact fun event he htype => absurd htype (no_reduce _ write.thread_mem event he)
  · rw [Detector.insideCompatibleSections, hsections]

lemma exposed (write other : TraceEvent program) : detector.Exposed .empty write other := by
  have hobj : 0 < (OrderedMultiset.empty.insert 0).count 0 := by decide
  refine ⟨⟨0, hobj, hobj, rfl⟩, rfl, fun h => ?_⟩
  obtain ⟨hsingle, hguarded, hsections⟩ :=
    regions_ok _ write.thread_mem _ write.event_mem _ other.thread_mem _ other.event_mem h
  rintro (hdrop | hdrop | ⟨before, after, hsplit, front, event, back, rfl, htype, -⟩ | hdrop | hdrop | ⟨hdrop, -⟩)
  · cases hdrop
  · cases hsingle.symm.trans hdrop
  · exact no_reduce _ write.thread_mem event (by simp [hsplit]) htype
  · rw [Detector.insideCompatibleSections, hsections] at hdrop
    cases hdrop
  · cases hguarded.symm.trans hdrop
  · rw [Detector.isInLastprivate] at hdrop
    split at hdrop
    · cases hdrop
    · exact OrderedSet.not_mem_empty _ (by simpa using hdrop)

lemma reportable : Detector.Reportable detector.getDebugLoc program where
  located _ _ := rfl
  nested t ht := .of_keep ((by decide : ∀ t ∈ program.threads, ∀ e ∈ t.events, stackAction e = .keep) t ht)
  called target _ := (by decide : ∀ t ∈ program.threads, ∀ e ∈ t.events,
    ∀ inst ∈ callstackReads program e ++ forkReads e, HasCalledFunction inst) _ target.thread_mem _ target.event_mem

open scoped Classical in
noncomputable abbrev addressOrder : LinearOrder Instruction := linearOrderOfSTO WellOrderingRel

end DetectedWrites

end OpenRace
