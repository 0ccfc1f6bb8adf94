import OpenRace.Trace.Build.Reached
import OpenRace.Trace.Build.SingleTasks
import OpenRace.Trace.Build.TwinRuns

/-! The two threads of a parallel region have the same events, but for those of its master. -/

namespace OpenRace

open LLVM

variable {Ctx : Type}

structure Spawned (program : Program Ctx) (node : CallGraphNode Ctx) (state : ThreadBuildState Ctx)
    (ir : IR) where
  fork : ForkEvent Ctx
  entry : CallGraphNode Ctx
  forking : ThreadBuildState Ctx
  built : ThreadBuildState Ctx
  visit : visitStart program node ir state = .ok (.fork fork entry forking)
  run : Run program (.build entry) (forking.child fork entry) built

def Spawned.after {program : Program Ctx} {node : CallGraphNode Ctx} {state : ThreadBuildState Ctx}
    {ir : IR} (spawned : Spawned program node state ir) : ThreadBuildState Ctx :=
  spawned.forking.finishFork ir spawned.built

def spawnedBy (program : Program Ctx) (fuel : ℕ) (node : CallGraphNode Ctx) (state : ThreadBuildState Ctx)
    (ir : IR) : Option (Spawned program node state ir) :=
  match hv : visitStart program node ir state with
  | .ok (.fork fork entry forking) =>
    match hb : buildTrace program fuel entry (forking.child fork entry) with
    | .ok built => some ⟨fork, entry, forking, built, hv, run_of_buildTrace hb⟩
    | .error _ => none
  | _ => none

structure TwinThreads (program : Program Ctx) (main : CallGraphNode Ctx) where
  node : CallGraphNode Ctx
  first : IR
  second : IR
  rest : List IR
  state : ThreadBuildState Ctx
  reached : Reached program main (.body node (first :: second :: rest)) state
  firstType : first.type = .openMPFork
  secondType : second.type = .openMPFork
  firstMaster : first.isForkingMaster = true
  secondOther : second.isForkingMaster = false
  master : Spawned program node state first
  other : Spawned program node master.after second

/-- The thread finds no open task wherever it waits for tasks. -/
def JoinsNoTask (built : ThreadBuildState Ctx) : Prop :=
  ∀ node ir runtime, .visited built.thread node ir runtime ∈ built.log → JoinsTasks ir runtime →
    runtime.openForks = []

lemma withoutTaskJoins_eq_iff {program : Program Ctx} [DecidableEq Ctx] {built : ThreadBuildState Ctx}
    (hl : Logged built) (hc : Chronicle program [] built.log) :
    withoutTaskJoins built.events = built.events ↔ JoinsNoTask built := by
  rw [withoutTaskJoins, List.filter_eq_self]
  constructor
  · intro hnone node ir runtime hv hj
    obtain ⟨before, after, heq⟩ := List.append_of_mem hv
    have hat := hc.visitedAt heq
    rw [List.nil_append] at hat
    generalize hthread : built.thread = thread at hat
    cases hat with
    | @mk node ir state step joins own rest ho _ _ _ =>
      have hforks := ho.joined_forks
      rw [if_pos hj] at hforks
      rw [← hforks, List.filterMap_eq_nil_iff]
      intro event hevent
      have hmem : event ∈ eventsOf built.log := by
        rw [heq, eventsOf_append, ← List.cons_append, eventsOf_append, eventsOf_visit]
        exact List.mem_append_right _ (List.mem_append_left _ (List.mem_append_left _ hevent))
      have hown : event ∈ built.events := by
        rw [← hl.own, List.mem_filter]
        exact ⟨hmem, by simp [(ho.joinEvents event hevent).2.1, hthread]⟩
      simpa using hnone event hown
  · intro hjoins event hevent
    rw [Option.isNone_iff_eq_none, Option.eq_none_iff_forall_not_mem]
    intro fork hfork
    have hmem : event ∈ eventsOf built.log := by
      rw [← hl.own, List.mem_filter] at hevent
      exact hevent.1
    obtain ⟨node, ir, runtime, hv, hj, hopen⟩ := hc.joined_at hmem hfork
    rw [hl.located event hevent] at hv
    rw [hjoins node ir runtime hv hj] at hopen
    exact absurd hopen List.not_mem_nil

namespace Spawned

variable {program : Program Ctx} {node : CallGraphNode Ctx} {state : ThreadBuildState Ctx} {ir : IR}

lemma dispatched (spawned : Spawned program node state ir) :
    spawned.fork.ir = ir ∧ program.getThreadEntry spawned.fork = some spawned.entry ∧
      spawned.forking.programState.inParallel = true := by
  rcases visitStart_cases spawned.visit with ⟨-, hnext⟩ | ⟨-, ⟨_, -, hnext⟩ | ⟨asked, -, hdispatch⟩⟩
  · cases hnext
  · cases hnext
  · have hd := dispatched_of_dispatch hdispatch
    generalize hstep : VisitStep.fork spawned.fork spawned.entry spawned.forking = step at hd
    cases hd with
    | fork _ entry he _ =>
      injection hstep with hfork hentry hforking
      rw [hfork, hentry, hforking]
      exact ⟨rfl, he, rfl⟩
    | _ => cases hstep

lemma thread (spawned : Spawned program node state ir) : spawned.forking.thread = state.thread :=
  (visitStart_emits spawned.visit).thread

lemma after_thread (spawned : Spawned program node state ir) : spawned.after.thread = state.thread :=
  spawned.thread

end Spawned

namespace TwinThreads

variable {program : Program Ctx} {main : CallGraphNode Ctx} (twins : TwinThreads program main)

abbrev built : ThreadBuildState Ctx := twins.master.built

abbrev built' : ThreadBuildState Ctx := twins.other.built

lemma child_reached :
    Reached program main (.build twins.master.entry) (twins.master.forking.child twins.master.fork twins.master.entry) :=
  .fork twins.reached twins.master.visit

lemma child_reached' :
    Reached program main (.build twins.other.entry) (twins.other.forking.child twins.other.fork twins.other.entry) :=
  .fork (.forked twins.reached twins.master.visit twins.master.run) twins.other.visit

section Children

variable {R : Ctx → Ctx → Prop}

def SameEntry (R : Ctx → Ctx → Prop) : Prop :=
  twins.master.entry.function = twins.other.entry.function ∧
    R twins.master.entry.context twins.other.entry.context

lemma master_child : isOpenMPMasterThread
    (twins.master.forking.child twins.master.fork twins.master.entry).thread = true := by
  simp [isOpenMPMasterThread, isOpenMPThread, ThreadBuildState.child, ThreadRef.spawnSite,
    twins.master.dispatched.1, twins.firstType, twins.firstMaster]

lemma other_child : isOpenMPMasterThread
    (twins.other.forking.child twins.other.fork twins.other.entry).thread = false := by
  simp [isOpenMPMasterThread, isOpenMPThread, ThreadBuildState.child, ThreadRef.spawnSite,
    twins.other.dispatched.1, twins.secondType, twins.secondOther]

lemma same_sites (he : twins.master.entry.function = twins.other.entry.function) (f : Function) (n count : ℕ) :
    isRecursiveThreadSpawn program f n
        (twins.master.forking.child twins.master.fork twins.master.entry).thread.spawnSites count =
      isRecursiveThreadSpawn program f n
        (twins.other.forking.child twins.other.fork twins.other.entry).thread.spawnSites count := by
  simp only [ThreadBuildState.child, isRecursiveThreadSpawn, twins.master.dispatched.2.1,
    twins.other.dispatched.2.1, Option.map_some, he]
  rw [twins.master.thread, twins.other.thread, twins.master.after_thread]

lemma noTeams_parts (hn : NoTeams twins.state twins.built') : NoTeams twins.master.forking twins.built ∧
    NoTeams twins.master.after twins.other.forking ∧ NoTeams twins.other.forking twins.built' := by
  have hvisit : Extends twins.state twins.master.forking := .of_emits (visitStart_emits twins.master.visit)
  have hchild : Extends twins.master.forking twins.master.after := twins.master.run.extends
  have hvisit' : Extends twins.master.after twins.other.forking :=
    .of_emits (visitStart_emits twins.other.visit)
  have hchild' : Extends twins.other.forking twins.built' := twins.other.run.extends
  obtain ⟨-, hrest⟩ := hvisit.noTeams (hchild.trans (hvisit'.trans hchild')) hn
  obtain ⟨hbuilt, hrest⟩ := hchild.noTeams (hvisit'.trans hchild') hrest
  exact ⟨hbuilt, hvisit'.noTeams hchild' hrest⟩

lemma in_teams (hn : NoTeams twins.state twins.built') :
    InTeams twins.master.forking.programState.runtime.inTeamsregion
      (twins.master.forking.child twins.master.fork twins.master.entry) ∧
    InTeams twins.master.forking.programState.runtime.inTeamsregion
      (twins.other.forking.child twins.other.fork twins.other.entry) := by
  obtain ⟨hnchild, hnvisit', -⟩ := twins.noTeams_parts hn
  have hfirst : InTeams twins.master.forking.programState.runtime.inTeamsregion
      (twins.master.forking.child twins.master.fork twins.master.entry) :=
    ⟨twins.master.dispatched.2.2, rfl⟩
  have hbuilt := twins.master.run.inTeams hnchild hfirst
  have hafter : InTeams _ twins.master.after :=
    finishFork_inTeams twins.master.forking (by simp [twins.firstType]) hbuilt
  exact ⟨hfirst, visitStart_inTeams twins.other.visit hnvisit' hafter⟩

lemma single_of_child {state : ThreadBuildState Ctx} (hl : Logged state) (fork : ForkEvent Ctx)
    (entry : CallGraphNode Ctx) :
    singleOpenOn (state.child fork entry).thread.id (state.child fork entry).log = false := by
  have hnone : (state.child fork entry).log.filter (·.isVisitBy (state.child fork entry).thread.id) = [] := by
    rw [List.filter_eq_nil_iff]
    intro log hlog
    cases log with
    | visited thread _ _ _ =>
      have hle := hl.threads _ hlog thread rfl
      have hne : thread.id ≠ state.programState.currentTID + 1 := by omega
      simpa [LogEntry.isVisitBy, ThreadBuildState.child] using hne
    | created | entered => simp [LogEntry.isVisitBy]
  rw [singleOpenOn, hnone]
  rfl

variable [DecidableEq Ctx] {partner : Instruction → Instruction}

lemma start (hprog : program.MasterRegionsClosed partner) (he : twins.SameEntry R)
    (hn : NoTeams twins.state twins.built') :
    TwinInvariant program partner twins.master.forking.programState.runtime.inTeamsregion false false
      (twins.master.forking.child twins.master.fork twins.master.entry)
      (twins.other.forking.child twins.other.fork twins.other.entry) := by
  obtain ⟨hteams, hteams'⟩ := twins.in_teams hn
  have hforked : Reached program main _ twins.master.after :=
    .forked twins.reached twins.master.visit twins.master.run
  have hl : Logged twins.other.forking := hforked.tallied.1.emits (visitStart_emits twins.other.visit)
  refine ⟨⟨twins.master_child, twins.other_child, rfl, twins.same_sites he.1, hteams, hteams', rfl,
    single_of_child hl _ _⟩, (twins.child_reached.at hprog).1, (twins.child_reached'.at hprog).1, ?_⟩
  exact twins.child_reached'.tallied.1.numbered

theorem erased (hR : SameCallees program R) (hprog : program.MasterRegionsClosed partner)
    (hmark : program.MarkersExtern) (he : twins.SameEntry R) (hn : NoTeams twins.state twins.built')
    (hs : SinglesTold twins.built'.thread.id twins.built'.log) :
    (withoutTaskJoins twins.built'.events).map Event.key = erase twins.built.events := by
  obtain ⟨hnchild, -, hnchild'⟩ := twins.noTeams_parts hn
  rw [twins.other.run.returns.1] at hs
  obtain ⟨inSingle, hi⟩ := twins.master.run.keepsUp hR hprog hmark twins.other.run
    (.build he.1 he.2 rfl rfl) (twins.start hprog he hn) hnchild hnchild' hs
  rw [erase, hi.same.erased]

/-- The other thread has the events of the master less those of master regions, single regions' tasks
and task joins; it has joins of its own only if it waits for an open task. -/
theorem events_eq_iff (hR : SameCallees program R) (hprog : program.MasterRegionsClosed partner)
    (hmark : program.MarkersExtern) (he : twins.SameEntry R) (hn : NoTeams twins.state twins.built')
    (hs : SinglesTold twins.built'.thread.id twins.built'.log) :
    twins.built'.events.map Event.key = erase twins.built.events ↔ JoinsNoTask twins.built' := by
  obtain ⟨hl, ht, hc⟩ := twins.child_reached'.tallied
  have hbuilt := twins.other.run.logged hl
  have hchronicle := hc.continued (twins.other.run.continues hl ht).1
  rw [← withoutTaskJoins_eq_iff hbuilt hchronicle, ← twins.erased hR hprog hmark he hn hs]
  constructor
  · intro hkeys
    rw [withoutTaskJoins, List.filter_eq_self, ← List.length_filter_eq_length_iff]
    have hlength := congrArg List.length hkeys
    rw [List.length_map, List.length_map] at hlength
    exact hlength.symm
  · intro hall
    rw [hall]

end Children

end TwinThreads

namespace InnerSingle

open NestedTask (mainFunction outlined outerTask runtimeCall forkCall task entry)

def innerOutlined : Function := { id := 14, name := ".omp_outlined..3" }

def innerFork (id : ℕ) : CallBase :=
  runtimeCall id "__kmpc_fork_call" [.alloca id, .undef, .bitcast (.function innerOutlined)]

def single : CallBase := runtimeCall 3 "__kmpc_single" []

def endSingle : CallBase := runtimeCall 6 "__kmpc_end_single" []

/-- `parallel { single { task { } } }`, where the single region can hold a parallel region with a
single region of its own before the task. -/
def body (nested : Bool) (f : Function) : List BasicBlock :=
  if f = mainFunction then [[.call (forkCall 1), .call (forkCall 2)]]
  else if f = outlined then
    [[.call single], if nested then [.call (innerFork 7), .call (innerFork 8)] else [],
      [.call (task 4 outerTask)], [.call endSingle]]
  else if f = innerOutlined then [[.call single], [.call endSingle]]
  else [[.store 9 (.globalVariable 20 false) false false]]

def program (nested : Bool) : Program Unit where
  getFunctionSummary f := generateFunctionSummary (body nested f)
  contextEvolve _ _ := ()
  getDirectNodeOrNull context f :=
    some { context := context, function := f, isExtFunction := decide (f.id = 0) }
  getResolvedNode context callsite :=
    match callsite with
    | .call call => call.args.filterMap fun arg => match arg with
      | .bitcast (.function f) => some { context := context, function := f }
      | _ => none
    | _ => []

def first : IR := ⟨.openMPFork, .call (forkCall 1), .master⟩

def second : IR := ⟨.openMPFork, .call (forkCall 2), .other⟩

def joins : List IR :=
  [⟨.openMPJoin, .call (forkCall 1), .other⟩, ⟨.openMPJoin, .call (forkCall 2), .other⟩]

lemma main_summary (nested : Bool) :
    (program nested).getFunctionSummary mainFunction = .ok (first :: second :: joins) := by
  cases nested <;> decide +kernel

def start : ThreadBuildState Unit := (ThreadBuildState.main entry).enter entry

def region? (nested : Bool) : Option (TwinThreads (program nested) entry) := do
  let master ← spawnedBy (program nested) 5 entry start first
  let other ← spawnedBy (program nested) 5 entry master.after second
  return ⟨entry, first, second, joins, start, .function .main List.not_mem_nil (main_summary nested),
    rfl, rfl, rfl, rfl, master, other⟩

lemma region_some (nested : Bool) : (region? nested).isSome := by
  cases nested <;> decide +kernel

def region (nested : Bool) : TwinThreads (program nested) entry := (region? nested).get (region_some nested)

lemma statements (nested : Bool) {f : Function} {summary : List IR}
    (h : (program nested).getFunctionSummary f = .ok summary) : ∀ ir ∈ summary, ir.isMasterMarker = false ∧
      (ir.isSingleMarker → ((program nested).callee () ir.inst).any (·.isExtFunction)) := by
  have hall : ∀ nested, ∀ g ∈ [mainFunction, outlined, innerOutlined, outerTask],
      ∀ summary ∈ ((program nested).getFunctionSummary g).toOption, ∀ ir ∈ summary,
        ir.isMasterMarker = false ∧
          (ir.isSingleMarker → ((program nested).callee () ir.inst).any (·.isExtFunction)) := by
    decide +kernel
  have hbody : ∃ g ∈ [mainFunction, outlined, innerOutlined, outerTask], body nested f = body nested g := by
    by_cases h1 : f = mainFunction
    · exact ⟨_, by simp, congrArg _ h1⟩
    by_cases h2 : f = outlined
    · exact ⟨_, by simp, congrArg _ h2⟩
    by_cases h3 : f = innerOutlined
    · exact ⟨_, by simp, congrArg _ h3⟩
    refine ⟨outerTask, by simp, ?_⟩
    rw [body, if_neg h1, if_neg h2, if_neg h3]
    rfl
  obtain ⟨g, hg, hb⟩ := hbody
  refine hall nested g hg summary ?_
  change (generateFunctionSummary (body nested f)) = .ok summary at h
  rw [hb] at h
  simp [program, h, Except.toOption]

lemma same_callees (nested : Bool) : SameCallees (program nested) (fun _ _ => True) where
  direct _ _ _ _ _ := .some ⟨rfl, rfl, trivial⟩
  entries fork fork' entry entry' hir he he' := by
    rw [Program.getThreadEntry, hir] at he
    rw [Program.getThreadEntry] at he'
    rw [he] at he'
    obtain rfl := Option.some.inj he'
    rfl

def toldAt (tid : ℕ) (log : List (LogEntry Unit)) (i : ℕ) : Bool :=
  match log[i]? with
  | some (.visited thread _ ir runtime) =>
    thread.id != tid || ir.type != .openMPTaskFork || runtime.inSingleRegion == singleOpenOn tid (log.take i)
  | _ => true

lemma singlesTold_of {tid : ℕ} {log : List (LogEntry Unit)}
    (h : ∀ i ∈ List.range log.length, toldAt tid log i = true) : SinglesTold tid log := by
  intro before thread node ir runtime after heq ht htask
  have hat := h before.length (by simp [heq])
  simpa [toldAt, heq, ht, htask] using hat

lemma noTeams_of {state last : ThreadBuildState Unit} (h : ((newEntries state last).all fun
      | .visited _ _ ir _ => ir.type != .openMPForkTeams
      | _ => true) = true) : NoTeams state last := by
  intro thread node ir runtime hm
  rw [List.all_eq_true] at h
  simpa using h _ hm

theorem events_eq_iff_single : (region false).built'.events.map Event.key = erase (region false).built.events ↔
    JoinsNoTask (region false).built' := by
  have hmasters : (program false).MasterRegionsClosed id := fun f summary h =>
    Structured.of_unmarked fun ir hir => (statements false h ir hir).1
  have hextern : (program false).MarkersExtern := by
    intro f summary h ir hir hmarker context
    obtain ⟨hmaster, hsingle⟩ := statements false h ir hir
    rw [hmaster, Bool.false_or] at hmarker
    exact (Option.any_eq_true _ _).mp (hsingle hmarker)
  apply TwinThreads.events_eq_iff (region false) (same_callees false) hmasters hextern
  · exact ⟨by decide +kernel, trivial⟩
  · exact noTeams_of (by decide +kernel)
  · exact singlesTold_of (by decide +kernel)

/-- The inner single region's end marker clears the flag: both twins fork the task. -/
theorem other_twin_forks_task : (region true).built'.events.map Event.key ≠ erase (region true).built.events := by
  decide +kernel

end InnerSingle

end OpenRace
