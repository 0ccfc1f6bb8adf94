import OpenRace.Trace.Build.AdjacentForks

/-! Which events belong to the same parallel region. -/

namespace OpenRace

open LLVM

variable {Ctx : Type}

namespace OpenMPAnalysis

/-- The walk for events of tasks: up to the first fork of a parallel region. -/
def parallelSite : List (ForkEvent Ctx) → Option (ForkEvent Ctx)
  | [] => none
  | eSpawn :: parents => if eSpawn.ir.type ≠ .openMPFork then parallelSite parents else some eSpawn

def getRootSpawnSite (event : Event Ctx) : Option (ForkEvent Ctx) :=
  match event.thread.spawnSites with
  | [] => none
  | eSpawn :: parents =>
    if eSpawn.ir.type = .openMPTaskFork then parallelSite (eSpawn :: parents) else some eSpawn

def fromSameParallelRegion (event1 event2 : Event Ctx) : Bool :=
  match getRootSpawnSite event1, getRootSpawnSite event2 with
  | some e1Spawn, some e2Spawn =>
    if e1Spawn.pid.tid ≠ e2Spawn.pid.tid then false
    else
      let eid1 := e1Spawn.pid.eid
      let eid2 := e2Spawn.pid.eid
      let diff := if eid1 > eid2 then eid1 - eid2 else eid2 - eid1
      diff == 1
  | _, _ => false

end OpenMPAnalysis

/-- The innermost fork of a parallel region above a thread, past forks of tasks only. -/
def enclosingFork : List (ForkEvent Ctx) → Option (ForkEvent Ctx)
  | [] => none
  | fork :: parents =>
    if fork.ir.type = .openMPTaskFork then enclosingFork parents
    else if fork.ir.type = .openMPFork then some fork else none

/-- The fork of a master and, next on the same thread, that of the other thread of its team. -/
def TwinForks (fork fork' : ForkEvent Ctx) : Prop :=
  fork.pid.tid = fork'.pid.tid ∧ fork'.pid.eid = fork.pid.eid + 1 ∧
    fork.ir.isForkingMaster = true ∧ fork'.ir.isForkingMaster = false

def SameTeam (event1 event2 : Event Ctx) : Prop :=
  ∃ fork1 fork2, enclosingFork event1.thread.spawnSites = some fork1 ∧
    enclosingFork event2.thread.spawnSites = some fork2 ∧
      (fork1 = fork2 ∨ TwinForks fork1 fork2 ∨ TwinForks fork2 fork1)

def AdjacentForks (fork fork' : ForkEvent Ctx) : Prop :=
  fork.pid.tid = fork'.pid.tid ∧ (fork'.pid.eid = fork.pid.eid + 1 ∨ fork.pid.eid = fork'.pid.eid + 1)

open OpenMPAnalysis

lemma fromSameParallelRegion_iff (event1 event2 : Event Ctx) : fromSameParallelRegion event1 event2 = true ↔
    ∃ fork1 fork2, getRootSpawnSite event1 = some fork1 ∧ getRootSpawnSite event2 = some fork2 ∧
      AdjacentForks fork1 fork2 := by
  rw [fromSameParallelRegion]
  split
  · rename_i fork1 fork2 h1 h2
    have hroots : (∃ fork fork', getRootSpawnSite event1 = some fork ∧ getRootSpawnSite event2 = some fork' ∧
        AdjacentForks fork fork') ↔ AdjacentForks fork1 fork2 := by simp [h1, h2]
    rw [hroots, AdjacentForks]
    split
    · rename_i htid
      simp [htid]
    · rename_i htid
      rw [not_not] at htid
      rw [and_iff_right htid, beq_iff_eq]
      split <;> omega
  · rename_i hnone
    constructor
    · intro h
      cases h
    · rintro ⟨fork1, fork2, h1, h2, -⟩
      exact absurd h2 (hnone fork1 fork2 h1)

lemma getRootSpawnSite_of_enclosing {event : Event Ctx} {fork : ForkEvent Ctx}
    (h : enclosingFork event.thread.spawnSites = some fork) :
    getRootSpawnSite event = some fork ∧ fork.ir.type = .openMPFork ∧ fork ∈ event.thread.spawnSites := by
  have hwalk : ∀ sites : List (ForkEvent Ctx), enclosingFork sites = some fork →
      parallelSite sites = some fork ∧ fork.ir.type = .openMPFork ∧ fork ∈ sites := by
    intro sites
    induction sites with
    | nil => intro h; cases h
    | cons site parents ih =>
      intro h
      rw [enclosingFork] at h
      split at h
      · rename_i htask
        obtain ⟨hp, ht, hm⟩ := ih h
        rw [parallelSite, if_pos (by simp [htask])]
        exact ⟨hp, ht, List.mem_cons_of_mem _ hm⟩
      · split at h
        · rename_i hpar
          obtain rfl := Option.some.inj h
          rw [parallelSite, if_neg (by simp [hpar])]
          exact ⟨rfl, hpar, List.mem_cons_self⟩
        · cases h
  obtain ⟨hp, ht, hm⟩ := hwalk _ h
  refine ⟨?_, ht, hm⟩
  rw [getRootSpawnSite]
  cases hsites : event.thread.spawnSites with
  | nil =>
    rw [hsites] at h
    cases h
  | cons site parents =>
    rw [hsites] at h hp
    dsimp only
    split
    · exact hp
    · rename_i htask
      rw [enclosingFork, if_neg htask] at h
      split at h
      · exact h
      · cases h

/-- The thread was spawned by the fork, which is none of a task; or it is a task's, and the fork is the innermost one of a
parallel region above it, past forks of any other kind. -/
inductive SpawnedBelow (fork : ForkEvent Ctx) : List (ForkEvent Ctx) → Prop
  | own {parents : List (ForkEvent Ctx)} (hown : fork.ir.type ≠ .openMPTaskFork) : SpawnedBelow fork (fork :: parents)
  | task {spawn : ForkEvent Ctx} {between parents : List (ForkEvent Ctx)} (htask : spawn.ir.type = .openMPTaskFork)
      (hpast : ∀ site ∈ between, site.ir.type ≠ .openMPFork) (hfork : fork.ir.type = .openMPFork) :
      SpawnedBelow fork (spawn :: (between ++ fork :: parents))

/-- The two events are not below one and the same fork; and they are only below adjacent forks where parallel regions
enclose both. -/
structure RootsTell (event1 event2 : Event Ctx) : Prop where
  different : ∀ fork, enclosingFork event1.thread.spawnSites = some fork →
    enclosingFork event2.thread.spawnSites ≠ some fork
  enclosed : ∀ fork1 fork2, SpawnedBelow fork1 event1.thread.spawnSites → SpawnedBelow fork2 event2.thread.spawnSites →
    AdjacentForks fork1 fork2 → (enclosingFork event1.thread.spawnSites).isSome ∧
      (enclosingFork event2.thread.spawnSites).isSome

section Root

variable {fork : ForkEvent Ctx} {sites : List (ForkEvent Ctx)}

lemma parallelSite_eq_some : parallelSite sites = some fork ↔ ∃ between parents, sites = between ++ fork :: parents ∧
    (∀ site ∈ between, site.ir.type ≠ .openMPFork) ∧ fork.ir.type = .openMPFork := by
  induction sites with
  | nil => simp [parallelSite]
  | cons site rest ih =>
    rw [parallelSite]
    split
    · rename_i hother
      rw [ih]
      constructor
      · rintro ⟨between, parents, rfl, hpast, hfork⟩
        exact ⟨site :: between, parents, rfl, List.forall_mem_cons.mpr ⟨hother, hpast⟩, hfork⟩
      · rintro ⟨between, parents, heq, hpast, hfork⟩
        cases between with
        | nil =>
          cases heq
          exact absurd hfork hother
        | cons first between =>
          cases heq
          exact ⟨between, parents, rfl, (List.forall_mem_cons.mp hpast).2, hfork⟩
    · rename_i hparallel
      rw [not_not] at hparallel
      constructor
      · rintro ⟨⟩
        exact ⟨[], rest, rfl, by simp, hparallel⟩
      · rintro ⟨between, parents, heq, hpast, -⟩
        cases between with
        | nil =>
          cases heq
          rfl
        | cons first between =>
          cases heq
          exact absurd hparallel (hpast _ List.mem_cons_self)

lemma getRootSpawnSite_iff {event : Event Ctx} :
    getRootSpawnSite event = some fork ↔ SpawnedBelow fork event.thread.spawnSites := by
  rw [getRootSpawnSite]
  cases event.thread.spawnSites with
  | nil =>
    refine iff_of_false (fun h => by cases h) ?_
    intro h
    cases h
  | cons spawn parents =>
    dsimp only
    by_cases htask : spawn.ir.type = .openMPTaskFork
    · rw [if_pos htask, parallelSite, if_pos (by simp [htask]), parallelSite_eq_some]
      constructor
      · rintro ⟨between, parents, rfl, hpast, hfork⟩
        exact .task htask hpast hfork
      · intro h
        cases h with
        | own hown => exact absurd htask hown
        | @task _ between parents _ hpast hfork => exact ⟨between, parents, rfl, hpast, hfork⟩
    · rw [if_neg htask]
      constructor
      · rintro ⟨⟩
        exact .own htask
      · intro h
        cases h with
        | own => rfl
        | task htask' => exact absurd htask' htask

end Root

section Main

variable {program : Program Ctx} {fuel : ℕ} {entry : CallGraphNode Ctx} {final : ThreadBuildState Ctx}
  {t1 t2 : ThreadTrace Ctx} {event1 event2 : Event Ctx}

lemma located (h : buildMainThread program fuel entry = .ok final) {t : ThreadTrace Ctx}
    (ht : t ∈ final.trace.threads) {event : Event Ctx} (he : event ∈ t.events) : event.thread = t.thread := by
  obtain ⟨hl, -, hadds⟩ := buildMainThread_adds h
  cases ht with
  | head => exact hl.located event he
  | tail _ hm => exact hadds.located t hm event he

lemma twins_of_adjacent (h : buildMainThread program fuel entry = .ok final)
    (hsum : ∀ f, ∃ blocks, program.getFunctionSummary f = generateFunctionSummary blocks)
    (ht1 : t1 ∈ final.trace.threads) (ht2 : t2 ∈ final.trace.threads) (he1 : event1 ∈ t1.events)
    (he2 : event2 ∈ t2.events) {fork1 fork2 : ForkEvent Ctx}
    (h1 : enclosingFork event1.thread.spawnSites = some fork1)
    (h2 : enclosingFork event2.thread.spawnSites = some fork2) :
    AdjacentForks fork1 fork2 ↔ TwinForks fork1 fork2 ∨ TwinForks fork2 fork1 := by
  have hpaired : ∀ f summary, program.getFunctionSummary f = .ok summary → ForkPaired summary := by
    intro f summary hs
    obtain ⟨blocks, hblocks⟩ := hsum f
    exact generateFunctionSummary_forkPaired (hblocks.symm.trans hs)
  obtain ⟨-, htype1, hm1⟩ := getRootSpawnSite_of_enclosing h1
  obtain ⟨-, htype2, hm2⟩ := getRootSpawnSite_of_enclosing h2
  rw [located h ht1 he1] at hm1
  rw [located h ht2 he2] at hm2
  constructor
  · rintro ⟨htid, heid | heid⟩
    · exact Or.inl ⟨htid, heid, adjacent_sites hpaired h ht1 ht2 hm1 hm2 htype1 htype2 htid heid⟩
    · exact Or.inr ⟨htid.symm, heid, adjacent_sites hpaired h ht2 ht1 hm2 hm1 htype2 htype1 htid.symm heid⟩
  · rintro (⟨htid, heid, -⟩ | ⟨htid, heid, -⟩)
    · exact ⟨htid, Or.inl heid⟩
    · exact ⟨htid.symm, Or.inr heid⟩

theorem fromSameParallelRegion_sameTeam_iff (h : buildMainThread program fuel entry = .ok final)
    (hsum : ∀ f, ∃ blocks, program.getFunctionSummary f = generateFunctionSummary blocks)
    (ht1 : t1 ∈ final.trace.threads) (ht2 : t2 ∈ final.trace.threads) (he1 : event1 ∈ t1.events)
    (he2 : event2 ∈ t2.events) :
    (fromSameParallelRegion event1 event2 = true ↔ SameTeam event1 event2) ↔ RootsTell event1 event2 := by
  rw [fromSameParallelRegion_iff]
  by_cases hboth : (enclosingFork event1.thread.spawnSites).isSome ∧ (enclosingFork event2.thread.spawnSites).isSome
  · obtain ⟨fork1, h1⟩ := Option.isSome_iff_exists.mp hboth.1
    obtain ⟨fork2, h2⟩ := Option.isSome_iff_exists.mp hboth.2
    have hroot1 := (getRootSpawnSite_of_enclosing h1).1
    have hroot2 := (getRootSpawnSite_of_enclosing h2).1
    have hteam : SameTeam event1 event2 ↔ fork1 = fork2 ∨ AdjacentForks fork1 fork2 := by
      rw [SameTeam, twins_of_adjacent h hsum ht1 ht2 he1 he2 h1 h2]
      simp [h1, h2]
    have hcode : (∃ fork fork', getRootSpawnSite event1 = some fork ∧ getRootSpawnSite event2 = some fork' ∧
        AdjacentForks fork fork') ↔ AdjacentForks fork1 fork2 := by simp [hroot1, hroot2]
    have htell : RootsTell event1 event2 ↔ fork1 ≠ fork2 := by
      constructor
      · intro htell heq
        exact htell.different fork1 h1 (h2.trans (congrArg some heq.symm))
      · intro hne
        refine ⟨?_, fun _ _ _ _ _ => hboth⟩
        intro fork hfork hfork'
        rw [h1] at hfork
        rw [h2] at hfork'
        exact hne (Option.some.inj (hfork.trans hfork'.symm))
    rw [hteam, hcode, htell]
    constructor
    · rintro hiff rfl
      obtain ⟨-, heid | heid⟩ := hiff.mpr (Or.inl rfl) <;> omega
    · intro hne
      exact ⟨Or.inr, fun hor => hor.resolve_left hne⟩
  · have hteam : ¬ SameTeam event1 event2 := by
      rintro ⟨fork1, fork2, h1, h2, -⟩
      exact hboth ⟨by rw [h1]; rfl, by rw [h2]; rfl⟩
    rw [iff_false_right hteam]
    constructor
    · intro hno
      refine ⟨fun fork h1 h2 => hboth ⟨by rw [h1]; rfl, by rw [h2]; rfl⟩, ?_⟩
      intro fork1 fork2 h1 h2 hadjacent
      exact absurd ⟨fork1, fork2, getRootSpawnSite_iff.mpr h1, getRootSpawnSite_iff.mpr h2, hadjacent⟩ hno
    · rintro htell ⟨fork1, fork2, h1, h2, hadjacent⟩
      exact hboth (htell.enclosed fork1 fork2 (getRootSpawnSite_iff.mp h1) (getRootSpawnSite_iff.mp h2) hadjacent)

end Main

namespace MasterTask

open InnerSingle (program)
open NestedTask (entry)

lemma built : EndsIn (buildMainThread (program false) 5 entry) (fun final =>
    ∃ t1 ∈ final.trace.threads, ∃ event1 ∈ t1.events, ∃ t2 ∈ final.trace.threads, ∃ event2 ∈ t2.events,
      t1.id ≠ t2.id ∧ (enclosingFork event1.thread.spawnSites).isSome ∧
        enclosingFork event2.thread.spawnSites = enclosingFork event1.thread.spawnSites ∧
          fromSameParallelRegion event1 event2 = false) := by decide +kernel

theorem fromSameParallelRegion_sameTeam_iff_task : EndsIn (buildMainThread (program false) 5 entry) (fun final =>
    ∀ t1 ∈ final.trace.threads, ∀ t2 ∈ final.trace.threads, ∀ event1 ∈ t1.events, ∀ event2 ∈ t2.events,
      (fromSameParallelRegion event1 event2 = true ↔ SameTeam event1 event2) ↔ RootsTell event1 event2) := by
  obtain ⟨final, h, -⟩ := built
  exact ⟨final, h, fun _ ht1 _ ht2 _ he1 _ he2 =>
    fromSameParallelRegion_sameTeam_iff h (fun f => ⟨InnerSingle.body false f, rfl⟩) ht1 ht2 he1 he2⟩

/-- The master of a region and the task that it forks are not found to be in the same region. -/
theorem master_and_task_apart : EndsIn (buildMainThread (program false) 5 entry) (fun final =>
    ∃ t1 ∈ final.trace.threads, ∃ event1 ∈ t1.events, ∃ t2 ∈ final.trace.threads, ∃ event2 ∈ t2.events,
      t1.id ≠ t2.id ∧ ¬ (fromSameParallelRegion event1 event2 = true ↔ SameTeam event1 event2)) := by
  obtain ⟨final, h, t1, ht1, event1, he1, t2, ht2, event2, he2, hne, hsome, hsame, hfalse⟩ := built
  refine ⟨final, h, t1, ht1, event1, he1, t2, ht2, event2, he2, hne, ?_⟩
  obtain ⟨fork, hfork⟩ := Option.isSome_iff_exists.mp hsome
  rw [hfalse]
  intro hiff
  exact absurd (hiff.mpr ⟨fork, fork, hfork, hsame.trans hfork, Or.inl rfl⟩) (by simp)

end MasterTask

end OpenRace
