import OpenRace.Analysis.BarrierSharing
import OpenRace.Analysis.LockSet
import OpenRace.Library.Interleaving

/-! The runs of a program trace, and the pairs of accesses that may meet in one. -/

namespace OpenRace

open LLVM Library.Interleaving Library.PhaseClock TeamClock

variable {Ctx : Type}

/-- What an event of a thread waits for: how many events of another thread are to be run first. -/
inductive Waits (program : ProgramTrace Ctx) : ℕ → ℕ → ℕ → ℕ → Prop
  | spawned {t : ThreadTrace Ctx} {fork : ForkEvent Ctx} {i : ℕ} (ht : t ∈ program.threads)
      (hsite : t.thread.spawnSite = some fork) : Waits program t.id i fork.pid.tid (fork.pid.eid + 1)
  | join {t s : ThreadTrace Ctx} {p i : ℕ} {master other : Event Ctx} (ht : t ∈ program.threads)
      (hs : s ∈ program.threads) (hr : IsRegion t p master other)
      (hsite : i = p + 2 ∧ s.thread.spawnSite = some master.asFork ∨
        i = p + 3 ∧ s.thread.spawnSite = some other.asFork) :
      Waits program t.id i s.id s.events.length
  /-- A barrier waits until the other thread of the team has come to its own. -/
  | barrier {t s : ThreadTrace Ctx} {i j : ℕ} (h : Twins program t s) (ht : t.isBarrierAt i) (hs : s.isBarrierAt j)
      (hphase : t.phase i = s.phase j) : Waits program t.id i s.id j
  | team {t s : ThreadTrace Ctx} {fork : ForkEvent Ctx} {i : ℕ} (h : Twins program t s) (ht : t.isBarrierAt i)
      (hsite : s.thread.spawnSite = some fork) : Waits program t.id i fork.pid.tid (fork.pid.eid + 1)

def ProgramTrace.interleaving (program : ProgramTrace Ctx) : Threads ℕ Value where
  length tid := ((program.trace tid).map fun t => t.events.length).getD 0
  needs := Waits program
  takes tid i lock := ∃ t, program.trace tid = some t ∧ ∃ e, t.events[i]? = some e ∧ e.type = .lock ∧
    e.ir.getLockValue = some lock
  held tid i lock := ∃ t, program.trace tid = some t ∧ 0 < heldCount lock (t.events.take i)

/-- In some run both events may be run next. -/
def Meet (may : (ℕ → ℕ) → ℕ → Prop) (a b : EventPID) : Prop :=
  ∃ cut, Reachable may cut ∧ (cut a.tid = a.eid ∧ may cut a.tid) ∧ cut b.tid = b.eid ∧ may cut b.tid

lemma Meet.mono {may may' : (ℕ → ℕ) → ℕ → Prop} {a b : EventPID} (h : Meet may a b)
    (hmay : ∀ cut t, may cut t → may' cut t) : Meet may' a b := by
  obtain ⟨cut, hreach, ⟨hleft, hl⟩, hright, hr⟩ := h
  exact ⟨cut, hreach.mono hmay, ⟨hleft, hmay _ _ hl⟩, hright, hmay _ _ hr⟩

structure BarrierPair (program : ProgramTrace Ctx) (a b : EventPID) (s t : ThreadTrace Ctx) : Prop where
  twins : Twins program s t
  left : a.tid = s.id ∧ s.isBarrierAt a.eid
  right : b.tid = t.id ∧ t.isBarrierAt b.eid
  phase : s.phase a.eid = t.phase b.eid

/-- The event has been run, or waits at a barrier that the other thread of the team has left. -/
def RunPast (program : ProgramTrace Ctx) (cut : ℕ → ℕ) (a : EventPID) : Prop :=
  a.eid < cut a.tid ∨ ∃ b s t, BarrierPair program a b s t ∧ b.eid < cut b.tid

section Program

variable {program : ProgramTrace Ctx}

lemma interleaving_length (hw : program.WellFormed) {t : ThreadTrace Ctx} (ht : t ∈ program.threads) :
    program.interleaving.length t.id = t.events.length := by
  simp [ProgramTrace.interleaving, trace_eq hw ht]

lemma interleaving_support (tid : ℕ) (h : tid ∉ (program.threads.map ThreadTrace.id).toFinset) :
    program.interleaving.length tid = 0 := by
  cases htrace : program.trace tid with
  | none => simp [ProgramTrace.interleaving, htrace]
  | some t =>
    obtain ⟨ht, rfl⟩ := trace_mem htrace
    exact absurd (List.mem_toFinset.mpr (List.mem_map_of_mem ht)) h

section Locks

lemma heldCount_append (lock : Value) (events : List (Event Ctx)) (e : Event Ctx) :
    heldCount lock (events ++ [e]) = countStep lock (heldCount lock events) e := by
  rw [heldCount, heldCount, List.foldl_append]
  rfl

lemma countStep_pos {lock : Value} {count : ℕ} {e : Event Ctx} (h : 0 < countStep lock count e) :
    0 < count ∨ e.type = .lock ∧ e.ir.getLockValue = some lock := by
  rw [countStep] at h
  split at h
  · rename_i hlock
    split at h
    · rename_i htype
      exact .inr ⟨htype, hlock⟩
    · exact .inl (by omega)
    · exact .inl h
  · exact .inl h

lemma exists_lock_of_held {lock : Value} {events : List (Event Ctx)} (h : 0 < heldCount lock events) :
    ∃ e ∈ events, e.type = .lock ∧ e.ir.getLockValue = some lock := by
  induction events using List.reverseRecOn with
  | nil => simp [heldCount] at h
  | append_singleton events e ih =>
    rw [heldCount_append] at h
    rcases countStep_pos h with hold | htakes
    · obtain ⟨e', he', hlock⟩ := ih hold
      exact ⟨e', List.mem_append_left _ he', hlock⟩
    · exact ⟨e, by simp, htakes⟩

lemma interleaving_taking : program.interleaving.Taking where
  start tid lock := by
    rintro ⟨t, -, hheld⟩
    simp [heldCount] at hheld
  taken tid i lock := by
    rintro ⟨t, htrace, hheld⟩
    rw [List.take_add_one] at hheld
    cases hget : t.events[i]? with
    | none =>
      rw [hget, Option.toList_none, List.append_nil] at hheld
      exact .inl ⟨t, htrace, hheld⟩
    | some e =>
      rw [hget, Option.toList_some, heldCount_append] at hheld
      exact (countStep_pos hheld).imp (fun hold => ⟨t, htrace, hold⟩) fun htakes => ⟨t, htrace, e, hget, htakes⟩

end Locks

section Teams

variable (h : TeamTrace program)

include h

lemma spawn_event {t : ThreadTrace Ctx} {fork : ForkEvent Ctx} (ht : t ∈ program.threads)
    (hsite : t.thread.spawnSite = some fork) :
    ∃ parent ∈ program.threads, ∃ e ∈ parent.getForkEvents, fork = e.asFork ∧ fork.pid = ⟨parent.id, e.id⟩ := by
  rcases h.sites t ht with hroot | ⟨parent, hparent, e, he, hchain⟩
  · rw [ThreadRef.spawnSite, hroot] at hsite
    cases hsite
  · rw [ThreadRef.spawnSite, hchain, List.head?_cons, Option.some.injEq] at hsite
    refine ⟨parent, hparent, e, he, hsite.symm, ?_⟩
    rw [← hsite]
    exact (event_at h.wellFormed hparent (mem_getForkEvents.mp he).1).1

lemma rank_spawn_lt {t : ThreadTrace Ctx} {fork : ForkEvent Ctx} (ht : t ∈ program.threads)
    (hsite : t.thread.spawnSite = some fork) (i : ℕ) : rank (clock h) fork.pid < rank (clock h) ⟨t.id, i⟩ := by
  obtain ⟨parent, hparent, e, he, rfl, hpid⟩ := spawn_event h ht hsite
  have hm := mem_getForkEvents.mp he
  have hkey := key_le_siteKey h.wellFormed hparent hm.1 hm.2
  have hspawn := site_of_spawn h.wellFormed hparent ht he hsite
  have htid : e.pid.tid = parent.id := congrArg EventPID.tid hpid
  refine @rank_lt_fork _ _ _ _ (clock h) _ _ _ ?_ hkey
  change site program t.id = some (e.pid.tid, _)
  rw [htid]
  exact hspawn

omit h in
lemma IsRegion.join_at {t : ThreadTrace Ctx} {p offset : ℕ} {master other fork : Event Ctx} (hw : program.WellFormed)
    (ht : t ∈ program.threads) (hr : IsRegion t p master other)
    (hcase : offset = 2 ∧ fork = master ∨ offset = 3 ∧ fork = other) :
    fork ∈ t.getForkEvents ∧ fork.id + 2 = p + offset ∧ ∃ join ∈ t.events, join.id = p + offset ∧ join.type = .join ∧
      join.forkEvent = none ∧ join.ir.getThreadHandle = fork.ir.getThreadHandle := by
  obtain ⟨join, hget, htype, hnone, hhandle⟩ := hr.joins offset fork hcase
  obtain ⟨hjoin, hid⟩ := id_of_at hw ht hget
  obtain ⟨hmaster, hmid⟩ := id_of_at hw ht hr.master_at.1
  obtain ⟨hother, hoid⟩ := id_of_at hw ht hr.other_at.1
  rcases hcase with ⟨rfl, rfl⟩ | ⟨rfl, rfl⟩
  · exact ⟨mem_getForkEvents.mpr ⟨hmaster, hr.master_at.2⟩, by omega, join, hjoin, hid, htype, hnone, hhandle⟩
  · exact ⟨mem_getForkEvents.mpr ⟨hother, hr.other_at.2⟩, by omega, join, hjoin, hid, htype, hnone, hhandle⟩

lemma Waits.join_cases {t s : ThreadTrace Ctx} {p i : ℕ} {master other : Event Ctx}
    (hr : IsRegion t p master other) (hsite : i = p + 2 ∧ s.thread.spawnSite = some master.asFork ∨
      i = p + 3 ∧ s.thread.spawnSite = some other.asFork) (ht : t ∈ program.threads) :
    ∃ fork ∈ t.getForkEvents, fork.id + 2 = i ∧ s.thread.spawnSite = some fork.asFork ∧
      ∃ join ∈ t.events, join.id = i ∧ join.type = .join ∧ siteKey program fork.asFork < key program join.pid := by
  have hw := h.wellFormed
  rcases hsite with ⟨rfl, hsite⟩ | ⟨rfl, hsite⟩
  · obtain ⟨hf, hid, join, hj, hjid, htype, -⟩ := hr.join_at hw ht (.inl ⟨rfl, rfl⟩)
    exact ⟨master, hf, by omega, hsite, join, hj, hjid, htype,
      siteKey_lt_join hw ht hr (mem_getForkEvents.mp hf).1 (by omega) hj htype (by omega)⟩
  · obtain ⟨hf, hid, join, hj, hjid, htype, -⟩ := hr.join_at hw ht (.inr ⟨rfl, rfl⟩)
    exact ⟨other, hf, by omega, hsite, join, hj, hjid, htype,
      siteKey_lt_join hw ht hr (mem_getForkEvents.mp hf).1 (by omega) hj htype (by omega)⟩

lemma rank_barrier {t s : ThreadTrace Ctx} {i j : ℕ} (hst : Twins program t s) (ht : t.isBarrierAt i)
    (hs : s.isBarrierAt j) (hphase : t.phase i = s.phase j) :
    rank (clock h) ⟨t.id, i⟩ = rank (clock h) ⟨s.id, j⟩ := by
  obtain ⟨htm, hsm, -, -, u, k, hsite, hsite'⟩ := twins_site h hst
  have hbase : (clock h).base t.id = (clock h).base s.id :=
    ((clock h).base_site _ _ _ hsite).trans ((clock h).base_site _ _ _ hsite').symm
  have hkey : key program ⟨t.id, i⟩ = key program ⟨s.id, j⟩ := by
    rw [key_eq h.wellFormed htm, key_eq h.wellFormed hsm, ThreadTrace.key_barrier t ht, ThreadTrace.key_barrier s hs,
      hphase]
  exact congrArg₂ (fun base k => base ++ [k]) hbase hkey

lemma twin_barrier {t s : ThreadTrace Ctx} {i : ℕ} (hst : Twins program t s) (ht : t.isBarrierAt i) :
    ∃ j, s.isBarrierAt j ∧ t.phase i = s.phase j := by
  obtain ⟨-, -, -, hbarriers, -⟩ := twins_site h hst
  obtain ⟨e, hget, htype⟩ := (ThreadTrace.isBarrierAt_iff t).mp ht
  have hat := ThreadTrace.barriers_at t hget htype
  rw [hbarriers] at hat
  obtain ⟨j, e', hget', htype', -, hphase⟩ := ThreadTrace.exists_barrier_event s hat
  exact ⟨j, (ThreadTrace.isBarrierAt_iff s).mpr ⟨e', hget', htype'⟩, hphase.symm⟩

lemma rank_lt_along (tid : ℕ) {i j : ℕ} (hij : i < j) : rank (clock h) ⟨tid, i⟩ < rank (clock h) ⟨tid, j⟩ :=
  (@rank_lt_sibling _ _ _ _ (clock h) ⟨tid, i⟩ ⟨tid, j⟩ rfl).mpr (key_lt rfl hij)

lemma interleaving_ranked : Ranked program.interleaving fun tid i => rank (clock h) ⟨tid, i⟩ where
  along tid _ _ hij := rank_lt_along h tid hij
  needs tid i sid n hn := by
    generalize hm : n + 1 = m at hn
    cases hn with
    | spawned ht hsite =>
      cases hm
      exact rank_spawn_lt h ht hsite i
    | @join t s p _ master other ht hs hr hsite =>
      obtain ⟨fork, hf, -, hspawn, join, hj, rfl, -, hlt⟩ := Waits.join_cases h hr hsite ht
      have hpid := (event_at h.wellFormed ht hj).1
      refine @rank_lt_join _ _ _ _ (clock h) ⟨s.id, n⟩ ⟨t.id, join.id⟩ _
        (site_of_spawn h.wellFormed ht hs hf hspawn) ?_
      rwa [hpid] at hlt
    | barrier hst ht hs hphase =>
      rw [rank_barrier h hst ht hs hphase]
      exact rank_lt_along h _ (by omega)
    | team hst ht hsite =>
      cases hm
      obtain ⟨j, hs, hphase⟩ := twin_barrier h hst ht
      rw [rank_barrier h hst ht hs hphase]
      exact rank_spawn_lt h (twins_site h hst).2.1 hsite j

lemma fork_lt_length {t : ThreadTrace Ctx} {fork : ForkEvent Ctx} (ht : t ∈ program.threads)
    (hsite : t.thread.spawnSite = some fork) : fork.pid.eid < program.interleaving.length fork.pid.tid := by
  obtain ⟨parent, hparent, e, he, rfl, hpid⟩ := spawn_event h ht hsite
  have hat := (event_at h.wellFormed hparent (mem_getForkEvents.mp he).1).2
  rw [hpid, interleaving_length h.wellFormed hparent]
  exact (List.getElem?_eq_some_iff.mp hat).1

lemma Waits.le_length {tid i sid n : ℕ} (hwaits : Waits program tid i sid n) :
    n ≤ program.interleaving.length sid := by
  cases hwaits with
  | spawned ht hsite => exact fork_lt_length h ht hsite
  | join ht hs hr hsite => exact (interleaving_length h.wellFormed hs).ge
  | barrier hst ht hs hphase =>
    obtain ⟨e, hget, -⟩ := (ThreadTrace.isBarrierAt_iff _).mp hs
    rw [interleaving_length h.wellFormed (twins_site h hst).2.1]
    exact (List.getElem?_eq_some_iff.mp hget).1.le
  | team hst ht hsite => exact fork_lt_length h (twins_site h hst).2.1 hsite

lemma fork_joined {t s : ThreadTrace Ctx} {fork : Event Ctx} (ht : t ∈ program.threads) (hs : s ∈ program.threads)
    (hf : fork ∈ t.getForkEvents) (hsite : s.thread.spawnSite = some fork.asFork) :
    Waits program t.id (fork.id + 2) s.id s.events.length := by
  have hw := h.wellFormed
  obtain ⟨hm, htype⟩ := mem_getForkEvents.mp hf
  obtain ⟨p, master, other, hr, hlow, hhigh⟩ := h.regions t ht fork hm (.inl htype)
  have hat := (event_at hw ht hm).2
  have hnot : ∀ {offset fork'}, offset = 2 ∧ fork' = master ∨ offset = 3 ∧ fork' = other → fork.id ≠ p + offset := by
    intro offset fork' hcase hid
    obtain ⟨join, hget, hjoin, -⟩ := hr.joins offset fork' hcase
    rw [← hid, hat, Option.some.injEq] at hget
    rw [← hget, htype] at hjoin
    cases hjoin
  have hsecond := hnot (.inl ⟨rfl, rfl⟩)
  have hthird := hnot (.inr ⟨rfl, rfl⟩)
  refine .join ht hs hr ?_
  rcases (by omega : fork.id = p ∨ fork.id = p + 1) with hid | hid
  · have heq := hr.master_at.1
    rw [← hid, hat, Option.some.injEq] at heq
    exact .inl ⟨by omega, heq ▸ hsite⟩
  · have heq := hr.other_at.1
    rw [← hid, hat, Option.some.injEq] at heq
    exact .inr ⟨by omega, heq ▸ hsite⟩

lemma join_own {t : ThreadTrace Ctx} {e : Event Ctx} (ht : t ∈ program.threads) (he : e ∈ t.events)
    (htype : e.type = .join) : ∃ fork ∈ t.getForkEvents, fork.id + 2 = e.id ∧ e.forkEvent = none ∧
      e.ir.getThreadHandle = fork.ir.getThreadHandle := by
  have hw := h.wellFormed
  obtain ⟨p, master, other, hr, hlow, hhigh⟩ := h.regions t ht e he (.inr htype)
  have hat := (event_at hw ht he).2
  have hnot : ∀ {i fork}, t.events[i]? = some fork ∧ fork.type = .fork → e.id ≠ i := by
    rintro i fork ⟨hget, hfork⟩ hid
    rw [← hid, hat, Option.some.injEq] at hget
    rw [← hget, htype] at hfork
    cases hfork
  have hfirst := hnot hr.master_at
  have hsecond := hnot hr.other_at
  have hown : ∀ {offset fork}, offset = 2 ∧ fork = master ∨ offset = 3 ∧ fork = other → e.id = p + offset →
      fork ∈ t.getForkEvents ∧ fork.id + 2 = e.id ∧ e.forkEvent = none ∧
        e.ir.getThreadHandle = fork.ir.getThreadHandle := by
    intro offset fork hcase hid
    obtain ⟨hf, hfid, join, hj, hjid, -, hnone, hhandle⟩ := hr.join_at hw ht hcase
    have hget := (event_at hw ht hj).2
    rw [hjid, ← hid, hat, Option.some.injEq] at hget
    subst hget
    exact ⟨hf, by omega, hnone, hhandle⟩
  rcases (by omega : e.id = p + 2 ∨ e.id = p + 3) with hid | hid
  · exact ⟨master, hown (.inl ⟨rfl, rfl⟩) hid⟩
  · exact ⟨other, hown (.inr ⟨rfl, rfl⟩) hid⟩

omit h in
lemma Twins.symm {s t : ThreadTrace Ctx} (hst : Twins program s t) : Twins program t s := by
  obtain ⟨parent, p, hor⟩ := hst
  exact ⟨parent, p, hor.symm⟩

lemma barrierPair_of_events {s t : ThreadTrace Ctx} {e e' : Event Ctx} (hst : Twins program s t) (he : e ∈ s.events)
    (he' : e' ∈ t.events) (htype : e.type = .barrier) (htype' : e'.type = .barrier)
    (hphase : s.phase e.id = t.phase e'.id) : BarrierPair program e.pid e'.pid s t := by
  obtain ⟨hs, ht, -, -, -⟩ := twins_site h hst
  rw [(event_at h.wellFormed hs he).1, (event_at h.wellFormed ht he').1]
  exact ⟨hst, ⟨rfl, (barrier_index h hs he htype).1⟩, ⟨rfl, (barrier_index h ht he' htype').1⟩, hphase⟩

section Run

variable {cut : ℕ → ℕ} (hc : Feasible program.interleaving cut)

include hc

/-- The thread that the edge of a join comes from has ended, even where it is not the one that is joined there. -/
lemma joined_run {t s : ThreadTrace Ctx} {first : Event Ctx} {i : ℕ} (ht : t ∈ program.threads)
    (hs : s ∈ program.threads) (hfirst : first ∈ t.getForkEvents) (hsite : s.thread.spawnSite = some first.asFork)
    (hle : first.id + 2 ≤ i) (hrun : i < cut t.id) : s.events.length ≤ cut s.id :=
  hc.met t.id (first.id + 2) (by omega) _ _ (fork_joined h ht hs hfirst hsite)

omit h in
lemma BarrierPair.reached {b c : EventPID} {t u : ThreadTrace Ctx} (hpair : BarrierPair program b c t u)
    (hrun : c.eid < cut c.tid) : b.eid ≤ cut b.tid ∧ ∀ fork, t.thread.spawnSite = some fork →
      fork.pid.eid < cut fork.pid.tid := by
  have hrun' : c.eid < cut u.id := hpair.right.1 ▸ hrun
  constructor
  · rw [hpair.left.1]
    exact hc.met u.id c.eid hrun' _ _ (.barrier hpair.twins.symm hpair.right.2 hpair.left.2 hpair.phase.symm)
  · exact fun fork hsite => hc.met u.id c.eid hrun' _ _ (.team hpair.twins.symm hpair.right.2 hsite)

end Run

variable [DecidableEq Ctx]

lemma joinEdge_first {t : ThreadTrace Ctx} {e : Event Ctx} (ht : t ∈ program.threads) (he : e ∈ t.events)
    (htype : e.type = .join) : ∃ fork ∈ t.getForkEvents, ∃ first ∈ t.getForkEvents, ∃ s ∈ program.threads,
      fork.id + 2 = e.id ∧ first.id ≤ fork.id ∧ first.ir.getThreadHandle = fork.ir.getThreadHandle ∧
        s.thread.spawnSite = some first.asFork ∧
          joinEdge program t e = .ok (s.events.getLast?.map fun last => (last.pid, e.pid)) := by
  have hw := h.wellFormed
  obtain ⟨fork, hf, hid, hnone, hhandle⟩ := join_own h ht he htype
  obtain ⟨handle, hv⟩ := Option.isSome_iff_exists.mp (hw.handled t ht e he (.inr htype))
  have hmem : fork ∈ forksThrough handle t.events := by
    obtain ⟨hm, hft⟩ := mem_getForkEvents.mp hf
    exact mem_forksThrough.mpr ⟨hm, hft, by simp [Event.hasHandle, ← hhandle, hv]⟩
  cases hfirst : (forksThrough handle t.events).head? with
  | none =>
    rw [List.head?_eq_none_iff.mp hfirst] at hmem
    exact absurd hmem List.not_mem_nil
  | some first =>
    obtain ⟨hm, hft, hhas⟩ := mem_forksThrough.mp (List.mem_of_mem_head? hfirst)
    have hforks := mem_getForkEvents.mpr ⟨hm, hft⟩
    obtain ⟨s, hs, hforked, hsite⟩ := getForkedThread_spawned hw ht hforks
    have hsame : first.ir.getThreadHandle = fork.ir.getThreadHandle := by
      rw [← hhandle, hv]
      simpa [Event.hasHandle] using hhas
    refine ⟨fork, hf, first, hforks, s, hs, hid, first_fork_le hw ht hfirst hmem, hsame, hsite, ?_⟩
    have hjoined : getJoinedThread program t e = .ok (some s) := by
      rw [getJoinedThread, found_exact hw ht hnone hv hfirst]
      change (do return some (← getForkedThread first.asFork program)) = _
      rw [hforked]
      rfl
    rw [joinEdge, hjoined]
    rfl

lemma forkEdge_cases {t : ThreadTrace Ctx} {e : Event Ctx} {a b : EventPID} (ht : t ∈ program.threads)
    (he : e ∈ t.events) (htype : e.type = .fork) (hedge : forkEdge program e = .ok (some (a, b))) :
    ∃ s ∈ program.threads, s.thread.spawnSite = some e.asFork ∧ a = e.pid ∧ b.tid = s.id := by
  obtain ⟨s, hs, hsite, heq⟩ := forkEdge_spec h ht he htype
  rw [heq, Except.ok.injEq, Option.map_eq_some_iff] at hedge
  obtain ⟨first, hfirst, hpair⟩ := hedge
  obtain ⟨rfl, rfl⟩ := Prod.mk.injEq .. ▸ hpair
  refine ⟨s, hs, hsite, rfl, ?_⟩
  rw [(event_at h.wellFormed hs (List.mem_of_mem_head? hfirst)).1]

lemma joinEdge_cases {t : ThreadTrace Ctx} {e : Event Ctx} {a b : EventPID} (ht : t ∈ program.threads)
    (he : e ∈ t.events) (htype : e.type = .join) (hedge : joinEdge program t e = .ok (some (a, b))) :
    b = ⟨t.id, e.id⟩ ∧ ∃ first ∈ t.getForkEvents, ∃ s ∈ program.threads, s.thread.spawnSite = some first.asFork ∧
      first.id + 2 ≤ e.id ∧ a.tid = s.id ∧ a.eid < s.events.length := by
  obtain ⟨fork, hf, first, hfirst, s, hs, hid, hle, -, hsite, heq⟩ := joinEdge_first h ht he htype
  rw [heq, Except.ok.injEq, Option.map_eq_some_iff] at hedge
  obtain ⟨last, hlast, hpair⟩ := hedge
  obtain ⟨rfl, rfl⟩ := Prod.mk.injEq .. ▸ hpair
  obtain ⟨hpid, hget⟩ := event_at h.wellFormed hs (List.mem_of_getLast? hlast)
  refine ⟨(event_at h.wellFormed ht he).1, first, hfirst, s, hs, hsite, by omega, by rw [hpid], ?_⟩
  rw [hpid]
  exact (List.getElem?_eq_some_iff.mp hget).1

section Run

variable {cut : ℕ → ℕ} (hc : Feasible program.interleaving cut)

include hc

lemma RunPast.step {a b : EventPID} (hb : RunPast program cut b) (hstep : TeamStep program a b) :
    RunPast program cut a := by
  have hw := h.wellFormed
  rcases hb with hrun | ⟨c, t, u, hpair, hrun⟩
  · cases hstep with
    | order htid hle => exact .inl (htid ▸ hle.trans_lt hrun)
    | fork t ht e he htype hedge =>
      obtain ⟨s, hs, hsite, rfl, htid⟩ := forkEdge_cases h ht he htype hedge
      exact .inl (hc.met s.id b.eid (htid ▸ hrun) _ _ (.spawned hs hsite))
    | join t ht e he htype hedge =>
      obtain ⟨rfl, first, hfirst, s, hs, hsite, hle, htid, hlt⟩ := joinEdge_cases h ht he htype hedge
      refine .inl (hlt.trans_le ?_)
      rw [htid]
      exact joined_run h hc ht hs hfirst hsite hle hrun
    | barrier s t hst e e' he he' htype htype' hphase ha hb =>
      subst ha hb
      exact .inr ⟨_, s, t, barrierPair_of_events h hst he he' htype htype' hphase, hrun⟩
  · obtain ⟨hreached, hspawned⟩ := hpair.reached hc hrun
    obtain ⟨htm, -, -, -, -⟩ := twins_site h hpair.twins
    have hsame : ∀ {s}, s ∈ program.threads → b.tid = s.id → s = t := fun hs htid =>
      List.inj_on_of_nodup_map hw.distinct hs htm (htid.symm.trans hpair.left.1)
    cases hstep with
    | order htid hle =>
      rcases hle.lt_or_eq with hlt | heq
      · exact .inl (htid ▸ hlt.trans_le hreached)
      · exact .inr ⟨c, t, u, EventPID.ext htid heq ▸ hpair, hrun⟩
    | fork t' ht' e he htype hedge =>
      obtain ⟨s, hs, hsite, rfl, htid⟩ := forkEdge_cases h ht' he htype hedge
      obtain rfl := hsame hs htid
      exact .inl (hspawned _ hsite)
    | join t' ht' e he htype hedge =>
      obtain ⟨rfl, -⟩ := joinEdge_cases h ht' he htype hedge
      obtain rfl := hsame ht' rfl
      have hbarrier := hpair.left.2
      rw [plain_of_type hw ht' he (by simp [htype])] at hbarrier
      cases hbarrier
    | barrier s t' hst e e' he he' htype htype' hphase ha hb =>
      subst ha hb
      have hpair' := barrierPair_of_events h hst he he' htype htype' hphase
      obtain rfl := hsame (twins_site h hst).2.1 hpair'.right.1
      obtain rfl := twins_unique h hst.symm hpair.twins
      have heid := s.barrier_phase_inj hpair'.left.2 hpair.right.2 (hphase.trans hpair.phase)
      refine .inl ?_
      rw [heid, hpair'.left.1, ← hpair.right.1]
      exact hrun

lemma RunPast.order {a b : EventPID} (hb : RunPast program cut b) (hpath : TeamOrder program a b) :
    RunPast program cut a := by
  induction hpath with
  | refl => exact hb
  | tail _ hstep ih => exact ih (hb.step h hc hstep)

lemma not_teamOrder {s t : ThreadTrace Ctx} {x y : Event Ctx} (hs : s ∈ program.threads) (ht : t ∈ program.threads)
    (hx : x ∈ s.events) (hy : y ∈ t.events) (hne : s.id ≠ t.id) (hxt : x.type ≠ .barrier)
    (hyt : y.type ≠ .barrier ∧ y.type ≠ .join) (hleft : cut s.id ≤ x.id) (hright : cut t.id = y.id)
    (hen : Enabled program.interleaving cut t.id) : ¬TeamOrder program x.pid y.pid := by
  have hw := h.wellFormed
  obtain ⟨hxpid, -⟩ := event_at hw hs hx
  obtain ⟨hypid, hyat⟩ := event_at hw ht hy
  have hown : ∀ {e}, e ∈ t.events → e.id = y.id → e = y := by
    intro e he hid
    have hat := (event_at hw ht he).2
    rw [hid, hyat, Option.some.injEq] at hat
    exact hat.symm
  have hpast : ∀ b, TeamOrder program x.pid b → b = y.pid → x.pid.tid = t.id ∨ RunPast program cut x.pid := by
    intro b hpath
    induction hpath with
    | refl =>
      rintro heq
      exact .inl (by rw [heq, hypid])
    | @tail a b hpath hstep ih =>
      rintro rfl
      refine (em (a = y.pid)).elim ih fun hother => .inr (RunPast.order h hc (.inl ?_) hpath)
      cases hstep with
      | order htid hle =>
        rw [hypid] at htid hle hother
        have hlt : a.eid < y.id := hle.lt_of_ne fun heq => hother (EventPID.ext htid heq)
        rw [htid, hright]
        exact hlt
      | fork t' ht' e he htype hedge =>
        obtain ⟨u, hu, hsite, rfl, htid⟩ := forkEdge_cases h ht' he htype hedge
        rw [hypid] at htid
        obtain rfl := List.inj_on_of_nodup_map hw.distinct hu ht htid.symm
        exact hen.2 _ _ (.spawned hu hsite)
      | join t' ht' e he htype hedge =>
        obtain ⟨hpid, -⟩ := joinEdge_cases h ht' he htype hedge
        rw [hypid, EventPID.mk.injEq] at hpid
        obtain rfl := List.inj_on_of_nodup_map hw.distinct ht' ht hpid.1.symm
        exact absurd (hown he hpid.2.symm ▸ htype) hyt.2
      | barrier u t' hst e e' he he' htype htype' hphase ha hb =>
        obtain ⟨-, hm, -, -, -⟩ := twins_site h hst
        rw [hypid, (event_at hw hm he').1, EventPID.mk.injEq] at hb
        obtain rfl := List.inj_on_of_nodup_map hw.distinct hm ht hb.1.symm
        exact absurd (hown he' hb.2.symm ▸ htype') hyt.1
  intro hpath
  rcases hpast _ hpath rfl with htid | hrun | ⟨b, s', t', hpair, -⟩
  · rw [hxpid] at htid
    exact hne htid
  · rw [hxpid] at hrun
    exact absurd hrun (not_lt.mpr hleft)
  · have hs' := (twins_site h hpair.twins).1
    have hleft := hpair.left
    rw [hxpid] at hleft
    obtain rfl := List.inj_on_of_nodup_map hw.distinct hs hs' hleft.1
    have hbarrier := hleft.2
    rw [plain_of_type hw hs hx hxt] at hbarrier
    cases hbarrier

end Run

/-- The rank goes up along every step but those between the barriers of twins. -/
lemma TeamStep.eq_of_rank {a b : EventPID} (hstep : TeamStep program a b) (heq : rank (clock h) a = rank (clock h) b)
    (hplain : ∀ s ∈ program.threads, a.tid = s.id → s.isBarrierAt a.eid = false) : a = b := by
  have hw := h.wellFormed
  cases hstep with
  | order htid hle =>
    refine EventPID.ext htid (hle.antisymm (not_lt.mp fun hlt => ?_))
    have hrank := rank_lt_along h a.tid hlt
    rw [show (⟨a.tid, b.eid⟩ : EventPID) = b from EventPID.ext htid rfl] at hrank
    exact hrank.ne heq
  | fork t ht e he htype hedge =>
    obtain ⟨s, hs, hsite, rfl, htid⟩ := forkEdge_cases h ht he htype hedge
    have hrank := rank_spawn_lt h hs hsite b.eid
    rw [show (⟨s.id, b.eid⟩ : EventPID) = b from EventPID.ext htid.symm rfl] at hrank
    exact absurd heq hrank.ne
  | join t ht e he htype hedge =>
    obtain ⟨k, hsite, hlt⟩ := join_site h ht he htype hedge
    exact absurd heq (@rank_lt_join _ _ _ _ (clock h) a b k hsite hlt).ne
  | barrier s t hst e e' he he' htype htype' hphase ha hb =>
    have hpair := barrierPair_of_events h hst he he' htype htype' hphase
    rw [← ha] at hpair
    have hbarrier := hpair.left.2
    rw [hplain s (twins_site h hst).1 hpair.left.1] at hbarrier
    cases hbarrier

lemma teamOrder_antisymm {a b : EventPID} (hab : TeamOrder program a b) (hba : TeamOrder program b a)
    (hplain : ∀ s ∈ program.threads, a.tid = s.id → s.isBarrierAt a.eid = false) : a = b := by
  refine (cycle_induct (clock h) (fun _ _ hstep => TeamStep.lawful h hstep) (P := fun c => c = a) rfl ?_ hab hba).symm
  rintro c d rfl hstep heq
  exact (hstep.eq_of_rank h heq hplain).symm

def HandlesOnce (program : ProgramTrace Ctx) : Prop :=
  ∀ t ∈ program.threads, ∀ e ∈ t.getForkEvents, ∀ f ∈ t.getForkEvents,
    e.ir.getThreadHandle = f.ir.getThreadHandle → e = f

lemma fork_teamOrder {t : ThreadTrace Ctx} {fork : ForkEvent Ctx} (ht : t ∈ program.threads)
    (hsite : t.thread.spawnSite = some fork) {i : ℕ} (hi : i < t.events.length) :
    TeamOrder program fork.pid ⟨t.id, i⟩ := by
  have hw := h.wellFormed
  obtain ⟨parent, hparent, e, he, rfl, hpid⟩ := spawn_event h ht hsite
  obtain ⟨hm, htype⟩ := mem_getForkEvents.mp he
  obtain ⟨s, hs, hspawn, hedge⟩ := forkEdge_spec h hparent hm htype
  have hid := h.spawned_once s hs t ht (hspawn.trans hsite.symm) (by simp [hspawn])
  obtain rfl := List.inj_on_of_nodup_map hw.distinct hs ht hid
  obtain ⟨first, hfirst⟩ : ∃ first, s.events.head? = some first := by
    cases hevents : s.events with
    | nil => simp [hevents] at hi
    | cons first rest => exact ⟨first, rfl⟩
  have hzero : s.events[0]? = some first := by rw [← List.head?_eq_getElem?, hfirst]
  obtain ⟨hfm, hfid⟩ := id_of_at hw hs hzero
  have hfpid := (event_at hw hs hfm).1
  rw [hfirst, Option.map_some] at hedge
  refine (Relation.ReflTransGen.single (.fork parent hparent e hm htype hedge)).tail (.order ?_ ?_)
  · rw [hfpid]
  · rw [hfpid, hfid]
    exact Nat.zero_le _

lemma waits_teamOrder (honce : HandlesOnce program) {tid i sid n : ℕ} (hi : i < program.interleaving.length tid)
    (hwaits : Waits program tid i sid (n + 1)) : TeamOrder program ⟨sid, n⟩ ⟨tid, i⟩ := by
  have hw := h.wellFormed
  have hbarrier : ∀ {s t j i}, Twins program s t → s.isBarrierAt j → t.isBarrierAt i → s.phase j = t.phase i →
      TeamStep program ⟨s.id, j⟩ ⟨t.id, i⟩ := by
    intro s t j i hst hj hi hphase
    obtain ⟨hs, ht, -, -, -⟩ := twins_site h hst
    obtain ⟨e, hget, htype⟩ := (ThreadTrace.isBarrierAt_iff s).mp hj
    obtain ⟨e', hget', htype'⟩ := (ThreadTrace.isBarrierAt_iff t).mp hi
    obtain ⟨hm, rfl⟩ := id_of_at hw hs hget
    obtain ⟨hm', rfl⟩ := id_of_at hw ht hget'
    exact .barrier s t hst e e' hm hm' htype htype' hphase (event_at hw hs hm).1.symm (event_at hw ht hm').1.symm
  generalize hm : n + 1 = m at hwaits
  cases hwaits with
  | spawned ht hsite =>
    cases hm
    rw [interleaving_length hw ht] at hi
    exact fork_teamOrder h ht hsite hi
  | @join t s p _ master other ht hs hr hsite =>
    obtain ⟨fork, hf, hid, hspawn, e, he, rfl, htype, -⟩ := Waits.join_cases h hr hsite ht
    obtain ⟨fork', hf', first, hfirst, s', hs', hid', -, hhandle, hspawn', hedge⟩ := joinEdge_first h ht he htype
    have hsame : fork' = fork := by
      have hat := (event_at hw ht (mem_getForkEvents.mp hf').1).2
      rw [show fork'.id = fork.id by omega, (event_at hw ht (mem_getForkEvents.mp hf).1).2] at hat
      exact (Option.some.inj hat).symm
    obtain rfl := honce t ht first hfirst fork' hf' hhandle
    rw [hsame] at hspawn'
    have hsid := h.spawned_once s' hs' s hs (hspawn'.trans hspawn.symm) (by simp [hspawn'])
    obtain rfl := List.inj_on_of_nodup_map hw.distinct hs' hs hsid
    have hlast : s'.events.getLast? = s'.events[n]? := by
      rw [List.getLast?_eq_getElem?, show s'.events.length - 1 = n by omega]
    obtain ⟨last, hget⟩ : ∃ last, s'.events[n]? = some last := ⟨_, List.getElem?_eq_getElem (by omega)⟩
    obtain ⟨hlm, hlid⟩ := id_of_at hw hs' hget
    rw [hlast, hget, Option.map_some, (event_at hw hs' hlm).1, (event_at hw ht he).1, hlid] at hedge
    exact .single (.join t ht e he htype hedge)
  | barrier hst ht hs hphase =>
    exact (Relation.ReflTransGen.single (.order rfl (show n ≤ m by omega))).tail (hbarrier hst.symm hs ht hphase.symm)
  | team hst ht hsite =>
    cases hm
    obtain ⟨j, hs, hphase⟩ := twin_barrier h hst ht
    obtain ⟨e, hget, -⟩ := (ThreadTrace.isBarrierAt_iff _).mp hs
    exact (fork_teamOrder h (twins_site h hst).2.1 hsite (List.getElem?_eq_some_iff.mp hget).1).tail
      (hbarrier hst.symm hs ht hphase.symm)

def Past (program : ProgramTrace Ctx) (x y : EventPID) (tid i : ℕ) : Prop :=
  i < program.interleaving.length tid ∧
    ∃ z, (z = x ∨ z = y) ∧ TeamOrder program ⟨tid, i⟩ z ∧ (⟨tid, i⟩ : EventPID) ≠ z

section Past

variable (honce : HandlesOnce program) {x y : EventPID}
  (hplain : ∀ z, z = x ∨ z = y → ∀ s ∈ program.threads, z.tid = s.id → s.isBarrierAt z.eid = false)

include honce hplain

omit honce in
lemma Past.of_teamOrder {tid i sid j : ℕ} (hpast : Past program x y tid i)
    (hpath : TeamOrder program ⟨sid, j⟩ ⟨tid, i⟩) (hj : j < program.interleaving.length sid) :
    Past program x y sid j := by
  obtain ⟨-, z, hz, hbefore, hne⟩ := hpast
  refine ⟨hj, z, hz, hpath.trans hbefore, ?_⟩
  rintro rfl
  exact hne (teamOrder_antisymm h hpath hbefore (hplain _ hz)).symm

lemma past_closed : Closed program.interleaving (Past program x y) where
  lt tid i hpast := hpast.1
  along tid i j hpast hij := hpast.of_teamOrder h hplain (.single (.order rfl hij.le)) (hij.trans hpast.1)
  needs tid i sid n hpast hneeds := by
    exact hpast.of_teamOrder h hplain (waits_teamOrder h honce hpast.1 hneeds) (Waits.le_length h hneeds)

/-- A run of just the past of two events that are not ordered ends where both can be run. -/
lemma exists_meet (hx : x.eid < program.interleaving.length x.tid) (hy : y.eid < program.interleaving.length y.tid)
    (hxy : ¬TeamOrder program x y) (hyx : ¬TeamOrder program y x) : Meet (Enabled program.interleaving) x y := by
  obtain ⟨cut, hreach, hcut⟩ := (past_closed h honce hplain).exists_reachable (interleaving_ranked h)
    (program.threads.map ThreadTrace.id).toFinset interleaving_support
  have hnext : ∀ z, (z = x ∨ z = y) → z.eid < program.interleaving.length z.tid →
      cut z.tid = z.eid ∧ Enabled program.interleaving cut z.tid := by
    intro z hz hlen
    have hnot : ¬Past program x y z.tid z.eid := by
      rintro ⟨-, z', rfl | rfl, hbefore, hne⟩ <;> rcases hz with rfl | rfl
      · exact hne rfl
      · exact hyx hbefore
      · exact hxy hbefore
      · exact hne rfl
    have heq : cut z.tid = z.eid := by
      refine le_antisymm (not_lt.mp fun hlt => hnot ((hcut _ _).mp hlt)) (not_lt.mp fun hlt => ?_)
      refine lt_irrefl _ ((hcut z.tid (cut z.tid)).mpr ⟨hlt.trans hlen, z, hz, .single (.order rfl hlt.le), ?_⟩)
      exact fun heq => hlt.ne (congrArg EventPID.eid heq)
    refine ⟨heq, heq ▸ hlen, fun s n hneeds => ?_⟩
    cases n with
    | zero => exact Nat.zero_le _
    | succ n =>
      rw [heq] at hneeds
      have hrank := (interleaving_ranked h).needs z.tid z.eid s n hneeds
      refine (hcut s n).mpr ⟨Waits.le_length h hneeds, z, hz, waits_teamOrder h honce hlen hneeds, ?_⟩
      rintro rfl
      exact lt_irrefl _ hrank
  exact ⟨cut, hreach, hnext x (.inl rfl) hx, hnext y (.inr rfl) hy⟩

end Past

end Teams

def TraceEvent.IsAccess (target : TraceEvent program) : Prop := target.event.type = .read ∨ target.event.type = .write

lemma TraceEvent.IsAccess.plain {target : TraceEvent program} (h : target.IsAccess) :
    target.event.type ≠ .barrier ∧ target.event.type ≠ .join := by
  rcases h with htype | htype <;> simp [htype]

lemma TraceEvent.pid_eq (hw : program.WellFormed) (target : TraceEvent program) :
    target.event.pid = ⟨target.thread.id, target.event.id⟩ := (event_at hw target.thread_mem target.event_mem).1

lemma TraceEvent.id_lt (hw : program.WellFormed) (target : TraceEvent program) :
    target.event.id < target.thread.events.length :=
  (List.getElem?_eq_some_iff.mp (event_at hw target.thread_mem target.event_mem).2).1

lemma TraceEvent.Holds.held (hw : program.WellFormed) {target : TraceEvent program} {lock : Value}
    (hh : target.Holds lock) : program.interleaving.held target.thread.id target.event.id lock := by
  obtain ⟨before, after, hsplit, hpos⟩ := hh
  refine ⟨target.thread, trace_eq hw target.thread_mem, ?_⟩
  have hid := id_of_split (hw.numbered _ target.thread_mem) hsplit
  rwa [hid, hsplit, List.take_left]

section Meetings

variable [DecidableEq Ctx] (h : TeamTrace program) (hb : BarriersApart program) {lhs rhs : TraceEvent program}

include h hb

lemma areParallel_iff_unordered (hne : lhs.thread.id ≠ rhs.thread.id) :
    ∃ graph, buildHappensBefore program = .ok graph ∧ (graph.areParallel lhs.event.pid rhs.event.pid = true ↔
      ¬TeamOrder program lhs.event.pid rhs.event.pid ∧ ¬TeamOrder program rhs.event.pid lhs.event.pid) := by
  obtain ⟨graph, hgraph, -, hreach⟩ := separate_of_apart h hb
  have hleft := hreach _ lhs.thread_mem _ rhs.thread_mem hne _ lhs.event_mem _ rhs.event_mem
  have hright := hreach _ rhs.thread_mem _ lhs.thread_mem hne.symm _ rhs.event_mem _ lhs.event_mem
  refine ⟨graph, hgraph, ?_⟩
  rw [HappensBeforeGraph.areParallel, Bool.and_eq_true, Bool.not_eq_true', Bool.not_eq_true', ← Bool.not_eq_true,
    ← Bool.not_eq_true, hleft, hright]

omit hb in
lemma unordered_of_meet (hlhs : lhs.IsAccess) (hrhs : rhs.IsAccess) (hne : lhs.thread.id ≠ rhs.thread.id)
    (hmeet : Meet (Enabled program.interleaving) lhs.event.pid rhs.event.pid) :
    ¬TeamOrder program lhs.event.pid rhs.event.pid ∧ ¬TeamOrder program rhs.event.pid lhs.event.pid := by
  obtain ⟨cut, hreach, ⟨hleft, hleft'⟩, hright, hright'⟩ := hmeet
  rw [lhs.pid_eq h.wellFormed] at hleft hleft'
  rw [rhs.pid_eq h.wellFormed] at hright hright'
  have hc := hreach.feasible
  exact ⟨not_teamOrder h hc lhs.thread_mem rhs.thread_mem lhs.event_mem rhs.event_mem hne hlhs.plain.1 hrhs.plain
      hleft.le hright hright',
    not_teamOrder h hc rhs.thread_mem lhs.thread_mem rhs.event_mem lhs.event_mem hne.symm hrhs.plain.1 hlhs.plain
      hright.le hleft hleft'⟩

omit [DecidableEq Ctx] hb in
lemma unlocked_of_meet (hne : lhs.thread.id ≠ rhs.thread.id)
    (hmeet : Meet (Unblocked program.interleaving) lhs.event.pid rhs.event.pid) :
    ¬∃ lock, lhs.Holds lock ∧ rhs.Holds lock := by
  rintro ⟨lock, hl, hr⟩
  obtain ⟨cut, hreach, ⟨hleft, -⟩, hright, -⟩ := hmeet
  rw [lhs.pid_eq h.wellFormed] at hleft
  rw [rhs.pid_eq h.wellFormed] at hright
  refine Reachable.exclusive interleaving_taking (hreach.mono fun _ _ hl => hl.2) hne lock ⟨?_, ?_⟩
  · rw [hleft]
    exact hl.held h.wellFormed
  · rw [hright]
    exact hr.held h.wellFormed

/-- Two accesses that some run lets happen at once are neither ordered nor under one lock. -/
theorem meeting_accesses_kept [LinearOrder Value] (hnamed : program.LocksNamed) (hlhs : lhs.IsAccess)
    (hrhs : rhs.IsAccess) (hne : lhs.thread.id ≠ rhs.thread.id)
    (hmeet : Meet (Unblocked program.interleaving) lhs.event.pid rhs.event.pid) :
    ∃ graph, buildHappensBefore program = .ok graph ∧ graph.areParallel lhs.event.pid rhs.event.pid = true ∧
      ∀ lockSet, LockSet.Queried program lockSet →
        ∃ lockSet', lockSet.sharesLock lhs rhs = .ok (false, lockSet') := by
  have hw := h.wellFormed
  have hunordered := unordered_of_meet h hlhs hrhs hne (hmeet.mono fun _ _ hl => hl.1)
  have hexclusive := unlocked_of_meet h hne hmeet
  obtain ⟨graph, hgraph, hiff⟩ := areParallel_iff_unordered h hb hne
  refine ⟨graph, hgraph, hiff.mpr hunordered, fun lockSet hq => ?_⟩
  obtain ⟨answer, lockSet', hok, -, hanswer⟩ := LockSet.sharesLock_ok hw hnamed (hq.sound hw hnamed) lhs rhs
  rw [Bool.eq_false_iff.mpr (mt hanswer.mp hexclusive)] at hok
  exact ⟨lockSet', hok⟩

/-- Locks apart, accesses that are not ordered can happen at once: the graph orders no more than the run has to. -/
theorem areParallel_iff_meet (honce : HandlesOnce program) (hlhs : lhs.IsAccess) (hrhs : rhs.IsAccess)
    (hne : lhs.thread.id ≠ rhs.thread.id) : ∃ graph, buildHappensBefore program = .ok graph ∧
      (graph.areParallel lhs.event.pid rhs.event.pid = true ↔
        Meet (Enabled program.interleaving) lhs.event.pid rhs.event.pid) := by
  have hw := h.wellFormed
  obtain ⟨graph, hgraph, hiff⟩ := areParallel_iff_unordered h hb hne
  refine ⟨graph, hgraph, hiff.trans ⟨fun hunordered => ?_, unordered_of_meet h hlhs hrhs hne⟩⟩
  have hlen : ∀ target : TraceEvent program,
      target.event.pid.eid < program.interleaving.length target.event.pid.tid := by
    intro target
    rw [target.pid_eq hw, interleaving_length hw target.thread_mem]
    exact target.id_lt hw
  have hplain : ∀ target : TraceEvent program, target.IsAccess → ∀ s ∈ program.threads,
      target.event.pid.tid = s.id → s.isBarrierAt target.event.pid.eid = false := by
    intro target haccess s hs hid
    rw [target.pid_eq hw] at hid ⊢
    obtain rfl := List.inj_on_of_nodup_map hw.distinct target.thread_mem hs hid
    exact plain_of_type hw hs target.event_mem haccess.plain.1
  refine exists_meet h honce ?_ (hlen lhs) (hlen rhs) hunordered.1 hunordered.2
  rintro z (rfl | rfl)
  · exact hplain lhs hlhs
  · exact hplain rhs hrhs

end Meetings

end Program

namespace TwoWriters

def forkCall (id : ℕ) : Instruction :=
  .call { id, calledOperand := .function { id := 90, name := "__kmpc_fork_call" }, args := [.alloca id, .undef, .undef] }

def lockCall (id mutex : ℕ) : Instruction :=
  .call { id, calledOperand := .function { id := 91, name := "omp_set_lock" }, args := [.globalVariable mutex false] }

def main : ThreadRef Unit := ⟨0, []⟩

def master : Event Unit := ⟨.fork, 0, main, (), ⟨.openMPFork, forkCall 1, .master⟩, none⟩
def other : Event Unit := ⟨.fork, 1, main, (), ⟨.openMPFork, forkCall 2, .other⟩, none⟩

def mainTrace : ThreadTrace Unit :=
  .mk main [master, other, ⟨.join, 2, main, (), ⟨.openMPJoin, forkCall 1, .other⟩, none⟩,
    ⟨.join, 3, main, (), ⟨.openMPJoin, forkCall 2, .other⟩, none⟩] []

def write (thread : ThreadRef Unit) : Event Unit := ⟨.write, 2, thread, (), ⟨.store, .other 4, .other⟩, none⟩

def twin (id : ℕ) (fork : Event Unit) : ThreadTrace Unit :=
  let thread : ThreadRef Unit := ⟨id, [fork.asFork]⟩
  .mk thread [⟨.barrier, 0, thread, (), ⟨.openMPBarrier, .other 3, .other⟩, none⟩,
    ⟨.lock, 1, thread, (), ⟨.openMPSetLock, lockCall 5 id, .other⟩, none⟩, write thread,
    ⟨.unlock, 3, thread, (), ⟨.openMPUnsetLock, lockCall 6 id, .other⟩, none⟩] []

/-- The threads of a region both write behind a barrier, each under a lock of its own. -/
def program : ProgramTrace Unit := { threads := [mainTrace, twin 1 master, twin 2 other] }

lemma isRegion : IsRegion mainTrace 0 master other where
  master_at := by decide
  other_at := by decide
  joins offset fork hcase := by
    rcases hcase with ⟨rfl, rfl⟩ | ⟨rfl, rfl⟩
    · exact ⟨_, rfl, by decide⟩
    · exact ⟨_, rfl, by decide⟩

lemma isTeam : IsTeam program mainTrace 0 (twin 1 master) (twin 2 other) where
  parent_mem := by simp [program]
  left_mem := by simp [program]
  right_mem := by simp [program]
  region := ⟨master, other, isRegion, rfl, rfl⟩

lemma mem_threads {t : ThreadTrace Unit} (ht : t ∈ program.threads) :
    t = mainTrace ∨ t = twin 1 master ∨ t = twin 2 other := by
  simpa [program] using ht

lemma barriers_of_twin {t : ThreadTrace Unit} (ht : t ∈ program.threads) (hs : t.thread.spawnSite.isSome) :
    t.barriers = [.other 3] := by
  obtain rfl | rfl | rfl := mem_threads ht
  · exact absurd hs (by decide)
  · rfl
  · rfl

lemma teamTrace : TeamTrace program where
  wellFormed := ⟨by decide, by decide, by decide, by decide, by decide⟩
  spawned_once := by decide
  sites t ht := by
    obtain rfl | rfl | rfl := mem_threads ht
    · exact .inl rfl
    · exact .inr ⟨mainTrace, List.mem_cons_self, master, by decide, rfl⟩
    · exact .inr ⟨mainTrace, List.mem_cons_self, other, by decide, rfl⟩
  regions t ht e he htype := by
    obtain rfl | rfl | rfl := mem_threads ht
    · exact ⟨0, master, other, isRegion, Nat.zero_le _, (by decide : ∀ e ∈ mainTrace.events, e.id < 4) e he⟩
    · exact absurd htype ((by decide : ∀ e ∈ (twin 1 master).events, ¬(e.type = .fork ∨ e.type = .join)) e he)
    · exact absurd htype ((by decide : ∀ e ∈ (twin 2 other).events, ¬(e.type = .fork ∨ e.type = .join)) e he)
  openMP := by decide
  aligned parent p left right hteam := by
    obtain ⟨m, o, -, hl, hr⟩ := hteam.region
    rw [barriers_of_twin hteam.left_mem (by simp [hl]), barriers_of_twin hteam.right_mem (by simp [hr])]
  serial := by decide

lemma barriersApart : BarriersApart program where
  once := by decide
  owned s hs t ht hne inst hin hin' := by
    obtain rfl | rfl | rfl := mem_threads hs
    · cases hin
    · obtain rfl | rfl | rfl := mem_threads ht
      · cases hin'
      · exact absurd rfl hne
      · exact ⟨mainTrace, 0, .inl isTeam⟩
    · obtain rfl | rfl | rfl := mem_threads ht
      · cases hin'
      · exact ⟨mainTrace, 0, .inr isTeam⟩
      · exact absurd rfl hne

lemma locksNamed : program.LocksNamed := by
  rw [ProgramTrace.LocksNamed]
  decide

def leftWrite : TraceEvent program := ⟨twin 1 master, write ⟨1, [master.asFork]⟩, by simp [program], by decide⟩

def rightWrite : TraceEvent program := ⟨twin 2 other, write ⟨2, [other.asFork]⟩, by simp [program], by decide⟩

lemma barrier_zero {t : ThreadTrace Unit} (ht : t ∈ program.threads) {i : ℕ} (h : t.isBarrierAt i) :
    i = 0 ∧ t.id ≠ 0 := by
  obtain ⟨e, hget, htype⟩ := (ThreadTrace.isBarrierAt_iff t).mp h
  obtain ⟨he, rfl⟩ := id_of_at teamTrace.wellFormed ht hget
  exact (by decide : ∀ t ∈ program.threads, ∀ e ∈ t.events, e.type = .barrier → e.id = 0 ∧ t.id ≠ 0) t ht e he htype

lemma forks_of_main {t : ThreadTrace Unit} (ht : t ∈ program.threads) {fork : ForkEvent Unit}
    (hsite : t.thread.spawnSite = some fork) : t.id ≠ 0 ∧ fork.pid.tid = 0 ∧ fork.pid.eid < 2 := by
  obtain rfl | rfl | rfl := mem_threads ht
  · cases hsite
  · cases hsite
    decide
  · cases hsite
    decide

lemma lock_own {t : ThreadTrace Unit} (ht : t ∈ program.threads) {e : Event Unit} (he : e ∈ t.events)
    (htype : e.type = .lock) : e.ir.getLockValue = some (.globalVariable t.id false) :=
  (by decide : ∀ t ∈ program.threads, ∀ e ∈ t.events, e.type = .lock →
    e.ir.getLockValue = some (.globalVariable t.id false)) t ht e he htype

lemma unblocked {cut : ℕ → ℕ} {tid : ℕ} (hlt : cut tid < program.interleaving.length tid)
    (hjoin : tid = 0 → cut tid < 2) (hforked : tid ≠ 0 → 2 ≤ cut 0) : Unblocked program.interleaving cut tid := by
  refine ⟨⟨hlt, fun s n hneeds => ?_⟩, ?_⟩
  · change Waits program tid (cut tid) s n at hneeds
    generalize cut tid = i at hneeds hjoin
    cases hneeds with
    | spawned ht hsite =>
      obtain ⟨hne, htid, heid⟩ := forks_of_main ht hsite
      have hcut := hforked hne
      rw [htid]
      omega
    | @join t s p _ m o ht hs hr hsite =>
      have hmain : t.id = 0 := (by decide : ∀ t ∈ program.threads, ∀ e ∈ t.events, e.type = .fork → t.id = 0) t ht m
        (List.mem_of_getElem? hr.master_at.1) hr.master_at.2
      have hcut := hjoin hmain
      omega
    | barrier hst ht hs hphase =>
      rw [(barrier_zero (twins_site teamTrace hst).2.1 hs).1]
      exact Nat.zero_le _
    | team hst ht hsite =>
      obtain ⟨htm, hsm, -⟩ := twins_site teamTrace hst
      obtain ⟨-, htid, heid⟩ := forks_of_main hsm hsite
      have hcut := hforked (barrier_zero htm ht).2
      rw [htid]
      omega
  · rintro lock ⟨t, htrace, e, hget, htype, hlock⟩ s hne ⟨t', htrace', hheld⟩
    obtain ⟨ht, rfl⟩ := trace_mem htrace
    obtain ⟨ht', rfl⟩ := trace_mem htrace'
    obtain ⟨e', he', htype', hlock'⟩ := exists_lock_of_held hheld
    rw [lock_own ht (List.mem_of_getElem? hget) htype] at hlock
    rw [lock_own ht' (List.mem_of_mem_take he') htype', ← hlock] at hlock'
    exact hne (by simpa using hlock')

def afterRuns (tids : List ℕ) : ℕ → ℕ :=
  tids.foldr (fun tid cut => Function.update cut tid (cut tid + 1)) fun _ => 0

lemma meet : Meet (Unblocked program.interleaving) leftWrite.event.pid rightWrite.event.pid := by
  have hstart : Reachable (Unblocked program.interleaving) (afterRuns []) := .refl
  have hforked : Reachable (Unblocked program.interleaving) (afterRuns [0, 0]) :=
    .tail (.tail hstart (.run 0 (unblocked (by decide) (by decide) (by decide))))
      (.run 0 (unblocked (by decide) (by decide) (by decide)))
  have hleft : Reachable (Unblocked program.interleaving) (afterRuns [1, 1, 0, 0]) :=
    .tail (.tail hforked (.run 1 (unblocked (by decide) (by decide) (by decide))))
      (.run 1 (unblocked (by decide) (by decide) (by decide)))
  have hright : Reachable (Unblocked program.interleaving) (afterRuns [2, 2, 1, 1, 0, 0]) :=
    .tail (.tail hleft (.run 2 (unblocked (by decide) (by decide) (by decide))))
      (.run 2 (unblocked (by decide) (by decide) (by decide)))
  exact ⟨_, hright, ⟨rfl, unblocked (by decide) (by decide) (by decide)⟩, rfl,
    unblocked (by decide) (by decide) (by decide)⟩

theorem meeting_writes_kept : ∃ _ : LinearOrder Value, ∃ graph, buildHappensBefore program = .ok graph ∧
    graph.areParallel leftWrite.event.pid rightWrite.event.pid = true ∧ ∀ lockSet, LockSet.Queried program lockSet →
      ∃ lockSet', lockSet.sharesLock leftWrite rightWrite = .ok (false, lockSet') :=
  ⟨SharedMutex.addressOrder, @meeting_accesses_kept _ program _ teamTrace barriersApart leftWrite rightWrite
    SharedMutex.addressOrder locksNamed (.inr rfl) (.inr rfl) (by decide) meet⟩

theorem writes_parallel_iff_meet : ∃ graph, buildHappensBefore program = .ok graph ∧
    (graph.areParallel leftWrite.event.pid rightWrite.event.pid = true ↔
      Meet (Enabled program.interleaving) leftWrite.event.pid rightWrite.event.pid) :=
  areParallel_iff_meet teamTrace barriersApart (by rw [HandlesOnce]; decide) (.inr rfl) (.inr rfl) (by decide)

end TwoWriters

end OpenRace
