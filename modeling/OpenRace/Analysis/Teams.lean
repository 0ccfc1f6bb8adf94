import OpenRace.Analysis.ConstructionEdges
import OpenRace.Library.PhaseClock
import OpenRace.Trace.Phases

/-! Traces of fork-join programs whose regions are run by teams of two threads. -/

namespace OpenRace

open LLVM Library.PhaseClock

variable {Ctx : Type}

/-- A region on its parent thread: two forks, then the joins through their handles. -/
structure IsRegion (parent : ThreadTrace Ctx) (p : ℕ) (master other : Event Ctx) : Prop where
  master_at : parent.events[p]? = some master ∧ master.type = .fork
  other_at : parent.events[p + 1]? = some other ∧ other.type = .fork
  joins : ∀ offset fork, (offset = 2 ∧ fork = master) ∨ (offset = 3 ∧ fork = other) →
    ∃ join, parent.events[p + offset]? = some join ∧ join.type = .join ∧ join.forkEvent = none ∧
      join.ir.getThreadHandle = fork.ir.getThreadHandle

structure IsTeam (program : ProgramTrace Ctx) (parent : ThreadTrace Ctx) (p : ℕ)
    (left right : ThreadTrace Ctx) : Prop where
  parent_mem : parent ∈ program.threads
  left_mem : left ∈ program.threads
  right_mem : right ∈ program.threads
  region : ∃ master other, IsRegion parent p master other ∧
    left.thread.spawnSite = some master.asFork ∧ right.thread.spawnSite = some other.asFork

/-- Every fork and join belongs to a region, and twins run the same sequence of barriers. -/
structure TeamTrace (program : ProgramTrace Ctx) : Prop where
  wellFormed : program.WellFormed
  spawned_once : ∀ s ∈ program.threads, ∀ t ∈ program.threads,
    s.thread.spawnSite = t.thread.spawnSite → s.thread.spawnSite.isSome → s.id = t.id
  sites : ∀ t ∈ program.threads, t.thread.spawnSites = [] ∨ ∃ parent ∈ program.threads,
    ∃ fork ∈ parent.getForkEvents, t.thread.spawnSites = fork.asFork :: parent.thread.spawnSites
  regions : ∀ t ∈ program.threads, ∀ e ∈ t.events, e.type = .fork ∨ e.type = .join →
    ∃ p master other, IsRegion t p master other ∧ p ≤ e.id ∧ e.id < p + 4
  openMP : ∀ t ∈ program.threads, ∀ e ∈ t.events, e.type = .barrier → e.ir.type = .openMPBarrier
  aligned : ∀ parent p left right, IsTeam program parent p left right → left.barriers = right.barriers
  /-- A barrier outside every region does not come again. -/
  serial : ∀ t ∈ program.threads, t.thread.spawnSites = [] → t.barriers.Nodup

def Twins (program : ProgramTrace Ctx) (s t : ThreadTrace Ctx) : Prop :=
  ∃ parent p, IsTeam program parent p s t ∨ IsTeam program parent p t s

/-- No barrier instruction is visited twice by one thread, or by the threads of two teams. -/
structure BarriersApart (program : ProgramTrace Ctx) : Prop where
  once : ∀ t ∈ program.threads, t.barriers.Nodup
  owned : ∀ s ∈ program.threads, ∀ t ∈ program.threads, s.id ≠ t.id →
    ∀ inst ∈ s.barriers, inst ∈ t.barriers → Twins program s t

def ProgramTrace.trace (program : ProgramTrace Ctx) (tid : ℕ) : Option (ThreadTrace Ctx) :=
  program.threads.find? (·.id = tid)

namespace TeamClock

def key (program : ProgramTrace Ctx) (pid : EventPID) : ℕ ×ₗ ℕ :=
  match program.trace pid.tid with
  | some t => t.key pid.eid
  | none => toLex (0, pid.eid)

/-- Both forks of a region count as its second one. -/
def siteKey (program : ProgramTrace Ctx) (fork : ForkEvent Ctx) : ℕ ×ₗ ℕ :=
  match program.trace fork.pid.tid with
  | some t =>
    match t.events[fork.pid.eid + 1]? with
    | some next =>
      if next.type = .fork then toLex (2 * t.phase fork.pid.eid, fork.pid.eid + 1)
      else toLex (2 * t.phase fork.pid.eid, fork.pid.eid)
    | none => toLex (2 * t.phase fork.pid.eid, fork.pid.eid)
  | none => toLex (0, 0)

def site (program : ProgramTrace Ctx) (tid : ℕ) : Option (ℕ × (ℕ ×ₗ ℕ)) :=
  match program.trace tid with
  | some t => t.thread.spawnSite.map (fun fork => (fork.pid.tid, siteKey program fork))
  | none => none

def base (program : ProgramTrace Ctx) (tid : ℕ) : List (ℕ ×ₗ ℕ) :=
  match program.trace tid with
  | some t => (t.thread.spawnSites.map (siteKey program)).reverse
  | none => []

variable {program : ProgramTrace Ctx}

lemma trace_eq (hw : program.WellFormed) {t : ThreadTrace Ctx} (ht : t ∈ program.threads) :
    program.trace t.id = some t := by
  cases hfind : program.trace t.id with
  | none => simpa using List.find?_eq_none.mp hfind t ht
  | some s =>
    have hid : s.id = t.id := by simpa using List.find?_some hfind
    have hs := List.mem_of_find?_eq_some hfind
    rw [List.inj_on_of_nodup_map hw.distinct hs ht hid]

lemma trace_mem {tid : ℕ} {t : ThreadTrace Ctx} (h : program.trace tid = some t) :
    t ∈ program.threads ∧ t.id = tid :=
  ⟨List.mem_of_find?_eq_some h, by simpa using List.find?_some h⟩

lemma event_at (hw : program.WellFormed) {t : ThreadTrace Ctx} (ht : t ∈ program.threads)
    {e : Event Ctx} (he : e ∈ t.events) : e.pid = ⟨t.id, e.id⟩ ∧ t.events[e.id]? = some e := by
  refine ⟨by simp [Event.pid, hw.located t ht e he, ThreadTrace.id], ?_⟩
  obtain ⟨i, hi⟩ := List.mem_iff_getElem?.mp he
  have hid : (t.events.map Event.id)[i]? = some e.id := by simp [hi]
  rw [hw.numbered t ht, List.getElem?_range (List.getElem?_eq_some_iff.mp hi).1,
    Option.some.injEq] at hid
  rwa [← hid]

lemma id_of_at (hw : program.WellFormed) {t : ThreadTrace Ctx} (ht : t ∈ program.threads) {i : ℕ}
    {e : Event Ctx} (h : t.events[i]? = some e) : e ∈ t.events ∧ e.id = i := by
  have hid : (t.events.map Event.id)[i]? = some e.id := by simp [h]
  rw [hw.numbered t ht, List.getElem?_range (List.getElem?_eq_some_iff.mp h).1,
    Option.some.injEq] at hid
  exact ⟨List.mem_of_getElem? h, hid.symm⟩

lemma base_site (h : TeamTrace program) (tid parent : ℕ) (k : ℕ ×ₗ ℕ)
    (hs : site program tid = some (parent, k)) : base program tid = base program parent ++ [k] := by
  rw [site] at hs
  split at hs
  · rename_i t htrace
    obtain ⟨ht, rfl⟩ := trace_mem htrace
    cases h.sites t ht with
    | inl hroot => simp [ThreadRef.spawnSite, hroot] at hs
    | inr hchild =>
      obtain ⟨u, hu, fork, hf, hchain⟩ := hchild
      simp only [ThreadRef.spawnSite, hchain, List.head?_cons, Option.map_some, Option.some.injEq,
        Prod.mk.injEq, Event.asFork] at hs
      have hpid := (event_at h.wellFormed hu (mem_getForkEvents.mp hf).1).1
      rw [hpid] at hs
      have ht' : base program t.id = (t.thread.spawnSites.map (siteKey program)).reverse := by
        simp [base, htrace]
      have hu' : base program u.id = (u.thread.spawnSites.map (siteKey program)).reverse := by
        simp [base, trace_eq h.wellFormed hu]
      rw [← hs.1, ht', hu', hchain, ← hs.2]
      simp [Event.asFork, hpid]
  · exact absurd hs (by simp)

def clock (h : TeamTrace program) : Clock EventPID ℕ (ℕ ×ₗ ℕ) where
  strand pid := pid.tid
  key := key program
  site := site program
  base := base program
  base_site := base_site h

lemma key_eq (hw : program.WellFormed) {t : ThreadTrace Ctx} (ht : t ∈ program.threads) (q : ℕ) :
    key program ⟨t.id, q⟩ = t.key q := by
  simp [key, trace_eq hw ht]

lemma key_lt {a b : EventPID} (htid : a.tid = b.tid) (h : a.eid < b.eid) :
    key program a < key program b := by
  rw [key, key, htid]
  split
  · exact ThreadTrace.key_lt _ h
  · rw [Prod.Lex.lt_iff]
    exact Or.inr ⟨rfl, h⟩

lemma key_mono {a b : EventPID} (htid : a.tid = b.tid) (h : a.eid ≤ b.eid) :
    key program a ≤ key program b := by
  obtain hlt | heq := h.lt_or_eq
  · exact (key_lt htid hlt).le
  · rw [EventPID.ext htid heq]

section Regions

variable {t : ThreadTrace Ctx} (hw : program.WellFormed) (ht : t ∈ program.threads)

include hw ht

lemma site_of_spawn {s : ThreadTrace Ctx} (hs : s ∈ program.threads) {fork : Event Ctx}
    (hf : fork ∈ t.getForkEvents) (hsite : s.thread.spawnSite = some fork.asFork) :
    site program s.id = some (t.id, siteKey program fork.asFork) := by
  have hpid := (event_at hw ht (mem_getForkEvents.mp hf).1).1
  simp [site, trace_eq hw hs, hsite, Event.asFork, hpid]

lemma siteKey_eq {fork : Event Ctx} (hf : fork ∈ t.events) :
    ∃ q, siteKey program fork.asFork = toLex (2 * t.phase fork.id, q) ∧
      ((q = fork.id + 1 ∧ ∃ next, t.events[fork.id + 1]? = some next ∧ next.type = .fork) ∨
        (q = fork.id ∧ ∀ next, t.events[fork.id + 1]? = some next → next.type ≠ .fork)) := by
  have hpid := (event_at hw ht hf).1
  simp only [siteKey, Event.asFork, hpid, trace_eq hw ht]
  cases hnext : t.events[fork.id + 1]? with
  | none => exact ⟨fork.id, rfl, Or.inr ⟨rfl, by simp⟩⟩
  | some next =>
    by_cases htype : next.type = .fork
    · exact ⟨fork.id + 1, by simp [htype], Or.inl ⟨rfl, next, rfl, htype⟩⟩
    · refine ⟨fork.id, by simp [htype], Or.inr ⟨rfl, ?_⟩⟩
      intro n hn
      obtain rfl : next = n := by simpa using hn
      exact htype

lemma plain_of_type {e : Event Ctx} (he : e ∈ t.events) (h : e.type ≠ .barrier) :
    t.isBarrierAt e.id = false := by
  simp [ThreadTrace.isBarrierAt, (event_at hw ht he).2, h]

lemma key_le_siteKey {fork : Event Ctx} (hf : fork ∈ t.events) (htype : fork.type = .fork) :
    key program fork.pid ≤ siteKey program fork.asFork := by
  obtain ⟨q, hq, hcases⟩ := siteKey_eq hw ht hf
  rw [(event_at hw ht hf).1, key_eq hw ht,
    ThreadTrace.key_plain t (plain_of_type hw ht hf (by simp [htype])), hq, Prod.Lex.le_iff]
  have hle : fork.id ≤ q := by omega
  exact Or.inr ⟨rfl, hle⟩

end Regions

end TeamClock

end OpenRace
