import OpenRace.Analysis.Teams

/-! The edges of the graph of a team trace keep the order of its clock. -/

namespace OpenRace.TeamClock

open LLVM Library.PhaseClock

variable {Ctx : Type} {program : ProgramTrace Ctx} {t : ThreadTrace Ctx}

section Handles

variable (hw : program.WellFormed) (ht : t ∈ program.threads)

include hw ht

lemma first_fork_le {handle : Value} {first fork : Event Ctx}
    (hfirst : (forksThrough handle t.events).head? = some first)
    (hf : fork ∈ forksThrough handle t.events) : first.id ≤ fork.id := by
  have hsorted : t.events.Pairwise (fun a b => a.id < b.id) := by
    have hrange : (t.events.map Event.id).Pairwise (· < ·) := hw.numbered t ht ▸ List.pairwise_lt_range
    exact List.pairwise_map.mp hrange
  have hthrough : (forksThrough handle t.events).Pairwise (fun a b => a.id < b.id) :=
    hsorted.filter _
  cases hl : forksThrough handle t.events with
  | nil => simp [hl] at hfirst
  | cons e rest =>
    obtain rfl : e = first := by simpa [hl] using hfirst
    rw [hl] at hf hthrough
    cases List.mem_cons.mp hf with
    | inl hf => rw [hf]
    | inr hf => exact ((List.pairwise_cons.mp hthrough).1 fork hf).le

lemma join_in_region {p : ℕ} {master other join : Event Ctx} (hr : IsRegion t p master other)
    (hj : join ∈ t.events) (htype : join.type = .join) (hlow : p ≤ join.id) (hhigh : join.id < p + 4) :
    p + 2 ≤ join.id ∧ join.forkEvent = none ∧ ∃ fork ∈ t.events, fork.type = .fork ∧
      fork.id ≤ p + 1 ∧ join.ir.getThreadHandle = fork.ir.getThreadHandle := by
  have hat := (event_at hw ht hj).2
  obtain ⟨hmaster, hmtype⟩ := hr.master_at
  obtain ⟨hother, hotype⟩ := hr.other_at
  have hnot : ∀ e : Event Ctx, t.events[join.id]? = some e → e.type = .fork → False := by
    intro e he hfork
    obtain rfl : join = e := by simpa [hat] using he
    simp [htype] at hfork
  have hne : join.id ≠ p := fun h => hnot master (by rw [h, hmaster]) hmtype
  have hne' : join.id ≠ p + 1 := fun h => hnot other (by rw [h, hother]) hotype
  have hoffset : ∀ offset fork, (offset = 2 ∧ fork = master) ∨ (offset = 3 ∧ fork = other) →
      join.id = p + offset →
      join.forkEvent = none ∧ join.ir.getThreadHandle = fork.ir.getThreadHandle := by
    intro offset fork hcase hid
    obtain ⟨j, hj', _, hnone, hhandle⟩ := hr.joins offset fork hcase
    rw [← hid, hat, Option.some.injEq] at hj'
    rw [hj']
    exact ⟨hnone, hhandle⟩
  obtain ⟨hmm, hmid⟩ := id_of_at hw ht hmaster
  obtain ⟨hom, hoid⟩ := id_of_at hw ht hother
  have hpos : join.id = p + 2 ∨ join.id = p + 3 := by omega
  cases hpos with
  | inl hpos =>
    obtain ⟨hnone, hhandle⟩ := hoffset 2 master (Or.inl ⟨rfl, rfl⟩) hpos
    exact ⟨by omega, hnone, master, hmm, hmtype, by omega, hhandle⟩
  | inr hpos =>
    obtain ⟨hnone, hhandle⟩ := hoffset 3 other (Or.inr ⟨rfl, rfl⟩) hpos
    exact ⟨by omega, hnone, other, hom, hotype, by omega, hhandle⟩

lemma siteKey_lt_join {p : ℕ} {master other first join : Event Ctx} (hr : IsRegion t p master other)
    (hf : first ∈ t.events) (hfirst : first.id ≤ p + 1) (hj : join ∈ t.events)
    (htype : join.type = .join) (hlow : p + 2 ≤ join.id) :
    siteKey program first.asFork < key program join.pid := by
  obtain ⟨q, hq, hcases⟩ := siteKey_eq hw ht hf
  have hlt : q < join.id := by
    rcases hcases with ⟨rfl, next, hnext, hfork⟩ | ⟨rfl, _⟩
    · by_contra hge
      have hid : first.id + 1 = p + 2 := by omega
      obtain ⟨j, hj', hjtype, _⟩ := hr.joins 2 master (Or.inl ⟨rfl, rfl⟩)
      rw [hid, hj', Option.some.injEq] at hnext
      simp [← hnext, hjtype] at hfork
    · omega
  have hphase : t.phase first.id ≤ t.phase join.id := t.phase_mono (by omega)
  rw [(event_at hw ht hj).1, key_eq hw ht,
    ThreadTrace.key_plain t (plain_of_type hw ht hj (by simp [htype])), hq, Prod.Lex.lt_iff]
  simp only [ofLex_toLex]
  omega

end Handles

variable [DecidableEq Ctx] (h : TeamTrace program)

include h

lemma forkEdge_spec {e : Event Ctx} (ht : t ∈ program.threads) (he : e ∈ t.events)
    (htype : e.type = .fork) : ∃ s ∈ program.threads, s.thread.spawnSite = some e.asFork ∧
      forkEdge program e = .ok (s.events.head?.map (fun first => (e.pid, first.pid))) := by
  obtain ⟨s, hs, hforked, hsite⟩ :=
    getForkedThread_spawned h.wellFormed ht (mem_getForkEvents.mpr ⟨he, htype⟩)
  exact ⟨s, hs, hsite, by rw [forkEdge, hforked]; rfl⟩

lemma fork_site {e : Event Ctx} {a b : EventPID} (ht : t ∈ program.threads) (he : e ∈ t.events)
    (htype : e.type = .fork) (hedge : forkEdge program e = .ok (some (a, b))) :
    a = e.pid ∧ site program b.tid = some (a.tid, siteKey program e.asFork) := by
  obtain ⟨s, hs, hsite, hvalue⟩ := forkEdge_spec h ht he htype
  rw [hvalue, Except.ok.injEq, Option.map_eq_some_iff] at hedge
  obtain ⟨first, hfirst, hpair⟩ := hedge
  obtain ⟨rfl, rfl⟩ := Prod.mk.injEq .. ▸ hpair
  have hfm := List.mem_of_mem_head? hfirst
  refine ⟨rfl, ?_⟩
  rw [(event_at h.wellFormed hs hfm).1, (event_at h.wellFormed ht he).1]
  exact site_of_spawn h.wellFormed ht hs (mem_getForkEvents.mpr ⟨he, htype⟩) hsite

lemma fork_lawful {e : Event Ctx} {a b : EventPID} (ht : t ∈ program.threads) (he : e ∈ t.events)
    (htype : e.type = .fork) (hedge : forkEdge program e = .ok (some (a, b))) :
    Lawful (clock h) a b := by
  obtain ⟨rfl, hsite⟩ := fork_site h ht he htype hedge
  exact .fork _ hsite (key_le_siteKey h.wellFormed ht he htype)

lemma joinEdge_spec {e : Event Ctx} (ht : t ∈ program.threads) (he : e ∈ t.events)
    (htype : e.type = .join) : ∃ s ∈ program.threads, ∃ first ∈ t.getForkEvents,
      s.thread.spawnSite = some first.asFork ∧ siteKey program first.asFork < key program e.pid ∧
      joinEdge program t e = .ok (s.events.getLast?.map (fun last => (last.pid, e.pid))) := by
  have hw := h.wellFormed
  obtain ⟨p, master, other, hr, hlow, hhigh⟩ := h.regions t ht e he (Or.inr htype)
  obtain ⟨hafter, hnone, fork, hf, hftype, hfid, hhandle⟩ :=
    join_in_region hw ht hr he htype hlow hhigh
  obtain ⟨handle, hv⟩ := Option.isSome_iff_exists.mp (hw.handled t ht e he (Or.inr htype))
  have hfm : fork ∈ forksThrough handle t.events :=
    mem_forksThrough.mpr ⟨hf, hftype, by simp [Event.hasHandle, ← hhandle, hv]⟩
  cases hfirst : (forksThrough handle t.events).head? with
  | none =>
    rw [List.head?_eq_none_iff.mp hfirst] at hfm
    exact absurd hfm List.not_mem_nil
  | some first =>
    have hle := first_fork_le hw ht hfirst hfm
    obtain ⟨hfm', hft', -⟩ := mem_forksThrough.mp (List.mem_of_mem_head? hfirst)
    have hforks := mem_getForkEvents.mpr ⟨hfm', hft'⟩
    obtain ⟨s, hs, hforked, hsite⟩ := getForkedThread_spawned hw ht hforks
    refine ⟨s, hs, first, hforks, hsite,
      siteKey_lt_join hw ht hr hfm' (by omega) he htype hafter, ?_⟩
    have hcode := found_exact hw ht hnone hv hfirst
    have hjoined : getJoinedThread program t e = .ok (some s) := by
      rw [getJoinedThread, hcode]
      change (do return some (← getForkedThread first.asFork program)) = _
      rw [hforked]
      rfl
    rw [joinEdge, hjoined]
    rfl

lemma join_site {e : Event Ctx} {a b : EventPID} (ht : t ∈ program.threads) (he : e ∈ t.events)
    (htype : e.type = .join) (hedge : joinEdge program t e = .ok (some (a, b))) :
    ∃ k, site program a.tid = some (b.tid, k) ∧ k < key program b := by
  obtain ⟨s, hs, first, hf, hsite, hlt, hvalue⟩ := joinEdge_spec h ht he htype
  rw [hvalue, Except.ok.injEq, Option.map_eq_some_iff] at hedge
  obtain ⟨last, hlast, hpair⟩ := hedge
  obtain ⟨rfl, rfl⟩ := Prod.mk.injEq .. ▸ hpair
  have hlm := List.mem_of_getLast? hlast
  refine ⟨siteKey program first.asFork, ?_, hlt⟩
  rw [(event_at h.wellFormed hs hlm).1, (event_at h.wellFormed ht he).1]
  exact site_of_spawn h.wellFormed ht hs hf hsite

lemma join_lawful {e : Event Ctx} {a b : EventPID} (ht : t ∈ program.threads) (he : e ∈ t.events)
    (htype : e.type = .join) (hedge : joinEdge program t e = .ok (some (a, b))) :
    Lawful (clock h) a b := by
  obtain ⟨k, hsite, hlt⟩ := join_site h ht he htype hedge
  exact .join k hsite hlt

end OpenRace.TeamClock
