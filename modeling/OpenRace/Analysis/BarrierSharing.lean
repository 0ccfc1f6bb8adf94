import OpenRace.Analysis.BarrierPhases

/-! Sharing a barrier instruction breaks the separation of phases. -/

namespace OpenRace

open LLVM Library Library.PhaseClock Relation TeamClock

variable {Ctx : Type}

lemma regions_apart {t : ThreadTrace Ctx} {p : ℕ} {m o m' o' : Event Ctx} (hr : IsRegion t p m o)
    (hr' : IsRegion t (p + 1) m' o') : False := by
  obtain ⟨j, hj, hjtype, -⟩ := hr.joins 2 m (Or.inl ⟨rfl, rfl⟩)
  obtain ⟨hother, hotype⟩ := hr'.other_at
  rw [show p + 1 + 1 = p + 2 from rfl, hj, Option.some.injEq] at hother
  simp [← hother, hjtype] at hotype

section Converse

variable {program : ProgramTrace Ctx} (h : TeamTrace program)

include h

lemma twins_region {s t : ThreadTrace Ctx} (hst : Twins program s t) :
    ∃ parent ∈ program.threads, ∃ p m o, IsRegion parent p m o ∧ m.asFork.pid = ⟨parent.id, p⟩ ∧
      o.asFork.pid = ⟨parent.id, p + 1⟩ ∧
      ((s.thread.spawnSite = some m.asFork ∧ t.thread.spawnSite = some o.asFork) ∨
        (s.thread.spawnSite = some o.asFork ∧ t.thread.spawnSite = some m.asFork)) := by
  have hw := h.wellFormed
  have hpid : ∀ {parent : ThreadTrace Ctx} {i : ℕ} {e : Event Ctx}, parent ∈ program.threads →
      parent.events[i]? = some e → e.asFork.pid = ⟨parent.id, i⟩ := by
    intro parent i e hp he
    obtain ⟨hm, hid⟩ := id_of_at hw hp he
    rw [← hid]
    exact (event_at hw hp hm).1
  obtain ⟨parent, p, hteam | hteam⟩ := hst
  · obtain ⟨m, o, hr, hs, ht⟩ := hteam.region
    exact ⟨parent, hteam.parent_mem, p, m, o, hr, hpid hteam.parent_mem hr.master_at.1,
      hpid hteam.parent_mem hr.other_at.1, Or.inl ⟨hs, ht⟩⟩
  · obtain ⟨m, o, hr, ht, hs⟩ := hteam.region
    exact ⟨parent, hteam.parent_mem, p, m, o, hr, hpid hteam.parent_mem hr.master_at.1,
      hpid hteam.parent_mem hr.other_at.1, Or.inr ⟨hs, ht⟩⟩

lemma twins_unique {s t u : ThreadTrace Ctx} (hst : Twins program s t) (hsu : Twins program s u) :
    t = u := by
  have hw := h.wellFormed
  obtain ⟨-, ht, -⟩ := twins_site h hst
  obtain ⟨-, hu, -⟩ := twins_site h hsu
  obtain ⟨q, hq, p, m, o, hr, hm, ho, hcase⟩ := twins_region h hst
  obtain ⟨q', hq', p', m', o', hr', hm', ho', hcase'⟩ := twins_region h hsu
  have hjoin : ∀ {f f' : ForkEvent Ctx} {i i' : ℕ}, s.thread.spawnSite = some f →
      s.thread.spawnSite = some f' → f.pid = ⟨q.id, i⟩ → f'.pid = ⟨q'.id, i'⟩ → q = q' ∧ i = i' := by
    intro f f' i i' hf hf' hi hi'
    obtain rfl := Option.some.inj (hf.symm.trans hf')
    rw [hi, EventPID.mk.injEq] at hi'
    exact ⟨List.inj_on_of_nodup_map hw.distinct hq hq' hi'.1, hi'.2⟩
  have hsame : t.thread.spawnSite = u.thread.spawnSite := by
    rcases hcase with ⟨hs, hts⟩ | ⟨hs, hts⟩ <;> rcases hcase' with ⟨hs', hus⟩ | ⟨hs', hus⟩
    · obtain ⟨rfl, rfl⟩ := hjoin hs hs' hm hm'
      rw [hts, hus, Option.some.inj (hr.other_at.1.symm.trans hr'.other_at.1)]
    · obtain ⟨rfl, rfl⟩ := hjoin hs hs' hm ho'
      exact (regions_apart hr' hr).elim
    · obtain ⟨rfl, rfl⟩ := hjoin hs hs' ho hm'
      exact (regions_apart hr hr').elim
    · obtain ⟨rfl, hpp⟩ := hjoin hs hs' ho ho'
      obtain rfl : p = p' := by omega
      rw [hts, hus, Option.some.inj (hr.master_at.1.symm.trans hr'.master_at.1)]
  have hsome : t.thread.spawnSite.isSome := by
    rcases hcase with ⟨_, hts⟩ | ⟨_, hts⟩ <;> simp [hts]
  exact List.inj_on_of_nodup_map hw.distinct ht hu (h.spawned_once t ht u hu hsame hsome)

lemma exists_twin {t : ThreadTrace Ctx} (ht : t ∈ program.threads) (hroot : t.thread.spawnSites ≠ []) :
    ∃ u, Twins program t u := by
  have hw := h.wellFormed
  obtain hnil | ⟨parent, hp, fork, hf, hsites⟩ := h.sites t ht
  · exact absurd hnil hroot
  · obtain ⟨hfm, hft⟩ := mem_getForkEvents.mp hf
    have hsite : t.thread.spawnSite = some fork.asFork := by simp [ThreadRef.spawnSite, hsites]
    obtain ⟨p, m, o, hr, hlow, hhigh⟩ := h.regions parent hp fork hfm (Or.inl hft)
    have hat := (event_at hw hp hfm).2
    have hfork : fork = m ∨ fork = o := by
      have hpos : fork.id = p ∨ fork.id = p + 1 ∨ fork.id = p + 2 ∨ fork.id = p + 3 := by omega
      have hjoin : ∀ offset e, (offset = 2 ∧ e = m) ∨ (offset = 3 ∧ e = o) →
          fork.id ≠ p + offset := by
        intro offset e hcase hid
        obtain ⟨j, hj, hjtype, -⟩ := hr.joins offset e hcase
        rw [← hid, hat, Option.some.injEq] at hj
        simp [← hj, hft] at hjtype
      rcases hpos with hpos | hpos | hpos | hpos
      · rw [hpos, hr.master_at.1, Option.some.injEq] at hat
        exact Or.inl hat.symm
      · rw [hpos, hr.other_at.1, Option.some.injEq] at hat
        exact Or.inr hat.symm
      · exact absurd hpos (hjoin 2 m (Or.inl ⟨rfl, rfl⟩))
      · exact absurd hpos (hjoin 3 o (Or.inr ⟨rfl, rfl⟩))
    have hspawn : ∀ {i : ℕ} {e : Event Ctx}, parent.events[i]? = some e → e.type = .fork →
        ∃ u ∈ program.threads, u.thread.spawnSite = some e.asFork := fun he htype =>
      hw.spawned parent hp _ (mem_getForkEvents.mpr ⟨(id_of_at hw hp he).1, htype⟩)
    cases hfork with
    | inl hfork =>
      obtain ⟨u, hu, husite⟩ := hspawn hr.other_at.1 hr.other_at.2
      exact ⟨u, parent, p, Or.inl ⟨hp, ht, hu, m, o, hr, hfork ▸ hsite, husite⟩⟩
    | inr hfork =>
      obtain ⟨u, hu, husite⟩ := hspawn hr.master_at.1 hr.master_at.2
      exact ⟨u, parent, p, Or.inr ⟨hp, hu, ht, m, o, hr, husite, hfork ▸ hsite⟩⟩

variable [DecidableEq Ctx]

lemma level_step {c d : EventPID} (hs : TeamStep program c d)
    (hrank : rank (clock h) c = rank (clock h) d) : c = d ∨ ∃ s t, Twins program s t ∧
      ∃ e ∈ s.events, ∃ e' ∈ t.events, s.phase e.id = t.phase e'.id ∧ e'.type = .barrier ∧
        c = e.pid ∧ d = e'.pid := by
  cases hs with
  | order htid hle =>
    left
    have hbase : (clock h).base ((clock h).strand c) = (clock h).base ((clock h).strand d) :=
      congrArg (TeamClock.base program) htid
    obtain hlt | heq := hle.lt_or_eq
    · exact absurd hrank ((rank_lt_sibling (clock h) hbase).mpr (TeamClock.key_lt htid hlt)).ne
    · exact EventPID.ext htid heq
  | fork t ht e he htype hedge =>
    obtain ⟨rfl, hsite⟩ := fork_site h ht he htype hedge
    have hsite' : (clock h).site ((clock h).strand d) = some ((clock h).strand e.pid, _) := hsite
    have hlt := rank_lt_fork (clock h) hsite' (key_le_siteKey h.wellFormed ht he htype)
    exact absurd hrank hlt.ne
  | join t ht e he htype hedge =>
    obtain ⟨k, hsite, hk⟩ := join_site h ht he htype hedge
    have hsite' : (clock h).site ((clock h).strand c) = some ((clock h).strand d, k) := hsite
    exact absurd hrank (rank_lt_join (clock h) hsite' hk).ne
  | barrier s t hst e e' he he' htype htype' hphase ha hb =>
    exact Or.inr ⟨s, t, hst, e, he, e', he', hphase, htype', ha, hb⟩

lemma cycle_twins {s t : ThreadTrace Ctx} (hs : s ∈ program.threads) (ht : t ∈ program.threads)
    (hne : s.id ≠ t.id) {x y : Event Ctx} (hx : x ∈ s.events) (hy : y ∈ t.events)
    (hxt : x.type = .barrier) (hxy : TeamOrder program x.pid y.pid)
    (hyx : TeamOrder program y.pid x.pid) :
    Twins program s t ∧ s.phase x.id = t.phase y.id := by
  have hw := h.wellFormed
  have hsame : ∀ {u v : ThreadTrace Ctx} {e e' : Event Ctx}, u ∈ program.threads →
      v ∈ program.threads → e ∈ u.events → e' ∈ v.events → e.pid = e'.pid → u = v ∧ e.id = e'.id := by
    intro u v e e' hu hv he he' hpid
    rw [(event_at hw hu he).1, (event_at hw hv he').1, EventPID.mk.injEq] at hpid
    exact ⟨List.inj_on_of_nodup_map hw.distinct hu hv hpid.1, hpid.2⟩
  let Partner : EventPID → Prop := fun c => c = x.pid ∨ ∃ u, Twins program s u ∧
    ∃ e ∈ u.events, s.phase x.id = u.phase e.id ∧ c = e.pid
  have hpartner : Partner y.pid := by
    refine cycle_induct (clock h) (fun a b hs => TeamStep.lawful h hs) (Or.inl rfl) ?_ hxy hyx
    intro c d hc hstep hrank
    rcases level_step h hstep hrank with rfl | ⟨v, w, hvw, e, he, e', he', hphase, htype', rfl, rfl⟩
    · exact hc
    · obtain ⟨hv, hwm, -⟩ := twins_site h hvw
      rcases hc with hc | ⟨u, hsu, f, hf, hxf, hc⟩
      · obtain ⟨rfl, heid⟩ := hsame hv hs he hx hc
        exact Or.inr ⟨w, hvw, e', he', by rw [← heid, hphase], rfl⟩
      · -- the partner of the partner is the event itself
        obtain ⟨-, hu, -⟩ := twins_site h hsu
        obtain ⟨rfl, heid⟩ := hsame hv hu he hf hc
        have hus : Twins program v s := by
          obtain ⟨parent, p, hteam⟩ := hsu
          exact ⟨parent, p, hteam.symm⟩
        obtain rfl := twins_unique h hvw hus
        have hback : w.phase e'.id = w.phase x.id := by rw [hxf, ← heid, hphase]
        have hid := w.barrier_phase_inj (barrier_index h hs he' htype').1
          (barrier_index h hs hx hxt).1 hback
        left
        rw [(event_at hw hs he').1, (event_at hw hs hx).1, hid]
  rcases hpartner with hpid | ⟨u, hsu, e, he, hphase, hpid⟩
  · obtain ⟨rfl, -⟩ := hsame ht hs hy hx hpid
    exact absurd rfl hne
  · obtain ⟨rfl, heid⟩ := hsame ht (twins_site h hsu).2.1 hy he hpid
    exact ⟨hsu, by rw [hphase, heid]⟩

lemma apart_of_separate (hsep : BarriersSeparate program) : BarriersApart program := by
  have hw := h.wellFormed
  obtain ⟨state, hstate⟩ := visitProgram_succeeds h
  have hbuilt := built_visitProgram hstate
  obtain ⟨graph, hgraph, -, hreach⟩ := hsep
  obtain rfl : HappensBeforeGraph.precompute state.graph = graph := by
    simpa [buildHappensBefore, hstate, bind, Except.bind, pure, Except.pure] using hgraph
  -- two events of one instruction are ordered both ways by the links of the barrier map
  have hmeet : ∀ s ∈ program.threads, ∀ t ∈ program.threads, s.id ≠ t.id →
      ∀ e ∈ s.events, ∀ e' ∈ t.events, e.type = .barrier → e'.type = .barrier →
        e.ir.inst = e'.ir.inst → Twins program s t ∧ s.phase e.id = t.phase e'.id := by
    intro s hs t ht hne e he e' he' htype htype' hinst
    have hlink := same_instruction_linked (v := (s, e)) (w := (t, e')) hbuilt
      (mem_visits.mpr ⟨hs, he⟩) (mem_visits.mpr ⟨ht, he'⟩) htype htype' hinst
    have htids : ∀ {u v : ThreadTrace Ctx} {f f' : Event Ctx}, u ∈ program.threads →
        v ∈ program.threads → u.id ≠ v.id → f ∈ u.events → f' ∈ v.events →
        Linked state.graph f.pid f'.pid → TeamOrder program f.pid f'.pid := by
      intro u v f f' hu hv hnuv hf hf' hl
      refine (hreach u hu v hv hnuv f hf f' hf').mp ?_
      refine (HappensBeforeGraph.canReach_iff_ordered state.graph ?_).mpr hl.ordered
      rw [(event_at hw hu hf).1, (event_at hw hv hf').1]
      exact hnuv
    exact cycle_twins h hs ht hne he he' htype (htids hs ht hne he he' hlink)
      (htids ht hs hne.symm he' he hlink.symm)
  refine ⟨fun t ht => ?_, fun s hs t ht hne inst hinst hinst' => ?_⟩
  · by_cases hroot : t.thread.spawnSites = []
    · exact h.serial t ht hroot
    · obtain ⟨u, htu⟩ := exists_twin h ht hroot
      obtain ⟨-, hu, hne, hbarriers, -⟩ := twins_site h htu
      rw [List.nodup_iff_getElem?_ne_getElem?]
      intro i j hij hj heq
      obtain ⟨inst, hget⟩ : ∃ inst, t.barriers[j]? = some inst := ⟨_, List.getElem?_eq_getElem hj⟩
      obtain ⟨r, e, he, htype, hinst, hri⟩ := ThreadTrace.exists_barrier_event t (heq.trans hget)
      obtain ⟨q, e', he', htype', hinst', hqj⟩ :=
        ThreadTrace.exists_barrier_event u (hbarriers ▸ hget)
      obtain ⟨hem, heid⟩ := id_of_at hw ht he
      obtain ⟨hem', heid'⟩ := id_of_at hw hu he'
      have hphase := (hmeet t ht u hu hne e hem e' hem' htype htype' (hinst.trans hinst'.symm)).2
      rw [heid, heid', hri, hqj] at hphase
      omega
  · obtain ⟨i, hi⟩ := List.mem_iff_getElem?.mp hinst
    obtain ⟨j, hj⟩ := List.mem_iff_getElem?.mp hinst'
    obtain ⟨r, e, he, htype, he_inst, -⟩ := ThreadTrace.exists_barrier_event s hi
    obtain ⟨q, e', he', htype', he_inst', -⟩ := ThreadTrace.exists_barrier_event t hj
    exact (hmeet s hs t ht hne e (id_of_at hw hs he).1 e' (id_of_at hw ht he').1 htype htype'
      (he_inst.trans he_inst'.symm)).1

/-- The graph separates exactly the phases of the teams if and only if no barrier instruction is
visited twice by a thread or shared by two teams. -/
theorem barriers_separate_iff : BarriersSeparate program ↔ BarriersApart program :=
  ⟨apart_of_separate h, separate_of_apart h⟩

end Converse

namespace RepeatedBarrier

def forkCall (id : ℕ) : Instruction :=
  .call { id, calledOperand := .undef, args := [.alloca id, .undef, .undef] }

def main : ThreadRef Unit := ⟨0, []⟩

def master : Event Unit := ⟨.fork, 0, main, (), ⟨.openMPFork, forkCall 1, .master⟩, none⟩
def other : Event Unit := ⟨.fork, 1, main, (), ⟨.openMPFork, forkCall 2, .other⟩, none⟩

def mainTrace : ThreadTrace Unit :=
  .mk main [master, other, ⟨.join, 2, main, (), ⟨.openMPJoin, forkCall 1, .other⟩, none⟩,
    ⟨.join, 3, main, (), ⟨.openMPJoin, forkCall 2, .other⟩, none⟩] []

def read (thread : ThreadRef Unit) : Event Unit :=
  ⟨.read, 1, thread, (), ⟨.load, .other 4, .other⟩, none⟩

def barrier (thread : ThreadRef Unit) (id : ℕ) : Event Unit :=
  ⟨.barrier, id, thread, (), ⟨.openMPBarrier, .other 3, .other⟩, none⟩

def twin (id : ℕ) (fork : Event Unit) : ThreadTrace Unit :=
  let thread : ThreadRef Unit := ⟨id, [fork.asFork]⟩
  .mk thread [barrier thread 0, read thread, barrier thread 2] []

/-- Both twins come twice to the same barrier, with a read in between. -/
def program : ProgramTrace Unit := { threads := [mainTrace, twin 1 master, twin 2 other] }

lemma isRegion : IsRegion mainTrace 0 master other where
  master_at := by decide
  other_at := by decide
  joins offset fork hcase := by
    rcases hcase with ⟨rfl, rfl⟩ | ⟨rfl, rfl⟩
    · exact ⟨_, rfl, by decide⟩
    · exact ⟨_, rfl, by decide⟩

lemma isTeam : IsTeam program mainTrace 0 (twin 1 master) (twin 2 other) where
  parent_mem := by simp [program]
  left_mem := by simp [program]
  right_mem := by simp [program]
  region := ⟨master, other, isRegion, rfl, rfl⟩

lemma mem_threads {t : ThreadTrace Unit} (ht : t ∈ program.threads) :
    t = mainTrace ∨ t = twin 1 master ∨ t = twin 2 other := by
  simpa [program] using ht

lemma barriers_of_twin {t : ThreadTrace Unit} (ht : t ∈ program.threads)
    (hs : t.thread.spawnSite.isSome) : t.barriers = [.other 3, .other 3] := by
  obtain rfl | rfl | rfl := mem_threads ht
  · exact absurd hs (by decide)
  · rfl
  · rfl

lemma teamTrace : TeamTrace program where
  wellFormed := ⟨by decide, by decide, by decide, by decide, by decide⟩
  spawned_once := by decide
  sites t ht := by
    obtain rfl | rfl | rfl := mem_threads ht
    · exact Or.inl rfl
    · exact Or.inr ⟨mainTrace, List.mem_cons_self, master, by decide, rfl⟩
    · exact Or.inr ⟨mainTrace, List.mem_cons_self, other, by decide, rfl⟩
  regions t ht e he htype := by
    obtain rfl | rfl | rfl := mem_threads ht
    · have hid : ∀ e ∈ mainTrace.events, e.id < 4 := by decide
      exact ⟨0, master, other, isRegion, Nat.zero_le _, hid e he⟩
    · exact absurd htype ((by decide : ∀ e ∈ (twin 1 master).events,
        ¬ (e.type = .fork ∨ e.type = .join)) e he)
    · exact absurd htype ((by decide : ∀ e ∈ (twin 2 other).events,
        ¬ (e.type = .fork ∨ e.type = .join)) e he)
  openMP := by decide
  aligned parent p left right hteam := by
    obtain ⟨m, o, -, hl, hr⟩ := hteam.region
    rw [barriers_of_twin hteam.left_mem (by simp [hl]), barriers_of_twin hteam.right_mem (by simp [hr])]
  serial := by decide

theorem barriers_separate_iff_repeated : BarriersSeparate program ↔ BarriersApart program :=
  barriers_separate_iff teamTrace

/-- The two reads stand in the same phase, and yet one is ordered before the other. -/
theorem same_phase_ordered : ¬ ∃ graph, buildHappensBefore program = .ok graph ∧
    ∀ parent p left right, IsTeam program parent p left right →
      ∀ x ∈ left.events, ∀ y ∈ right.events, x.type ≠ .barrier → y.type ≠ .barrier →
        (graph.areParallel x.pid y.pid = true ↔ left.phase x.id = right.phase y.id) := by
  rintro ⟨graph, hgraph, hphases⟩
  obtain ⟨state, hstate⟩ := visitProgram_succeeds teamTrace
  have hbuilt := built_visitProgram hstate
  obtain rfl : HappensBeforeGraph.precompute state.graph = graph := by
    simpa [buildHappensBefore, hstate, bind, Except.bind, pure, Except.pure] using hgraph
  have hparallel := (hphases _ _ _ _ isTeam (read ⟨1, [master.asFork]⟩) (by decide)
    (read ⟨2, [other.asFork]⟩) (by decide) (by decide) (by decide)).mpr (by decide)
  have hlink : Linked state.graph ⟨1, 2⟩ ⟨2, 0⟩ :=
    same_instruction_linked (v := (twin 1 master, barrier ⟨1, [master.asFork]⟩ 2))
      (w := (twin 2 other, barrier ⟨2, [other.asFork]⟩ 0)) hbuilt
      (mem_visits.mpr ⟨isTeam.left_mem, by decide⟩) (mem_visits.mpr ⟨isTeam.right_mem, by decide⟩)
      rfl rfl rfl
  have hstart : HappensBeforeGraph.Ordered state.graph ⟨1, 1⟩ ⟨1, 2⟩ :=
    .single (Or.inl ⟨rfl, by decide⟩)
  have hend : HappensBeforeGraph.Ordered state.graph ⟨2, 0⟩ ⟨2, 1⟩ :=
    .single (Or.inl ⟨rfl, by decide⟩)
  have hreach := (HappensBeforeGraph.canReach_iff_ordered state.graph (by decide)).mpr
    ((hstart.trans hlink.ordered).trans hend)
  change (!(HappensBeforeGraph.precompute state.graph).canReach ⟨1, 1⟩ ⟨2, 1⟩ && _) = true at hparallel
  rw [hreach] at hparallel
  exact absurd hparallel (by simp)

end RepeatedBarrier

end OpenRace
