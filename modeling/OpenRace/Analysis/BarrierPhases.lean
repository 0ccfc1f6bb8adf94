import OpenRace.Analysis.TeamEdges

/-! Barriers order the phases of a team, when every barrier belongs to one team. -/

namespace OpenRace

open LLVM Library Library.PhaseClock Relation TeamClock

variable {Ctx : Type}

section Twins

variable {program : ProgramTrace Ctx} (h : TeamTrace program)

include h

lemma team_site {parent left right : ThreadTrace Ctx} {p : ℕ}
    (ht : IsTeam program parent p left right) :
    left.id ≠ right.id ∧ ∃ k, site program left.id = some (parent.id, k) ∧
      site program right.id = some (parent.id, k) := by
  have hw := h.wellFormed
  obtain ⟨master, other, hr, hleft, hright⟩ := ht.region
  obtain ⟨hmm, hmid⟩ := id_of_at hw ht.parent_mem hr.master_at.1
  obtain ⟨hom, hoid⟩ := id_of_at hw ht.parent_mem hr.other_at.1
  have hlsite := site_of_spawn hw ht.parent_mem ht.left_mem
    (mem_getForkEvents.mpr ⟨hmm, hr.master_at.2⟩) hleft
  have hrsite := site_of_spawn hw ht.parent_mem ht.right_mem
    (mem_getForkEvents.mpr ⟨hom, hr.other_at.2⟩) hright
  have hsame : siteKey program master.asFork = siteKey program other.asFork := by
    obtain ⟨j, hj, hjtype, -⟩ := hr.joins 2 master (Or.inl ⟨rfl, rfl⟩)
    obtain ⟨q, hq, hcases⟩ := siteKey_eq hw ht.parent_mem hmm
    obtain ⟨q', hq', hcases'⟩ := siteKey_eq hw ht.parent_mem hom
    rw [hmid] at hcases hq
    rw [hoid] at hcases' hq'
    have hqp : q = p + 1 := by
      rcases hcases with ⟨hq, _⟩ | ⟨_, hnone⟩
      · exact hq
      · exact absurd hr.other_at.2 (hnone other hr.other_at.1)
    have hqp' : q' = p + 1 := by
      rcases hcases' with ⟨_, next, hnext, hfork⟩ | ⟨hq, _⟩
      · rw [hj, Option.some.injEq] at hnext
        simp [← hnext, hjtype] at hfork
      · exact hq
    have hplain : parent.isBarrierAt p = false := by
      simp [ThreadTrace.isBarrierAt, hr.master_at.1, hr.master_at.2]
    have hphase : parent.phase (p + 1) = parent.phase p := by
      rw [ThreadTrace.phase_succ, hplain]
      simp
    rw [hq, hq', hqp, hqp', hphase]
  refine ⟨?_, siteKey program master.asFork, hlsite, hsame ▸ hrsite⟩
  intro heq
  have hthreads := List.inj_on_of_nodup_map hw.distinct ht.left_mem ht.right_mem heq
  rw [hthreads, hright, Option.some.injEq] at hleft
  have hids := congrArg (fun fork => fork.pid.eid) hleft
  have hids' : other.id = master.id := hids
  omega

lemma twins_site {s t : ThreadTrace Ctx} (hst : Twins program s t) :
    s ∈ program.threads ∧ t ∈ program.threads ∧ s.id ≠ t.id ∧ s.barriers = t.barriers ∧
      ∃ u k, site program s.id = some (u, k) ∧ site program t.id = some (u, k) := by
  obtain ⟨parent, p, hteam | hteam⟩ := hst
  · obtain ⟨hne, k, hs, ht⟩ := team_site h hteam
    exact ⟨hteam.left_mem, hteam.right_mem, hne, h.aligned _ _ _ _ hteam, parent.id, k, hs, ht⟩
  · obtain ⟨hne, k, ht, hs⟩ := team_site h hteam
    exact ⟨hteam.right_mem, hteam.left_mem, hne.symm, (h.aligned _ _ _ _ hteam).symm, parent.id, k,
      hs, ht⟩

lemma barrier_index {t : ThreadTrace Ctx} (ht : t ∈ program.threads) {e : Event Ctx}
    (he : e ∈ t.events) (htype : e.type = .barrier) :
    t.isBarrierAt e.id ∧ t.barriers[t.phase e.id]? = some e.ir.inst := by
  have hat := (event_at h.wellFormed ht he).2
  exact ⟨(ThreadTrace.isBarrierAt_iff t).mpr ⟨e, hat, htype⟩, ThreadTrace.barriers_at t hat htype⟩

lemma twins_lawful {s t : ThreadTrace Ctx} (hst : Twins program s t) {e e' : Event Ctx}
    (he : e ∈ s.events) (he' : e' ∈ t.events) (htype : e.type = .barrier)
    (htype' : e'.type = .barrier) (hphase : s.phase e.id = t.phase e'.id) :
    Lawful (clock h) e.pid e'.pid := by
  obtain ⟨hs, ht, -, -, u, k, hsite, hsite'⟩ := twins_site h hst
  have hw := h.wellFormed
  have hp := (event_at hw hs he).1
  have hp' := (event_at hw ht he').1
  rw [hp, hp']
  refine .meet u k hsite hsite' ?_
  change key program ⟨s.id, e.id⟩ = key program ⟨t.id, e'.id⟩
  rw [key_eq hw hs, key_eq hw ht, ThreadTrace.key_barrier s (barrier_index h hs he htype).1,
    ThreadTrace.key_barrier t (barrier_index h ht he' htype').1, hphase]

omit h in
lemma nodup_index {l : List Instruction} (hl : l.Nodup) {i j : ℕ} {inst : Instruction}
    (hi : l[i]? = some inst) (hj : l[j]? = some inst) : i = j := by
  obtain ⟨hilt, hieq⟩ := List.getElem?_eq_some_iff.mp hi
  obtain ⟨hjlt, hjeq⟩ := List.getElem?_eq_some_iff.mp hj
  exact (List.Nodup.getElem_inj_iff hl).mp (hieq.trans hjeq.symm)

lemma same_barrier (hb : BarriersApart program) {s t : ThreadTrace Ctx} (hs : s ∈ program.threads)
    (ht : t ∈ program.threads) {e e' : Event Ctx} (he : e ∈ s.events) (he' : e' ∈ t.events)
    (htype : e.type = .barrier) (htype' : e'.type = .barrier) (hinst : e.ir.inst = e'.ir.inst) :
    e.pid = e'.pid ∨ (Twins program s t ∧ s.phase e.id = t.phase e'.id) := by
  have hw := h.wellFormed
  obtain ⟨hat, hget⟩ := barrier_index h hs he htype
  obtain ⟨hat', hget'⟩ := barrier_index h ht he' htype'
  rw [hinst] at hget
  by_cases hid : s.id = t.id
  · left
    obtain rfl := List.inj_on_of_nodup_map hw.distinct hs ht hid
    have hphase := nodup_index (hb.once s hs) hget hget'
    have heid := s.barrier_phase_inj hat hat' hphase
    rw [(event_at hw hs he).1, (event_at hw hs he').1, heid]
  · right
    have htwins := hb.owned s hs t ht hid _ (List.mem_of_getElem? hget) (List.mem_of_getElem? hget')
    obtain ⟨-, -, -, hbarriers, -⟩ := twins_site h htwins
    exact ⟨htwins, nodup_index (hb.once s hs) hget (hbarriers ▸ hget')⟩

end Twins

variable [DecidableEq Ctx]

inductive TeamStep (program : ProgramTrace Ctx) (a b : EventPID) : Prop
  | order (htid : a.tid = b.tid) (hle : a.eid ≤ b.eid)
  | fork (t : ThreadTrace Ctx) (ht : t ∈ program.threads) (e : Event Ctx) (he : e ∈ t.events)
      (htype : e.type = .fork) (hedge : forkEdge program e = .ok (some (a, b)))
  | join (t : ThreadTrace Ctx) (ht : t ∈ program.threads) (e : Event Ctx) (he : e ∈ t.events)
      (htype : e.type = .join) (hedge : joinEdge program t e = .ok (some (a, b)))
  | barrier (s t : ThreadTrace Ctx) (hst : Twins program s t) (e e' : Event Ctx) (he : e ∈ s.events)
      (he' : e' ∈ t.events) (htype : e.type = .barrier) (htype' : e'.type = .barrier)
      (hphase : s.phase e.id = t.phase e'.id) (ha : a = e.pid) (hb : b = e'.pid)

abbrev TeamOrder (program : ProgramTrace Ctx) : EventPID → EventPID → Prop :=
  ReflTransGen (TeamStep program)

/-- Twins are parallel exactly within a phase, and on different threads barriers order nothing but
what the barriers of each team order. -/
def BarriersSeparate (program : ProgramTrace Ctx) : Prop :=
  ∃ graph, buildHappensBefore program = .ok graph ∧
    (∀ parent p left right, IsTeam program parent p left right →
      ∀ x ∈ left.events, ∀ y ∈ right.events, x.type ≠ .barrier → y.type ≠ .barrier →
        (graph.areParallel x.pid y.pid = true ↔ left.phase x.id = right.phase y.id)) ∧
    ∀ s ∈ program.threads, ∀ t ∈ program.threads, s.id ≠ t.id →
      ∀ x ∈ s.events, ∀ y ∈ t.events,
        (graph.canReach x.pid y.pid = true ↔ TeamOrder program x.pid y.pid)

variable {program : ProgramTrace Ctx} (h : TeamTrace program)

include h

lemma visitProgram_succeeds : ∃ state, ConstructionState.visitProgram program = .ok state := by
  rw [visitProgram_eq]
  refine visits_succeed program.visits (fun visit hv => ?_) _
  obtain ⟨ht, he⟩ := mem_visits.mp hv
  refine ⟨fun htype => ?_, fun htype => ?_, h.openMP _ ht _ he⟩
  · obtain ⟨s, -, -, hedge⟩ := forkEdge_spec h ht he htype
    exact ⟨_, hedge⟩
  · obtain ⟨s, -, first, -, -, -, hedge⟩ := joinEdge_spec h ht he htype
    exact ⟨_, hedge⟩

lemma TeamStep.lawful {a b : EventPID} (hs : TeamStep program a b) : Lawful (clock h) a b := by
  cases hs with
  | order htid hle => exact .along htid (TeamClock.key_mono htid hle)
  | fork t ht e he htype hedge => exact fork_lawful h ht he htype hedge
  | join t ht e he htype hedge => exact join_lawful h ht he htype hedge
  | barrier s t hst e e' he he' htype htype' hphase ha hb =>
    rw [ha, hb]
    exact twins_lawful h hst he he' htype htype' hphase

lemma teamOrder_changes_phase {left right : ThreadTrace Ctx} (ht : Twins program left right)
    {x y : Event Ctx} (hx : x ∈ left.events) (hy : y ∈ right.events) (hxt : x.type ≠ .barrier)
    (hyt : y.type ≠ .barrier) (hpath : TeamOrder program x.pid y.pid) :
    left.phase x.id ≠ right.phase y.id := by
  intro heq
  have hw := h.wellFormed
  obtain ⟨hl, hr, hne, -, u, k, hsite, hsite'⟩ := twins_site h ht
  rw [(event_at hw hl hx).1, (event_at hw hr hy).1] at hpath
  have hxs : (clock h).site ((clock h).strand ⟨left.id, x.id⟩) = some (u, k) := hsite
  have hys : (clock h).site ((clock h).strand ⟨right.id, y.id⟩) = some (u, k) := hsite'
  obtain ⟨a, b, hstep, ha, hb, hbs, hlow, hhigh⟩ := meeting_between (clock h)
    (fun a b hs => TeamStep.lawful h hs) hxs hys hne hpath
  change a.tid = left.id at ha
  change b.tid ≠ left.id at hb
  change site program b.tid = some (u, k) at hbs
  cases hstep with
  | order htid _ => exact hb (htid.symm.trans ha)
  | fork t ht e he htype hedge =>
    obtain ⟨-, hs⟩ := fork_site h ht he htype hedge
    rw [hbs, ha, Option.some.injEq, Prod.mk.injEq] at hs
    exact site_ne_self (clock h) hsite hs.1
  | join t ht e he htype hedge =>
    obtain ⟨j, hs, _⟩ := join_site h ht he htype hedge
    rw [ha, hsite, Option.some.injEq, Prod.mk.injEq] at hs
    exact site_ne_self (clock h) hbs hs.1
  | barrier s t hst e e' he _ htype _ _ hae _ =>
    have hs := (twins_site h hst).1
    have hpid := (event_at hw hs he).1
    have hsid : s.id = left.id := by rw [← ha, hae, hpid]
    obtain rfl := List.inj_on_of_nodup_map hw.distinct hs hl hsid
    rw [hae, hpid] at hlow hhigh
    change TeamClock.key program _ ≤ TeamClock.key program _ at hlow
    change TeamClock.key program _ ≤ TeamClock.key program _ at hhigh
    rw [key_eq hw hs, key_eq hw hs] at hlow
    rw [key_eq hw hs, key_eq hw hr] at hhigh
    exact ThreadTrace.no_barrier_between s right s (plain_of_type hw hs hx hxt)
      (plain_of_type hw hr hy hyt) (barrier_index h hs he htype).1 rfl heq.symm ⟨hlow, hhigh⟩

section Built

variable {state : ConstructionState} (hbuilt : Built program program.visits state)

include hbuilt

lemma twin_barriers_linked {s t : ThreadTrace Ctx} (hst : Twins program s t) {e e' : Event Ctx}
    (he : e ∈ s.events) (he' : e' ∈ t.events) (htype : e.type = .barrier)
    (htype' : e'.type = .barrier) (hphase : s.phase e.id = t.phase e'.id) :
    Linked state.graph e.pid e'.pid := by
  obtain ⟨hs, ht, -, hbarriers, -⟩ := twins_site h hst
  have hget := (barrier_index h hs he htype).2
  have hget' := (barrier_index h ht he' htype').2
  have hinst : e.ir.inst = e'.ir.inst := by
    rw [hphase, hbarriers, hget', Option.some.injEq] at hget
    exact hget.symm
  exact same_instruction_linked (v := (s, e)) (w := (t, e')) hbuilt (mem_visits.mpr ⟨hs, he⟩)
    (mem_visits.mpr ⟨ht, he'⟩) htype htype' hinst

lemma TeamStep.ordered {a b : EventPID} (hs : TeamStep program a b) :
    HappensBeforeGraph.Ordered state.graph a b := by
  cases hs with
  | order htid hle => exact .single (Or.inl ⟨htid, (EventPID.le_iff_eid htid).mpr hle⟩)
  | fork t ht e he htype hedge =>
    exact .single (Or.inr (hbuilt.fork (t, e) (mem_visits.mpr ⟨ht, he⟩) htype a b hedge))
  | join t ht e he htype hedge =>
    exact .single (Or.inr (hbuilt.join (t, e) (mem_visits.mpr ⟨ht, he⟩) htype a b hedge))
  | barrier s t hst e e' he he' htype htype' hphase ha hb =>
    rw [ha, hb]
    exact (twin_barriers_linked h hbuilt hst he he' htype htype' hphase).ordered

lemma graphEdge_teamOrder (hb : BarriersApart program) {a b : EventPID}
    (hedge : GraphEdge state.graph a b) : TeamOrder program a b := by
  cases hbuilt.sound a b hedge with
  | fork visit hv htype he =>
    obtain ⟨ht, hm⟩ := mem_visits.mp hv
    exact .single (.fork _ ht _ hm htype he)
  | join visit hv htype he =>
    obtain ⟨ht, hm⟩ := mem_visits.mp hv
    exact .single (.join _ ht _ hm htype he)
  | barrier v w hv hw hvtype hwtype hinst ha hb' =>
    obtain ⟨hs, he⟩ := mem_visits.mp hv
    obtain ⟨ht, he'⟩ := mem_visits.mp hw
    cases same_barrier h hb hs ht he he' hvtype hwtype hinst with
    | inl hpid => rw [ha, hb', hpid]
    | inr htwins => exact .single (.barrier _ _ htwins.1 _ _ he he' hvtype hwtype htwins.2 ha hb')

lemma ordered_iff_teamOrder (hb : BarriersApart program) (a b : EventPID) :
    HappensBeforeGraph.Ordered state.graph a b ↔ TeamOrder program a b := by
  constructor
  · intro hp
    induction hp with
    | refl => exact .refl
    | tail _ hstep ih =>
      cases hstep with
      | inl hstep => exact ih.tail (.order hstep.1 ((EventPID.le_iff_eid hstep.1).mp hstep.2))
      | inr hstep => exact ih.trans (graphEdge_teamOrder h hbuilt hb hstep)
  · intro hp
    induction hp with
    | refl => exact .refl
    | tail _ hstep ih => exact ih.trans (TeamStep.ordered h hbuilt hstep)

end Built

lemma teamOrder_of_phase_lt {left right : ThreadTrace Ctx} (ht : Twins program left right)
    {x y : Event Ctx} (hx : x ∈ left.events) (hy : y ∈ right.events)
    (hlt : left.phase x.id < right.phase y.id) : TeamOrder program x.pid y.pid := by
  have hw := h.wellFormed
  obtain ⟨hl, hr, -, hbarriers, -⟩ := twins_site h ht
  obtain ⟨q, hq, hqb, hqi⟩ := ThreadTrace.exists_barrier right hlt
  have htotal : left.phase x.id < left.phase left.events.length := by
    have hlen := (event_at hw hr hy).2
    have hle := right.phase_mono (List.getElem?_eq_some_iff.mp hlen).1.le
    rw [ThreadTrace.phase_length, ← hbarriers] at hle
    rw [ThreadTrace.phase_length]
    omega
  obtain ⟨r, -, hrb, hri⟩ := ThreadTrace.exists_barrier left htotal
  have hafter : x.id ≤ r := by
    by_contra hlt'
    have hphase := left.phase_lt hrb (not_le.mp hlt')
    omega
  obtain ⟨e, he, hetype⟩ := (ThreadTrace.isBarrierAt_iff left).mp hrb
  obtain ⟨e', he', hetype'⟩ := (ThreadTrace.isBarrierAt_iff right).mp hqb
  obtain ⟨hem, heid⟩ := id_of_at hw hl he
  obtain ⟨hem', heid'⟩ := id_of_at hw hr he'
  have hphase : left.phase e.id = right.phase e'.id := by rw [heid, heid', hri, hqi]
  have hstart : TeamStep program x.pid e.pid := by
    rw [(event_at hw hl hx).1, (event_at hw hl hem).1]
    exact .order rfl (by simp only; omega)
  have hend : TeamStep program e'.pid y.pid := by
    rw [(event_at hw hr hem').1, (event_at hw hr hy).1]
    exact .order rfl (by simp only; omega)
  exact ((ReflTransGen.single hstart).tail
    (.barrier left right ht e e' hem hem' hetype hetype' hphase rfl rfl)).tail hend

lemma separate_of_apart (hb : BarriersApart program) : BarriersSeparate program := by
  have hw := h.wellFormed
  obtain ⟨state, hstate⟩ := visitProgram_succeeds h
  have hbuilt := built_visitProgram hstate
  have hreach : ∀ s ∈ program.threads, ∀ t ∈ program.threads, s.id ≠ t.id →
      ∀ x ∈ s.events, ∀ y ∈ t.events,
        ((HappensBeforeGraph.precompute state.graph).canReach x.pid y.pid = true ↔
          TeamOrder program x.pid y.pid) := by
    intro s hs t ht hne x hx y hy
    have htid : x.pid.tid ≠ y.pid.tid := by
      rw [(event_at hw hs hx).1, (event_at hw ht hy).1]
      exact hne
    exact (HappensBeforeGraph.canReach_iff_ordered state.graph htid).trans
      (ordered_iff_teamOrder h hbuilt hb _ _)
  refine ⟨HappensBeforeGraph.precompute state.graph, by rw [buildHappensBefore, hstate]; rfl, ?_,
    hreach⟩
  intro parent p left right hteam x hx y hy hxt hyt
  have htwins : Twins program left right := ⟨parent, p, Or.inl hteam⟩
  have htwins' : Twins program right left := ⟨parent, p, Or.inr hteam⟩
  have hne := (team_site h hteam).1
  have hxy := hreach left hteam.left_mem right hteam.right_mem hne x hx y hy
  have hyx := hreach right hteam.right_mem left hteam.left_mem hne.symm y hy x hx
  rw [HappensBeforeGraph.areParallel, Bool.and_eq_true, Bool.not_eq_true', Bool.not_eq_true',
    ← Bool.not_eq_true, ← Bool.not_eq_true, hxy, hyx]
  constructor
  · rintro ⟨hnot, hnot'⟩
    rcases Nat.lt_trichotomy (left.phase x.id) (right.phase y.id) with hlt | heq | hlt
    · exact absurd (teamOrder_of_phase_lt h htwins hx hy hlt) hnot
    · exact heq
    · exact absurd (teamOrder_of_phase_lt h htwins' hy hx hlt) hnot'
  · intro heq
    exact ⟨fun hp => teamOrder_changes_phase h htwins hx hy hxt hyt hp heq,
      fun hp => teamOrder_changes_phase h htwins' hy hx hyt hxt hp heq.symm⟩

end OpenRace
