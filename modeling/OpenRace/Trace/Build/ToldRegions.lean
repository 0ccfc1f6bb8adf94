import OpenRace.Trace.Build.OpenRegions

/-! The runtime model knows the master region that is open, and those that have been left. -/

namespace OpenRace

open LLVM

variable {Ctx : Type}

/-- At most one thread of the line stands in a master region, and the runtime model has what the history tells. -/
structure Told (state : ThreadBuildState Ctx) : Prop where
  older : ∀ t ∈ state.thread.ancestors, t.id < state.thread.id
  current : state.marks.currentMasterStart = state.thread.line.findSome? (openRegion state.log)
  single : state.thread.line.Pairwise fun t other => openRegion state.log t = none ∨ openRegion state.log other = none
  recorded : ∀ start, (state.marks.masterRegions.lookup start).isSome ↔ Left state.log start

section Line

variable {α β : Type} {f g : α → Option β} {l : List α} {a : α}

lemma findSome?_cons_of_none (h : ∀ b ∈ l, f b = none) : (a :: l).findSome? f = f a := by
  rw [List.findSome?_cons, List.findSome?_eq_none_iff.mpr h]
  cases f a <;> rfl

lemma pairwise_cons_of_none (h : ∀ b ∈ l, f b = none) :
    (a :: l).Pairwise fun b c => f b = none ∨ f c = none := by
  refine List.pairwise_cons.mpr ⟨fun b hb => Or.inr (h b hb), ?_⟩
  exact List.pairwise_of_forall_mem_list fun b hb _ _ => Or.inl (h b hb)

lemma findSome?_congr (h : ∀ a ∈ l, f a = g a) : l.findSome? f = l.findSome? g := by
  induction l with
  | nil => rfl
  | cons a l ih =>
    obtain ⟨ha, hl⟩ := List.forall_mem_cons.mp h
    rw [List.findSome?_cons, List.findSome?_cons, ha, ih hl]

end Line

section Position

variable {partner : Instruction → Instruction} {marks : Marks} {ir : IR} {rest : List IR} {outer : Option Instruction}

lemma Position.at_end (h : Position partner true marks (ir :: rest) outer) (hend : ir.type = .openMPMasterEnd) :
    outer = none ∧ ∃ start, marks.currentMasterStart = some start ∧ partner start = ir.inst := by
  have hmarker : ir.isMasterMarker = true := by simp [IR.isMasterMarker, hend]
  generalize hsum : ir :: rest = summary at h
  generalize hmaster : true = master at h
  cases h with
  | outside h =>
    subst hsum
    cases h with
    | plain hun => simp [hmarker] at hun
    | region hstart => simp [hend] at hstart
  | @inside body last tail start hb _ hp _ _ _ hc =>
    cases body with
    | nil =>
      obtain ⟨rfl, -⟩ := List.cons.inj hsum
      exact ⟨rfl, start, hc, hp.symm⟩
    | cons first body =>
      obtain ⟨rfl, -⟩ := List.cons.inj hsum
      have hun := (hb ir List.mem_cons_self).1
      simp [hmarker] at hun
  | skipping _ _ _ hm => simp [hm] at hmaster

end Position

namespace Told

variable {program : Program Ctx} {node : CallGraphNode Ctx} {ir : IR} {rest : List IR}
  {state state' : ThreadBuildState Ctx}

lemma silent (h : Told state) {entries : List (LogEntry Ctx)} (ht : state'.thread = state.thread)
    (hlog : state'.log = state.log ++ entries) (hsilent : ∀ entry ∈ entries, entry.isVisit = false)
    (hc : state'.marks.currentMasterStart = state.marks.currentMasterStart)
    (hr : state'.marks.masterRegions = state.marks.masterRegions) : Told state' := by
  have hopen : openRegion state'.log = openRegion state.log := by
    funext t
    rw [hlog, openRegion_silent hsilent]
  refine ⟨by rw [ht]; exact h.older, by rw [ht, hopen, hc, h.current], by rw [ht, hopen]; exact h.single, ?_⟩
  intro start
  rw [hr, h.recorded, hlog, left_silent hsilent]

lemma created_silent {events : List (Event Ctx)} : ∀ entry ∈ createdAt node events, entry.isVisit = false := by
  intro entry hentry
  obtain ⟨event, -, rfl⟩ := List.mem_map.mp hentry
  rfl

lemma visited_opens {joins own : List (Event Ctx)} (t : ThreadRef Ctx) :
    openRegion (state.log ++
      .visited state.thread node ir state.programState.runtime :: createdAt node (joins ++ own)) t =
      openRegion (state.log ++ [.visited state.thread node ir state.programState.runtime]) t := by
  rw [List.append_cons, openRegion_silent created_silent]

lemma visited_left {joins own : List (Event Ctx)} (start : Instruction) :
    Left (state.log ++
      .visited state.thread node ir state.programState.runtime :: createdAt node (joins ++ own)) start ↔
      Left state.log start ∨ isOpenMPMasterThread state.thread = true ∧ ir.type = .openMPMasterEnd ∧
        openRegion state.log state.thread = some start := by
  rw [List.append_cons, left_silent created_silent, left_concat]
  refine or_congr_right ?_
  constructor
  · rintro ⟨_, _, _, _, ⟨⟩, hrest⟩
    exact hrest
  · intro hrest
    exact ⟨_, _, _, _, rfl, hrest⟩

lemma ancestor_opens (h : Told state) {t : ThreadRef Ctx} (ht : t ∈ state.thread.ancestors) :
    openRegion (state.log ++ [.visited state.thread node ir state.programState.runtime]) t =
      openRegion state.log t := by
  apply openRegion_foreign
  intro entry hentry
  rw [List.mem_singleton.mp hentry]
  exact beq_eq_false_iff_ne.mpr (h.older t ht).ne'

lemma of_own (h : Told state) {joins own : List (Event Ctx)} (ht : state'.thread = state.thread)
    (hlog : state'.log = state.log ++
      .visited state.thread node ir state.programState.runtime :: createdAt node (joins ++ own))
    (hc : state'.marks.currentMasterStart = (state.thread.line).findSome? (openRegion
      (state.log ++ [.visited state.thread node ir state.programState.runtime])))
    (hs : state.thread.line.Pairwise fun t other =>
      openRegion (state.log ++ [.visited state.thread node ir state.programState.runtime]) t = none ∨
        openRegion (state.log ++ [.visited state.thread node ir state.programState.runtime]) other = none)
    (hr : ∀ start, (state'.marks.masterRegions.lookup start).isSome ↔ (state.marks.masterRegions.lookup start).isSome ∨
      isOpenMPMasterThread state.thread = true ∧ ir.type = .openMPMasterEnd ∧
        openRegion state.log state.thread = some start) : Told state' := by
  have hopen : openRegion state'.log =
      openRegion (state.log ++ [.visited state.thread node ir state.programState.runtime]) := by
    funext t
    rw [hlog, visited_opens]
  refine ⟨by rw [ht]; exact h.older, by rw [ht, hopen, hc], by rw [ht, hopen]; exact hs, fun start => ?_⟩
  rw [hr, h.recorded, hlog, visited_left]

lemma kept_line (h : Told state) {log : List (LogEntry Ctx)}
    (hsame : ∀ t ∈ state.thread.line, openRegion log t = openRegion state.log t) :
    state.marks.currentMasterStart = state.thread.line.findSome? (openRegion log) ∧
      state.thread.line.Pairwise fun t other => openRegion log t = none ∨ openRegion log other = none := by
  constructor
  · rw [h.current]
    exact (findSome?_congr hsame).symm
  · apply h.single.imp_of_mem
    intro t other ht hother
    rw [hsame t ht, hsame other hother]
    exact id

lemma alone_line {log : List (LogEntry Ctx)} {thread : ThreadRef Ctx}
    (h : ∀ t ∈ thread.ancestors, openRegion log t = none) :
    thread.line.findSome? (openRegion log) = openRegion log thread ∧
      thread.line.Pairwise fun t other => openRegion log t = none ∨ openRegion log other = none :=
  ⟨findSome?_cons_of_none h, pairwise_cons_of_none h⟩

lemma visit {partner : Instruction → Instruction} {outer : Option Instruction} {step : VisitStep Ctx} (h : Told state)
    (hpos : Position partner (isOpenMPMasterThread state.thread) state.marks (ir :: rest) outer)
    (habove : outer = none → ∀ t ∈ state.thread.ancestors, openRegion state.log t = none)
    (hv : visitStart program node ir state = .ok step) :
    Told step.state ∧ ∀ t ∈ state.thread.ancestors, openRegion step.state.log t = openRegion state.log t := by
  have hthread : step.state.thread = state.thread := (visitStart_emits hv).thread
  rcases visitOutcome hv with ⟨-, rfl⟩ | ⟨hp, joins, own, ho⟩
  · have hlog : (VisitStep.next (resume ir state)).state.log = state.log ++ [] := by
      rw [List.append_nil]
      exact congrArg (·.log) (resume_fields ir state).2.1
    have hmarks : (VisitStep.next (resume ir state)).state.marks = _ := resume_marks ir state
    refine ⟨h.silent hthread hlog (by simp) (by rw [hmarks]) (by rw [hmarks]), fun t _ => ?_⟩
    rw [hlog, List.append_nil]
  · refine ⟨?_, fun t ht => by rw [ho.log, visited_opens, h.ancestor_opens ht]⟩
    have hstep := (visit_marks hv hp).1
    have hown : openRegion (state.log ++ [.visited state.thread node ir state.programState.runtime]) state.thread =
        stepRegion (isOpenMPMasterThread state.thread) ir (openRegion state.log state.thread) := openRegion_own
    have hanc : ∀ t ∈ state.thread.ancestors,
        openRegion (state.log ++ [.visited state.thread node ir state.programState.runtime]) t =
          openRegion state.log t := fun t ht => h.ancestor_opens ht
    have hkept : stepRegion (isOpenMPMasterThread state.thread) ir (openRegion state.log state.thread) =
        openRegion state.log state.thread → ∀ t ∈ state.thread.line,
          openRegion (state.log ++ [.visited state.thread node ir state.programState.runtime]) t =
            openRegion state.log t := by
      intro hsame
      rw [ThreadRef.line, List.forall_mem_cons]
      exact ⟨hown.trans hsame, hanc⟩
    generalize hmarks : step.state.marks = marks' at hstep
    cases hstep with
    | start htype hm hn =>
      have hnone : ∀ t ∈ state.thread.line, openRegion state.log t = none :=
        List.findSome?_eq_none_iff.mp (h.current.symm.trans hn)
      obtain ⟨hfirst, hpairwise⟩ := alone_line fun t ht =>
        (hanc t ht).trans (hnone t (List.mem_cons_of_mem _ ht))
      refine h.of_own hthread ho.log ?_ hpairwise fun start => ?_
      · rw [hmarks, hfirst, hown]
        simp [stepRegion, hm, htype]
      · rw [hmarks]
        simp [htype]
    | skip htype hm last hl =>
      obtain ⟨hcurrent, hpairwise⟩ := h.kept_line (hkept (by simp [stepRegion, hm]))
      refine h.of_own hthread ho.log (by rw [hmarks]; exact hcurrent) hpairwise fun start => ?_
      rw [hmarks]
      simp [htype]
    | finish htype hm start hs =>
      rw [hm] at hpos
      obtain ⟨houter, -⟩ := hpos.at_end htype
      have hnone := habove houter
      have hopen : openRegion state.log state.thread = some start := by
        rw [← (alone_line hnone).1, ← h.current]
        exact hs
      obtain ⟨hfirst, hpairwise⟩ := alone_line fun t ht => (hanc t ht).trans (hnone t ht)
      refine h.of_own hthread ho.log ?_ hpairwise fun other => ?_
      · rw [hmarks, hfirst, hown]
        simp [stepRegion, hm, htype]
      · rw [hmarks, hopen]
        simp only [hm, htype, true_and, Option.some.injEq]
        split_ifs with hknown
        · constructor
          · exact Or.inl
          · rintro (hother | rfl)
            · exact hother
            · exact hknown
        · by_cases heq : other = start
          · subst heq
            rw [AList.lookup_insert]
            simp
          · rw [AList.lookup_insert_ne heq]
            simp [Ne.symm heq]
    | other hother =>
      obtain ⟨hcurrent, hpairwise⟩ := h.kept_line (hkept (stepRegion_unmarked hother))
      refine h.of_own hthread ho.log (by rw [hmarks]; exact hcurrent) hpairwise fun start => ?_
      rw [hmarks]
      rcases hother with hun | ⟨-, hm⟩
      · rw [IR.isMasterMarker, Bool.or_eq_false_iff] at hun
        have hne : ir.type ≠ .openMPMasterEnd := by simpa using hun.2
        simp [hne]
      · simp [hm]

lemma initial (main : CallGraphNode Ctx) : Told (.main main) where
  older t ht := absurd ht List.not_mem_nil
  current := rfl
  single := List.pairwise_singleton _ _
  recorded start := by
    refine iff_of_false (by simp [ThreadBuildState.main, ThreadBuildState.marks]) ?_
    rintro ⟨before, thread, node, ir, runtime, hprefix, -⟩
    simpa using List.prefix_nil.mp hprefix

section Fork

variable {fork : ForkEvent Ctx} {entry : CallGraphNode Ctx} {childState : ThreadBuildState Ctx}

lemma child_ancestors (hfork : fork.pid.tid = state.thread.id) :
    (state.child fork entry).thread.ancestors = state.thread.line := by
  change (⟨fork.pid.tid, state.thread.spawnSites⟩ : ThreadRef Ctx) :: _ = _
  rw [hfork]
  rfl

lemma child (h : Told state) (hl : Logged state) (hfork : fork.pid.tid = state.thread.id) :
    Told (state.child fork entry) := by
  have hnumbered : state.thread.id ≤ state.programState.currentTID := hl.numbered
  have hnew : openRegion state.log (state.child fork entry).thread = none := by
    have hforeign : ∀ e ∈ state.log, e.isVisitBy (state.child fork entry).thread.id = false := by
      intro e he
      cases e with
      | visited visitor _ _ _ => exact beq_eq_false_iff_ne.mpr (Nat.lt_succ_of_le (hl.threads _ he visitor rfl)).ne
      | created | entered => rfl
    have hopen : openRegion ([] ++ state.log) (state.child fork entry).thread = openRegion [] _ :=
      openRegion_foreign hforeign
    exact hopen
  have hline : (state.child fork entry).thread.line =
      (state.child fork entry).thread :: state.thread.line := by rw [ThreadRef.line, child_ancestors hfork]
  refine ⟨?_, ?_, ?_, h.recorded⟩
  · rw [child_ancestors hfork, ThreadRef.line, List.forall_mem_cons]
    refine ⟨Nat.lt_succ_of_le hnumbered, fun t ht => ?_⟩
    exact (h.older t ht).trans (Nat.lt_succ_of_le hnumbered)
  · rw [hline, List.findSome?_cons]
    change state.marks.currentMasterStart = _
    rw [show openRegion (state.child fork entry).log _ = none from hnew]
    exact h.current
  · rw [hline]
    exact List.pairwise_cons.mpr ⟨fun t _ => Or.inl hnew, h.single⟩

lemma finishFork (h : Told state) (hc : Told childState) (ir : IR)
    (hback : childState.marks.currentMasterStart = state.marks.currentMasterStart)
    (hsame : ∀ t ∈ state.thread.line, openRegion childState.log t = openRegion state.log t) :
    Told (state.finishFork ir childState) := by
  obtain ⟨hcurrent, hpairwise⟩ := h.kept_line hsame
  have hmarks := finishFork_marks state childState ir
  refine ⟨h.older, ?_, hpairwise, fun start => ?_⟩
  · rw [hmarks]
    exact hback.trans hcurrent
  · rw [hmarks]
    exact hc.recorded start

end Fork

lemma above (h : Told state) (hnone : state.marks.currentMasterStart = none) :
    ∀ t ∈ state.thread.line, openRegion state.log t = none :=
  List.findSome?_eq_none_iff.mp (h.current.symm.trans hnone)

end Told

end OpenRace
