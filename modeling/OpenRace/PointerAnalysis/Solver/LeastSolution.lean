import OpenRace.PointerAnalysis.Solver.Additions
import OpenRace.PointerAnalysis.Solver.CopyPhase

/-! The second half of a round: the edges that points-to sets call for are added, and recorded for the next round. The
rounds of the solver end with the least solution of the constraints. -/

namespace OpenRace

open ConstraintGraph SolverBase

namespace PartialUpdateSolver

variable {Obj : Type} {hash : ℕ → ℕ → ℕ} {model : FieldModel Obj}
  {edges : Constraints → Place Obj → Place Obj → Prop} {start solver solver' : PartialUpdateSolver Obj}
  {src dst : ℕ} {called : List (ℕ × ℕ)}

structure Recorded (hash : ℕ → ℕ → ℕ) (solver : PartialUpdateSolver Obj) (called : List (ℕ × ℕ))
    (solver' : PartialUpdateSolver Obj) : Prop where
  base : solver'.toSolverBase = solver.toSolverBase
  lsWorkList : solver'.lsWorkList = solver.lsWorkList
  copySize : solver'.copyWorkList.size = solver.copyWorkList.size
  targetSize : solver'.targetList.size = solver.targetList.size
  copyWorkList : ∀ id, id ∈ solver'.copyWorkList.bits ↔ id ∈ solver.copyWorkList.bits ∧ ∀ dst, (id, dst) ∉ called
  targetList : ∀ id, id ∈ solver'.targetList.bits ↔ id ∈ solver.targetList.bits ∧ ∀ src, (src, id) ∉ called
  requiredEdge : ∀ value, value ∈ solver'.requiredEdge ↔
    value ∈ solver.requiredEdge ∨ ∃ src dst, (src, dst) ∈ called ∧ hashEdge hash src dst = value

lemma resetOld_spec (vector : BitVector) (id : ℕ) : ∃ vector', resetOld vector id = some vector' ∧
    vector'.size = vector.size ∧ ∀ other, other ∈ vector'.bits ↔ other ∈ vector.bits ∧ other ≠ id := by
  by_cases hlt : id < vector.size
  · refine ⟨vector.cleared id, by rw [resetOld, if_pos hlt, BitVector.reset_eq hlt], rfl, fun other => ?_⟩
    rw [BitVector.mem_cleared, and_comm]
  · refine ⟨vector, if_neg hlt, rfl, fun other => ⟨fun hm => ⟨hm, ?_⟩, And.left⟩⟩
    rintro rfl
    exact hlt (vector.lt_size _ hm)

lemma recordCopyEdge_spec (hash : ℕ → ℕ → ℕ) (solver : PartialUpdateSolver Obj) (src dst : ℕ) :
    ∃ solver', solver.recordCopyEdge hash src dst = some solver' ∧ Recorded hash solver [(src, dst)] solver' := by
  obtain ⟨copyWorkList, hcopy, hsize, hbits⟩ := resetOld_spec solver.copyWorkList src
  obtain ⟨targetList, htarget, hsize', hbits'⟩ := resetOld_spec solver.targetList dst
  refine ⟨{ solver with
    copyWorkList, targetList, requiredEdge := insert (hashEdge hash src dst) solver.requiredEdge },
    by simp [recordCopyEdge, hcopy, htarget], rfl, rfl, hsize, hsize', fun id => ?_, fun id => ?_, fun value => ?_⟩
  · rw [hbits]
    simp
  · rw [hbits']
    simp
  · rw [Finset.mem_insert, or_comm]
    simp [eq_comm]

lemma recordCopyEdges_spec (hash : ℕ → ℕ → ℕ) (called : List (ℕ × ℕ)) : ∀ solver : PartialUpdateSolver Obj,
    ∃ solver', solver.recordCopyEdges hash called = some solver' ∧ Recorded hash solver called solver' := by
  induction called with
  | nil =>
    intro solver
    exact ⟨solver, rfl, rfl, rfl, rfl, rfl, by simp, by simp, by simp⟩
  | cons edge rest ih =>
    intro solver
    obtain ⟨middle, heq, hfirst⟩ := recordCopyEdge_spec hash solver edge.1 edge.2
    obtain ⟨last, heq', hrest⟩ := ih middle
    refine ⟨last, ?_, hrest.base.trans hfirst.base, hrest.lsWorkList.trans hfirst.lsWorkList,
      hrest.copySize.trans hfirst.copySize, hrest.targetSize.trans hfirst.targetSize, fun id => ?_, fun id => ?_,
      fun value => ?_⟩
    · rw [recordCopyEdges, List.foldlM_cons, heq]
      exact heq'
    · simp only [hrest.copyWorkList, hfirst.copyWorkList, List.mem_cons, not_or, forall_and, and_assoc,
        List.not_mem_nil, not_false_eq_true, and_true]
    · simp only [hrest.targetList, hfirst.targetList, List.mem_cons, not_or, forall_and, and_assoc,
        List.not_mem_nil, not_false_eq_true, and_true]
    · simp only [hrest.requiredEdge, hfirst.requiredEdge, List.mem_cons, List.not_mem_nil, or_false, or_assoc,
        or_and_right, exists_or]

/-- Between the copies of a round and its end: every edge called back is recorded. -/
structure Deriving (hash : ℕ → ℕ → ℕ) (model : FieldModel Obj) (edges : Constraints → Place Obj → Place Obj → Prop)
    (start : PartialUpdateSolver Obj) (called : List (ℕ × ℕ)) (solver : PartialUpdateSolver Obj) : Prop where
  valid : solver.Valid model edges
  indexed : solver.Indexed model
  grows : Grows model start.toSolverBase solver.toSolverBase called
  recorded : Recorded hash { start with toSolverBase := solver.toSolverBase } called solver

lemma Deriving.built (h : Deriving hash model edges start called solver) : solver.Built model := h.valid.built

lemma Deriving.record (h : Deriving hash model edges start called solver) (hs : start.graph.Sound)
    {base : SolverBase Obj} {new : List (ℕ × ℕ)} (hv : base.Valid model edges) (hi : base.Indexed model)
    (hgrows : Grows model solver.toSolverBase base new)
    (hdst : ∀ {src dst}, (src, dst) ∈ new → dst < start.graph.nodeNum) :
    ∃ solver', recordCopyEdges hash { solver with toSolverBase := base } new = some solver' ∧
      solver'.toSolverBase = base ∧ Deriving hash model edges start (called ++ new) solver' := by
  obtain ⟨solver', heq, hr⟩ := recordCopyEdges_spec hash new { solver with toSolverBase := base }
  have hold := h.recorded
  have hbase : solver'.toSolverBase = base := hr.base
  refine ⟨solver', heq, hbase, by rwa [hbase], by rwa [hbase], ?_, rfl, hr.lsWorkList.trans hold.lsWorkList,
    hr.copySize.trans hold.copySize, hr.targetSize.trans hold.targetSize, fun id => ?_, fun id => ?_, fun value => ?_⟩
  · rw [hbase]
    exact h.grows.trans hs hdst hgrows
  · rw [hr.copyWorkList, hold.copyWorkList]
    simp only [List.mem_append, not_or, forall_and, and_assoc]
  · rw [hr.targetList, hold.targetList]
    simp only [List.mem_append, not_or, forall_and, and_assoc]
  · rw [hr.requiredEdge, hold.requiredEdge]
    simp only [List.mem_append, or_assoc, or_and_right, exists_or]

section Loops

variable (hs : start.graph.Sound)

include hs

lemma Deriving.loadInto {node : ℕ} (h : Deriving hash model edges start called solver)
    (he : solver.graph.Edge .load node dst) :
    ∃ new solver', loadInto hash node solver dst = some solver' ∧
      Deriving hash model edges start (called ++ new) solver' ∧
      Later model solver.toSolverBase solver'.toSolverBase ∧ solver'.Loaded node dst := by
  obtain ⟨new, graph, heq, -, hv, hgrows, hdst, hloaded⟩ := processLoad_spec h.valid he
  have hlt := (hs.ends (h.grows.same he (by simp) (by simp))).2.1
  obtain ⟨solver', hrecord, hbase, hderiving⟩ := h.record hs hv (h.indexed.withGraph hgrows.edge) hgrows
    fun {src target} hm => by
      obtain rfl : target = dst := hdst _ hm
      exact hlt
  refine ⟨new, solver', by simp [PartialUpdateSolver.loadInto, heq, hrecord], hderiving, ?_, ?_⟩ <;> rw [hbase]
  · exact hgrows.toLater
  · exact hloaded

lemma Deriving.storeFrom {node : ℕ} (h : Deriving hash model edges start called solver) (hb : start.Built model)
    (he : solver.graph.Edge .store src node) :
    ∃ new solver', storeFrom hash node solver src = some solver' ∧
      Deriving hash model edges start (called ++ new) solver' ∧
      Later model solver.toSolverBase solver'.toSolverBase ∧ solver'.Stored model src node := by
  obtain ⟨new, graph, heq, -, hv, hgrows, hcalls, hstored⟩ := processStore_spec h.valid he
  have hlt := (hs.ends (h.grows.same he (by simp) (by simp))).2.1
  obtain ⟨solver', hrecord, hbase, hderiving⟩ := h.record hs hv (h.indexed.withGraph hgrows.edge) hgrows
    fun {source target} hm => by
      obtain ⟨index, hin, objNode, object, hi, hcall⟩ := hcalls _ hm
      obtain ⟨rfl, rfl⟩ := Prod.mk.inj hcall
      exact h.grows.store_lt hb h.valid.built.sound hlt hin hi
  refine ⟨new, solver', by simp [PartialUpdateSolver.storeFrom, heq, hrecord], hderiving, ?_, ?_⟩ <;> rw [hbase]
  · exact hgrows.toLater
  · exact hstored

lemma Deriving.offsetInto [DecidableEq Obj] {node : ℕ} (h : Deriving hash model edges start called solver)
    (he : solver.graph.Edge .offset node dst) :
    ∃ new solver', offsetInto hash model node solver dst = some solver' ∧
      Deriving hash model edges start (called ++ new) solver' ∧
      Later model solver.toSolverBase solver'.toSolverBase ∧ solver'.pts node ⊆ solver'.handledGEPMap dst := by
  obtain ⟨new, base, heq, hv, hgrows, hdst, hhandled, hindexed⟩ := processOffset_spec h.valid he
  have hlt := (hs.ends (h.grows.same he (by simp) (by simp))).2.1
  obtain ⟨solver', hrecord, hbase, hderiving⟩ := h.record hs hv (hindexed h.indexed) hgrows fun {source target} hm => by
    obtain ⟨call, hcall, heq⟩ := List.mem_map.mp hm
    obtain ⟨-, rfl⟩ := Prod.mk.inj heq
    rwa [hdst call hcall]
  refine ⟨addresses new, solver', ?_, hderiving, ?_, ?_⟩
  · simp only [PartialUpdateSolver.offsetInto, heq, Option.bind_eq_bind, Option.bind_some]
    exact hrecord
  · rw [hbase]
    exact hgrows.toLater
  · rw [hbase, hgrows.pts node (h.valid.built.sound.ends he).1]
    exact hhandled

end Loops

section Nodes

variable [DecidableEq Obj]

lemma Deriving.processNode (hspecial : ∀ p q, ¬edges .special p q) (hb : start.Built model)
    (h : Deriving hash model edges start called solver) (node : ℕ) :
    ∃ new solver', processNode hash model solver node = some solver' ∧
      Deriving hash model edges start (called ++ new) solver' ∧
      Later model solver.toSolverBase solver'.toSolverBase ∧ solver'.Done model node := by
  have hmem : ∀ (graph : ConstraintGraph) kind dst,
      dst ∈ ((graph.node node).succCons kind).sort (· ≤ ·) ↔ graph.Edge kind node dst :=
    fun _ _ _ => Finset.mem_sort _
  have hmem' : ∀ src, src ∈ ((solver.graph.node node).predCons .store).sort (· ≤ ·) ↔
      solver.graph.Edge .store src node :=
    fun src => (Finset.mem_sort _).trans (h.valid.built.sound.mirrored .store src node).symm
  obtain ⟨stored, first, hfirst, hderiving, hlater, hstored⟩ := foldlM_derives (Deriving hash model edges start)
    (fun base src => base.graph.Edge .store src node)
    (fun base src => base.graph.Edge .store src node ∧ base.Stored model src node)
    Deriving.built
    (fun {called solver src} h he => by
      obtain ⟨new, solver', heq, hderiving, hlater, hfinished⟩ := h.storeFrom hb.sound hb he
      exact ⟨new, solver', heq, hderiving, hlater, hlater.edge he, hfinished⟩)
    (fun hlater he => hlater.edge he)
    (fun hb hb' hlater ⟨he, hs⟩ => ⟨hlater.edge he, hlater.stored hb hb'.sound (hb.sound.ends he).2.1 hs⟩)
    _ h fun src hm => (hmem' src).mp hm
  obtain ⟨loaded, second, hsecond, hderiving', hlater', hloaded⟩ := foldlM_derives (Deriving hash model edges start)
    (fun base dst => base.graph.Edge .load node dst)
    (fun base dst => base.graph.Edge .load node dst ∧ base.Loaded node dst)
    Deriving.built
    (fun {called solver dst} h he => by
      obtain ⟨new, solver', heq, hderiving, hlater, hfinished⟩ := h.loadInto hb.sound he
      exact ⟨new, solver', heq, hderiving, hlater, hlater.edge he, hfinished⟩)
    (fun hlater he => hlater.edge he)
    (fun hb hb' hlater ⟨he, hl⟩ => ⟨hlater.edge he, hlater.loaded hb hb'.sound (hb.sound.ends he).1 hl⟩)
    _ hderiving fun dst hm => (hmem first.graph .load dst).mp hm
  obtain ⟨indexed, third, hthird, hderiving'', hlater'', hindexed⟩ := foldlM_derives (Deriving hash model edges start)
    (fun base dst => base.graph.Edge .offset node dst)
    (fun base dst => base.graph.Edge .offset node dst ∧ base.pts node ⊆ base.handledGEPMap dst)
    Deriving.built
    (fun {called solver dst} h he => by
      obtain ⟨new, solver', heq, hderiving, hlater, hfinished⟩ := h.offsetInto hb.sound he
      exact ⟨new, solver', heq, hderiving, hlater, hlater.edge he, hfinished⟩)
    (fun hlater he => hlater.edge he)
    (fun hb _ hlater ⟨he, hsub⟩ => ⟨hlater.edge he, by
      rw [hlater.pts node (hb.sound.ends he).1]
      exact hsub.trans (hlater.handledGEPMap _)⟩)
    _ hderiving' fun dst hm => (hmem second.graph .offset dst).mp hm
  have hnone : (second.graph.node node).succCons .special = ∅ :=
    Finset.eq_empty_iff_forall_notMem.mpr fun dst he => hderiving'.valid.not_special hspecial node dst he
  refine ⟨stored ++ (loaded ++ indexed), third, ?_, by simpa only [← List.append_assoc] using hderiving'',
    hlater.trans (hlater'.trans hlater''), ?_, ?_, ?_⟩
  · simp only [PartialUpdateSolver.processNode, hfirst, hsecond, Option.bind_eq_bind, Option.bind_some]
    rw [if_neg (not_not.mpr hnone)]
    exact hthird
  · intro dst he
    have hold := (hlater'.trans hlater'').same he (by simp) (by simp)
    obtain ⟨hedge, hdone⟩ := hloaded dst ((hmem first.graph .load dst).mpr hold)
    have hb' := hderiving'.valid.built
    exact hlater''.loaded hb' hderiving''.valid.built.sound (hb'.sound.ends hedge).1 hdone
  · intro src he
    have hold := (hlater.trans (hlater'.trans hlater'')).same he (by simp) (by simp)
    obtain ⟨hedge, hdone⟩ := hstored src ((hmem' src).mpr hold)
    have hb' := hderiving.valid.built
    exact (hlater'.trans hlater'').stored hb' hderiving''.valid.built.sound (hb'.sound.ends hedge).2.1 hdone
  · intro dst he
    have hold := hlater''.same he (by simp) (by simp)
    exact (hindexed dst ((hmem second.graph .offset dst).mpr hold)).2

omit [DecidableEq Obj] in
/-- Where all copies are handled, nothing was recorded: an edge recorded leaves the bit of its source unset. -/
lemma Deriving.finished (h : Deriving hash model edges start called solver) (hstart : start.Propagated model edges)
    (hall : (solver.copyWorkList.resize solver.graph.nodeNum false).all = true) :
    PartialUpdateSolver.finished { solver with
      lsWorkList := ((solver.lsWorkList.resize solver.graph.nodeNum true).setAll).resize solver.graph.nodeNum true
      copyWorkList := solver.copyWorkList.resize solver.graph.nodeNum false
      targetList := solver.targetList.resize solver.graph.nodeNum true } = true := by
  have hrecorded := h.recorded
  have hsize : solver.targetList.size = start.graph.nodeNum := hrecorded.targetSize.trans hstart.sized.targetList
  have hnone : called = [] := by
    refine List.eq_nil_iff_forall_not_mem.mpr fun ⟨src, dst⟩ hm => ?_
    have hsrc : src < solver.graph.nodeNum := (h.valid.built.sound.ends (h.grows.called hm).1).1
    obtain ⟨-, hold | hnew⟩ := BitVector.mem_resize.mp (BitVector.all_iff.mp hall src hsrc)
    · exact ((hrecorded.copyWorkList src).mp hold).2 dst hm
    · cases hnew.1
  subst hnone
  have hrequired : solver.requiredEdge = ∅ := by
    refine Finset.eq_empty_of_forall_notMem fun value hvalue => ?_
    simpa [hstart.requiredEdge] using (hrecorded.requiredEdge value).mp hvalue
  have htarget : (solver.targetList.resize solver.graph.nodeNum true).all = true := by
    refine BitVector.all_iff.mpr fun id hid => BitVector.mem_resize.mpr ⟨hid, ?_⟩
    by_cases hlt : id < start.graph.nodeNum
    · exact .inl ((hrecorded.targetList id).mpr ⟨hstart.targetList id hlt, fun _ => List.not_mem_nil⟩)
    · exact .inr ⟨rfl, hsize ▸ not_lt.mp hlt⟩
  have hls : (((solver.lsWorkList.resize solver.graph.nodeNum true).setAll).resize solver.graph.nodeNum true).all =
      true :=
    BitVector.all_iff.mpr fun id hid => BitVector.mem_resize.mpr ⟨hid, .inl (BitVector.mem_setAll.mpr hid)⟩
  simp only [PartialUpdateSolver.finished, hls, htarget, hall, hrequired, decide_true, Bool.and_true]

lemma derivationPhase_spec (hash : ℕ → ℕ → ℕ) (hspecial : ∀ p q, ¬edges .special p q)
    (h : start.Propagated model edges) :
    ∃ called solver', derivationPhase hash model start = some solver' ∧ solver'.Ready hash model edges ∧
      Grows model start.toSolverBase solver'.toSolverBase called ∧ (∀ id, solver'.Done model id) ∧
      (solver'.copyWorkList.all = false → called ≠ [] ∨ start.graph.nodeNum < solver'.graph.nodeNum) ∧
      (solver'.copyWorkList.all = true → solver'.finished = true) := by
  have hb := h.valid.built
  have hderiving : Deriving hash model edges start [] start :=
    ⟨h.valid, h.indexed, .refl _, rfl, rfl, rfl, rfl, by simp, by simp, by simp⟩
  obtain ⟨called, last, heq, hlast, hlater, hnodes⟩ := foldlM_derives (Deriving hash model edges start) (fun _ _ => True)
    (fun base id => base.Done model id) Deriving.built (fun {called solver id} h _ => h.processNode hspecial hb id)
    (fun _ _ => trivial) (fun hb hb' hlater hd => hlater.done hb hb'.sound hd) start.lsWorkList.unset hderiving
    fun _ _ => trivial
  rw [List.nil_append] at hlast
  have hrecorded := hlast.recorded
  have hnum := hlater.nodeNum
  have hsize : last.copyWorkList.size = start.graph.nodeNum := hrecorded.copySize.trans h.sized.copyWorkList
  have hsize' : last.targetList.size = start.graph.nodeNum := hrecorded.targetSize.trans h.sized.targetList
  have hdone : ∀ id, last.Done model id := by
    refine hlater.done_all hb.sound fun id hid => ?_
    by_cases hbit : id ∈ start.lsWorkList.bits
    · exact hlater.done hb hlast.valid.built.sound (h.done id hbit)
    · exact hnodes id (BitVector.mem_unset.mpr ⟨h.sized.lsWorkList ▸ hid, hbit⟩)
  refine ⟨called, { last with
      lsWorkList := ((last.lsWorkList.resize last.graph.nodeNum true).setAll).resize last.graph.nodeNum true
      copyWorkList := last.copyWorkList.resize last.graph.nodeNum false
      targetList := last.targetList.resize last.graph.nodeNum true }, by simp [derivationPhase, heq],
    ⟨hlast.valid, ⟨rfl, rfl, rfl⟩, hlast.indexed, fun id _ => hdone id, fun {src dst} he => ?_⟩, hlast.grows, hdone,
    fun hall => ?_, fun hall => ?_⟩
  · rcases hlast.grows.added he with hold | hm
    · obtain ⟨hsrc, hdst, -⟩ := hb.sound.ends hold
      refine .inl ?_
      rw [hlater.pts src hsrc, hlater.pts dst hdst]
      exact h.edge hold
    · have hdst := (hlast.grows.called hm).2.1
      have hcopy : src ∉ (last.copyWorkList.resize last.graph.nodeNum false).bits := by
        rw [BitVector.mem_resize, hrecorded.copyWorkList]
        simp only [Bool.false_eq_true, false_and, or_false, not_and]
        exact fun _ _ hnone => hnone dst hm
      refine .inr ⟨hcopy, .inr ⟨?_, hcopy, ?_⟩⟩
      · rw [BitVector.mem_resize, hrecorded.targetList, hsize']
        rintro ⟨-, ⟨-, hnone⟩ | ⟨-, hle⟩⟩
        · exact hnone src hm
        · exact absurd hdst (Nat.not_lt.mpr hle)
      · exact (hrecorded.requiredEdge _).mpr (.inr ⟨src, dst, hm, rfl⟩)
  · by_contra hnone
    rw [not_or, not_not, Nat.not_lt] at hnone
    refine Bool.eq_false_iff.mp hall (BitVector.all_iff.mpr fun id hid => ?_)
    have hid : id < start.graph.nodeNum := lt_of_lt_of_le hid hnone.2
    rw [BitVector.mem_resize, hrecorded.copyWorkList, hnone.1]
    exact ⟨hid.trans_le hnum, .inl ⟨h.copyWorkList id hid, fun _ => List.not_mem_nil⟩⟩
  · exact hlast.finished h hall

end Nodes

end PartialUpdateSolver

namespace SolverBase

variable {Obj : Type} {solver solver' : SolverBase Obj}

lemma Keeps.place_eq (h : Keeps solver solver') (id : ℕ) : solver'.place id = solver.place id := by
  rw [place, place, objectAt, objectAt, objectAt, objectAt, h.objVec]

lemma Keeps.ncard_copies_le (h : Keeps solver solver') : solver.copies.ncard ≤ solver'.copies.ncard :=
  Set.ncard_le_ncard (fun _ hp => ⟨h.nodeNum ▸ hp.1, h.nodeNum ▸ hp.2.1, h.linked hp.2.2⟩) solver'.finite_copies

lemma Keeps.within {objects : Finset Obj} {nodeNum objNum : ℕ} (h : Keeps solver solver')
    (hw : Within objects nodeNum objNum solver) : Within objects nodeNum objNum solver' where
  mem := by
    rw [h.objVec]
    exact hw.mem
  created := by
    rw [h.objVec, h.nodeNum]
    exact hw.created

/-- What was a constraint once stays one, between the same places. -/
structure Follows (solver solver' : SolverBase Obj) : Prop where
  nodeNum : solver.graph.nodeNum ≤ solver'.graph.nodeNum
  objVec : ∀ {index : ℕ} {entry : ℕ × Obj}, solver.objVec[index]? = some entry → solver'.objVec[index]? = some entry
  nodes : ∀ entry ∈ solver'.objVec, entry ∈ solver.objVec ∨ solver.graph.nodeNum ≤ entry.1
  place : ∀ id < solver.graph.nodeNum, solver'.place id = solver.place id
  linked : ∀ {kind src dst}, solver.Linked kind src dst → solver'.Linked kind src dst
  offset : ∀ {src dst}, solver.graph.Edge .offset src dst → solver'.graph.root dst = dst

lemma Follows.refl (hs : solver.graph.Sound) : Follows solver solver :=
  ⟨le_rfl, id, fun _ hm => .inl hm, fun _ _ => rfl, id, fun he => root_eq (hs.ends he).2.2.2⟩

lemma Follows.trans {solver'' : SolverBase Obj} (hs : solver.graph.Sound) (h : Follows solver solver')
    (h' : Follows solver' solver'') : Follows solver solver'' where
  nodeNum := h.nodeNum.trans h'.nodeNum
  objVec hi := h'.objVec (h.objVec hi)
  nodes entry hm := by
    rcases h'.nodes entry hm with hmiddle | hnew
    · exact h.nodes entry hmiddle
    · exact .inr (h.nodeNum.trans hnew)
  place id hid := (h'.place id (hid.trans_le h.nodeNum)).trans (h.place id hid)
  linked hl := h'.linked (h.linked hl)
  offset := by
    intro src dst he
    obtain ⟨-, -, hsrc, hdst⟩ := hs.ends he
    have hl : solver.Linked .offset src dst := .inl (by rwa [root_eq hsrc, root_eq hdst])
    have hedge := (h.linked hl).resolve_right (by simp)
    rw [h.offset he] at hedge
    exact h'.offset hedge

lemma Follows.carries (h : Follows solver solver') {edges : Constraints → Place Obj → Place Obj → Prop}
    (hcarries : solver.Carries edges) : solver'.Carries edges := by
  intro kind p q he
  obtain ⟨src, dst, hsrc, hdst, hp, hq, hl, hoffset⟩ := hcarries he
  refine ⟨src, dst, hsrc.trans_le h.nodeNum, hdst.trans_le h.nodeNum, (h.place src hsrc).trans hp,
    (h.place dst hdst).trans hq, h.linked hl, fun hkind => ?_⟩
  subst hkind
  have hedge := hl.resolve_right (by simp)
  rw [hoffset rfl] at hedge
  exact h.offset hedge

lemma Keeps.follows (h : Keeps solver solver') {model : FieldModel Obj} (hb : solver.Built model) :
    Follows solver solver' :=
  ⟨h.nodeNum.ge, fun hi => h.objVec ▸ hi, fun _ hm => .inl (h.objVec ▸ hm), fun id _ => h.place_eq id, h.linked, fun he =>
    (h.leaf (hb.offset he) (root_eq (hb.sound.ends he).2.2.2)).2⟩

lemma Expands.follows (h : Expands solver solver') {model : FieldModel Obj} (hb : solver.Built model)
    (hb' : solver'.Built model) : Follows solver solver' :=
  ⟨h.nodeNum, h.objVec, h.nodes, fun _ hid => h.place_eq hb hb' hid, h.linked hb.sound hb'.sound, fun he => by
    rw [h.root_eq hb.sound hb'.sound, ConstraintGraph.root_eq (hb.sound.ends he).2.2.2]⟩

end SolverBase

namespace PartialUpdateSolver

variable {Obj : Type} {hash : ℕ → ℕ → ℕ} {model : FieldModel Obj}
  {edges : Constraints → Place Obj → Place Obj → Prop} {base : SolverBase Obj} {objects : Finset Obj}
  {nodeNum objNum : ℕ} {solver : PartialUpdateSolver Obj}

/-- What every round keeps. -/
structure Running (hash : ℕ → ℕ → ℕ) (model : FieldModel Obj) (edges : Constraints → Place Obj → Place Obj → Prop)
    (objects : Finset Obj) (nodeNum objNum : ℕ) (solver : PartialUpdateSolver Obj) : Prop where
  ready : solver.Ready hash model edges
  within : Within objects nodeNum objNum solver.toSolverBase

lemma Running.round [DecidableEq Obj] (h : Running hash model edges objects nodeNum objNum solver)
    (hspecial : ∀ p q, ¬edges .special p q) (hindex : model.Indexes ↑objects)
    (hids : nodeNum + 2 * objects.card ≤ SCCIterator.finished) :
    ∃ solver', round hash model solver = some solver' ∧ Running hash model edges objects nodeNum objNum solver' ∧
      Follows solver.toSolverBase solver'.toSolverBase ∧ (∀ id, solver'.Done model id) ∧
      (solver'.copyWorkList.all = false → solver.copies.ncard < solver'.copies.ncard) ∧
      (solver'.copyWorkList.all = true → solver'.finished = true) := by
  have hb := h.ready.valid.built
  obtain ⟨middle, hcopy, hpropagated, hkeeps⟩ := copyPhase_spec h.ready ((h.within.nodeNum_le hb).trans hids)
  obtain ⟨called, last, hderive, hready, hgrows, hdone, hprogress, hfinished⟩ :=
    derivationPhase_spec hash hspecial hpropagated
  have hb' := hpropagated.valid.built
  refine ⟨last, by simp [PartialUpdateSolver.round, hcopy, hderive], ⟨hready, (hkeeps.within h.within).later hindex
    hgrows.toLater⟩, (hkeeps.follows hb).trans hb.sound (hgrows.follows hb' hready.valid.built), hdone,
    fun hall => ?_, hfinished⟩
  exact hkeeps.ncard_copies_le.trans_lt
    (hgrows.copies_lt hb'.sound hready.valid.built.sound hpropagated.edge (hprogress hall))

lemma Ready.closed (h : solver.Ready hash model edges) (hdone : ∀ id, solver.Done model id)
    (hall : solver.copyWorkList.all = true) : solver.Closed model where
  copy he := by
    refine (h.edge he).resolve_right fun hbit => hbit.1 (BitVector.all_iff.mp hall _ ?_)
    rw [h.sized.copyWorkList]
    exact (h.valid.built.sound.ends he).1
  done := hdone
  indexed := h.indexed

lemma Running.runSolver [DecidableEq Obj] (h : Running hash model edges objects nodeNum objNum solver)
    (hspecial : ∀ p q, ¬edges .special p q) (hindex : model.Indexes ↑objects)
    (hids : nodeNum + 2 * objects.card ≤ SCCIterator.finished) {fuel : ℕ}
    (hfuel : (nodeNum + 2 * objects.card) * (nodeNum + 2 * objects.card) ≤ fuel) :
    ∃ solver', runSolver hash model (fuel + 1) solver = some solver' ∧
      Running hash model edges objects nodeNum objNum solver' ∧
      Follows solver.toSolverBase solver'.toSolverBase ∧ solver'.Closed model ∧ solver'.finished = true := by
  have hs := h.ready.valid.built.sound
  obtain ⟨solver', heq, hrunning, hfollows, hclosed, hfinished⟩ := @Library.doWhile_ends _
    (PartialUpdateSolver.round hash model) (fun state => !state.copyWorkList.all)
    (fun state => Running hash model edges objects nodeNum objNum state ∧
      Follows solver.toSolverBase state.toSolverBase)
    (fun state => Running hash model edges objects nodeNum objNum state ∧
      Follows solver.toSolverBase state.toSolverBase ∧ state.Closed model ∧ state.finished = true)
    (fun state => state.copies.ncard)
    ((nodeNum + 2 * objects.card) * (nodeNum + 2 * objects.card)) (fun state ⟨hrunning, hfollows⟩ => by
      obtain ⟨state', heq, hrunning', hfollows', hdone, hprogress, hfinished⟩ := hrunning.round hspecial hindex hids
      have hle := hrunning'.within.nodeNum_le hrunning'.ready.valid.built
      have hlast := hfollows.trans hs hfollows'
      refine ⟨state', heq, fun hagain => ⟨⟨hrunning', hlast⟩, hprogress (by simpa using hagain), ?_⟩, fun hagain => ?_⟩
      · exact (ncard_copies_le state'.toSolverBase).trans (Nat.mul_le_mul hle hle)
      · have hall : state'.copyWorkList.all = true := by simpa using hagain
        exact ⟨hrunning', hlast, hrunning'.ready.closed hdone hall, hfinished hall⟩)
    fuel _ ⟨h, .refl hs⟩ (hfuel.trans (Nat.le_add_right _ _))
  exact ⟨solver', heq, hrunning, hfollows, hclosed, hfinished⟩

lemma ready_start (hash : ℕ → ℕ → ℕ) (hv : base.Valid model edges) (hi : base.Indexed model) :
    (start base).Ready hash model edges where
  valid := hv
  sized := ⟨rfl, rfl, rfl⟩
  indexed := hi
  done id hid := by
    have hbit := (BitVector.mem_resize.mp hid).2
    simp [BitVector.empty] at hbit
  edge _ := by
    have hbits : ∀ id, id ∉ (BitVector.empty.resize base.graph.nodeNum false).bits := by
      intro id
      simp [BitVector.mem_resize, BitVector.empty]
    exact .inr ⟨hbits _, .inl (hbits _)⟩

/-- Whatever the hash function, the solver ends, and its points-to sets are the least solution. -/
theorem runSolver_least [DecidableEq Obj] (hash : ℕ → ℕ → ℕ) (h : base.Fresh model)
    (hspecial : ∀ src dst, ¬base.graph.Edge .special src dst) (hindex : model.Indexes ↑objects)
    (hobjects : ∀ entry ∈ base.objVec, entry.2 ∈ objects)
    (hids : base.graph.nodeNum + 2 * objects.card ≤ SCCIterator.finished) :
    ∃ fuel solver', runSolver hash model fuel (start base) = some solver' ∧
      ∀ id < base.graph.nodeNum, ∀ object, solver'.PointsTo id object ↔
        (model.system base.constraints).Holds (base.place id) object := by
  have hrunning : Running hash model base.constraints objects base.graph.nodeNum base.objVec.length (start base) :=
    ⟨ready_start hash (h.valid id h.unknown) h.indexed, ⟨hobjects, rfl⟩⟩
  obtain ⟨solver', heq, hrunning', hfollows, hclosed, -⟩ :=
    hrunning.runSolver (constraints_not_special hspecial) hindex hids le_rfl
  refine ⟨_, solver', heq, fun id hid object => ?_⟩
  rw [hclosed.pointsTo_iff hrunning'.ready.valid (hfollows.carries h.carries), hfollows.place id hid]
  rfl

theorem runSolver_least_called : ∃ fuel solver',
    runSolver (· + ·) FunctionPointer.fields fuel (start FunctionPointer.called) = some solver' ∧
      ∀ id < 3, ∀ object, solver'.PointsTo id object ↔
        (FunctionPointer.fields.system FunctionPointer.called.constraints).Holds
          (FunctionPointer.called.place id) object := by
  have hobjects : ∀ entry ∈ FunctionPointer.called.objVec, entry.2 ∈ ({()} : Finset Unit) := by simp
  exact runSolver_least (· + ·) FunctionPointer.fresh_called FunctionPointer.not_special_called
    (fun _ hindex => by cases hindex) hobjects (by decide)

end PartialUpdateSolver

end OpenRace
