import OpenRace.PointerAnalysis.Graph.EnumeratedComponents
import OpenRace.PointerAnalysis.Solver.CopySteps
import OpenRace.PointerAnalysis.Solver.PartialUpdateSolver

/-! After the components are visited in topological order, every copy edge is closed. -/

namespace OpenRace

open ConstraintGraph SolverBase

namespace SolverBase

structure Keeps {Obj : Type} (solver solver' : SolverBase Obj) : Prop where
  nodeNum : solver'.graph.nodeNum = solver.graph.nodeNum
  objVec : solver'.objVec = solver.objVec
  linked : ∀ {kind src dst}, solver.Linked kind src dst → solver'.Linked kind src dst
  leaf : ∀ {id}, solver.Leaf id → solver.graph.root id = id → solver'.Leaf id ∧ solver'.graph.root id = id

variable {Obj : Type} {solver solver' solver'' : SolverBase Obj}

lemma Keeps.trans (h : Keeps solver solver') (h' : Keeps solver' solver'') : Keeps solver solver'' :=
  ⟨h'.nodeNum.trans h.nodeNum, h'.objVec.trans h.objVec, fun hl => h'.linked (h.linked hl), fun hl hroot =>
    h'.leaf (h.leaf hl hroot).1 (h.leaf hl hroot).2⟩

lemma Enlarges.keeps (h : Enlarges solver solver') : Keeps solver solver' :=
  ⟨by rw [h.graph], h.objVec, h.linked.mpr, fun hl hroot => ⟨h.leaf hl, by rwa [h.graph]⟩⟩

lemma Merged.keeps {model : FieldModel Obj} {scc : List ℕ} {superNode : ℕ} (hm : Merged scc superNode solver solver')
    (hc : solver.Cycle scc) (hb : solver.Built model) (hs : superNode ∈ scc) : Keeps solver solver' :=
  ⟨hm.collapsed.nodeNum, hm.objVec, hm.linked hc hb hs, fun hl hroot => by
    obtain ⟨hout, hl'⟩ := hm.leaf hc hb hs hl
    exact ⟨hl', by rw [hm.root_eq hb.sound, hroot, target_of_notMem hout]⟩⟩

end SolverBase

namespace PartialUpdateSolver

variable {Obj : Type} {hash : ℕ → ℕ → ℕ} {model : FieldModel Obj}
  {edges : Constraints → Place Obj → Place Obj → Prop} {graph : ConstraintGraph}
  {solver solver' solver'' : PartialUpdateSolver Obj} {src dst : ℕ}

structure Sized (solver : PartialUpdateSolver Obj) : Prop where
  copyWorkList : solver.copyWorkList.size = solver.graph.nodeNum
  lsWorkList : solver.lsWorkList.size = solver.graph.nodeNum
  targetList : solver.targetList.size = solver.graph.nodeNum

/-- A copy edge that is processed when its source is visited. -/
def Due (hash : ℕ → ℕ → ℕ) (solver : PartialUpdateSolver Obj) (src dst : ℕ) : Prop :=
  src ∉ solver.lsWorkList.bits ∨ (dst ∉ solver.targetList.bits ∧ src ∉ solver.copyWorkList.bits ∧
    hashEdge hash src dst ∈ solver.requiredEdge)

lemma shouldProcessCopy_spec (hash : ℕ → ℕ → ℕ) (hsized : solver.Sized) (hsrc : src < solver.graph.nodeNum)
    (hdst : dst < solver.graph.nodeNum) :
    ∃ should, solver.shouldProcessCopy hash src dst = some should ∧ (should = true ↔ solver.Due hash src dst) := by
  have hls : src < solver.lsWorkList.size := hsized.lsWorkList ▸ hsrc
  by_cases hmem : src ∈ solver.lsWorkList.bits
  · have htarget : dst < solver.targetList.size := hsized.targetList ▸ hdst
    have hcopy : src < solver.copyWorkList.size := hsized.copyWorkList ▸ hsrc
    refine ⟨_, by simp [shouldProcessCopy, BitVector.test_eq hls, BitVector.test_eq htarget,
      BitVector.test_eq hcopy, hmem]; rfl, ?_⟩
    simp [Due, hmem, and_assoc]
  · exact ⟨true, by simp [shouldProcessCopy, BitVector.test_eq hls, hmem], by simp [Due, hmem]⟩

/-- Points-to sets grow; the nodes whose sets have changed lose their bits. -/
structure Copied (changing : ℕ → Prop) (solver solver' : PartialUpdateSolver Obj) : Prop where
  enlarges : Enlarges solver.toSolverBase solver'.toSolverBase
  copyWorkList : solver'.copyWorkList = solver.copyWorkList
  targetList : solver'.targetList = solver.targetList
  requiredEdge : solver'.requiredEdge = solver.requiredEdge
  size : solver'.lsWorkList.size = solver.lsWorkList.size
  kept : ∀ id ∈ solver'.lsWorkList.bits, id ∈ solver.lsWorkList.bits ∧ solver'.pts id = solver.pts id
  other : ∀ id, ¬changing id → solver'.pts id = solver.pts id

lemma Copied.refl (changing : ℕ → Prop) (solver : PartialUpdateSolver Obj) : Copied changing solver solver :=
  ⟨.refl _, rfl, rfl, rfl, rfl, fun _ h => ⟨h, rfl⟩, fun _ _ => rfl⟩

lemma Copied.trans {changing changing' : ℕ → Prop} (h : Copied changing solver solver')
    (h' : Copied changing' solver' solver'') :
    Copied (fun id => changing id ∨ changing' id) solver solver'' where
  enlarges := h.enlarges.trans h'.enlarges
  copyWorkList := h'.copyWorkList.trans h.copyWorkList
  targetList := h'.targetList.trans h.targetList
  requiredEdge := h'.requiredEdge.trans h.requiredEdge
  size := h'.size.trans h.size
  kept id hid := by
    obtain ⟨hmiddle, heq⟩ := h'.kept id hid
    obtain ⟨hold, heq'⟩ := h.kept id hmiddle
    exact ⟨hold, heq.trans heq'⟩
  other id hid := by
    rw [not_or] at hid
    rw [h'.other id hid.2, h.other id hid.1]

lemma Copied.mono {changing changing' : ℕ → Prop} (h : Copied changing solver solver')
    (himp : ∀ id, changing id → changing' id) : Copied changing' solver solver' :=
  { h with other := fun id hid => h.other id fun hc => hid (himp id hc) }

lemma Copied.sized {changing : ℕ → Prop} (h : Copied changing solver solver') (hs : solver.Sized) :
    solver'.Sized where
  copyWorkList := by rw [h.copyWorkList, h.enlarges.graph, hs.copyWorkList]
  lsWorkList := by rw [h.size, h.enlarges.graph, hs.lsWorkList]
  targetList := by rw [h.targetList, h.enlarges.graph, hs.targetList]

lemma Copied.due {changing : ℕ → Prop} (h : Copied changing solver solver') (hdue : solver.Due hash src dst) :
    solver'.Due hash src dst := by
  rw [Due, h.copyWorkList, h.targetList, h.requiredEdge]
  exact hdue.imp_left fun hout hin => hout (h.kept src hin).1

lemma copyTo_spec (hsized : solver.Sized) (hv : solver.Valid model edges) (he : solver.graph.Edge .copy src dst) :
    ∃ solver', copyTo src solver dst = some solver' ∧ Copied (· = dst) solver solver' ∧
      solver'.Valid model edges ∧ solver'.pts src ⊆ solver'.pts dst := by
  obtain ⟨-, hlt, -, -⟩ := hv.built.sound.ends he
  have hls : dst < solver.lsWorkList.size := hsized.lsWorkList ▸ hlt
  have hne : src ≠ dst := by
    rintro rfl
    exact hv.built.sound.plain _ he
  have hclosed : (solver.processCopy src dst).2.pts src ⊆ (solver.processCopy src dst).2.pts dst := by
    rw [processCopy_pts_self, processCopy_pts_of_ne hne]
    exact Finset.subset_union_right
  have hother : ∀ id, id ≠ dst → (solver.processCopy src dst).2.pts id = solver.pts id :=
    fun id hid => processCopy_pts_of_ne hid
  cases hchanged : (solver.processCopy src dst).1 with
  | true =>
    refine ⟨{ solver with
      toSolverBase := (solver.processCopy src dst).2, lsWorkList := solver.lsWorkList.cleared dst }, ?_,
      ⟨enlarges_processCopy _ _ _, rfl, rfl, rfl, rfl, fun id hid => ?_, hother⟩, hv.processCopy he, hclosed⟩
    · simp [copyTo, hchanged, BitVector.reset_eq hls]
    · obtain ⟨hne, hold⟩ := BitVector.mem_cleared.mp hid
      exact ⟨hold, hother id hne⟩
  | false =>
    refine ⟨{ solver with toSolverBase := (solver.processCopy src dst).2 }, by simp [copyTo, hchanged],
      ⟨enlarges_processCopy _ _ _, rfl, rfl, rfl, rfl, fun id hid => ⟨hid, ?_⟩, hother⟩, hv.processCopy he, hclosed⟩
    by_cases hid : id = dst
    · rw [hid]
      exact processCopy_pts_self.trans (Finset.union_eq_left.mpr (processCopy_changed.mp hchanged))
    · exact hother id hid

lemma copyToDue_spec (hsized : solver.Sized) (hv : solver.Valid model edges) (he : solver.graph.Edge .copy src dst)
    (hdue : solver.pts src ⊆ solver.pts dst ∨ solver.Due hash src dst) :
    ∃ solver', copyToDue hash src solver dst = some solver' ∧ Copied (· = dst) solver solver' ∧
      solver'.Valid model edges ∧ solver'.pts src ⊆ solver'.pts dst := by
  obtain ⟨hsrc, hdst, -, -⟩ := hv.built.sound.ends he
  obtain ⟨should, hshould, hiff⟩ := shouldProcessCopy_spec hash hsized hsrc hdst
  cases should with
  | true =>
    obtain ⟨solver', heq, hspec⟩ := copyTo_spec hsized hv he
    exact ⟨solver', by simp [copyToDue, hshould, heq], hspec⟩
  | false =>
    refine ⟨solver, by simp [copyToDue, hshould], .refl _ solver, hv, hdue.resolve_right fun hdue => ?_⟩
    exact absurd (hiff.mpr hdue) Bool.false_ne_true

lemma Copied.closed_or_due {changing : ℕ → Prop} (h : Copied changing solver solver') (hsrc : ¬changing src)
    (hor : solver.pts src ⊆ solver.pts dst ∨ solver.Due hash src dst) :
    solver'.pts src ⊆ solver'.pts dst ∨ solver'.Due hash src dst := by
  refine hor.imp (fun hsub => ?_) h.due
  rw [h.other src hsrc]
  exact hsub.trans (h.enlarges.pts dst)

lemma foldlM_copied {step : PartialUpdateSolver Obj → ℕ → Option (PartialUpdateSolver Obj)}
    (ready : PartialUpdateSolver Obj → ℕ → Prop)
    (hstep : ∀ {solver dst}, solver.Sized → solver.Valid model edges → solver.graph.Edge .copy src dst →
      ready solver dst → ∃ solver', step solver dst = some solver' ∧ Copied (· = dst) solver solver' ∧
        solver'.Valid model edges ∧ solver'.pts src ⊆ solver'.pts dst)
    (hready : ∀ {solver solver' dst other}, Copied (· = dst) solver solver' → src ≠ dst → ready solver other →
      ready solver' other) (dsts : List ℕ) :
    ∀ {solver}, solver.Sized → solver.Valid model edges →
      (∀ dst ∈ dsts, solver.graph.Edge .copy src dst ∧ ready solver dst) →
      ∃ solver', dsts.foldlM step solver = some solver' ∧ Copied (· ∈ dsts) solver solver' ∧
        solver'.Valid model edges ∧ ∀ dst ∈ dsts, solver'.pts src ⊆ solver'.pts dst := by
  induction dsts with
  | nil => exact fun {solver} _ hv _ => ⟨solver, rfl, .refl _ solver, hv, fun dst hm => absurd hm List.not_mem_nil⟩
  | cons dst rest ih =>
    intro solver hsized hv hall
    obtain ⟨he, hr⟩ := hall dst List.mem_cons_self
    obtain ⟨middle, heq, hcopied, hvalid, hclosed⟩ := hstep hsized hv he hr
    have hsrc : ∀ other ∈ dst :: rest, src ≠ other := by
      rintro other hm rfl
      exact hv.built.sound.plain _ (hall _ hm).1
    obtain ⟨last, heq', hcopied', hvalid', hclosed'⟩ := ih (hcopied.sized hsized) hvalid fun other hm => by
      obtain ⟨he', hr'⟩ := hall other (List.mem_cons_of_mem _ hm)
      exact ⟨hcopied.enlarges.graph ▸ he', hready hcopied (hsrc dst List.mem_cons_self) hr'⟩
    refine ⟨last, ?_, (hcopied.trans hcopied').mono fun id hid => ?_, hvalid', fun other hm => ?_⟩
    · rw [List.foldlM_cons, heq]
      exact heq'
    · exact hid.elim (fun heq => heq ▸ List.mem_cons_self) (List.mem_cons_of_mem _)
    · rcases List.mem_cons.mp hm with rfl | hm
      · rw [hcopied'.other src fun hin => hsrc src (List.mem_cons_of_mem _ hin) rfl]
        exact hclosed.trans (hcopied'.enlarges.pts other)
      · exact hclosed' other hm

/-- The components of the queue are still to be visited. The edges of some nodes are exempt. -/
structure Copying (hash : ℕ → ℕ → ℕ) (model : FieldModel Obj) (edges : Constraints → Place Obj → Place Obj → Prop)
    (graph : ConstraintGraph) (queue : List (List ℕ)) (exempt : ℕ → Prop) (solver : PartialUpdateSolver Obj) :
    Prop where
  valid : solver.Valid model edges
  sized : solver.Sized
  indexed : solver.Indexed model
  done : ∀ id ∈ solver.lsWorkList.bits, solver.Done model id
  same : ∀ scc ∈ queue, ∀ a ∈ scc, ∀ b, solver.graph.Edge .copy a b ↔ graph.Edge .copy a b
  edge : ∀ {src dst}, solver.graph.Edge .copy src dst → exempt src ∨ solver.pts src ⊆ solver.pts dst ∨
    ((∃ scc ∈ queue, src ∈ scc) ∧ solver.Due hash src dst)

section Leave

variable {queue : List (List ℕ)} {node : ℕ}

lemma Copying.leave (h : solver.Copying hash model edges graph queue (· = node))
    (hlater : ∀ {dst}, solver.graph.Edge .copy node dst → ∃ scc ∈ queue, dst ∈ scc)
    (hcopied : Copied (· ∈ solver.graph.copySuccs node) solver solver') (hvalid : solver'.Valid model edges)
    (hclosed : ∀ dst ∈ solver.graph.copySuccs node, solver'.pts node ⊆ solver'.pts dst) :
    solver'.Copying hash model edges graph queue (fun _ => False) where
  valid := hvalid
  sized := hcopied.sized h.sized
  indexed := hcopied.enlarges.indexed h.indexed
  done id hid := by
    obtain ⟨hold, hpts⟩ := hcopied.kept id hid
    exact hcopied.enlarges.done hpts (h.done id hold)
  same scc hscc a ha b := by
    rw [hcopied.enlarges.graph]
    exact h.same scc hscc a ha b
  edge := by
    intro src dst he
    rw [hcopied.enlarges.graph] at he
    refine .inr ?_
    rcases h.edge he with rfl | hor
    · exact .inl (hclosed dst (mem_copySuccs.mpr he))
    · by_cases hpts : solver'.pts src = solver.pts src
      · rcases hor with hsub | ⟨hin, hdue⟩
        · rw [hpts]
          exact .inl (hsub.trans (hcopied.enlarges.pts dst))
        · exact .inr ⟨hin, hcopied.due hdue⟩
      · -- the node has changed, so that its edges are due
        have hchanged : src ∈ solver.graph.copySuccs node := by
          by_contra hout
          exact hpts (hcopied.other src hout)
        exact .inr ⟨hlater (mem_copySuccs.mp hchanged), .inl fun hin => hpts (hcopied.kept src hin).2⟩

lemma Copying.copyNode (h : solver.Copying hash model edges graph ([node] :: queue) (fun _ => False))
    (ht : graph.Topological ([node] :: queue)) :
    ∃ solver', solver.copyNode hash node = some solver' ∧
      solver'.Copying hash model edges graph queue (fun _ => False) ∧
      Keeps solver.toSolverBase solver'.toSolverBase := by
  have hsame := h.same [node] List.mem_cons_self node (List.mem_singleton_self node)
  have hdue : ∀ {dst}, solver.graph.Edge .copy node dst →
      solver.pts node ⊆ solver.pts dst ∨ solver.Due hash node dst :=
    fun he => ((h.edge he).resolve_left id).imp_right And.right
  obtain ⟨solver', heq, hcopied, hvalid, hclosed⟩ := foldlM_copied _ copyToDue_spec
    (fun hcopied hne => hcopied.closed_or_due hne) (solver.graph.copySuccs node) h.sized h.valid
    fun dst hm => ⟨mem_copySuccs.mp hm, hdue (mem_copySuccs.mp hm)⟩
  refine ⟨solver', heq, Copying.leave ?_ (fun {dst} he => ?_) hcopied hvalid hclosed, hcopied.enlarges.keeps⟩
  · refine ⟨h.valid, h.sized, h.indexed, h.done, fun scc hscc => h.same scc (List.mem_cons_of_mem _ hscc), ?_⟩
    intro src dst he
    by_cases hsrc : src = node
    · exact .inl hsrc
    · refine .inr (((h.edge he).resolve_left id).imp_right fun ⟨⟨scc, hscc, hin⟩, hdue⟩ => ⟨⟨scc, ?_, hin⟩, hdue⟩)
      refine (List.mem_cons.mp hscc).resolve_left ?_
      rintro rfl
      exact hsrc (List.mem_singleton.mp hin)
  · refine ht.later (List.mem_singleton_self node) ((hsame dst).mp he) fun hm => ?_
    rw [List.mem_singleton.mp hm] at he
    exact h.valid.built.sound.plain _ he

end Leave

section Cycles

variable {superNode : ℕ} {rest : List ℕ} {queue : List (List ℕ)}

structure Gathered (superNode : ℕ) (rest : List ℕ) (solver solver' : PartialUpdateSolver Obj) : Prop where
  graph : solver'.graph = solver.graph
  objVec : solver'.objVec = solver.objVec
  handledGEPMap : solver'.handledGEPMap = solver.handledGEPMap
  copyWorkList : solver'.copyWorkList = solver.copyWorkList
  lsWorkList : solver'.lsWorkList = solver.lsWorkList
  requiredEdge : solver'.requiredEdge = solver.requiredEdge
  size : solver'.targetList.size = solver.targetList.size
  targetList : solver'.targetList.bits ⊆ solver.targetList.bits
  pts : ∀ id index, index ∈ solver'.pts id ↔
    (id = superNode ∧ ∃ node ∈ superNode :: rest, index ∈ solver.pts node) ∨
    (id ∉ superNode :: rest ∧ index ∈ solver.pts id)

lemma mergeInto_spec {node : ℕ} (hnode : node < solver.targetList.size) (hsuper : superNode < solver.targetList.size)
    (hne : node ≠ superNode) :
    ∃ solver', mergeInto superNode solver node = some solver' ∧ Gathered superNode [node] solver solver' := by
  have hgathered : ∀ targetList : BitVector, targetList.size = solver.targetList.size →
      targetList.bits ⊆ solver.targetList.bits → Gathered superNode [node] solver { solver with
        toSolverBase := { (solver.processCopy node superNode).2 with
          pts := Function.update (solver.processCopy node superNode).2.pts node ∅ }
        targetList } := by
    refine fun targetList hsize hbits => ⟨rfl, rfl, rfl, rfl, rfl, rfl, hsize, hbits, fun id index => ?_⟩
    change index ∈ Function.update (solver.processCopy node superNode).2.pts node ∅ id ↔ _
    by_cases hid : id = node
    · subst hid
      simp [hne]
    · rw [Function.update_of_ne hid, processCopy_pts]
      by_cases hid' : id = superNode
      · simp [hid']
      · simp [hid, hid']
  by_cases hbit : node ∈ solver.targetList.bits
  · refine ⟨_, ?_, hgathered solver.targetList rfl subset_rfl⟩
    simp [mergeInto, BitVector.test_eq hnode, hbit]
  · refine ⟨_, ?_, hgathered (solver.targetList.cleared superNode) rfl (Finset.erase_subset _ _)⟩
    simp [mergeInto, BitVector.test_eq hnode, hbit, BitVector.reset_eq hsuper]

lemma Gathered.cons {node : ℕ} (h : Gathered superNode [node] solver solver')
    (h' : Gathered superNode rest solver' solver'') (hne : node ≠ superNode) (hnode : node ∉ rest)
    (hsuper : superNode ∉ rest) : Gathered superNode (node :: rest) solver solver'' where
  graph := h'.graph.trans h.graph
  objVec := h'.objVec.trans h.objVec
  handledGEPMap := h'.handledGEPMap.trans h.handledGEPMap
  copyWorkList := h'.copyWorkList.trans h.copyWorkList
  lsWorkList := h'.lsWorkList.trans h.lsWorkList
  requiredEdge := h'.requiredEdge.trans h.requiredEdge
  size := h'.size.trans h.size
  targetList := h'.targetList.trans h.targetList
  pts id index := by
    have hfirst : index ∈ solver'.pts superNode ↔ index ∈ solver.pts superNode ∨ index ∈ solver.pts node := by
      simp [h.pts]
    have hrest : ∀ other ∈ rest, (index ∈ solver'.pts other ↔ index ∈ solver.pts other) := by
      intro other hm
      have hother : other ≠ superNode := fun heq => hsuper (heq ▸ hm)
      have hother' : other ≠ node := fun heq => hnode (heq ▸ hm)
      simp [h.pts, hother, hother']
    rw [h'.pts]
    by_cases hid : id = superNode
    · subst hid
      have hexists : (∃ other ∈ rest, index ∈ solver'.pts other) ↔ ∃ other ∈ rest, index ∈ solver.pts other :=
        exists_congr fun other => and_congr_right (hrest other)
      simp only [List.mem_cons, exists_eq_or_imp, hfirst, hexists, true_or, not_true_eq_false, false_and, or_false,
        true_and, or_assoc]
    · by_cases hid' : id = node
      · subst hid'
        simp [hid, h.pts]
      · simp [hid, hid', h.pts]

lemma foldlM_mergeInto (rest : List ℕ) : ∀ solver : PartialUpdateSolver Obj,
    (∀ node ∈ superNode :: rest, node < solver.targetList.size) → (superNode :: rest).Nodup →
    ∃ solver', rest.foldlM (mergeInto superNode) solver = some solver' ∧ Gathered superNode rest solver solver' := by
  induction rest with
  | nil =>
    intro solver _ _
    refine ⟨solver, rfl, rfl, rfl, rfl, rfl, rfl, rfl, rfl, subset_rfl, fun id index => ?_⟩
    by_cases hid : id = superNode <;> simp [hid]
  | cons node rest ih =>
    intro solver hlt hnodup
    obtain ⟨hout, hnodup'⟩ := List.nodup_cons.mp hnodup
    obtain ⟨hnode, hrest⟩ := List.nodup_cons.mp hnodup'
    have hne : node ≠ superNode := fun heq => hout (heq ▸ List.mem_cons_self)
    have hsuper : superNode ∉ rest := fun hm => hout (List.mem_cons_of_mem _ hm)
    obtain ⟨middle, heq, hstep⟩ := mergeInto_spec (hlt node (List.mem_cons_of_mem _ List.mem_cons_self))
      (hlt superNode List.mem_cons_self) hne
    obtain ⟨last, heq', hgathered⟩ := ih middle (fun other hm => by
      rw [hstep.size]
      refine hlt other ?_
      rcases List.mem_cons.mp hm with rfl | hm
      · exact List.mem_cons_self
      · exact List.mem_cons_of_mem _ (List.mem_cons_of_mem _ hm)) (List.nodup_cons.mpr ⟨hsuper, hrest⟩)
    refine ⟨last, ?_, hstep.cons hgathered hne hnode hsuper⟩
    rw [List.foldlM_cons, heq]
    exact heq'

lemma Copying.cycle {scc : List ℕ} (h : solver.Copying hash model edges graph (scc :: queue) (fun _ => False))
    (ht : graph.Topological (scc :: queue)) {a b : ℕ} (ha : a ∈ scc) (hb : b ∈ scc) (hne : a ≠ b) :
    solver.Cycle scc := by
  have hsame := h.same scc List.mem_cons_self
  obtain ⟨-, hnodup, hstrong⟩ := ht.strong scc List.mem_cons_self
  have hnear : ∀ id ∈ scc, (∃ src ∈ scc, graph.Edge .copy src id) ∧ ∃ dst ∈ scc, graph.Edge .copy id dst := by
    intro id hid
    by_cases heq : id = a
    · exact ht.entered List.mem_cons_self hid hb (heq ▸ hne)
    · exact ht.entered List.mem_cons_self hid ha heq
  refine ⟨hnodup, fun id hid => ?_, fun id hid => ?_, fun first hfirst last hlast => ?_⟩
  · obtain ⟨dst, -, he⟩ := (hnear id hid).2
    obtain ⟨hlt, -, hroot, -⟩ := h.valid.built.sound.ends ((hsame id hid dst).mpr he)
    exact ⟨hlt, hroot⟩
  · obtain ⟨src, hsrc, he⟩ := (hnear id hid).1
    exact ⟨src, hsrc, (hsame src hsrc id).mpr he⟩
  · -- a path between two nodes of the component stays inside
    obtain ⟨hpath, hback⟩ := (hstrong first hfirst last).mp hlast
    induction hpath using Relation.ReflTransGen.head_induction_on with
    | refl => exact .refl
    | head he hrest ih =>
      have hnext := (hstrong _ hfirst _).mpr ⟨.single he, hrest.trans hback⟩
      exact .head ((hsame _ hfirst _).mpr he) (ih hnext ((hback.tail he)))

lemma Copying.merged {scc : List ℕ} (h : solver.Copying hash model edges graph (scc :: queue) (fun _ => False))
    (ht : graph.Topological (scc :: queue)) (hc : solver.Cycle scc) (hs : superNode ∈ scc)
    (hm : Merged scc superNode solver.toSolverBase solver'.toSolverBase)
    (hcopy : solver'.copyWorkList = solver.copyWorkList) (hrequired : solver'.requiredEdge = solver.requiredEdge)
    (hsize : solver'.targetList.size = solver.targetList.size)
    (htarget : solver'.targetList.bits ⊆ solver.targetList.bits)
    (hls : solver'.lsWorkList = solver.lsWorkList.cleared superNode) :
    solver'.Copying hash model edges graph queue (· = superNode) := by
  have hb := h.valid.built
  have hout : ∀ scc' ∈ queue, ∀ a ∈ scc', a ∉ scc := fun scc' hscc a ha hin => ht.apart hin hscc ha
  have hsame : ∀ scc' ∈ queue, ∀ a ∈ scc', ∀ b, solver.graph.Edge .copy a b ↔ graph.Edge .copy a b :=
    fun scc' hscc => h.same scc' (List.mem_cons_of_mem _ hscc)
  refine ⟨hm.valid hc hs h.valid, ⟨?_, ?_, ?_⟩, hm.indexed hc hb hs h.indexed, fun id hid => ?_,
    fun scc' hscc a ha b => ⟨fun he => ?_, fun he => ?_⟩, fun {src dst} he => ?_⟩
  · rw [hcopy, hm.collapsed.nodeNum, h.sized.copyWorkList]
  · rw [hls, hm.collapsed.nodeNum, BitVector.size_cleared, h.sized.lsWorkList]
  · rw [hsize, hm.collapsed.nodeNum, h.sized.targetList]
  · rw [hls, BitVector.mem_cleared] at hid
    by_cases hin : id ∈ scc
    · -- a collapsed node has no edges left
      have hcollapsed : (solver'.graph.node id).superNode ≠ none := by
        intro hroot
        have heq := hm.root_eq hb.sound id
        rw [ConstraintGraph.root_eq hroot, ConstraintGraph.root_eq (hc.nodes id hin).2, target_of_mem hin] at heq
        exact hid.1 heq
      refine done_of_isolated fun kind other => ⟨fun he => ?_, fun he => ?_⟩
      · exact hcollapsed (hm.collapsed.sound.ends he).2.2.1
      · exact hcollapsed (hm.collapsed.sound.ends he).2.2.2
    · exact hm.done hc hb hs hin (h.done id hid.2)
  · obtain ⟨-, a', b', hold, hsrc, rfl⟩ := hm.collapsed.collapses.image _ _ _ he
    rw [eq_of_target hs (hout scc' hscc a ha) hsrc, hsame scc' hscc a ha] at hold
    rwa [target_of_notMem (ht.edge_notMem hscc ha hold)]
  · have hedge := hm.edge hc hb hs ((hsame scc' hscc a ha b).mpr he)
    rw [target_of_notMem (hout scc' hscc a ha), target_of_notMem (ht.edge_notMem hscc ha he)] at hedge
    refine hedge.resolve_right ?_
    rintro ⟨-, rfl⟩
    exact hb.sound.plain _ ((hsame scc' hscc a ha a).mpr he)
  · obtain ⟨-, src', dst', hold, hsrc, rfl⟩ := hm.collapsed.collapses.image _ _ _ he
    by_cases hin : src' ∈ scc
    · exact .inl (hsrc.trans (target_of_mem hin))
    · rw [target_of_notMem hin] at hsrc
      subst hsrc
      rw [hm.pts_of_notMem hs hin]
      refine .inr (((h.edge hold).resolve_left id).imp (fun hsub index hindex => ?_) ?_)
      · exact hm.pts_target (hsub hindex)
      · rintro ⟨⟨scc', hscc, hmem⟩, hdue⟩
        have hqueue : scc' ∈ queue := by
          refine (List.mem_cons.mp hscc).resolve_left ?_
          rintro rfl
          exact hin hmem
        have hdst := ht.edge_notMem hqueue hmem ((hsame scc' hqueue src hmem dst').mp hold)
        rw [target_of_notMem hdst, Due, hcopy, hrequired, hls, BitVector.mem_cleared]
        refine ⟨⟨scc', hqueue, hmem⟩, hdue.imp (fun hnot hboth => hnot hboth.2) ?_⟩
        exact fun ⟨hnot, hrest⟩ => ⟨fun hbit => hnot (htarget hbit), hrest⟩

lemma Copying.processCopySCC {superNode : ℕ} {rest : List ℕ}
    (h : solver.Copying hash model edges graph ((superNode :: rest) :: queue) (fun _ => False))
    (ht : graph.Topological ((superNode :: rest) :: queue)) (hrest : rest ≠ []) :
    ∃ solver', solver.processCopySCC superNode rest = some solver' ∧
      solver'.Copying hash model edges graph queue (fun _ => False) ∧
      Keeps solver.toSolverBase solver'.toSolverBase := by
  have hs : superNode ∈ superNode :: rest := List.mem_cons_self
  obtain ⟨other, hother⟩ := List.exists_mem_of_ne_nil rest hrest
  obtain ⟨-, hnodup, -⟩ := ht.strong _ List.mem_cons_self
  have hne : superNode ≠ other := by
    rintro rfl
    exact (List.nodup_cons.mp hnodup).1 hother
  have hc := h.cycle ht hs (List.mem_cons_of_mem _ hother) hne
  obtain ⟨gathered, hgather, hg⟩ := foldlM_mergeInto rest solver (fun node hm => by
    rw [h.sized.targetList]
    exact (hc.nodes node hm).1) hnodup
  have hcollapsible : solver.graph.Collapsible (superNode :: rest) superNode :=
    ⟨hnodup, fun id hid => hc.nodes id (by simpa using hid)⟩
  obtain ⟨collapsed, hcollapse, hset⟩ := collapseSCCTo_spec h.valid.built.sound hcollapsible
  obtain ⟨merged, hmerged⟩ : ∃ merged, merged = { gathered with
      graph := collapsed
      lsWorkList := gathered.lsWorkList.cleared superNode
      updatedFunPtrs := if collapsed.isFunctionPtr superNode then insert superNode gathered.updatedFunPtrs
        else gathered.updatedFunPtrs } := ⟨_, rfl⟩
  have hm : Merged (superNode :: rest) superNode solver.toSolverBase merged.toSolverBase := by
    subst hmerged
    exact ⟨hset, sameKinds_collapseSCCTo hcollapse, hg.objVec, hg.handledGEPMap, hg.pts⟩
  have hcopying : merged.Copying hash model edges graph queue (· = superNode) := by
    subst hmerged
    exact h.merged ht hc hs hm hg.copyWorkList hg.requiredEdge hg.size hg.targetList
      (congrArg (BitVector.cleared · superNode) hg.lsWorkList)
  obtain ⟨solver', heq, hcopied, hvalid, hclosed⟩ := foldlM_copied (fun _ _ => True)
    (fun hsized hv he _ => copyTo_spec hsized hv he) (fun _ _ _ => trivial) (merged.graph.copySuccs superNode)
    hcopying.sized hcopying.valid fun dst hm => ⟨mem_copySuccs.mp hm, trivial⟩
  refine ⟨solver', ?_, hcopying.leave (fun {dst} he => ?_) hcopied hvalid hclosed,
    (hm.keeps hc h.valid.built hs).trans hcopied.enlarges.keeps⟩
  · have hsize : superNode < gathered.lsWorkList.size := by
      rw [hg.lsWorkList, h.sized.lsWorkList]
      exact (hc.nodes superNode hs).1
    rw [← hg.graph] at hcollapse
    simp only [PartialUpdateSolver.processCopySCC, hgather, BitVector.reset_eq hsize, hcollapse,
      Option.bind_eq_bind, Option.bind_some]
    rw [hmerged] at heq
    exact heq
  · obtain ⟨hself, src', dst', hold, hsrc, rfl⟩ := hm.collapsed.collapses.image _ _ _ he
    have hin : src' ∈ superNode :: rest := by
      by_contra hout
      rw [target_of_notMem hout] at hsrc
      exact hout (hsrc ▸ hs)
    have hdst : dst' ∉ superNode :: rest := fun hin' => hself ⟨rfl, (target_of_mem hin').symm⟩
    rw [target_of_notMem hdst]
    exact ht.later hin ((h.same _ List.mem_cons_self src' hin dst').mp hold) hdst

end Cycles

/-- What holds at the start of a round. -/
structure Ready (hash : ℕ → ℕ → ℕ) (model : FieldModel Obj) (edges : Constraints → Place Obj → Place Obj → Prop)
    (solver : PartialUpdateSolver Obj) : Prop where
  valid : solver.Valid model edges
  sized : solver.Sized
  indexed : solver.Indexed model
  done : ∀ id ∈ solver.lsWorkList.bits, solver.Done model id
  edge : ∀ {src dst}, solver.graph.Edge .copy src dst → solver.pts src ⊆ solver.pts dst ∨
    (src ∉ solver.copyWorkList.bits ∧ solver.Due hash src dst)

/-- What holds after the copies of a round. -/
structure Propagated (model : FieldModel Obj) (edges : Constraints → Place Obj → Place Obj → Prop)
    (solver : PartialUpdateSolver Obj) : Prop where
  valid : solver.Valid model edges
  sized : solver.Sized
  indexed : solver.Indexed model
  done : ∀ id ∈ solver.lsWorkList.bits, solver.Done model id
  edge : ∀ {src dst}, solver.graph.Edge .copy src dst → solver.pts src ⊆ solver.pts dst
  copyWorkList : ∀ id < solver.graph.nodeNum, id ∈ solver.copyWorkList.bits
  targetList : ∀ id < solver.graph.nodeNum, id ∈ solver.targetList.bits
  requiredEdge : solver.requiredEdge = ∅

lemma foldlM_processSCC (queue : List (List ℕ)) : ∀ solver : PartialUpdateSolver Obj, graph.Topological queue →
    solver.Copying hash model edges graph queue (fun _ => False) →
    ∃ solver', queue.foldlM (processSCC hash) solver = some solver' ∧
      solver'.Copying hash model edges graph [] (fun _ => False) ∧
      Keeps solver.toSolverBase solver'.toSolverBase := by
  induction queue with
  | nil => exact fun solver _ h => ⟨solver, rfl, h, ⟨rfl, rfl, fun hl => hl, fun hl hroot => ⟨hl, hroot⟩⟩⟩
  | cons scc queue ih =>
    intro solver ht h
    obtain ⟨middle, heq, hstep, hkeeps⟩ : ∃ middle, processSCC hash solver scc = some middle ∧
        middle.Copying hash model edges graph queue (fun _ => False) ∧
        Keeps solver.toSolverBase middle.toSolverBase := by
      cases scc with
      | nil => exact absurd rfl (ht.strong [] List.mem_cons_self).1
      | cons node rest =>
        cases rest with
        | nil => exact h.copyNode ht
        | cons other rest => exact h.processCopySCC ht (List.cons_ne_nil other rest)
    obtain ⟨last, heq', hlast, hkeeps'⟩ := ih middle ht.tail hstep
    refine ⟨last, ?_, hlast, hkeeps.trans hkeeps'⟩
    rw [List.foldlM_cons, heq]
    exact heq'

lemma copyPhase_spec (h : solver.Ready hash model edges) (hids : solver.graph.nodeNum ≤ SCCIterator.finished) :
    ∃ solver', solver.copyPhase hash = some solver' ∧ solver'.Propagated model edges ∧
      Keeps solver.toSolverBase solver'.toSolverBase := by
  obtain ⟨sccs, hemitted, ht, hcovered⟩ :=
    emitted_reversed (h.valid.built.sound.linked hids .copy) solver.copyWorkList.bits
  -- the edges that are not closed leave nodes from which the search starts
  have hcopying : solver.Copying hash model edges solver.graph sccs.reverse (fun _ => False) := by
    refine ⟨h.valid, h.sized, h.indexed, h.done, fun _ _ _ _ _ => .rfl, fun {src dst} he => .inr ?_⟩
    obtain ⟨hsrc, -, hroot, -⟩ := h.valid.built.sound.ends he
    exact (h.edge he).imp_right fun ⟨hbit, hdue⟩ => ⟨hcovered src ⟨hsrc, hbit, .inl hroot⟩, hdue⟩
  obtain ⟨solver', heq, hcopied, hkeeps⟩ := foldlM_processSCC sccs.reverse solver ht hcopying
  refine ⟨{ solver' with
      copyWorkList := solver'.copyWorkList.setAll, targetList := solver'.targetList.setAll, requiredEdge := ∅ }, ?_,
    ⟨hcopied.valid, ⟨hcopied.sized.copyWorkList, hcopied.sized.lsWorkList, hcopied.sized.targetList⟩,
      hcopied.indexed, hcopied.done, fun he => ?_, fun id hid => ?_, fun id hid => ?_, rfl⟩, hkeeps⟩
  · simp only [copyPhase, hemitted, heq, Option.bind_eq_bind, Option.bind_some, Option.pure_def]
  · exact ((hcopied.edge he).resolve_left id).resolve_right fun hin => by simpa using hin.1
  · rw [BitVector.mem_setAll, hcopied.sized.copyWorkList]
    exact hid
  · rw [BitVector.mem_setAll, hcopied.sized.targetList]
    exact hid

end PartialUpdateSolver

end OpenRace
