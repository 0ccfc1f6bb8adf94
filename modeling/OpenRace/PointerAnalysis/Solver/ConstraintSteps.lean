import OpenRace.PointerAnalysis.Solver.Places

/-! An edge or the node of an object is added to the constraint graph. -/

namespace OpenRace

open ConstraintGraph

namespace SolverBase

variable {Obj : Type} {model : FieldModel Obj} {solver : SolverBase Obj} {src dst : ℕ} {graph : ConstraintGraph}

structure Accepts (solver : SolverBase Obj) (kind : Constraints) (src dst : ℕ) : Prop where
  src_lt : src < solver.graph.nodeNum
  dst_lt : dst < solver.graph.nodeNum
  src_root : (solver.graph.node src).superNode = none
  dst_root : (solver.graph.node dst).superNode = none
  unsettled : (solver.graph.node dst).isImmutable = false
  unknown : solver.AnonNode dst → kind ≠ .copy ∧ kind ≠ .load ∧ kind ≠ .offset
  pinned : solver.Pinned dst → kind ≠ .load ∧ (kind = .copy → solver.AnonNode src)
  leaf : kind = .offset → solver.Leaf dst

lemma accepts_copy (hsrc : src < solver.graph.nodeNum) (hdst : dst < solver.graph.nodeNum)
    (hroot : (solver.graph.node src).superNode = none) (hroot' : (solver.graph.node dst).superNode = none)
    (hunknown : ¬solver.AnonNode dst) (hunsettled : (solver.graph.node dst).isImmutable = false)
    (hpinned : solver.Pinned dst → solver.AnonNode src) : solver.Accepts .copy src dst :=
  ⟨hsrc, hdst, hroot, hroot', hunsettled, fun ha => absurd ha hunknown, fun hp => ⟨by simp, fun _ => hpinned hp⟩,
    fun hkind => by cases hkind⟩

structure EdgeAdded (solver : SolverBase Obj) (kind : Constraints) (src dst : ℕ) (graph : ConstraintGraph) :
    Prop where
  same : SameNodes solver.graph graph
  kinds : SameKinds solver.graph graph
  sound : graph.Sound
  edge : ∀ kind' a b, graph.Edge kind' a b ↔
    solver.graph.Edge kind' a b ∨ (kind' = kind ∧ a = src ∧ b = dst ∧ ¬(kind = .copy ∧ src = dst))

lemma insertEdge_spec (h : solver.graph.Sound) (kind : Constraints) (hsrc : src < solver.graph.nodeNum)
    (hdst : dst < solver.graph.nodeNum) (hmutable : (solver.graph.node dst).isImmutable = false) :
    ∃ added graph, solver.graph.insertConstraint src dst kind = some (added, graph) ∧
      solver.EdgeAdded kind (solver.graph.root src) (solver.graph.root dst) graph ∧
      (added = true ↔ ¬solver.graph.Edge kind (solver.graph.root src) (solver.graph.root dst) ∧
        graph.Edge kind (solver.graph.root src) (solver.graph.root dst)) := by
  obtain ⟨added, graph, heq, hsame, hkinds, hsound, hedges, hadded⟩ := insertConstraint_reports h kind hsrc hdst
  refine ⟨added, graph, heq, ⟨hsame, hkinds, hsound, fun kind' a b => ?_⟩, hadded⟩
  rw [hedges, hmutable]
  refine or_congr_right ⟨?_, ?_⟩
  · rintro ⟨⟨rfl, rfl, rfl⟩, hself, -⟩
    exact ⟨rfl, rfl, rfl, hself⟩
  · rintro ⟨rfl, rfl, rfl, hself⟩
    exact ⟨⟨rfl, rfl, rfl⟩, hself, .inr rfl⟩

lemma addEdge_spec (h : solver.graph.Sound) {kind : Constraints} (hkind : kind ≠ .addrOf)
    (hsrc : src < solver.graph.nodeNum) (hdst : dst < solver.graph.nodeNum)
    (hmutable : (solver.graph.node dst).isImmutable = false) :
    ∃ added graph, solver.graph.addConstraints src dst kind = some (added, graph) ∧
      solver.EdgeAdded kind (solver.graph.root src) (solver.graph.root dst) graph ∧
      (added = true ↔ ¬solver.graph.Edge kind (solver.graph.root src) (solver.graph.root dst) ∧
        graph.Edge kind (solver.graph.root src) (solver.graph.root dst)) := by
  by_cases hself : src = dst ∧ kind = .copy
  · obtain ⟨rfl, rfl⟩ := hself
    refine ⟨false, solver.graph, by rw [addConstraints, if_pos ⟨rfl, rfl⟩], ⟨.refl _, .refl _, h, ?_⟩, ?_⟩
    · exact fun kind a b => ⟨.inl, fun hor => hor.elim id fun hnew => absurd ⟨rfl, rfl⟩ hnew.2.2.2⟩
    · simp
  · have heq : solver.graph.addConstraints src dst kind = solver.graph.insertConstraint src dst kind := by
      rw [addConstraints, if_neg hself, if_neg hkind]
    rw [heq]
    exact insertEdge_spec h kind hsrc hdst hmutable

lemma addCopy_spec (h : solver.graph.Sound) (ha : solver.Accepts .copy src dst) :
    ∃ added graph, solver.graph.addConstraints src dst .copy = some (added, graph) ∧
      solver.EdgeAdded .copy src dst graph ∧
      (added = true ↔ ¬solver.graph.Edge .copy src dst ∧ graph.Edge .copy src dst) := by
  have hspec := addEdge_spec h (show Constraints.copy ≠ .addrOf by simp) ha.src_lt ha.dst_lt ha.unsettled
  rwa [root_eq ha.src_root, root_eq ha.dst_root] at hspec

lemma addAddress_spec (h : solver.Built model) (hobj : solver.ObjNode src) (hdst : dst < solver.graph.nodeNum)
    (hmutable : (solver.graph.node dst).isImmutable = false) :
    ∃ added graph, solver.graph.addConstraints src dst .addrOf = some (added, graph) ∧
      solver.EdgeAdded .copy (src + 1) (solver.graph.root dst) graph ∧
      (added = true ↔ ¬solver.graph.Edge .copy (src + 1) (solver.graph.root dst) ∧
        graph.Edge .copy (src + 1) (solver.graph.root dst)) := by
  obtain ⟨hlt, htype, htype', hanon⟩ := h.objNode hobj
  have hroot : (solver.graph.node (src + 1)).superNode = none := h.kept (.inl ⟨src, hobj, rfl⟩)
  obtain ⟨added, graph, heq, hspec⟩ := insertEdge_spec h.sound .copy hlt hdst hmutable
  rw [root_eq hroot] at hspec
  refine ⟨added, graph, ?_, hspec⟩
  rw [addConstraints, if_neg (by simp), if_pos rfl]
  exact (if_pos ⟨htype, hlt, hroot, htype', hanon⟩).trans heq

section EdgeAdded

variable {kind : Constraints}

lemma EdgeAdded.root_eq (hc : solver.EdgeAdded kind src dst graph) (h : solver.graph.Sound) (id : ℕ) :
    graph.root id = solver.graph.root id := root_congr hc.same.superNode h hc.sound id

lemma EdgeAdded.leaf (hc : solver.EdgeAdded kind src dst graph) (h : solver.graph.Sound) {id : ℕ}
    (hnew : id = dst → kind ≠ .load ∧ (kind = .copy → solver.AnonNode src)) (hl : solver.Leaf id) :
    { solver with graph }.Leaf id where
  apart node hobj := by
    rw [hc.root_eq h]
    exact hl.apart node hobj
  unloaded other he := by
    rcases (hc.edge _ _ _).mp he with hold | ⟨hkind, -, hdst, -⟩
    · exact hl.unloaded other hold
    · exact (hnew hdst).1 hkind.symm
  copied other he := by
    rcases (hc.edge _ _ _).mp he with hold | ⟨hkind, rfl, hdst, -⟩
    · exact hl.copied other hold
    · exact (hnew hdst).2 hkind.symm

lemma EdgeAdded.built (hc : solver.EdgeAdded kind src dst graph) (h : solver.Built model)
    (ha : solver.Accepts kind src dst) : { solver with graph }.Built model where
  sound := hc.sound
  objects := h.objects
  nodes := h.nodes
  objNode := by
    intro node hobj
    change node + 1 < graph.nodeNum ∧ _
    rw [hc.same.nodeNum, hc.kinds.type, hc.kinds.type, hc.kinds.isAnonymous]
    exact h.objNode hobj
  constant hm := by
    rw [← h.constant hm]
    exact hc.same.isImmutable _
  immutable hi := h.immutable ((hc.same.isImmutable _).symm.trans hi)
  kept := by
    intro id hor
    simp only [hc.same.superNode, hc.same.isImmutable] at hor ⊢
    exact h.kept hor
  alone := by
    intro id hor
    simp only [hc.root_eq h.sound, hc.same.isImmutable] at hor ⊢
    exact h.alone hor
  anon := by
    intro other id hid
    obtain ⟨hcopy, hload, hoffset⟩ := @Built.anon _ _ _ h other id hid
    refine ⟨?_, ?_, ?_⟩ <;> rw [hc.edge] <;> rintro (hold | ⟨rfl, rfl, rfl, -⟩)
    · exact hcopy hold
    · exact (ha.unknown hid).1 rfl
    · exact hload hold
    · exact (ha.unknown hid).2.1 rfl
    · exact hoffset hold
    · exact (ha.unknown hid).2.2 rfl
  offset := by
    intro other id he
    rcases (hc.edge _ _ _).mp he with hold | ⟨rfl, rfl, rfl, -⟩
    · exact hc.leaf h.sound (fun heq => ha.pinned (heq ▸ .inl ⟨other, hold⟩)) (h.offset hold)
    · refine hc.leaf h.sound (fun _ => ⟨by simp, fun hcopy => ?_⟩) (ha.leaf rfl)
      cases hcopy
  settled := by
    intro kind' other id hi he
    have hold : (solver.graph.node id).isImmutable = true := (hc.same.isImmutable id).symm.trans hi
    rcases (hc.edge _ _ _).mp he with hedge | ⟨-, -, rfl, -⟩
    · obtain ⟨hkind, hor⟩ := h.settled hold hedge
      refine ⟨hkind, or_iff_not_imp_left.mpr fun hanon => hc.leaf h.sound (fun heq => ?_) (hor.resolve_left hanon)⟩
      exact ha.pinned (heq ▸ .inr (.inr ⟨kind', id, hold, hedge, hanon⟩))
    · rw [ha.unsettled] at hold
      cases hold
  known := h.known
  addressed := h.addressed
  handled hm := by
    obtain ⟨hl, hid, hobject⟩ := h.handled hm
    exact ⟨hc.leaf h.sound (fun heq => ha.pinned (heq ▸ .inr (.inl ⟨_, hm⟩))) hl, hid.trans_eq hc.same.nodeNum.symm,
      hobject⟩

lemma EdgeAdded.justified {holds : Place Obj → Obj → Prop} {special : Prop} (hc : solver.EdgeAdded kind src dst graph)
    (h : solver.graph.Sound) (hj : solver.Justified model holds special)
    (hnew : model.Respects holds special kind (solver.place src) (solver.place dst)) :
    { solver with graph }.Justified model holds special where
  pts := hj.pts
  edge he := by
    rcases (hc.edge _ _ _).mp he with hold | ⟨rfl, rfl, rfl, -⟩
    · exact hj.edge hold
    · exact hnew
  same id object := by
    rw [hc.root_eq h]
    exact hj.same id object

lemma EdgeAdded.linked (hc : solver.EdgeAdded kind src dst graph) (h : solver.graph.Sound) {kind' : Constraints}
    {a b : ℕ} (hl : solver.Linked kind' a b) : { solver with graph }.Linked kind' a b := by
  rw [Linked, hc.root_eq h, hc.root_eq h]
  exact hl.imp_left fun he => (hc.edge _ _ _).mpr (.inl he)

lemma EdgeAdded.pinned (hc : solver.EdgeAdded .copy src dst graph)
    (hmutable : (solver.graph.node dst).isImmutable = false) {id : ℕ} (hp : { solver with graph }.Pinned id) :
    solver.Pinned id := by
  rcases hp with ⟨other, he⟩ | hhandled | ⟨kind, other, hi, he, hanon⟩
  · exact .inl ⟨other, ((hc.edge _ _ _).mp he).resolve_right fun hnew => by cases hnew.1⟩
  · exact .inr (.inl hhandled)
  · have hold : (solver.graph.node other).isImmutable = true := (hc.same.isImmutable other).symm.trans hi
    refine .inr (.inr ⟨kind, other, hold, ((hc.edge _ _ _).mp he).resolve_right ?_, hanon⟩)
    rintro ⟨-, -, rfl, -⟩
    rw [hmutable] at hold
    cases hold

lemma EdgeAdded.accepts (hc : solver.EdgeAdded .copy src dst graph)
    (hmutable : (solver.graph.node dst).isImmutable = false) {a b : ℕ} (ha : solver.Accepts .copy a b) :
    { solver with graph }.Accepts .copy a b where
  src_lt := ha.src_lt.trans_eq hc.same.nodeNum.symm
  dst_lt := ha.dst_lt.trans_eq hc.same.nodeNum.symm
  src_root := (hc.same.superNode a).trans ha.src_root
  dst_root := (hc.same.superNode b).trans ha.dst_root
  unsettled := (hc.same.isImmutable b).trans ha.unsettled
  unknown := ha.unknown
  pinned hp := ha.pinned (hc.pinned hmutable hp)
  leaf hkind := by cases hkind

end EdgeAdded

structure NodeCreated (model : FieldModel Obj) (solver : SolverBase Obj) (object : Obj) (solver' : SolverBase Obj) :
    Prop where
  nodeNum : solver'.graph.nodeNum = solver.graph.nodeNum + 2
  objVec : solver'.objVec = solver.objVec ++ [(solver.graph.nodeNum, object)]
  superNode : ∀ id, (solver'.graph.node id).superNode = (solver.graph.node id).superNode
  sound : solver'.graph.Sound
  edge : ∀ kind a b, solver'.graph.Edge kind a b ↔ solver.graph.Edge kind a b ∨
    (kind = .addrOf ∧ a = solver.graph.nodeNum ∧ b = solver.graph.nodeNum + 1)
  isImmutable : ∀ id, (solver'.graph.node id).isImmutable =
    if id = solver.graph.nodeNum then model.constant object
    else if id = solver.graph.nodeNum + 1 then false else (solver.graph.node id).isImmutable
  type : ∀ id < solver.graph.nodeNum, (solver'.graph.node id).type = (solver.graph.node id).type ∧
    (solver'.graph.node id).isAnonymous = (solver.graph.node id).isAnonymous
  type_node : (solver'.graph.node solver.graph.nodeNum).type = .objNode
  type_anon : (solver'.graph.node (solver.graph.nodeNum + 1)).type = .ptrNode ∧
    (solver'.graph.node (solver.graph.nodeNum + 1)).isAnonymous = true
  pts : solver'.pts = Function.update (Function.update solver.pts solver.graph.nodeNum ∅)
    (solver.graph.nodeNum + 1) {solver.objVec.length}
  handledGEPMap : solver'.handledGEPMap = solver.handledGEPMap
  updatedFunPtrs : solver'.updatedFunPtrs = solver.updatedFunPtrs

lemma createNode_spec [DecidableEq Obj] (h : solver.graph.Sound) (object : Obj) :
    ∃ solver', solver.createNode model object = some solver' ∧ NodeCreated model solver object solver' := by
  obtain ⟨graph, heq, hadded⟩ := addCGNode_objNode h
  obtain ⟨last, hlast⟩ : ∃ last, last =
    if model.constant object then graph.setImmutable solver.graph.nodeNum else graph := ⟨_, rfl⟩
  have hextends : Extends graph last := by
    rw [hlast]
    split
    · exact extends_setImmutable graph _
    · exact ⟨le_rfl, fun _ => rfl, fun _ _ _ => .rfl, fun _ _ _ => .rfl, rfl, fun _ _ hi => hi⟩
  have hkinds : SameKinds graph last := by
    rw [hlast]
    split
    · exact sameKinds_setImmutable graph _
    · exact .refl graph
  have hnum : last.nodeNum = graph.nodeNum := by
    rw [hlast]
    split <;> rfl
  refine ⟨{ solver with
    graph := last
    objVec := solver.objVec ++ [(solver.graph.nodeNum, object)]
    pts := Function.update (Function.update solver.pts solver.graph.nodeNum ∅) (solver.graph.nodeNum + 1)
      {solver.objVec.length} }, ?_, hnum.trans hadded.nodeNum, rfl, ?_, hextends.sound hadded.sound, ?_, ?_, ?_, ?_,
    ⟨?_, ?_⟩, rfl, rfl, rfl⟩
  · rw [createNode, heq, hlast]
    rfl
  · exact fun id => (hextends.superNode id).trans (hadded.superNode id)
  · exact fun kind a b => (hextends.edge kind a b).trans (hadded.edge kind a b)
  · intro id
    change (last.node id).isImmutable = _
    have hgraph := hadded.isImmutable id
    rw [hlast]
    by_cases hid : id = solver.graph.nodeNum
    · rw [if_pos (.inl hid)] at hgraph
      rw [if_pos hid]
      split
      · next hconstant => simp [isImmutable_setImmutable, hid, hconstant]
      · next hconstant => rw [hgraph, Bool.eq_false_of_not_eq_true hconstant]
    · rw [if_neg hid]
      have hsame : ((if model.constant object then graph.setImmutable solver.graph.nodeNum else graph).node
          id).isImmutable = (graph.node id).isImmutable := by
        split
        · rw [isImmutable_setImmutable, decide_eq_false hid, Bool.false_or]
        · rfl
      rw [hsame, hgraph]
      by_cases hid' : id = solver.graph.nodeNum + 1
      · rw [if_pos (.inr hid'), if_pos hid']
      · rw [if_neg hid', if_neg (by tauto)]
  · intro id hid
    change (last.node id).type = _ ∧ (last.node id).isAnonymous = _
    rw [hkinds.type, hkinds.isAnonymous]
    exact hadded.old id hid
  · exact (hkinds.type _).trans hadded.node
  · exact (hkinds.type _).trans hadded.anon.1
  · exact (hkinds.isAnonymous _).trans hadded.anon.2

section NodeCreated

variable {object : Obj} {solver' : SolverBase Obj}

lemma NodeCreated.root_eq (hn : NodeCreated model solver object solver') (h : solver.graph.Sound) (id : ℕ) :
    solver'.graph.root id = solver.graph.root id := root_congr hn.superNode h hn.sound id

lemma NodeCreated.objNode_iff (hn : NodeCreated model solver object solver') {id : ℕ} :
    solver'.ObjNode id ↔ solver.ObjNode id ∨ id = solver.graph.nodeNum := by
  simp [ObjNode, hn.objVec, exists_or]

lemma NodeCreated.anonNode_iff (hn : NodeCreated model solver object solver') {id : ℕ} :
    solver'.AnonNode id ↔ solver.AnonNode id ∨ id = solver.graph.nodeNum + 1 := by
  simp [AnonNode, hn.objNode_iff, or_and_right, exists_or]

lemma NodeCreated.objectAt_eq (hn : NodeCreated model solver object solver') {id : ℕ}
    (hid : id ≠ solver.graph.nodeNum) : solver'.objectAt id = solver.objectAt id := by
  rw [objectAt, objectAt, hn.objVec, List.find?_append]
  cases solver.objVec.find? fun entry => entry.1 = id with
  | none => simp [hid.symm]
  | some entry => rfl

lemma NodeCreated.place_eq (hn : NodeCreated model solver object solver') {id : ℕ}
    (hid : id ≠ solver.graph.nodeNum) (hid' : id ≠ solver.graph.nodeNum + 1) : solver'.place id = solver.place id := by
  by_cases hzero : id = 0
  · subst hzero
    rw [place, place, hn.objectAt_eq hid]
  · rw [place, place, hn.objectAt_eq hid, hn.objectAt_eq (by omega)]

lemma NodeCreated.objVec_some (hn : NodeCreated model solver object solver') {index : ℕ} {entry : ℕ × Obj}
    (hi : solver'.objVec[index]? = some entry) : solver.objVec[index]? = some entry ∨
      (index = solver.objVec.length ∧ entry = (solver.graph.nodeNum, object)) := by
  rw [hn.objVec, List.getElem?_append] at hi
  split at hi
  · exact .inl hi
  · next hge =>
    have hzero : index - solver.objVec.length = 0 := by
      by_contra hne
      rw [List.getElem?_eq_none (by simp; omega)] at hi
      cases hi
    rw [hzero] at hi
    cases hi
    exact .inr ⟨by omega, rfl⟩

lemma NodeCreated.objVec_old (hn : NodeCreated model solver object solver') {index : ℕ} {entry : ℕ × Obj}
    (hi : solver.objVec[index]? = some entry) : solver'.objVec[index]? = some entry := by
  rw [hn.objVec, List.getElem?_append_left (List.getElem?_eq_some_iff.mp hi).choose, hi]

lemma NodeCreated.pts_eq (hn : NodeCreated model solver object solver') {id : ℕ}
    (hid : id ≠ solver.graph.nodeNum) (hid' : id ≠ solver.graph.nodeNum + 1) : solver'.pts id = solver.pts id := by
  rw [hn.pts, Function.update_of_ne hid', Function.update_of_ne hid]

lemma NodeCreated.leaf (hn : NodeCreated model solver object solver') (h : solver.graph.Sound) {id : ℕ}
    (hid : id < solver.graph.nodeNum) (hl : solver.Leaf id) : solver'.Leaf id where
  apart node hobj := by
    rw [hn.root_eq h]
    rcases hn.objNode_iff.mp hobj with hold | rfl
    · exact hl.apart node hold
    · rw [ConstraintGraph.root_eq (superNode_fresh h le_rfl)]
      omega
  unloaded src he := by
    rcases (hn.edge _ _ _).mp he with hold | ⟨hkind, -⟩
    · exact hl.unloaded src hold
    · cases hkind
  copied src he := by
    rcases (hn.edge _ _ _).mp he with hold | ⟨hkind, -⟩
    · exact hn.anonNode_iff.mpr (.inl (hl.copied src hold))
    · cases hkind

lemma NodeCreated.built (hn : NodeCreated model solver object solver') (h : solver.Built model)
    (hnew : object ∉ solver.objVec.map Prod.snd) : solver'.Built model := by
  have hlt : ∀ {node}, solver.ObjNode node → node + 1 < solver.graph.nodeNum := fun hobj => (h.objNode hobj).1
  have hedge : ∀ {kind src id}, kind ≠ .addrOf → solver'.graph.Edge kind src id → solver.graph.Edge kind src id := by
    intro kind src id hkind he
    exact ((hn.edge kind src id).mp he).resolve_right fun hnew => hkind hnew.1
  have himmutable : ∀ {id}, id < solver.graph.nodeNum →
      (solver'.graph.node id).isImmutable = (solver.graph.node id).isImmutable := by
    intro id hid
    rw [hn.isImmutable, if_neg (by omega), if_neg (by omega)]
  have hanon : ∀ {id}, id < solver.graph.nodeNum → solver'.AnonNode id → solver.AnonNode id := by
    intro id hid ha
    exact (hn.anonNode_iff.mp ha).resolve_right (by omega)
  constructor
  · exact hn.sound
  · rw [hn.objVec, List.map_append]
    exact List.Nodup.append h.objects (List.nodup_singleton _) (by simpa using hnew)
  · rw [hn.objVec, List.map_append]
    refine List.Nodup.append h.nodes (List.nodup_singleton _) ?_
    rw [List.map_singleton, List.disjoint_singleton]
    intro hm
    obtain ⟨entry, hentry, hnode⟩ := List.mem_map.mp hm
    have := hlt ⟨entry.2, hentry⟩
    omega
  · intro node hobj
    rw [hn.nodeNum]
    rcases hn.objNode_iff.mp hobj with hold | rfl
    · obtain ⟨hlt, htype, htype', ha⟩ := h.objNode hold
      rw [(hn.type node (by omega)).1, (hn.type _ hlt).1, (hn.type _ hlt).2]
      exact ⟨by omega, htype, htype', ha⟩
    · exact ⟨by omega, hn.type_node, hn.type_anon.1, hn.type_anon.2⟩
  · intro node other hm
    rw [hn.objVec, List.mem_append] at hm
    rcases hm with hm | hm
    · have := hlt ⟨other, hm⟩
      rw [himmutable (by omega), h.constant hm]
    · obtain ⟨rfl, rfl⟩ := Prod.mk.inj (List.mem_singleton.mp hm)
      rw [hn.isImmutable, if_pos rfl]
  · intro id hi
    rw [hn.isImmutable] at hi
    split at hi
    · next hid => exact hn.objNode_iff.mpr (.inr hid)
    · split at hi
      · cases hi
      · exact hn.objNode_iff.mpr (.inl (h.immutable hi))
  · intro id hor
    rw [hn.superNode]
    by_cases hid : id < solver.graph.nodeNum
    · rw [himmutable hid] at hor
      exact h.kept (hor.imp_left (hanon hid))
    · exact superNode_fresh h.sound (Nat.le_of_not_lt hid)
  · intro id hor
    rw [hn.root_eq h.sound] at hor ⊢
    by_cases hid : id < solver.graph.nodeNum
    · have hroot := h.sound.root_lt hid
      rw [himmutable hroot] at hor
      exact h.alone (hor.imp_left (hanon hroot))
    · exact ConstraintGraph.root_eq (superNode_fresh h.sound (Nat.le_of_not_lt hid))
  · intro src id ha
    have hnone : ∀ kind, kind ≠ .addrOf → (∀ src, solver.AnonNode id → ¬solver.graph.Edge kind src id) →
        ¬solver'.graph.Edge kind src id := by
      intro kind hkind hold he
      have hedge' := hedge hkind he
      exact hold src (hanon (h.sound.ends hedge').2.1 ha) hedge'
    exact ⟨hnone _ (by simp) fun src ha => (h.anon ha).1, hnone _ (by simp) fun src ha => (h.anon ha).2.1,
      hnone _ (by simp) fun src ha => (h.anon ha).2.2⟩
  · intro src id he
    have hold := hedge (by simp) he
    exact hn.leaf h.sound (h.sound.ends hold).2.1 (h.offset hold)
  · intro kind src id hi he
    rcases (hn.edge _ _ _).mp he with hold | ⟨-, -, rfl⟩
    · obtain ⟨hsrc, hdst, -⟩ := h.sound.ends hold
      rw [himmutable hdst] at hi
      obtain ⟨hkind, hor⟩ := h.settled hi hold
      exact ⟨hkind, hor.imp (fun ha => hn.anonNode_iff.mpr (.inl ha)) (hn.leaf h.sound hsrc)⟩
    · rw [hn.isImmutable, if_neg (by omega), if_pos rfl] at hi
      cases hi
  · intro id index hm
    rw [hn.objVec, List.length_append, List.length_singleton]
    by_cases hid : id = solver.graph.nodeNum + 1
    · rw [hn.pts, hid, Function.update_self, Finset.mem_singleton] at hm
      omega
    · by_cases hid' : id = solver.graph.nodeNum
      · rw [hn.pts, hid', Function.update_of_ne (by omega), Function.update_self] at hm
        cases hm
      · rw [hn.pts_eq hid' hid] at hm
        have := h.known hm
        omega
  · intro index node other hi
    rcases hn.objVec_some hi with hold | ⟨rfl, heq⟩
    · have := hlt ⟨other, List.mem_of_getElem? hold⟩
      rw [hn.pts_eq (by omega) (by omega)]
      exact h.addressed hold
    · obtain ⟨rfl, rfl⟩ := Prod.mk.inj heq
      rw [hn.pts, Function.update_self]
      exact Finset.mem_singleton_self _
  · intro id index hm
    rw [hn.handledGEPMap] at hm
    obtain ⟨hl, hid, hindex⟩ := h.handled hm
    refine ⟨hn.leaf h.sound hid hl, ?_⟩
    rw [hn.objVec, hn.nodeNum, List.length_append]
    omega

lemma NodeCreated.justified {holds : Place Obj → Obj → Prop} {special : Prop}
    (hn : NodeCreated model solver object solver')
    (h : solver.Built model) (h' : solver'.Built model) (hj : solver.Justified model holds special)
    (haddress : holds (.address object) object) : solver'.Justified model holds special where
  pts := by
    intro id index node other hm hi
    have hmem : (solver.graph.nodeNum, object) ∈ solver'.objVec := by simp [hn.objVec]
    by_cases hid : id = solver.graph.nodeNum + 1
    · subst hid
      rw [hn.pts, Function.update_self, Finset.mem_singleton] at hm
      rcases hn.objVec_some hi with hold | ⟨-, heq⟩
      · have := (List.getElem?_eq_some_iff.mp hold).choose
        omega
      · obtain ⟨rfl, rfl⟩ := Prod.mk.inj heq
        rw [h'.place_anon hmem]
        exact haddress
    · by_cases hid' : id = solver.graph.nodeNum
      · rw [hn.pts, hid', Function.update_of_ne (by omega), Function.update_self] at hm
        cases hm
      · rw [hn.pts_eq hid' hid] at hm
        rw [hn.place_eq hid' hid]
        refine hj.pts hm ((hn.objVec_some hi).resolve_right fun hnew => ?_)
        have := h.known hm
        omega
  edge := by
    intro kind src dst he
    rcases (hn.edge _ _ _).mp he with hold | ⟨rfl, -⟩
    · obtain ⟨hsrc, hdst, -⟩ := h.sound.ends hold
      rw [hn.place_eq (by omega) (by omega), hn.place_eq (by omega) (by omega)]
      exact hj.edge hold
    · exact trivial
  same id other := by
    rw [hn.root_eq h.sound]
    by_cases hid : id < solver.graph.nodeNum
    · have := h.sound.root_lt hid
      rw [hn.place_eq (by omega) (by omega), hn.place_eq (by omega) (by omega)]
      exact hj.same id other
    · rw [ConstraintGraph.root_eq (superNode_fresh h.sound (Nat.le_of_not_lt hid))]

lemma NodeCreated.linked (hn : NodeCreated model solver object solver') (h : solver.graph.Sound) {kind : Constraints}
    {src dst : ℕ} (hl : solver.Linked kind src dst) : solver'.Linked kind src dst := by
  rw [Linked, hn.root_eq h, hn.root_eq h]
  exact hl.imp_left fun he => (hn.edge _ _ _).mpr (.inl he)

end NodeCreated

end SolverBase

end OpenRace
