import OpenRace.PointerAnalysis.Graph.Components
import OpenRace.PointerAnalysis.Solver.DerivedEdges

/-! Copying a points-to set along an edge, and collapsing a cycle of copy edges into one of its nodes, keep what holds
in every state of a run. -/

namespace OpenRace

open ConstraintGraph

lemma ConstraintGraph.mem_copySuccs {graph : ConstraintGraph} {src dst : ℕ} :
    dst ∈ graph.copySuccs src ↔ graph.Edge .copy src dst := Finset.mem_sort _

namespace SolverBase

section Copies

variable {Obj : Type} {model : FieldModel Obj} {edges : Constraints → Place Obj → Place Obj → Prop}
  {solver solver' solver'' : SolverBase Obj} {src dst : ℕ}

lemma processCopy_changed : (solver.processCopy src dst).1 = false ↔ solver.pts src ⊆ solver.pts dst := by
  simp [processCopy]

lemma processCopy_pts (id : ℕ) : (solver.processCopy src dst).2.pts id =
    if id = dst then solver.pts dst ∪ solver.pts src else solver.pts id := by
  simp [processCopy, Function.update_apply]

lemma processCopy_pts_self : (solver.processCopy src dst).2.pts dst = solver.pts dst ∪ solver.pts src := by
  rw [processCopy_pts, if_pos rfl]

lemma processCopy_pts_of_ne {id : ℕ} (h : id ≠ dst) : (solver.processCopy src dst).2.pts id = solver.pts id := by
  rw [processCopy_pts, if_neg h]

/-- Points-to sets grow, and nothing else changes that edges depend on. -/
structure Enlarges (solver solver' : SolverBase Obj) : Prop where
  graph : solver'.graph = solver.graph
  objVec : solver'.objVec = solver.objVec
  handledGEPMap : solver'.handledGEPMap = solver.handledGEPMap
  pts : ∀ id, solver.pts id ⊆ solver'.pts id

lemma Enlarges.refl (solver : SolverBase Obj) : Enlarges solver solver := ⟨rfl, rfl, rfl, fun _ => subset_rfl⟩

lemma Enlarges.trans (h : Enlarges solver solver') (h' : Enlarges solver' solver'') : Enlarges solver solver'' :=
  ⟨h'.graph.trans h.graph, h'.objVec.trans h.objVec, h'.handledGEPMap.trans h.handledGEPMap,
    fun id => (h.pts id).trans (h'.pts id)⟩

lemma enlarges_processCopy (solver : SolverBase Obj) (src dst : ℕ) : Enlarges solver (solver.processCopy src dst).2 := by
  refine ⟨rfl, rfl, rfl, fun id => ?_⟩
  rw [processCopy_pts]
  split
  · next hid =>
    rw [hid]
    exact Finset.subset_union_left
  · exact subset_rfl

lemma Enlarges.place_eq (h : Enlarges solver solver') (id : ℕ) : solver'.place id = solver.place id := by
  rw [place, place, objectAt, objectAt, objectAt, objectAt, h.objVec]

lemma Enlarges.linked (h : Enlarges solver solver') {kind : Constraints} {a b : ℕ} :
    solver'.Linked kind a b ↔ solver.Linked kind a b := by
  rw [Linked, Linked, h.graph]

lemma Enlarges.leaf (h : Enlarges solver solver') {id : ℕ} (hl : solver.Leaf id) : solver'.Leaf id where
  apart node hobj := by
    rw [ObjNode, h.objVec] at hobj
    rw [h.graph]
    exact hl.apart node hobj
  unloaded other := by
    rw [h.graph]
    exact hl.unloaded other
  copied other he := by
    rw [h.graph] at he
    obtain ⟨node, hobj, hnode⟩ := hl.copied other he
    refine ⟨node, ?_, hnode⟩
    rwa [ObjNode, h.objVec]

lemma Enlarges.valid (h : Enlarges solver solver') (hv : solver.Valid model edges)
    (hpts : ∀ {id index}, index ∈ solver'.pts id → index < solver.objVec.length ∧ ∀ node object,
      solver.objVec[index]? = some (node, object) → (model.system edges).Holds (solver.place id) object) :
    solver'.Valid model edges := by
  have hb := hv.built
  have hobj : ∀ node, solver'.ObjNode node ↔ solver.ObjNode node := by
    intro node
    rw [ObjNode, ObjNode, h.objVec]
  have hanon : ∀ id, solver'.AnonNode id ↔ solver.AnonNode id := by
    intro id
    simp only [AnonNode, hobj]
  refine ⟨⟨?_, ?_, ?_, ?_, ?_, ?_, ?_, ?_, ?_, ?_, ?_, ?_, ?_, ?_⟩, ⟨?_, ?_, ?_⟩, hv.unknown⟩ <;>
    simp only [h.graph, h.objVec, h.handledGEPMap, h.place_eq, hobj, hanon]
  · exact hb.sound
  · exact hb.objects
  · exact hb.nodes
  · exact hb.objNode
  · exact hb.constant
  · exact hb.immutable
  · exact hb.kept
  · exact hb.alone
  · exact hb.anon
  · exact fun he => h.leaf (hb.offset he)
  · intro kind src id hi he
    obtain ⟨hkind, hor⟩ := hb.settled hi he
    exact ⟨hkind, hor.imp_right h.leaf⟩
  · exact fun hm => (hpts hm).1
  · exact fun hi => h.pts _ (hb.addressed hi)
  · intro id index hm
    obtain ⟨hl, hid⟩ := hb.handled hm
    exact ⟨h.leaf hl, hid⟩
  · exact fun hm hi => (hpts hm).2 _ _ hi
  · exact hv.justified.edge
  · exact hv.justified.same

lemma Valid.copied (h : solver.Valid model edges) (hflow : ∀ o, (model.system edges).Holds (solver.place src) o →
    (model.system edges).Holds (solver.place dst) o) : (solver.processCopy src dst).2.Valid model edges := by
  refine (enlarges_processCopy solver src dst).valid h fun {id index} hm => ?_
  rw [processCopy_pts] at hm
  split at hm
  · next hid =>
    subst hid
    rcases Finset.mem_union.mp hm with hm | hm
    · exact ⟨h.built.known hm, fun node object hi => h.justified.pts hm hi⟩
    · exact ⟨h.built.known hm, fun node object hi => hflow object (h.justified.pts hm hi)⟩
  · exact ⟨h.built.known hm, fun node object hi => h.justified.pts hm hi⟩

lemma Valid.processCopy (h : solver.Valid model edges) (he : solver.graph.Edge .copy src dst) :
    (solver.processCopy src dst).2.Valid model edges := h.copied (h.justified.edge he)

lemma Enlarges.done (h : Enlarges solver solver') {id : ℕ} (hpts : solver'.pts id = solver.pts id)
    (hd : solver.Done model id) : solver'.Done model id := by
  refine ⟨?_, ?_, ?_⟩ <;> simp only [Loaded, Stored, h.graph, h.objVec, h.handledGEPMap, hpts, h.linked]
  · exact hd.load
  · exact hd.store
  · exact hd.offset

lemma Enlarges.indexed (h : Enlarges solver solver') (hi : solver.Indexed model) : solver'.Indexed model := by
  intro id index node object field hm hobject hindex
  rw [h.handledGEPMap] at hm
  rw [h.objVec] at hobject
  obtain ⟨index', node', hfield, hor⟩ := hi hm hobject hindex
  rw [h.objVec, h.graph]
  exact ⟨index', node', hfield, hor.imp_left fun hin => h.pts id hin⟩

lemma done_of_isolated {id : ℕ} (h : ∀ kind other, ¬solver.graph.Edge kind id other ∧ ¬solver.graph.Edge kind other id) :
    solver.Done model id where
  load he := absurd he (h _ _).1
  store he := absurd he (h _ _).2
  offset he := absurd he (h _ _).1

end Copies

section Cycles

variable {Obj : Type} {model : FieldModel Obj} {edges : Constraints → Place Obj → Place Obj → Prop}
  {solver solver' : SolverBase Obj} {scc : List ℕ} {superNode : ℕ}

structure Cycle (solver : SolverBase Obj) (scc : List ℕ) : Prop where
  nodup : scc.Nodup
  nodes : ∀ id ∈ scc, id < solver.graph.nodeNum ∧ (solver.graph.node id).superNode = none
  entered : ∀ id ∈ scc, ∃ src ∈ scc, solver.graph.Edge .copy src id
  connected : ∀ a ∈ scc, ∀ b ∈ scc, solver.graph.Path .copy a b

/-- The points-to sets of a cycle are merged into one of its nodes, and its edges go there. -/
structure Merged (scc : List ℕ) (superNode : ℕ) (solver solver' : SolverBase Obj) : Prop where
  collapsed : SetCollapsed scc superNode solver.graph solver'.graph
  kinds : SameKinds solver.graph solver'.graph
  objVec : solver'.objVec = solver.objVec
  handledGEPMap : solver'.handledGEPMap = solver.handledGEPMap
  pts : ∀ id index, index ∈ solver'.pts id ↔
    (id = superNode ∧ ∃ node ∈ scc, index ∈ solver.pts node) ∨ (id ∉ scc ∧ index ∈ solver.pts id)

lemma Cycle.not_anonNode (hc : solver.Cycle scc) (hb : solver.Built model) {id : ℕ} (hid : id ∈ scc) :
    ¬solver.AnonNode id := by
  intro ha
  obtain ⟨src, -, he⟩ := hc.entered id hid
  exact (hb.anon ha).1 he

lemma Cycle.not_leaf (hc : solver.Cycle scc) (hb : solver.Built model) {id : ℕ} (hid : id ∈ scc) :
    ¬solver.Leaf id := by
  intro hl
  obtain ⟨src, hsrc, he⟩ := hc.entered id hid
  exact hc.not_anonNode hb hsrc (hl.copied src he)

lemma Cycle.mutable (hc : solver.Cycle scc) (hb : solver.Built model) {id : ℕ} (hid : id ∈ scc) :
    (solver.graph.node id).isImmutable = false := by
  by_contra himmutable
  obtain ⟨src, hsrc, he⟩ := hc.entered id hid
  rcases (hb.settled (Bool.eq_true_of_not_eq_false himmutable) he).2 with ha | hl
  · exact hc.not_anonNode hb hsrc ha
  · exact hc.not_leaf hb hsrc hl

lemma Cycle.kept (hc : solver.Cycle scc) (hb : solver.Built model) {id : ℕ}
    (hor : solver.AnonNode id ∨ (solver.graph.node id).isImmutable = true) : id ∉ scc := by
  intro hid
  rcases hor with ha | hi
  · exact hc.not_anonNode hb hid ha
  · rw [hc.mutable hb hid] at hi
    cases hi

lemma Justified.path {holds : Place Obj → Obj → Prop} {special : Prop}
    (hj : solver.Justified model holds special) {a b : ℕ}
    (h : solver.graph.Path .copy a b) {o : Obj} (ho : holds (solver.place a) o) : holds (solver.place b) o := by
  induction h with
  | refl => exact ho
  | tail _ he ih => exact hj.edge he o ih

lemma Cycle.holds_iff {holds : Place Obj → Obj → Prop} {special : Prop} (hc : solver.Cycle scc)
    (hj : solver.Justified model holds special)
    {a b : ℕ} (ha : a ∈ scc) (hb : b ∈ scc) (o : Obj) : holds (solver.place a) o ↔ holds (solver.place b) o :=
  ⟨hj.path (hc.connected a ha b hb), hj.path (hc.connected b hb a ha)⟩

lemma target_of_mem {id : ℕ} (h : id ∈ scc) : target scc superNode id = superNode := if_pos h

lemma target_of_notMem {id : ℕ} (h : id ∉ scc) : target scc superNode id = id := if_neg h

lemma Cycle.holds_target {holds : Place Obj → Obj → Prop} {special : Prop} (hc : solver.Cycle scc)
    (hj : solver.Justified model holds special)
    (hs : superNode ∈ scc) (id : ℕ) (o : Obj) :
    holds (solver.place (target scc superNode id)) o ↔ holds (solver.place id) o := by
  by_cases hid : id ∈ scc
  · rw [target_of_mem hid]
    exact hc.holds_iff hj hs hid o
  · rw [target_of_notMem hid]

lemma eq_of_target (hs : superNode ∈ scc) {id other : ℕ} (hid : id ∉ scc) (heq : id = target scc superNode other) :
    other = id := by
  by_cases h : other ∈ scc
  · rw [target_of_mem h] at heq
    exact absurd (heq ▸ hs) hid
  · exact (target_of_notMem h).symm.trans heq.symm

section Merged

variable (hm : Merged scc superNode solver solver')

include hm

lemma Merged.objNode_iff {id : ℕ} : solver'.ObjNode id ↔ solver.ObjNode id := by
  rw [ObjNode, ObjNode, hm.objVec]

lemma Merged.anonNode_iff {id : ℕ} : solver'.AnonNode id ↔ solver.AnonNode id := by
  simp only [AnonNode, hm.objNode_iff]

lemma Merged.place_eq (id : ℕ) : solver'.place id = solver.place id := by
  rw [place, place, objectAt, objectAt, objectAt, objectAt, hm.objVec]

lemma Merged.root_eq (h : solver.graph.Sound) (id : ℕ) :
    solver'.graph.root id = target scc superNode (solver.graph.root id) := by
  have heq := hm.collapsed.collapses.representative id _ (h.getSuperNode_eq id)
  rw [root, heq, Option.getD_some]

lemma Merged.pts_of_notMem (hs : superNode ∈ scc) {id : ℕ} (hid : id ∉ scc) : solver'.pts id = solver.pts id := by
  ext index
  rw [hm.pts]
  exact ⟨fun h => h.elim (fun h => absurd (h.1 ▸ hs) hid) And.right, fun h => .inr ⟨hid, h⟩⟩

lemma Merged.pts_target {id index : ℕ} (h : index ∈ solver.pts id) :
    index ∈ solver'.pts (target scc superNode id) := by
  rw [hm.pts]
  by_cases hid : id ∈ scc
  · exact .inl ⟨target_of_mem hid, id, hid, h⟩
  · rw [target_of_notMem hid]
    exact .inr ⟨hid, h⟩

section Built

variable (hc : solver.Cycle scc) (hb : solver.Built model) (hs : superNode ∈ scc)

include hc hb hs

/-- Edges are kept, since no node of a cycle is anonymous or never written. -/
lemma Merged.edge {kind : Constraints} {src dst : ℕ} (he : solver.graph.Edge kind src dst) :
    solver'.graph.Edge kind (target scc superNode src) (target scc superNode dst) ∨
      (kind = .copy ∧ target scc superNode src = target scc superNode dst) := by
  rcases hm.collapsed.collapses.kept kind src dst he with hkept | hself | ⟨-, hmoved, himmutable⟩
  · exact .inl hkept
  · exact .inr hself
  · exfalso
    have hdst : dst ∉ scc := by
      intro hdst
      rw [target_of_mem hdst, hc.mutable hb hdst, hc.mutable hb hs] at himmutable
      simp at himmutable
    rw [target_of_notMem hdst] at hmoved himmutable
    have hsrc : src ∈ scc := by
      by_contra hsrc
      rw [target_of_notMem hsrc] at hmoved
      simp at hmoved
    rcases (hb.settled (himmutable.elim id id) he).2 with ha | hl
    · exact hc.not_anonNode hb hsrc ha
    · exact hc.not_leaf hb hsrc hl

lemma Merged.linked {kind : Constraints} {src dst : ℕ} (hl : solver.Linked kind src dst) :
    solver'.Linked kind src dst := by
  rw [Linked, hm.root_eq hb.sound, hm.root_eq hb.sound]
  rcases hl with he | ⟨hkind, heq⟩
  · exact hm.edge hc hb hs he
  · exact .inr ⟨hkind, by rw [heq]⟩

lemma Merged.leaf {id : ℕ} (hl : solver.Leaf id) : id ∉ scc ∧ solver'.Leaf id := by
  have hid : id ∉ scc := fun hid => hc.not_leaf hb hid hl
  refine ⟨hid, fun node hobj => ?_, fun src he => ?_, fun src he => ?_⟩
  · rw [hm.root_eq hb.sound]
    exact fun heq => hl.apart node (hm.objNode_iff.mp hobj) (eq_of_target hs hid heq.symm)
  · obtain ⟨-, src', dst', hold, -, heq⟩ := hm.collapsed.collapses.image _ _ _ he
    exact hl.unloaded src' (eq_of_target hs hid heq ▸ hold)
  · obtain ⟨-, src', dst', hold, rfl, heq⟩ := hm.collapsed.collapses.image _ _ _ he
    have ha := hl.copied src' (eq_of_target hs hid heq ▸ hold)
    rw [hm.anonNode_iff, target_of_notMem (hc.kept hb (.inl ha))]
    exact ha

lemma Merged.built : solver'.Built model := by
  have hsound := hm.collapsed.sound
  have hkept : ∀ {id}, solver'.AnonNode id ∨ (solver'.graph.node id).isImmutable = true →
      id ∉ scc ∧ (solver.AnonNode id ∨ (solver.graph.node id).isImmutable = true) := by
    intro id hor
    rw [hm.anonNode_iff, hm.collapsed.isImmutable] at hor
    exact ⟨hc.kept hb hor, hor⟩
  have hout : ∀ {kind src id}, id ∉ scc → solver'.graph.Edge kind src id →
      ∃ src', solver.graph.Edge kind src' id ∧ src = target scc superNode src' := by
    intro kind src id hid he
    obtain ⟨-, src', dst', hold, hsrc, heq⟩ := hm.collapsed.collapses.image _ _ _ he
    exact ⟨src', eq_of_target hs hid heq ▸ hold, hsrc⟩
  constructor
  · exact hsound
  · rw [hm.objVec]
    exact hb.objects
  · rw [hm.objVec]
    exact hb.nodes
  · intro node hobj
    rw [hm.collapsed.nodeNum, hm.kinds.type, hm.kinds.type, hm.kinds.isAnonymous]
    exact hb.objNode (hm.objNode_iff.mp hobj)
  · intro node object hmem
    rw [hm.collapsed.isImmutable]
    exact hb.constant (hm.objVec ▸ hmem)
  · intro id hi
    rw [hm.collapsed.isImmutable] at hi
    exact hm.objNode_iff.mpr (hb.immutable hi)
  · intro id hor
    obtain ⟨hid, hold⟩ := hkept hor
    have hroot := hm.root_eq hb.sound id
    rw [ConstraintGraph.root_eq (hb.kept hold), target_of_notMem hid] at hroot
    rw [← hroot]
    exact hsound.superNode_root id
  · intro id hor
    obtain ⟨hid, hold⟩ := hkept hor
    have hroot := hm.root_eq hb.sound id
    rw [hroot] at hid hold ⊢
    have heq := eq_of_target hs hid rfl
    rw [← heq] at hold ⊢
    exact hb.alone hold
  · intro src id ha
    obtain ⟨hid, -⟩ := hkept (.inl ha)
    have hold := hm.anonNode_iff.mp ha
    refine ⟨fun he => ?_, fun he => ?_, fun he => ?_⟩ <;> obtain ⟨src', hedge, -⟩ := hout hid he
    · exact (hb.anon hold).1 hedge
    · exact (hb.anon hold).2.1 hedge
    · exact (hb.anon hold).2.2 hedge
  · intro src id he
    obtain ⟨-, src', dst', hold, -, rfl⟩ := hm.collapsed.collapses.image _ _ _ he
    obtain ⟨hdst, hleaf⟩ := hm.leaf hc hb hs (hb.offset hold)
    rw [target_of_notMem hdst]
    exact hleaf
  · intro kind src id hi he
    obtain ⟨hid, -⟩ := hkept (.inr hi)
    obtain ⟨src', hedge, rfl⟩ := hout hid he
    rw [hm.collapsed.isImmutable] at hi
    obtain ⟨hkind, ha | hl⟩ := hb.settled hi hedge
    · rw [hm.anonNode_iff, target_of_notMem (hc.kept hb (.inl ha))]
      exact ⟨hkind, .inl ha⟩
    · obtain ⟨hsrc, hleaf⟩ := hm.leaf hc hb hs hl
      rw [target_of_notMem hsrc]
      exact ⟨hkind, .inr hleaf⟩
  · intro id index hin
    rw [hm.objVec]
    rcases (hm.pts id index).mp hin with ⟨-, node, -, hin⟩ | ⟨-, hin⟩
    · exact hb.known hin
    · exact hb.known hin
  · intro index node object hi
    rw [hm.objVec] at hi
    have ha : solver.AnonNode (node + 1) := ⟨node, ⟨object, List.mem_of_getElem? hi⟩, rfl⟩
    rw [hm.pts_of_notMem hs (hc.kept hb (.inl ha))]
    exact hb.addressed hi
  · intro id index hin
    rw [hm.handledGEPMap] at hin
    obtain ⟨hl, hid, hindex⟩ := hb.handled hin
    rw [hm.collapsed.nodeNum, hm.objVec]
    exact ⟨(hm.leaf hc hb hs hl).2, hid, hindex⟩

lemma Merged.justified {holds : Place Obj → Obj → Prop} {special : Prop} (hj : solver.Justified model holds special) :
    solver'.Justified model holds special where
  pts := by
    intro id index node object hin hi
    rw [hm.objVec] at hi
    rw [hm.place_eq]
    rcases (hm.pts id index).mp hin with ⟨rfl, member, hmem, hin⟩ | ⟨-, hin⟩
    · exact (hc.holds_iff hj hmem hs object).mp (hj.pts hin hi)
    · exact hj.pts hin hi
  edge := by
    intro kind src dst he
    obtain ⟨-, src', dst', hold, rfl, rfl⟩ := hm.collapsed.collapses.image _ _ _ he
    have hrespects := hj.edge hold
    have hsame := hc.holds_target hj hs
    rw [hm.place_eq, hm.place_eq]
    cases kind with
    | copy =>
      intro o ho
      rw [hsame] at ho ⊢
      exact hrespects o ho
    | load =>
      intro o o' ho ho'
      rw [hsame] at ho ⊢
      exact hrespects o o' ho ho'
    | store =>
      intro o o' ho hmutable ho'
      rw [hsame] at ho ho'
      exact hrespects o o' ho hmutable ho'
    | offset =>
      intro o o' id hp ho hindex
      -- the pointer that indexes an object is in no cycle
      rw [target_of_notMem (hm.leaf hc hb hs (hb.offset hold)).1] at hp ⊢
      rw [hsame] at ho
      exact hrespects o o' id hp ho hindex
    | addrOf => exact trivial
    | special => exact hrespects
  same id o := by
    rw [hm.place_eq, hm.place_eq, hm.root_eq hb.sound, hc.holds_target hj hs]
    exact hj.same id o

lemma Merged.done {id : ℕ} (hid : id ∉ scc) (hd : solver.Done model id) : solver'.Done model id := by
  have hsuper : ∀ {other}, id = target scc superNode other → other = id := eq_of_target hs hid
  have hpts := hm.pts_of_notMem hs hid
  -- the ends of edges stand for themselves, before and after
  have hlink : ∀ {src dst}, (solver.graph.node dst).superNode = none → solver.Linked .copy src dst →
      solver'.Linked .copy src (target scc superNode dst) := by
    intro src dst hdst hl
    have hnew := hm.linked hc hb hs hl
    rw [Linked, hm.root_eq hb.sound dst, ConstraintGraph.root_eq hdst] at hnew
    have hroot : solver'.graph.root (target scc superNode dst) = target scc superNode dst := by
      have := hm.root_eq hb.sound dst
      rw [ConstraintGraph.root_eq hdst] at this
      rw [← this, hm.collapsed.sound.root_root]
    rwa [Linked, hroot]
  have hlink' : ∀ {src dst}, (solver.graph.node src).superNode = none → solver.Linked .copy src dst →
      solver'.Linked .copy (target scc superNode src) dst := by
    intro src dst hsrc hl
    have hnew := hm.linked hc hb hs hl
    rw [Linked, hm.root_eq hb.sound src, ConstraintGraph.root_eq hsrc] at hnew
    have hroot : solver'.graph.root (target scc superNode src) = target scc superNode src := by
      have := hm.root_eq hb.sound src
      rw [ConstraintGraph.root_eq hsrc] at this
      rw [← this, hm.collapsed.sound.root_root]
    rwa [Linked, hroot]
  refine ⟨?_, ?_, ?_⟩
  · intro dst he index node object hin hi
    obtain ⟨-, src', dst', hold, hsrc, rfl⟩ := hm.collapsed.collapses.image _ _ _ he
    rw [hsuper hsrc] at hold
    rw [hpts] at hin
    rw [hm.objVec] at hi
    exact hlink (hb.sound.ends hold).2.2.2 (hd.load hold hin hi)
  · intro src he index node object hin hi hmutable
    obtain ⟨-, src', dst', hold, rfl, hdst⟩ := hm.collapsed.collapses.image _ _ _ he
    rw [hsuper hdst] at hold
    rw [hpts] at hin
    rw [hm.objVec] at hi
    exact hlink' (hb.sound.ends hold).2.2.1 (hd.store hold hin hi hmutable)
  · intro dst he
    obtain ⟨-, src', dst', hold, hsrc, rfl⟩ := hm.collapsed.collapses.image _ _ _ he
    rw [hsuper hsrc] at hold
    rw [hpts, hm.handledGEPMap, target_of_notMem (hm.leaf hc hb hs (hb.offset hold)).1]
    exact hd.offset hold

lemma Merged.indexed (hi : solver.Indexed model) : solver'.Indexed model := by
  intro id index node object field hin hobject hindex
  rw [hm.handledGEPMap] at hin
  rw [hm.objVec] at hobject
  have hid := (hm.leaf hc hb hs (hb.handled hin).1).1
  obtain ⟨index', node', hfield, hor⟩ := hi hin hobject hindex
  refine ⟨index', node', by rwa [hm.objVec], ?_⟩
  rw [hm.pts_of_notMem hs hid]
  refine hor.imp_right fun he => ?_
  have ha : solver.AnonNode (node' + 1) := ⟨node', ⟨field, List.mem_of_getElem? hfield⟩, rfl⟩
  have hedge := hm.edge hc hb hs he
  rw [target_of_notMem (hc.kept hb (.inl ha)), target_of_notMem hid] at hedge
  refine hedge.resolve_right ?_
  rintro ⟨-, rfl⟩
  exact hb.sound.plain _ he

end Built

lemma Merged.valid (hc : solver.Cycle scc) (hs : superNode ∈ scc) (h : solver.Valid model edges) :
    solver'.Valid model edges :=
  ⟨hm.built hc h.built hs, hm.justified hc h.built hs h.justified, h.unknown⟩

end Merged

end Cycles

end SolverBase

end OpenRace
