import OpenRace.PointerAnalysis.Graph.ConstraintRuns

/-! What inserting and collapsing leaves as it was: the kinds of the nodes. The node that stands for each. -/

namespace OpenRace

namespace ConstraintGraph

variable {graph graph' graph'' : ConstraintGraph}

structure SameKinds (graph graph' : ConstraintGraph) : Prop where
  type : ∀ id, (graph'.node id).type = (graph.node id).type
  isAnonymous : ∀ id, (graph'.node id).isAnonymous = (graph.node id).isAnonymous

lemma SameKinds.refl (graph : ConstraintGraph) : SameKinds graph graph := ⟨fun _ => rfl, fun _ => rfl⟩

lemma SameKinds.trans (h : SameKinds graph graph') (h' : SameKinds graph' graph'') : SameKinds graph graph'' where
  type id := (h'.type id).trans (h.type id)
  isAnonymous id := (h'.isAnonymous id).trans (h.isAnonymous id)

lemma sameKinds_modify {id : ℕ} {change : CGNode → CGNode} (ht : ∀ node, (change node).type = node.type)
    (ha : ∀ node, (change node).isAnonymous = node.isAnonymous) : SameKinds graph (graph.modify id change) where
  type other := by
    by_cases h : other = id
    · subst h
      simp [modify, ht]
    · simp [modify, h]
  isAnonymous other := by
    by_cases h : other = id
    · subst h
      simp [modify, ha]
    · simp [modify, h]

lemma sameKinds_set (graph : ConstraintGraph) (src : ℕ) (kind : Constraints) (dst : ℕ) :
    SameKinds graph (graph.setSucc src kind dst) ∧ SameKinds graph (graph.setPred src kind dst) := by
  refine ⟨sameKinds_modify ?_ ?_, sameKinds_modify ?_ ?_⟩ <;> exact fun _ => rfl

lemma sameKinds_reset (graph : ConstraintGraph) (src : ℕ) (kind : Constraints) (dst : ℕ) :
    SameKinds graph (graph.resetSucc src kind dst) ∧ SameKinds graph (graph.resetPred src kind dst) := by
  refine ⟨sameKinds_modify ?_ ?_, sameKinds_modify ?_ ?_⟩ <;> exact fun _ => rfl

lemma SameKinds.foldl {α : Type*} {step : ConstraintGraph → α → ConstraintGraph}
    (hstep : ∀ graph a, SameKinds graph (step graph a)) (list : List α) :
    ∀ graph, SameKinds graph (list.foldl step graph) := by
  induction list with
  | nil => exact .refl
  | cons a rest ih => exact fun graph => (hstep graph a).trans (ih (step graph a))

lemma SameKinds.foldlM {α : Type*} {step : ConstraintGraph → α → Option ConstraintGraph}
    (hstep : ∀ graph a graph', step graph a = some graph' → SameKinds graph graph') (list : List α) :
    ∀ {graph graph'}, list.foldlM step graph = some graph' → SameKinds graph graph' := by
  induction list with
  | nil =>
    intro graph graph' heq
    cases heq
    exact .refl graph
  | cons a rest ih =>
    intro graph graph' heq
    rw [List.foldlM_cons] at heq
    obtain ⟨middle, hmiddle, hrest⟩ := Option.bind_eq_some_iff.mp heq
    exact (hstep graph a middle hmiddle).trans (ih hrest)

lemma sameKinds_insertConstraint {this node : ℕ} {kind : Constraints} {added : Bool}
    (heq : graph.insertConstraint this node kind = some (added, graph')) : SameKinds graph graph' := by
  rw [insertConstraint] at heq
  split at heq
  · cases heq
    exact .refl graph
  · obtain ⟨src, -, heq⟩ := Option.bind_eq_some_iff.mp heq
    obtain ⟨dst, -, heq⟩ := Option.bind_eq_some_iff.mp heq
    split at heq
    · cases heq
      exact .refl graph
    · dsimp only at heq
      split at heq
      · cases heq
        exact (sameKinds_set graph src kind dst).1.trans (sameKinds_set _ dst kind src).2
      · cases heq

lemma sameKinds_insertAll {edges : List (ℕ × Constraints × ℕ)} (heq : graph.insertAll edges = some graph') :
    SameKinds graph graph' := by
  refine SameKinds.foldlM (fun graph edge graph' hstep => ?_) edges heq
  obtain ⟨result, hresult, rfl⟩ := Option.map_eq_some_iff.mp hstep
  exact sameKinds_insertConstraint hresult

lemma sameKinds_resetPreds (kind : Constraints) (id : ℕ) (targets : List ℕ) (graph : ConstraintGraph) :
    SameKinds graph (targets.foldl (fun graph target => graph.resetPred target kind id) graph) :=
  SameKinds.foldl (fun graph target => (sameKinds_reset graph target kind id).2) targets graph

lemma sameKinds_resetSuccs (kind : Constraints) (id : ℕ) (targets : List ℕ) (graph : ConstraintGraph) :
    SameKinds graph (targets.foldl (fun graph target => graph.resetSucc target kind id) graph) :=
  SameKinds.foldl (fun graph target => (sameKinds_reset graph target kind id).1) targets graph

lemma sameKinds_clearConstraint (id : ℕ) (graph : ConstraintGraph) (kind : Constraints) :
    SameKinds graph (clearConstraint id graph kind) := by
  have hemptied : ∀ graph : ConstraintGraph, SameKinds graph (graph.emptied id kind) := by
    intro graph
    refine sameKinds_modify ?_ ?_ <;> exact fun _ => rfl
  rw [clearConstraint]
  apply SameKinds.trans _ (hemptied _)
  exact (sameKinds_resetPreds kind id _ graph).trans (sameKinds_resetSuccs kind id _ _)

lemma sameKinds_clearConstraints (graph : ConstraintGraph) (id : ℕ) :
    SameKinds graph (graph.clearConstraints id) :=
  SameKinds.foldl (sameKinds_clearConstraint id) _ graph

lemma sameKinds_moveNodes (graph : ConstraintGraph) (id superNode : ℕ) :
    SameKinds graph (graph.moveNodes id superNode) := by
  rw [moveNodes]
  refine .trans (sameKinds_modify ?_ ?_) (sameKinds_modify ?_ ?_) <;> exact fun _ => rfl

lemma sameKinds_collapseNode {superNode id : ℕ} (heq : collapseNode superNode graph id = some graph') :
    SameKinds graph graph' := by
  rw [collapseNode] at heq
  split at heq
  · cases heq
    exact .refl graph
  · obtain ⟨first, hfirst, heq⟩ := Option.bind_eq_some_iff.mp heq
    obtain ⟨second, hsecond, heq⟩ := Option.bind_eq_some_iff.mp heq
    cases heq
    have hmoved := sameKinds_moveNodes second id superNode
    have hcleared := sameKinds_clearConstraints (second.moveNodes id superNode) id
    refine (sameKinds_insertAll hfirst).trans ((sameKinds_insertAll hsecond).trans (hmoved.trans (hcleared.trans ?_)))
    refine sameKinds_modify ?_ ?_ <;> exact fun _ => rfl

lemma sameKinds_collapseSCCTo {scc : List ℕ} {superNode : ℕ} (heq : graph.collapseSCCTo scc superNode = some graph') :
    SameKinds graph graph' := by
  rw [collapseSCCTo] at heq
  split at heq
  · exact SameKinds.foldlM (fun _ _ _ => sameKinds_collapseNode) scc heq
  · cases heq

def root (graph : ConstraintGraph) (id : ℕ) : ℕ := (graph.getSuperNode id).getD id

lemma Sound.getSuperNode_eq (h : Sound graph) (id : ℕ) : graph.getSuperNode id = some (graph.root id) := by
  obtain ⟨root, hroot, -⟩ := h.getSuperNode id
  rw [ConstraintGraph.root, hroot, Option.getD_some]

lemma Sound.superNode_root (h : Sound graph) (id : ℕ) : (graph.node (graph.root id)).superNode = none :=
  superNode_of_followSuper (h.getSuperNode_eq id)

lemma Sound.root_lt (h : Sound graph) {id : ℕ} (hid : id < graph.nodeNum) : graph.root id < graph.nodeNum :=
  followSuper_lt (fun hs => (h.link hs).2) hid (h.getSuperNode_eq id)

lemma root_eq {id : ℕ} (h : (graph.node id).superNode = none) : graph.root id = id := by
  rw [root, getSuperNode_root h, Option.getD_some]

lemma Sound.root_root (h : Sound graph) (id : ℕ) : graph.root (graph.root id) = graph.root id :=
  root_eq (h.superNode_root id)

lemma root_congr (h : ∀ id, (graph'.node id).superNode = (graph.node id).superNode) (hs : Sound graph)
    (hs' : Sound graph') (id : ℕ) : graph'.root id = graph.root id := by
  have hroot := hs.getSuperNode_eq id
  have hroot' := hs'.getSuperNode_eq id
  rw [getSuperNode, followSuper_congr h] at hroot'
  rw [getSuperNode] at hroot
  rcases Nat.le_total graph.nodeNum graph'.nodeNum with hle | hle
  · have := followSuper_mono (Nat.add_le_add_right hle 1) hroot
    rw [hroot'] at this
    exact Option.some.inj this
  · have := followSuper_mono (Nat.add_le_add_right hle 1) hroot'
    rw [hroot] at this
    exact (Option.some.inj this).symm

lemma superNode_fresh (h : Sound graph) {id : ℕ} (hid : graph.nodeNum ≤ id) : (graph.node id).superNode = none := by
  cases hs : (graph.node id).superNode with
  | none => rfl
  | some next => exact absurd (h.link hs).1 (Nat.not_lt.mpr hid)

lemma insertConstraint_reports (h : Sound graph) {this node : ℕ} (kind : Constraints) (hthis : this < graph.nodeNum)
    (hnode : node < graph.nodeNum) : ∃ added graph', graph.insertConstraint this node kind = some (added, graph') ∧
      SameNodes graph graph' ∧ SameKinds graph graph' ∧ Sound graph' ∧
      (∀ kind' src dst, graph'.Edge kind' src dst ↔ graph.Edge kind' src dst ∨
        ((src = graph.root this ∧ kind' = kind ∧ dst = graph.root node) ∧
          ¬(kind = .copy ∧ graph.root this = graph.root node) ∧
          (kind = .special ∨ (graph.node node).isImmutable = false))) ∧
      (added = true ↔ ¬graph.Edge kind (graph.root this) (graph.root node) ∧
        graph'.Edge kind (graph.root this) (graph.root node)) := by
  obtain ⟨added, graph', src, dst, heq, hsrc, hdst, hsame, hsound, hedges⟩ := insertConstraint_spec h kind hthis hnode
  have hroot : graph.root this = src := by rw [root, hsrc, Option.getD_some]
  have hroot' : graph.root node = dst := by rw [root, hdst, Option.getD_some]
  subst hroot hroot'
  refine ⟨added, graph', heq, hsame, sameKinds_insertConstraint heq, hsound, hedges, ?_⟩
  rw [insertConstraint] at heq
  split at heq
  · cases heq
    simp
  · next hguard =>
    simp only [hsrc, hdst, Option.bind_eq_bind, Option.bind_some] at heq
    split at heq
    · cases heq
      simp
    · next hself =>
      split at heq
      · simp only [Option.some.injEq, Prod.mk.injEq] at heq
        have hadded : added = true ↔ ¬graph.Edge kind (graph.root this) (graph.root node) := by
          rw [← heq.1]
          simp [Edge]
        have hguards : kind = .special ∨ (graph.node node).isImmutable = false := by
          by_contra hnot
          rw [not_or, Bool.not_eq_false] at hnot
          exact hguard hnot
        rw [hadded, and_iff_left]
        exact (hedges _ _ _).mpr (.inr ⟨⟨rfl, rfl, rfl⟩, fun hc => hself ⟨hc.2, hc.1⟩, hguards⟩)
      · cases heq

structure ObjAdded (graph graph' : ConstraintGraph) : Prop where
  nodeNum : graph'.nodeNum = graph.nodeNum + 2
  superNode : ∀ id, (graph'.node id).superNode = (graph.node id).superNode
  sound : Sound graph'
  edge : ∀ kind a b, graph'.Edge kind a b ↔
    graph.Edge kind a b ∨ (kind = .addrOf ∧ a = graph.nodeNum ∧ b = graph.nodeNum + 1)
  isImmutable : ∀ id, (graph'.node id).isImmutable =
    if id = graph.nodeNum ∨ id = graph.nodeNum + 1 then false else (graph.node id).isImmutable
  old : ∀ id < graph.nodeNum, (graph'.node id).type = (graph.node id).type ∧
    (graph'.node id).isAnonymous = (graph.node id).isAnonymous
  node : (graph'.node graph.nodeNum).type = .objNode
  anon : (graph'.node (graph.nodeNum + 1)).type = .ptrNode ∧ (graph'.node (graph.nodeNum + 1)).isAnonymous = true

lemma addCGNode_objNode (h : Sound graph) :
    ∃ graph', graph.addCGNode .objNode false = some graph' ∧ ObjAdded graph graph' := by
  obtain ⟨first, hfirst⟩ : ∃ first, first = graph.addNewNode .objNode false := ⟨_, rfl⟩
  obtain ⟨second, hsecond⟩ : ∃ second, second = first.addNewNode .ptrNode true := ⟨_, rfl⟩
  have hextends : Extends graph first := hfirst ▸ extends_addNewNode h .objNode false
  have hextends' : Extends first second := hsecond ▸ extends_addNewNode (hextends.sound h) .ptrNode true
  have hnum : second.nodeNum = graph.nodeNum + 2 := by
    rw [hsecond, hfirst]
    rfl
  have hsuper : ∀ id, (second.node id).superNode = (graph.node id).superNode :=
    fun id => (hextends'.superNode id).trans (hextends.superNode id)
  have hnode : second.node graph.nodeNum = { type := .objNode } := by
    simp [hsecond, hfirst, addNewNode]
  have hanon : second.node (graph.nodeNum + 1) = { type := .ptrNode, isAnonymous := true } := by
    simp [hsecond, hfirst, addNewNode]
  have hother : ∀ id, id ≠ graph.nodeNum → id ≠ graph.nodeNum + 1 → second.node id = graph.node id := by
    intro id hne hne'
    simp [hsecond, hfirst, addNewNode, hne, hne']
  obtain ⟨added, third, heq, hsame, hkinds, hsound, hedges, -⟩ := insertConstraint_reports
    (hextends'.sound (hextends.sound h)) .addrOf (show graph.nodeNum < second.nodeNum by omega)
    (show graph.nodeNum + 1 < second.nodeNum by omega)
  rw [root_eq ((hsuper _).trans (superNode_fresh h le_rfl)),
    root_eq ((hsuper _).trans (superNode_fresh h (Nat.le_succ _)))] at hedges
  refine ⟨third, ?_, ?_, ?_, hsound, ?_, ?_, ?_, ?_, ?_, ?_⟩
  · have hlast : (graph.addNewNode .objNode false).nodeNum = graph.nodeNum + 1 := rfl
    rw [addCGNode, if_pos rfl, ← hfirst, ← hsecond, hfirst, hlast, heq]
    rfl
  · rw [hsame.nodeNum, hnum]
  · intro id
    rw [hsame.superNode, hsuper]
  · intro kind a b
    have hold : second.Edge kind a b ↔ graph.Edge kind a b := (hextends'.edge kind a b).trans (hextends.edge kind a b)
    rw [hedges, hold, hanon]
    refine or_congr_right ⟨fun hnew => ⟨hnew.1.2.1, hnew.1.1, hnew.1.2.2⟩, ?_⟩
    rintro ⟨rfl, rfl, rfl⟩
    exact ⟨⟨rfl, rfl, rfl⟩, by simp, .inr rfl⟩
  · intro id
    rw [hsame.isImmutable]
    by_cases hid : id = graph.nodeNum
    · rw [if_pos (.inl hid), hid, hnode]
    · by_cases hid' : id = graph.nodeNum + 1
      · rw [if_pos (.inr hid'), hid', hanon]
      · rw [if_neg (by tauto), hother id hid hid']
  · intro id hid
    rw [hkinds.type, hkinds.isAnonymous, hother id (by omega) (by omega)]
    exact ⟨rfl, rfl⟩
  · rw [hkinds.type, hnode]
  · rw [hkinds.type, hanon]
  · rw [hkinds.isAnonymous, hanon]

lemma isImmutable_setImmutable (graph : ConstraintGraph) (id other : ℕ) :
    ((graph.setImmutable id).node other).isImmutable = (decide (other = id) || (graph.node other).isImmutable) := by
  by_cases h : other = id
  · subst h
    simp [setImmutable, ConstraintGraph.modify]
  · simp [setImmutable, ConstraintGraph.modify, h]

lemma sameKinds_setImmutable (graph : ConstraintGraph) (id : ℕ) : SameKinds graph (graph.setImmutable id) := by
  refine sameKinds_modify ?_ ?_ <;> exact fun _ => rfl

end ConstraintGraph

end OpenRace
