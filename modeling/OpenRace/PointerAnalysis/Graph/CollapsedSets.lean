import OpenRace.PointerAnalysis.Graph.CollapsedNodes

/-! Collapsing a set of nodes: no edge is invented, and what is lost. -/

namespace OpenRace

namespace ConstraintGraph

variable {graph graph' : ConstraintGraph}

lemma edge_moveNodes (id superNode : ℕ) (kind : Constraints) (src dst : ℕ) :
    (graph.moveNodes id superNode).Edge kind src dst ↔ graph.Edge kind src dst := by
  by_cases hid : src = id
  · subst hid
    by_cases hsuper : src = superNode
    · subst hsuper
      simp [Edge, moveNodes, modify]
    · simp [Edge, moveNodes, modify, hsuper]
  · by_cases hsuper : src = superNode
    · subst hsuper
      simp [Edge, moveNodes, modify, hid]
    · simp [Edge, moveNodes, modify, hid, hsuper]

lemma predEdge_moveNodes (id superNode : ℕ) (kind : Constraints) (src dst : ℕ) :
    (graph.moveNodes id superNode).PredEdge kind src dst ↔ graph.PredEdge kind src dst := by
  by_cases hid : dst = id
  · subst hid
    by_cases hsuper : dst = superNode
    · subst hsuper
      simp [PredEdge, moveNodes, modify]
    · simp [PredEdge, moveNodes, modify, hsuper]
  · by_cases hsuper : dst = superNode
    · subst hsuper
      simp [PredEdge, moveNodes, modify, hid]
    · simp [PredEdge, moveNodes, modify, hid, hsuper]

lemma sameNodes_moveNodes (id superNode : ℕ) : SameNodes graph (graph.moveNodes id superNode) := by
  refine .trans (sameNodes_modify ?_ ?_) (sameNodes_modify ?_ ?_)
  · rfl
  · rfl
  · rfl
  · rfl

lemma edge_setSuperNode (id superNode : ℕ) (kind : Constraints) (src dst : ℕ) :
    (graph.setSuperNode id superNode).Edge kind src dst ↔ graph.Edge kind src dst := by
  by_cases hid : src = id
  · subst hid
    simp [Edge, setSuperNode, modify]
  · simp [Edge, setSuperNode, modify, hid]

lemma predEdge_setSuperNode (id superNode : ℕ) (kind : Constraints) (src dst : ℕ) :
    (graph.setSuperNode id superNode).PredEdge kind src dst ↔ graph.PredEdge kind src dst := by
  by_cases hid : dst = id
  · subst hid
    simp [PredEdge, setSuperNode, modify]
  · simp [PredEdge, setSuperNode, modify, hid]

lemma superNode_setSuperNode (id superNode other : ℕ) :
    ((graph.setSuperNode id superNode).node other).superNode =
      if other = id then some superNode else (graph.node other).superNode := by
  by_cases hid : other = id
  · subst hid
    simp [setSuperNode, modify]
  · simp [setSuperNode, modify, hid]

lemma isImmutable_setSuperNode (id superNode other : ℕ) :
    ((graph.setSuperNode id superNode).node other).isImmutable = (graph.node other).isImmutable := by
  by_cases hid : other = id
  · subst hid
    simp [setSuperNode, modify]
  · simp [setSuperNode, modify, hid]

lemma Sound.setSuperNode {id superNode : ℕ} (h : Sound graph) (hid : (graph.node id).superNode = none)
    (hsuper : (graph.node superNode).superNode = none) (hne : superNode ≠ id) (hlt : id < graph.nodeNum)
    (hlt' : superNode < graph.nodeNum)
    (hbare : ∀ kind src dst, graph.Edge kind src dst → src ≠ id ∧ dst ≠ id) :
    Sound (graph.setSuperNode id superNode) where
  ends := by
    intro kind src dst hedge
    rw [edge_setSuperNode] at hedge
    obtain ⟨hsrc, hdst⟩ := hbare kind src dst hedge
    rw [superNode_setSuperNode, superNode_setSuperNode, if_neg hsrc, if_neg hdst]
    exact h.ends hedge
  plain other := by
    rw [edge_setSuperNode]
    exact h.plain other
  mirrored kind src dst := by
    rw [edge_setSuperNode, predEdge_setSuperNode]
    exact h.mirrored kind src dst
  link := by
    intro other next hlink
    rw [superNode_setSuperNode] at hlink
    split at hlink
    · next heq =>
      cases hlink
      exact ⟨heq ▸ hlt, hlt'⟩
    · exact h.link hlink
  found := by
    have hcard : (graph.setSuperNode id superNode).collapsedNum = graph.collapsedNum + 1 := by
      have hset : ((Finset.range graph.nodeNum).filter fun other =>
            ((graph.setSuperNode id superNode).node other).superNode.isSome) =
          insert id ((Finset.range graph.nodeNum).filter fun other => (graph.node other).superNode.isSome) := by
        ext other
        rw [Finset.mem_insert, Finset.mem_filter, Finset.mem_filter, superNode_setSuperNode]
        by_cases heq : other = id
        · subst heq
          simp [hlt]
        · simp [heq]
      have hnew : id ∉ (Finset.range graph.nodeNum).filter fun other => (graph.node other).superNode.isSome := by
        simp [hid]
      rw [collapsedNum]
      exact (congrArg Finset.card hset).trans (Finset.card_insert_of_notMem hnew)
    intro other
    obtain ⟨root, hroot⟩ := h.found other
    rw [hcard]
    exact ⟨_, followSuper_moved hid hsuper hne (superNode_setSuperNode id superNode) hroot⟩

structure NodeCollapsed (superNode id : ℕ) (graph graph' : ConstraintGraph) : Prop where
  sound : Sound graph'
  nodeNum : graph'.nodeNum = graph.nodeNum
  isImmutable : ∀ other, (graph'.node other).isImmutable = (graph.node other).isImmutable
  linked : ∀ other, (graph'.node other).superNode =
    if other = id then some superNode else (graph.node other).superNode
  edge : ∀ kind src dst, graph'.Edge kind src dst ↔ ∃ src' dst', graph.Edge kind src' dst' ∧
    src = moved id superNode src' ∧ dst = moved id superNode dst' ∧
    ((src' ≠ id ∧ dst' ≠ id) ∨ graph.Accepts kind src dst)

lemma mem_entering (hm : graph.Mirrored) {id superNode : ℕ} {kind : Constraints} {src dst : ℕ} :
    (src, kind, dst) ∈ ((graph.predEdges id).map fun edge => (edge.2, edge.1, superNode)) ↔
      graph.Edge kind src id ∧ dst = superNode := by
  rw [List.mem_map, hm]
  constructor
  · rintro ⟨edge, hpred, heq⟩
    cases heq
    exact ⟨mem_predEdges.mp hpred, rfl⟩
  · rintro ⟨hpred, rfl⟩
    exact ⟨(kind, src), mem_predEdges.mpr hpred, rfl⟩

lemma mem_leaving {id superNode : ℕ} {kind : Constraints} {src dst : ℕ} :
    (src, kind, dst) ∈ ((graph.succEdges id).map fun edge => (superNode, edge.1, edge.2)) ↔
      graph.Edge kind id dst ∧ src = superNode := by
  rw [List.mem_map]
  constructor
  · rintro ⟨edge, hsucc, heq⟩
    cases heq
    exact ⟨mem_succEdges.mp hsucc, rfl⟩
  · rintro ⟨hsucc, rfl⟩
    exact ⟨(kind, dst), mem_succEdges.mpr hsucc, rfl⟩

/-- The edges into the node are moved first, and then those out of it, a loop among them. -/
lemma edge_moved_iff {superNode id : ℕ} (hne : superNode ≠ id) {kind : Constraints} (src dst : ℕ) :
    ((graph.Edge kind src dst ∨ (graph.Edge kind src id ∧ dst = superNode) ∧ graph.Accepts kind src dst) ∨
        ((graph.Edge kind id dst ∨ (graph.Edge kind id id ∧ dst = superNode) ∧ graph.Accepts kind id dst) ∧
          src = superNode) ∧ graph.Accepts kind src dst) ∧ src ≠ id ∧ dst ≠ id ↔
      ∃ src' dst', graph.Edge kind src' dst' ∧ src = moved id superNode src' ∧ dst = moved id superNode dst' ∧
        ((src' ≠ id ∧ dst' ≠ id) ∨ graph.Accepts kind src dst) := by
  constructor
  · rintro ⟨((hold | ⟨⟨hedge, rfl⟩, haccept⟩) | ⟨⟨hedge | ⟨⟨hedge, rfl⟩, -⟩, rfl⟩, haccept⟩), hsrc, hdst⟩
    · exact ⟨src, dst, hold, (moved_of_ne hsrc).symm, (moved_of_ne hdst).symm, .inl ⟨hsrc, hdst⟩⟩
    · exact ⟨src, id, hedge, (moved_of_ne hsrc).symm, (moved_self id _).symm, .inr haccept⟩
    · exact ⟨id, dst, hedge, (moved_self id _).symm, (moved_of_ne hdst).symm, .inr haccept⟩
    · exact ⟨id, id, hedge, (moved_self id _).symm, (moved_self id _).symm, .inr haccept⟩
  · rintro ⟨src', dst', hedge, rfl, rfl, hkept⟩
    by_cases hsrc : src' = id
    · subst hsrc
      have haccept := hkept.resolve_left fun hboth => hboth.1 rfl
      rw [moved_self] at haccept ⊢
      by_cases hdst : dst' = src'
      · subst hdst
        rw [moved_self] at haccept ⊢
        exact ⟨.inr ⟨⟨.inr ⟨⟨hedge, rfl⟩, fun hself => hne hself.2.symm, haccept.2⟩, rfl⟩, haccept⟩, hne, hne⟩
      · rw [moved_of_ne hdst] at haccept ⊢
        exact ⟨.inr ⟨⟨.inl hedge, rfl⟩, haccept⟩, hne, hdst⟩
    · rw [moved_of_ne hsrc] at hkept ⊢
      by_cases hdst : dst' = id
      · subst hdst
        have haccept := hkept.resolve_left fun hboth => hboth.2 rfl
        rw [moved_self] at haccept ⊢
        exact ⟨.inl (.inr ⟨⟨hedge, rfl⟩, haccept⟩), hsrc, hne⟩
      · rw [moved_of_ne hdst]
        exact ⟨.inl (.inl hedge), hsrc, hdst⟩

lemma collapseNode_spec {superNode id : ℕ} (h : Sound graph) (hid : (graph.node id).superNode = none)
    (hsuper : (graph.node superNode).superNode = none) (hne : superNode ≠ id) (hlt : id < graph.nodeNum)
    (hlt' : superNode < graph.nodeNum) :
    ∃ graph', collapseNode superNode graph id = some graph' ∧ NodeCollapsed superNode id graph graph' := by
  have hin : ∀ edge ∈ (graph.predEdges id).map fun edge => (edge.2, edge.1, superNode), graph.Placed edge := by
    intro edge hm
    obtain ⟨pred, hpred, rfl⟩ := List.mem_map.mp hm
    obtain ⟨hsrc, -, hroot, -⟩ := h.ends ((h.mirrored _ _ _).mpr (mem_predEdges.mp hpred))
    exact ⟨hsrc, hlt', hroot, hsuper⟩
  obtain ⟨first, heq, hsame, hsound, hfirst⟩ := insertAll_spec _ h hin
  have hout : ∀ edge ∈ (first.succEdges id).map fun edge => (superNode, edge.1, edge.2), first.Placed edge := by
    intro edge hm
    obtain ⟨succ, hsucc, rfl⟩ := List.mem_map.mp hm
    obtain ⟨-, hdst, -, hroot⟩ := hsound.ends (mem_succEdges.mp hsucc)
    refine ⟨by rwa [hsame.nodeNum], hdst, ?_, hroot⟩
    rw [hsame.superNode]
    exact hsuper
  obtain ⟨second, heq', hsame', hsound', hsecond⟩ := insertAll_spec _ hsound hout
  have hsameMoved : SameNodes graph (second.moveNodes id superNode) :=
    hsame.trans (hsame'.trans (sameNodes_moveNodes id superNode))
  have hmirrored : (second.moveNodes id superNode).Mirrored := by
    intro kind src dst
    rw [edge_moveNodes, predEdge_moveNodes]
    exact hsound'.mirrored kind src dst
  obtain ⟨hsameCleared, hmirroredCleared, hcleared⟩ := cleared_clearConstraints hmirrored id
  have hall := hsameMoved.trans hsameCleared
  have hsoundCleared : Sound ((second.moveNodes id superNode).clearConstraints id) := by
    refine hsound'.of_same ((sameNodes_moveNodes id superNode).trans hsameCleared) hmirroredCleared fun hedge => ?_
    exact .inl ((edge_moveNodes id superNode _ _ _).mp ((hcleared _ _ _).mp hedge).1)
  refine ⟨((second.moveNodes id superNode).clearConstraints id).setSuperNode id superNode, ?_, ?_, ?_, ?_, ?_, ?_⟩
  · rw [collapseNode, if_neg (Ne.symm hne)]
    simp [heq, heq']
  · refine hsoundCleared.setSuperNode ?_ ?_ hne ?_ ?_ fun kind src dst hedge => ((hcleared _ _ _).mp hedge).2
    · rw [hall.superNode, hid]
    · rw [hall.superNode, hsuper]
    · rwa [hall.nodeNum]
    · rwa [hall.nodeNum]
  · exact hall.nodeNum
  · intro other
    rw [isImmutable_setSuperNode, hall.isImmutable]
  · intro other
    rw [superNode_setSuperNode, hall.superNode]
  · intro kind src dst
    have haccepts : ∀ src dst, first.Accepts kind src dst ↔ graph.Accepts kind src dst := by
      intro src dst
      rw [Accepts, Accepts, hsame.isImmutable]
    rw [edge_setSuperNode, hcleared, edge_moveNodes, hsecond, mem_leaving, hfirst, hfirst, mem_entering h.mirrored,
      mem_entering h.mirrored, haccepts]
    exact edge_moved_iff hne src dst

lemma NodeCollapsed.representative {superNode id : ℕ} (h : NodeCollapsed superNode id graph graph')
    (hid : (graph.node id).superNode = none) (hsuper : (graph.node superNode).superNode = none)
    (hne : superNode ≠ id) {other root : ℕ} (hroot : graph.getSuperNode other = some root) :
    graph'.getSuperNode other = some (moved id superNode root) := by
  obtain ⟨root', hroot', -, -⟩ := h.sound.getSuperNode other
  have hfollow := followSuper_moved hid hsuper hne h.linked hroot
  have hmono : graph'.followSuper (graph.nodeNum + 1 + 1) other = some root' := by
    refine followSuper_mono ?_ hroot'
    rw [h.nodeNum]
    omega
  rw [hroot', ← hmono, hfollow]

def target (scc : List ℕ) (superNode id : ℕ) : ℕ := if id ∈ scc then superNode else id

lemma target_superNode (scc : List ℕ) (superNode : ℕ) : target scc superNode superNode = superNode := by
  rw [target]
  split <;> rfl

lemma target_cons_superNode (scc : List ℕ) (superNode id : ℕ) :
    target (superNode :: scc) superNode id = target scc superNode id := by
  by_cases h : id = superNode
  · rw [h, target_superNode, target_superNode]
  · simp [target, h]

lemma target_cons (scc : List ℕ) (superNode id other : ℕ) :
    target (id :: scc) superNode other = target scc superNode (moved id superNode other) := by
  by_cases h : other = id
  · rw [h, moved_self, target_superNode, target, if_pos List.mem_cons_self]
  · simp [target, moved_of_ne h, h]

/-- Edges are moved to the node of the set, none is invented, and besides copies of a node to itself only
edges into immutable nodes are lost. -/
structure CollapsesTo (scc : List ℕ) (superNode : ℕ) (graph graph' : ConstraintGraph) : Prop where
  representative : ∀ id root, graph.getSuperNode id = some root →
    graph'.getSuperNode id = some (target scc superNode root)
  image : ∀ kind src dst, graph'.Edge kind src dst → ¬(kind = .copy ∧ src = dst) ∧
    ∃ src' dst', graph.Edge kind src' dst' ∧ src = target scc superNode src' ∧ dst = target scc superNode dst'
  kept : ∀ kind src dst, graph.Edge kind src dst →
    graph'.Edge kind (target scc superNode src) (target scc superNode dst) ∨
    (kind = .copy ∧ target scc superNode src = target scc superNode dst) ∨
    (kind ≠ .special ∧ (target scc superNode src ≠ src ∨ target scc superNode dst ≠ dst) ∧
      ((graph.node dst).isImmutable ∨ (graph.node (target scc superNode dst)).isImmutable))

structure SetCollapsed (scc : List ℕ) (superNode : ℕ) (graph graph' : ConstraintGraph) : Prop where
  sound : Sound graph'
  nodeNum : graph'.nodeNum = graph.nodeNum
  isImmutable : ∀ other, (graph'.node other).isImmutable = (graph.node other).isImmutable
  collapses : CollapsesTo scc superNode graph graph'

lemma CollapsesTo.refl (h : Sound graph) (superNode : ℕ) : CollapsesTo [] superNode graph graph where
  representative _ _ hroot := hroot
  image kind src dst hedge := by
    refine ⟨?_, src, dst, hedge, rfl, rfl⟩
    rintro ⟨rfl, rfl⟩
    exact h.plain src hedge
  kept _ _ _ hedge := .inl hedge

lemma CollapsesTo.cons {scc : List ℕ} {superNode id : ℕ} {middle : ConstraintGraph}
    (hid : (graph.node id).superNode = none) (hsuper : (graph.node superNode).superNode = none)
    (hne : superNode ≠ id) (hstep : NodeCollapsed superNode id graph middle)
    (h : CollapsesTo scc superNode middle graph') : CollapsesTo (id :: scc) superNode graph graph' where
  representative other root hroot := by
    rw [target_cons]
    exact h.representative other _ (hstep.representative hid hsuper hne hroot)
  image kind src dst hedge := by
    obtain ⟨hself, src', dst', hmiddle, rfl, rfl⟩ := h.image kind src dst hedge
    obtain ⟨src, dst, hold, rfl, rfl, -⟩ := (hstep.edge kind src' dst').mp hmiddle
    exact ⟨hself, src, dst, hold, (target_cons scc superNode id src).symm, (target_cons scc superNode id dst).symm⟩
  kept kind src dst hedge := by
    have himmutable : (graph.node (moved id superNode dst)).isImmutable →
        (graph.node dst).isImmutable ∨ (graph.node (target scc superNode (moved id superNode dst))).isImmutable := by
      intro hi
      by_cases hdst : dst = id
      · rw [hdst, moved_self] at hi
        rw [hdst, moved_self, target_superNode]
        exact .inr hi
      · rw [moved_of_ne hdst] at hi
        exact .inl hi
    have htouched : ∀ other, target scc superNode (moved id superNode other) ≠ other ∨ other = id →
        target scc superNode (moved id superNode other) ≠ other := by
      rintro other (hmoved | rfl)
      · exact hmoved
      · rwa [moved_self, target_superNode]
    simp only [target_cons]
    by_cases haccept : (src ≠ id ∧ dst ≠ id) ∨
        graph.Accepts kind (moved id superNode src) (moved id superNode dst)
    · have hmiddle : middle.Edge kind (moved id superNode src) (moved id superNode dst) :=
        (hstep.edge kind _ _).mpr ⟨src, dst, hedge, rfl, rfl, haccept⟩
      rcases h.kept kind _ _ hmiddle with hkept | hself | ⟨hkind, hmoves, hi⟩
      · exact .inl hkept
      · exact .inr (.inl hself)
      · refine .inr (.inr ⟨hkind, ?_, ?_⟩)
        · refine hmoves.imp (fun hsrc => htouched src ?_) (fun hdst => htouched dst ?_)
          · by_cases heq : src = id
            · exact .inr heq
            · rw [moved_of_ne heq] at hsrc ⊢
              exact .inl hsrc
          · by_cases heq : dst = id
            · exact .inr heq
            · rw [moved_of_ne heq] at hdst ⊢
              exact .inl hdst
        · rw [hstep.isImmutable, hstep.isImmutable] at hi
          exact hi.elim himmutable .inr
    · rw [not_or, not_and_or, not_not, not_not, Accepts, not_and_or, not_not] at haccept
      obtain ⟨hend, ⟨hkind, heq⟩ | hguard⟩ := haccept
      · exact .inr (.inl ⟨hkind, by rw [heq]⟩)
      · rw [not_or, Bool.not_eq_false] at hguard
        exact .inr (.inr ⟨hguard.1, hend.imp (fun heq => htouched src (.inr heq)) (fun heq => htouched dst (.inr heq)),
          himmutable hguard.2⟩)

lemma foldlM_collapseNode {superNode : ℕ} (scc : List ℕ) : ∀ {graph : ConstraintGraph}, Sound graph →
    superNode < graph.nodeNum → (graph.node superNode).superNode = none →
    (∀ id ∈ scc, id < graph.nodeNum ∧ (graph.node id).superNode = none) → scc.Nodup →
    ∃ graph', scc.foldlM (collapseNode superNode) graph = some graph' ∧ SetCollapsed scc superNode graph graph' := by
  induction scc with
  | nil =>
    intro graph h _ _ _ _
    exact ⟨graph, rfl, h, rfl, fun _ => rfl, .refl h superNode⟩
  | cons id rest ih =>
    intro graph h hlt hsuper hall hnodup
    obtain ⟨hnew, hrest⟩ := List.nodup_cons.mp hnodup
    obtain ⟨hlt', hid⟩ := hall id List.mem_cons_self
    by_cases hne : superNode = id
    · subst hne
      obtain ⟨graph', heq, hset⟩ := ih h hlt hsuper (fun other hm => hall other (List.mem_cons_of_mem _ hm)) hrest
      refine ⟨graph', ?_, hset.sound, hset.nodeNum, hset.isImmutable, ?_⟩
      · rw [List.foldlM_cons, collapseNode, if_pos rfl]
        exact heq
      · have hsame : target (superNode :: rest) superNode = target rest superNode :=
          funext (target_cons_superNode rest superNode)
        have hcollapses := hset.collapses
        constructor <;> rw [hsame]
        · exact hcollapses.representative
        · exact hcollapses.image
        · exact hcollapses.kept
    · obtain ⟨middle, hmiddle, hstep⟩ := collapseNode_spec h hid hsuper hne hlt' hlt
      have hroots : ∀ other, other ≠ id → (graph.node other).superNode = none →
          (middle.node other).superNode = none := by
        intro other hother hroot
        rw [hstep.linked, if_neg hother, hroot]
      obtain ⟨graph', heq, hset⟩ := ih hstep.sound (by rwa [hstep.nodeNum]) (hroots superNode hne hsuper)
        (fun other hm => by
          obtain ⟨hother, hroot⟩ := hall other (List.mem_cons_of_mem _ hm)
          refine ⟨by rwa [hstep.nodeNum], hroots other ?_ hroot⟩
          rintro rfl
          exact hnew hm) hrest
      refine ⟨graph', ?_, hset.sound, hset.nodeNum.trans hstep.nodeNum,
        fun other => (hset.isImmutable other).trans (hstep.isImmutable other),
        .cons hid hsuper hne hstep hset.collapses⟩
      rw [List.foldlM_cons, hmiddle]
      exact heq

structure Collapsible (graph : ConstraintGraph) (scc : List ℕ) (superNode : ℕ) : Prop where
  nodup : scc.Nodup
  nodes : ∀ id ∈ superNode :: scc, id < graph.nodeNum ∧ (graph.node id).superNode = none

lemma collapseSCCTo_spec {scc : List ℕ} {superNode : ℕ} (h : Sound graph) (hc : graph.Collapsible scc superNode) :
    ∃ graph', graph.collapseSCCTo scc superNode = some graph' ∧ SetCollapsed scc superNode graph graph' := by
  obtain ⟨hlt, hsuper⟩ := hc.nodes superNode List.mem_cons_self
  obtain ⟨graph', heq, hset⟩ := foldlM_collapseNode scc h hlt hsuper
    (fun id hm => hc.nodes id (List.mem_cons_of_mem _ hm)) hc.nodup
  refine ⟨graph', ?_, hset⟩
  have hall : (scc.all fun id => (graph.node id).superNode.isNone) = true := by
    rw [List.all_eq_true]
    intro id hm
    rw [(hc.nodes id (List.mem_cons_of_mem _ hm)).2]
    rfl
  rw [collapseSCCTo, if_pos hall, heq]

end ConstraintGraph

end OpenRace
