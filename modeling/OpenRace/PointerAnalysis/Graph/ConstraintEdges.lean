import OpenRace.PointerAnalysis.Graph.ConstraintGraph

/-! What inserting and clearing edges does to the edges of a constraint graph. -/

namespace OpenRace

namespace ConstraintGraph

variable {graph graph' graph'' : ConstraintGraph}

def Edge (graph : ConstraintGraph) (kind : Constraints) (src dst : ℕ) : Prop :=
  dst ∈ (graph.node src).succCons kind

def PredEdge (graph : ConstraintGraph) (kind : Constraints) (src dst : ℕ) : Prop :=
  src ∈ (graph.node dst).predCons kind

def Mirrored (graph : ConstraintGraph) : Prop :=
  ∀ kind src dst, graph.Edge kind src dst ↔ graph.PredEdge kind src dst

structure SameNodes (graph graph' : ConstraintGraph) : Prop where
  nodeNum : graph'.nodeNum = graph.nodeNum
  superNode : ∀ id, (graph'.node id).superNode = (graph.node id).superNode
  isImmutable : ∀ id, (graph'.node id).isImmutable = (graph.node id).isImmutable

lemma SameNodes.refl (graph : ConstraintGraph) : SameNodes graph graph := ⟨rfl, fun _ => rfl, fun _ => rfl⟩

lemma SameNodes.trans (h : SameNodes graph graph') (h' : SameNodes graph' graph'') : SameNodes graph graph'' where
  nodeNum := h'.nodeNum.trans h.nodeNum
  superNode id := (h'.superNode id).trans (h.superNode id)
  isImmutable id := (h'.isImmutable id).trans (h.isImmutable id)

lemma sameNodes_modify {id : ℕ} {change : CGNode → CGNode}
    (hs : (change (graph.node id)).superNode = (graph.node id).superNode)
    (hi : (change (graph.node id)).isImmutable = (graph.node id).isImmutable) :
    SameNodes graph (graph.modify id change) where
  nodeNum := rfl
  superNode other := by
    by_cases h : other = id
    · subst h
      simpa [modify] using hs
    · simp [modify, h]
  isImmutable other := by
    by_cases h : other = id
    · subst h
      simpa [modify] using hi
    · simp [modify, h]

section Bits

variable (graph : ConstraintGraph) (kind kind' : Constraints) (src dst src' dst' : ℕ)

lemma edge_setSucc : (graph.setSucc src kind dst).Edge kind' src' dst' ↔
    graph.Edge kind' src' dst' ∨ (src' = src ∧ kind' = kind ∧ dst' = dst) := by
  by_cases hsrc : src' = src
  · by_cases hkind : kind' = kind
    · subst hsrc hkind
      simp [Edge, setSucc, modify, or_comm]
    · subst hsrc
      simp [Edge, setSucc, modify, hkind]
  · simp [Edge, setSucc, modify, hsrc]

lemma predEdge_setSucc : (graph.setSucc src kind dst).PredEdge kind' src' dst' ↔ graph.PredEdge kind' src' dst' := by
  by_cases hdst : dst' = src
  · subst hdst
    simp [PredEdge, setSucc, modify]
  · simp [PredEdge, setSucc, modify, hdst]

lemma edge_setPred : (graph.setPred dst kind src).Edge kind' src' dst' ↔ graph.Edge kind' src' dst' := by
  by_cases hsrc : src' = dst
  · subst hsrc
    simp [Edge, setPred, modify]
  · simp [Edge, setPred, modify, hsrc]

lemma predEdge_setPred : (graph.setPred dst kind src).PredEdge kind' src' dst' ↔
    graph.PredEdge kind' src' dst' ∨ (src' = src ∧ kind' = kind ∧ dst' = dst) := by
  by_cases hdst : dst' = dst
  · by_cases hkind : kind' = kind
    · subst hdst hkind
      simp [PredEdge, setPred, modify, or_comm]
    · subst hdst
      simp [PredEdge, setPred, modify, hkind]
  · simp [PredEdge, setPred, modify, hdst]

lemma edge_resetSucc : (graph.resetSucc src kind dst).Edge kind' src' dst' ↔
    graph.Edge kind' src' dst' ∧ ¬(dst' = dst ∧ kind' = kind ∧ src' = src) := by
  by_cases hsrc : src' = src
  · by_cases hkind : kind' = kind
    · subst hsrc hkind
      simp [Edge, resetSucc, modify, and_comm]
    · subst hsrc
      simp [Edge, resetSucc, modify, hkind]
  · simp [Edge, resetSucc, modify, hsrc]

lemma predEdge_resetSucc : (graph.resetSucc src kind dst).PredEdge kind' src' dst' ↔
    graph.PredEdge kind' src' dst' := by
  by_cases hdst : dst' = src
  · subst hdst
    simp [PredEdge, resetSucc, modify]
  · simp [PredEdge, resetSucc, modify, hdst]

lemma edge_resetPred : (graph.resetPred dst kind src).Edge kind' src' dst' ↔ graph.Edge kind' src' dst' := by
  by_cases hsrc : src' = dst
  · subst hsrc
    simp [Edge, resetPred, modify]
  · simp [Edge, resetPred, modify, hsrc]

lemma predEdge_resetPred : (graph.resetPred dst kind src).PredEdge kind' src' dst' ↔
    graph.PredEdge kind' src' dst' ∧ ¬(src' = src ∧ kind' = kind ∧ dst' = dst) := by
  by_cases hdst : dst' = dst
  · by_cases hkind : kind' = kind
    · subst hdst hkind
      simp [PredEdge, resetPred, modify, and_comm]
    · subst hdst
      simp [PredEdge, resetPred, modify, hkind]
  · simp [PredEdge, resetPred, modify, hdst]

end Bits

lemma foldl_resetPred (kind : Constraints) (id : ℕ) (targets : List ℕ) : ∀ graph : ConstraintGraph,
    SameNodes graph (targets.foldl (fun graph target => graph.resetPred target kind id) graph) ∧
    ∀ kind' src dst, ((targets.foldl (fun graph target => graph.resetPred target kind id) graph).Edge kind' src dst ↔
        graph.Edge kind' src dst) ∧
      ((targets.foldl (fun graph target => graph.resetPred target kind id) graph).PredEdge kind' src dst ↔
        graph.PredEdge kind' src dst ∧ ¬(src = id ∧ kind' = kind ∧ dst ∈ targets)) := by
  induction targets with
  | nil => exact fun graph => ⟨.refl graph, fun kind' src dst => by simp⟩
  | cons target rest ih =>
    intro graph
    obtain ⟨hsame, hedges⟩ := ih (graph.resetPred target kind id)
    refine ⟨.trans (sameNodes_modify rfl rfl) hsame, fun kind' src dst => ?_⟩
    obtain ⟨hedge, hpred⟩ := hedges kind' src dst
    rw [List.foldl_cons, hedge, hpred, edge_resetPred, predEdge_resetPred, List.mem_cons]
    refine ⟨Iff.rfl, ?_⟩
    rw [and_assoc, ← not_or, ← and_or_left, ← and_or_left]

lemma foldl_resetSucc (kind : Constraints) (id : ℕ) (targets : List ℕ) : ∀ graph : ConstraintGraph,
    SameNodes graph (targets.foldl (fun graph target => graph.resetSucc target kind id) graph) ∧
    ∀ kind' src dst, ((targets.foldl (fun graph target => graph.resetSucc target kind id) graph).PredEdge kind' src dst ↔
        graph.PredEdge kind' src dst) ∧
      ((targets.foldl (fun graph target => graph.resetSucc target kind id) graph).Edge kind' src dst ↔
        graph.Edge kind' src dst ∧ ¬(dst = id ∧ kind' = kind ∧ src ∈ targets)) := by
  induction targets with
  | nil => exact fun graph => ⟨.refl graph, fun kind' src dst => by simp⟩
  | cons target rest ih =>
    intro graph
    obtain ⟨hsame, hedges⟩ := ih (graph.resetSucc target kind id)
    refine ⟨.trans (sameNodes_modify rfl rfl) hsame, fun kind' src dst => ?_⟩
    obtain ⟨hpred, hedge⟩ := hedges kind' src dst
    rw [List.foldl_cons, hedge, hpred, predEdge_resetSucc, edge_resetSucc, List.mem_cons]
    refine ⟨Iff.rfl, ?_⟩
    rw [and_assoc, ← not_or, ← and_or_left, ← and_or_left]

def emptied (graph : ConstraintGraph) (id : ℕ) (kind : Constraints) : ConstraintGraph :=
  graph.modify id fun node => { node with
    succCons := Function.update node.succCons kind ∅, predCons := Function.update node.predCons kind ∅ }

lemma edge_emptied {id : ℕ} {kind kind' : Constraints} {src dst : ℕ} :
    (graph.emptied id kind).Edge kind' src dst ↔ graph.Edge kind' src dst ∧ ¬(src = id ∧ kind' = kind) := by
  by_cases hsrc : src = id
  · by_cases hkind : kind' = kind
    · subst hsrc hkind
      simp [Edge, emptied, modify]
    · subst hsrc
      simp [Edge, emptied, modify, hkind]
  · simp [Edge, emptied, modify, hsrc]

lemma predEdge_emptied {id : ℕ} {kind kind' : Constraints} {src dst : ℕ} :
    (graph.emptied id kind).PredEdge kind' src dst ↔ graph.PredEdge kind' src dst ∧ ¬(dst = id ∧ kind' = kind) := by
  by_cases hdst : dst = id
  · by_cases hkind : kind' = kind
    · subst hdst hkind
      simp [PredEdge, emptied, modify]
    · subst hdst
      simp [PredEdge, emptied, modify, hkind]
  · simp [PredEdge, emptied, modify, hdst]

structure Cleared (id : ℕ) (kinds : List Constraints) (graph graph' : ConstraintGraph) : Prop where
  same : SameNodes graph graph'
  edge : ∀ kind src dst, graph'.Edge kind src dst ↔
    graph.Edge kind src dst ∧ ¬(kind ∈ kinds ∧ (src = id ∨ dst = id))
  mirrored : graph'.Mirrored

lemma cleared_clearConstraint (hm : graph.Mirrored) (id : ℕ) (kind : Constraints) :
    Cleared id [kind] graph (clearConstraint id graph kind) := by
  obtain ⟨hsame, hedges⟩ :=
    foldl_resetPred kind id (((graph.node id).succCons kind).sort (· ≤ ·)) graph
  set first := (((graph.node id).succCons kind).sort (· ≤ ·)).foldl
    (fun graph target => graph.resetPred target kind id) graph with hfirst
  obtain ⟨hsame', hedges'⟩ :=
    foldl_resetSucc kind id (((first.node id).predCons kind).sort (· ≤ ·)) first
  set second := (((first.node id).predCons kind).sort (· ≤ ·)).foldl
    (fun graph target => graph.resetSucc target kind id) first with hsecond
  have hpred : ∀ kind' src dst, first.PredEdge kind' src dst ↔
      graph.PredEdge kind' src dst ∧ ¬(src = id ∧ kind' = kind ∧ graph.Edge kind id dst) := by
    intro kind' src dst
    rw [(hedges kind' src dst).2, Finset.mem_sort]
    rfl
  have hedge : ∀ kind' src dst, second.Edge kind' src dst ↔
      graph.Edge kind' src dst ∧ ¬(dst = id ∧ kind' = kind ∧ first.PredEdge kind src id) := by
    intro kind' src dst
    rw [(hedges' kind' src dst).2, (hedges kind' src dst).1, Finset.mem_sort]
    rfl
  have hlast : clearConstraint id graph kind = second.emptied id kind := by
    rw [clearConstraint, emptied]
  have hend : SameNodes second (clearConstraint id graph kind) := by
    rw [hlast]
    exact sameNodes_modify rfl rfl
  have hremains : ∀ kind' src dst, (clearConstraint id graph kind).Edge kind' src dst ↔
      graph.Edge kind' src dst ∧ ¬(kind' = kind ∧ (src = id ∨ dst = id)) := by
    intro kind' src dst
    rw [hlast, edge_emptied, hedge, hpred, ← hm]
    constructor
    · rintro ⟨⟨he, hin⟩, hout⟩
      refine ⟨he, ?_⟩
      rintro ⟨rfl, rfl | rfl⟩
      · exact hout ⟨rfl, rfl⟩
      · exact hin ⟨rfl, rfl, he, fun hloop => hout ⟨hloop.1, rfl⟩⟩
    · rintro ⟨he, hnone⟩
      exact ⟨⟨he, fun hin => hnone ⟨hin.2.1, .inr hin.1⟩⟩, fun hout => hnone ⟨hout.2, .inl hout.1⟩⟩
  refine ⟨hsame.trans (hsame'.trans hend), fun kind' src dst => ?_, fun kind' src dst => ?_⟩
  · rw [hremains, List.mem_singleton]
  · rw [hremains, hlast, predEdge_emptied, (hedges' kind' src dst).1, hpred, ← hm]
    constructor
    · rintro ⟨he, hnone⟩
      exact ⟨⟨he, fun hout => hnone ⟨hout.2.1, .inl hout.1⟩⟩, fun hin => hnone ⟨hin.2, .inr hin.1⟩⟩
    · rintro ⟨⟨he, hout⟩, hin⟩
      refine ⟨he, ?_⟩
      rintro ⟨rfl, rfl | rfl⟩
      · exact hout ⟨rfl, rfl, he⟩
      · exact hin ⟨rfl, rfl⟩

lemma cleared_clearConstraints (hm : graph.Mirrored) (id : ℕ) :
    SameNodes graph (graph.clearConstraints id) ∧ (graph.clearConstraints id).Mirrored ∧
      ∀ kind src dst, (graph.clearConstraints id).Edge kind src dst ↔
        graph.Edge kind src dst ∧ src ≠ id ∧ dst ≠ id := by
  have hfold : ∀ (kinds : List Constraints) (graph : ConstraintGraph), graph.Mirrored →
      Cleared id kinds graph (kinds.foldl (clearConstraint id) graph) := by
    intro kinds
    induction kinds with
    | nil => exact fun graph hm => ⟨.refl graph, fun kind src dst => by simp, hm⟩
    | cons kind rest ih =>
      intro graph hm
      have hstep := cleared_clearConstraint hm id kind
      have hrest := ih _ hstep.mirrored
      refine ⟨hstep.same.trans hrest.same, fun kind' src dst => ?_, hrest.mirrored⟩
      rw [List.foldl_cons, hrest.edge, hstep.edge, List.mem_singleton, List.mem_cons]
      tauto
  have hall := hfold [.load, .store, .copy, .addrOf, .offset, .special] graph hm
  refine ⟨hall.same, hall.mirrored, fun kind src dst => ?_⟩
  have hkind : kind ∈ [Constraints.load, .store, .copy, .addrOf, .offset, .special] := by
    cases kind <;> simp
  rw [clearConstraints, hall.edge]
  tauto

lemma mem_predEdges {id : ℕ} {edge : Constraints × ℕ} :
    edge ∈ graph.predEdges id ↔ graph.PredEdge edge.1 edge.2 id := by
  obtain ⟨kind, src⟩ := edge
  have hkind : kind ∈ kinds := by cases kind <;> simp [kinds]
  simp [predEdges, PredEdge, hkind]

lemma mem_succEdges {id : ℕ} {edge : Constraints × ℕ} :
    edge ∈ graph.succEdges id ↔ graph.Edge edge.1 id edge.2 := by
  obtain ⟨kind, dst⟩ := edge
  have hkind : kind ∈ kinds := by cases kind <;> simp [kinds]
  simp [succEdges, Edge, hkind]

end ConstraintGraph

end OpenRace
