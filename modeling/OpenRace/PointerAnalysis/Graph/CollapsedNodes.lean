import OpenRace.PointerAnalysis.Graph.ConstraintEdges

/-! Collapsing nodes moves their edges to the node they are collapsed into. -/

namespace OpenRace

namespace ConstraintGraph

variable {graph graph' : ConstraintGraph}

section SuperNodes

lemma followSuper_congr (h : ∀ id, (graph'.node id).superNode = (graph.node id).superNode) (fuel : ℕ) :
    ∀ id, graph'.followSuper fuel id = graph.followSuper fuel id := by
  induction fuel with
  | zero => exact fun _ => rfl
  | succ fuel ih =>
    intro id
    rw [followSuper, followSuper, h]
    cases (graph.node id).superNode with
    | none => rfl
    | some next => exact ih next

lemma followSuper_mono {fuel fuel' : ℕ} (hle : fuel ≤ fuel') {id root : ℕ}
    (h : graph.followSuper fuel id = some root) : graph.followSuper fuel' id = some root := by
  induction fuel generalizing fuel' id with
  | zero => cases h
  | succ fuel ih =>
    obtain ⟨more, rfl⟩ : ∃ more, fuel' = more + 1 := ⟨fuel' - 1, by omega⟩
    rw [followSuper] at h ⊢
    cases hs : (graph.node id).superNode with
    | none => rwa [hs] at h
    | some next =>
      rw [hs] at h
      exact ih (by omega) h

lemma superNode_of_followSuper {fuel id root : ℕ} (h : graph.followSuper fuel id = some root) :
    (graph.node root).superNode = none := by
  induction fuel generalizing id with
  | zero => cases h
  | succ fuel ih =>
    rw [followSuper] at h
    cases hs : (graph.node id).superNode with
    | none =>
      rw [hs] at h
      cases h
      exact hs
    | some next =>
      rw [hs] at h
      exact ih h

lemma followSuper_lt (hl : ∀ {id next}, (graph.node id).superNode = some next → next < graph.nodeNum)
    {fuel id root : ℕ} (hid : id < graph.nodeNum) (h : graph.followSuper fuel id = some root) :
    root < graph.nodeNum := by
  induction fuel generalizing id with
  | zero => cases h
  | succ fuel ih =>
    rw [followSuper] at h
    cases hs : (graph.node id).superNode with
    | none =>
      rw [hs] at h
      cases h
      exact hid
    | some next =>
      rw [hs] at h
      exact ih (hl hs) h

def moved (id superNode other : ℕ) : ℕ := if other = id then superNode else other

lemma moved_self (id superNode : ℕ) : moved id superNode id = superNode := if_pos rfl

lemma moved_of_ne {id superNode other : ℕ} (h : other ≠ id) : moved id superNode other = other := if_neg h

lemma followSuper_moved {id superNode : ℕ} (hid : (graph.node id).superNode = none)
    (hsuper : (graph.node superNode).superNode = none) (hne : superNode ≠ id)
    (h : ∀ other, (graph'.node other).superNode = if other = id then some superNode else (graph.node other).superNode)
    {fuel other root : ℕ} (hroot : graph.followSuper fuel other = some root) :
    graph'.followSuper (fuel + 1) other = some (moved id superNode root) := by
  induction fuel generalizing other with
  | zero => cases hroot
  | succ fuel ih =>
    rw [followSuper] at hroot
    rw [followSuper, h]
    by_cases hother : other = id
    · subst hother
      rw [hid] at hroot
      cases hroot
      have hend : graph'.followSuper (fuel + 1) superNode = some superNode := by
        rw [followSuper, h, if_neg hne, hsuper]
      rw [if_pos rfl, moved_self]
      exact hend
    · rw [if_neg hother]
      cases hs : (graph.node other).superNode with
      | none =>
        rw [hs] at hroot
        cases hroot
        rw [moved_of_ne hother]
      | some next =>
        rw [hs] at hroot
        exact ih hroot

end SuperNodes

def collapsedNum (graph : ConstraintGraph) : ℕ :=
  ((Finset.range graph.nodeNum).filter fun id => (graph.node id).superNode.isSome).card

lemma collapsedNum_le (graph : ConstraintGraph) : graph.collapsedNum ≤ graph.nodeNum := by
  have h := Finset.card_filter_le (Finset.range graph.nodeNum) fun id => (graph.node id).superNode.isSome
  rwa [Finset.card_range] at h

structure Sound (graph : ConstraintGraph) : Prop where
  ends : ∀ {kind src dst}, graph.Edge kind src dst → src < graph.nodeNum ∧ dst < graph.nodeNum ∧
    (graph.node src).superNode = none ∧ (graph.node dst).superNode = none
  plain : ∀ id, ¬graph.Edge .copy id id
  mirrored : graph.Mirrored
  link : ∀ {id next}, (graph.node id).superNode = some next → id < graph.nodeNum ∧ next < graph.nodeNum
  found : ∀ id, ∃ root, graph.followSuper (graph.collapsedNum + 1) id = some root

lemma Sound.getSuperNode (h : Sound graph) (id : ℕ) : ∃ root, graph.getSuperNode id = some root ∧
    (graph.node root).superNode = none ∧ (id < graph.nodeNum → root < graph.nodeNum) := by
  obtain ⟨root, hroot⟩ := h.found id
  have hle := graph.collapsedNum_le
  exact ⟨root, followSuper_mono (by omega) hroot, superNode_of_followSuper hroot,
    fun hid => followSuper_lt (fun hs => (h.link hs).2) hid hroot⟩

lemma getSuperNode_root {id : ℕ} (h : (graph.node id).superNode = none) : graph.getSuperNode id = some id := by
  rw [ConstraintGraph.getSuperNode, followSuper, h]

lemma SameNodes.getSuperNode (h : SameNodes graph graph') (id : ℕ) :
    graph'.getSuperNode id = graph.getSuperNode id := by
  rw [ConstraintGraph.getSuperNode, ConstraintGraph.getSuperNode, h.nodeNum]
  exact followSuper_congr h.superNode _ id

lemma SameNodes.collapsedNum (h : SameNodes graph graph') : graph'.collapsedNum = graph.collapsedNum := by
  simp only [ConstraintGraph.collapsedNum, h.nodeNum, h.superNode]

lemma Sound.of_same (h : Sound graph) (hs : SameNodes graph graph') (hm : graph'.Mirrored)
    (he : ∀ {kind src dst}, graph'.Edge kind src dst → graph.Edge kind src dst ∨
      (src < graph.nodeNum ∧ dst < graph.nodeNum ∧ (graph.node src).superNode = none ∧
        (graph.node dst).superNode = none ∧ ¬(kind = .copy ∧ src = dst))) : Sound graph' where
  ends := by
    intro kind src dst hedge
    rw [hs.nodeNum, hs.superNode, hs.superNode]
    rcases he hedge with hold | ⟨hsrc, hdst, hroot, hroot', -⟩
    · exact h.ends hold
    · exact ⟨hsrc, hdst, hroot, hroot'⟩
  plain := by
    intro id hedge
    rcases he hedge with hold | ⟨-, -, -, -, hself⟩
    · exact h.plain id hold
    · exact hself ⟨rfl, rfl⟩
  mirrored := hm
  link := by
    intro id next hlink
    rw [hs.superNode] at hlink
    rw [hs.nodeNum]
    exact h.link hlink
  found := by
    intro id
    rw [hs.collapsedNum, followSuper_congr hs.superNode]
    exact h.found id

/-- The guards that an edge passes. -/
def Accepts (graph : ConstraintGraph) (kind : Constraints) (src dst : ℕ) : Prop :=
  ¬(kind = .copy ∧ src = dst) ∧ (kind = .special ∨ (graph.node dst).isImmutable = false)

lemma insertConstraint_spec (h : Sound graph) {this node : ℕ} (kind : Constraints) (hthis : this < graph.nodeNum)
    (hnode : node < graph.nodeNum) : ∃ added graph' src dst,
    graph.insertConstraint this node kind = some (added, graph') ∧ graph.getSuperNode this = some src ∧
      graph.getSuperNode node = some dst ∧ SameNodes graph graph' ∧ Sound graph' ∧
      ∀ kind' src' dst', graph'.Edge kind' src' dst' ↔ graph.Edge kind' src' dst' ∨
        ((src' = src ∧ kind' = kind ∧ dst' = dst) ∧ ¬(kind = .copy ∧ src = dst) ∧
          (kind = .special ∨ (graph.node node).isImmutable = false)) := by
  obtain ⟨src, hsrc, hroot, hlt⟩ := h.getSuperNode this
  obtain ⟨dst, hdst, hroot', hlt'⟩ := h.getSuperNode node
  rw [insertConstraint]
  by_cases hguard : kind ≠ .special ∧ (graph.node node).isImmutable
  · refine ⟨false, graph, src, dst, if_pos hguard, hsrc, hdst, .refl graph, h, fun kind' src' dst' => ?_⟩
    simp [hguard]
  · by_cases hself : src = dst ∧ kind = .copy
    · refine ⟨false, graph, src, dst, ?_, hsrc, hdst, .refl graph, h, fun kind' src' dst' => ?_⟩
      · simp [hsrc, hdst, hself]
      · simp [hself]
    · have hpasses : ¬(kind = .copy ∧ src = dst) ∧ (kind = .special ∨ (graph.node node).isImmutable = false) := by
        refine ⟨fun hc => hself ⟨hc.2, hc.1⟩, ?_⟩
        by_contra hnot
        rw [not_or] at hnot
        exact hguard ⟨hnot.1, by simpa using hnot.2⟩
      have hedge : ∀ kind' src' dst', ((graph.setSucc src kind dst).setPred dst kind src).Edge kind' src' dst' ↔
          graph.Edge kind' src' dst' ∨ (src' = src ∧ kind' = kind ∧ dst' = dst) := by
        intro kind' src' dst'
        rw [edge_setPred, edge_setSucc]
      have hsame : SameNodes graph ((graph.setSucc src kind dst).setPred dst kind src) :=
        (sameNodes_modify rfl rfl).trans (sameNodes_modify rfl rfl)
      refine ⟨!decide (dst ∈ (graph.node src).succCons kind), (graph.setSucc src kind dst).setPred dst kind src,
        src, dst, ?_, hsrc, hdst, hsame, ?_, fun kind' src' dst' => ?_⟩
      · have hsync : decide (dst ∈ (graph.node src).succCons kind) = decide (src ∈ (graph.node dst).predCons kind) :=
          decide_eq_decide.mpr (h.mirrored kind src dst)
        simp only [if_neg hguard, hsrc, hdst, Option.bind_eq_bind, Option.bind_some, if_neg hself, hsync, if_true]
      · refine h.of_same hsame (fun kind' src' dst' => ?_) fun {kind' src' dst'} hnew => ?_
        · rw [hedge, predEdge_setPred, predEdge_setSucc, h.mirrored]
        · rcases (hedge kind' src' dst').mp hnew with hold | ⟨rfl, rfl, rfl⟩
          · exact .inl hold
          · exact .inr ⟨hlt hthis, hlt' hnode, hroot, hroot', hpasses.1⟩
      · rw [hedge]
        simp only [hpasses, not_false_eq_true, and_true]

def Placed (graph : ConstraintGraph) (edge : ℕ × Constraints × ℕ) : Prop :=
  edge.1 < graph.nodeNum ∧ edge.2.2 < graph.nodeNum ∧ (graph.node edge.1).superNode = none ∧
    (graph.node edge.2.2).superNode = none

lemma insertAll_spec (edges : List (ℕ × Constraints × ℕ)) : ∀ {graph : ConstraintGraph}, Sound graph →
    (∀ edge ∈ edges, graph.Placed edge) → ∃ graph', graph.insertAll edges = some graph' ∧ SameNodes graph graph' ∧
      Sound graph' ∧ ∀ kind src dst, graph'.Edge kind src dst ↔
        graph.Edge kind src dst ∨ ((src, kind, dst) ∈ edges ∧ graph.Accepts kind src dst) := by
  induction edges with
  | nil => exact fun {graph} h _ => ⟨graph, rfl, .refl graph, h, fun kind src dst => by simp⟩
  | cons edge rest ih =>
    intro graph h hplaced
    obtain ⟨hsrc, hdst, hroot, hroot'⟩ := hplaced edge List.mem_cons_self
    obtain ⟨added, next, src, dst, heq, hfound, hfound', hsame, hsound, hedges⟩ :=
      insertConstraint_spec h edge.2.1 hsrc hdst
    rw [getSuperNode_root hroot, Option.some.injEq] at hfound
    rw [getSuperNode_root hroot', Option.some.injEq] at hfound'
    subst hfound hfound'
    have hrest : ∀ edge ∈ rest, next.Placed edge := by
      intro other hm
      rw [Placed, hsame.nodeNum, hsame.superNode, hsame.superNode]
      exact hplaced other (List.mem_cons_of_mem _ hm)
    obtain ⟨last, heq', hsame', hsound', hedges'⟩ := ih hsound hrest
    refine ⟨last, ?_, hsame.trans hsame', hsound', fun kind' src' dst' => ?_⟩
    · rw [insertAll, List.foldlM_cons]
      simp only [heq, Option.map_some, Option.bind_eq_bind, Option.bind_some]
      exact heq'
    · rw [hedges', hedges, List.mem_cons, Accepts, Accepts, hsame.isImmutable]
      have hhead : (src', kind', dst') = edge ↔ src' = edge.1 ∧ kind' = edge.2.1 ∧ dst' = edge.2.2 := by
        rw [Prod.ext_iff, Prod.ext_iff]
      rw [hhead, or_and_right, or_assoc]
      refine or_congr Iff.rfl (or_congr (and_congr_right ?_) Iff.rfl)
      rintro ⟨rfl, rfl, rfl⟩
      rfl

end ConstraintGraph

end OpenRace
