import OpenRace.PointerAnalysis.Graph.CollapsedNodes
import OpenRace.PointerAnalysis.Graph.Components

/-! The iterator enumerates the components that the starts reach, in an order that copies can go through. -/

namespace OpenRace

open ComponentSearch

namespace ConstraintGraph

variable {graph : ConstraintGraph} {cons : Constraints}

/-- The components reached from the starts, in the reverse of the order of their edges as they are followed. -/
structure Enumerates (graph : ConstraintGraph) (cons : Constraints) (reverse : Bool) (starts : ℕ → Prop)
    (sccs : List (List ℕ)) : Prop where
  strong : ∀ scc ∈ sccs, scc ≠ [] ∧ scc.Nodup ∧ ∀ a ∈ scc, ∀ b, b ∈ scc ↔ graph.Path cons a b ∧ graph.Path cons b a
  disjoint : sccs.Pairwise List.Disjoint
  covered : ∀ a, (∃ scc ∈ sccs, a ∈ scc) ↔ ∃ root, starts root ∧ graph.Follows cons reverse root a
  ordered : sccs.Pairwise fun first second => ∀ a ∈ first, ∀ b ∈ second, ¬graph.Follows cons reverse a b

lemma Linked.strong (h : Linked graph cons) (reverse : Bool) (a b : ℕ) :
    (Reach (graph.children cons reverse) a b ∧ Reach (graph.children cons reverse) b a) ↔
      graph.Path cons a b ∧ graph.Path cons b a := by
  rw [h.reach_children, h.reach_children]
  cases reverse with
  | false => rfl
  | true => exact and_comm

lemma Sound.linked (h : Sound graph) (hids : graph.nodeNum ≤ SCCIterator.finished) (cons : Constraints) :
    Linked graph cons where
  ids := hids
  ends _ _ hedge := ⟨(h.ends hedge).1, (h.ends hedge).2.1⟩
  mirrored := h.mirrored cons

theorem emitted_enumerates (h : Linked graph cons) (reverse : Bool) (workList : Finset ℕ) :
    ∃ sccs, SCCIterator.emitted graph cons reverse workList = some sccs ∧
      Enumerates graph cons reverse (SCCIterator.Starts graph workList) sccs := by
  obtain ⟨sccs, it, heq, hended⟩ := SCCIterator.emitted_spec h reverse workList
  have hgiven : ∀ a, (∃ scc ∈ sccs, a ∈ scc) ↔ it.nodeVisitNumbers a ≠ none := by
    intro a
    rw [hended.running.visited, hended.running.stack_nil hended.visitStack]
    exact (or_iff_left List.not_mem_nil).symm
  refine ⟨sccs, heq, ?_, ?_, fun a => ⟨fun ha => ?_, ?_⟩, ?_⟩
  · intro scc hscc
    obtain ⟨hne, hnodup, hstrong⟩ := hended.running.components.strong scc hscc
    exact ⟨hne, hnodup, fun a ha b => (hstrong a ha b).trans (h.strong reverse a b)⟩
  · exact hended.running.components.apart.imp fun hapart a hfirst hsecond => hapart a hfirst a hsecond .refl
  · obtain ⟨-, root, hroot, hreach⟩ := hended.running.started a ((hgiven a).mp ha)
    exact ⟨root, hroot, (h.reach_children reverse root a).mp hreach⟩
  · rintro ⟨root, hroot, hpath⟩
    exact hended.running.components.reach ((hgiven root).mpr (hended.roots root hroot))
      ((h.reach_children reverse root a).mpr hpath)
  · refine hended.running.components.apart.imp fun hapart a hfirst b hsecond hpath => ?_
    exact hapart a hfirst b hsecond ((h.reach_children reverse a b).mpr hpath)

/-- A node with an edge to a second, and a node collapsed into the first. -/
def merged : ConstraintGraph where
  nodeNum := 3
  node id := {
    superNode := if id = 1 then some 0 else none
    succCons := fun kind => if id = 0 ∧ kind = .copy then {2} else ∅
    predCons := fun kind => if id = 2 ∧ kind = .copy then {0} else ∅ }

lemma merged_edge (src dst : ℕ) : merged.Edge .copy src dst ↔ src = 0 ∧ dst = 2 := by
  by_cases h : src = 0 <;> simp [Edge, merged, h]

lemma merged_linked : Linked merged .copy where
  ids := by decide
  ends src dst hedge := by
    obtain ⟨rfl, rfl⟩ := (merged_edge src dst).mp hedge
    decide
  mirrored src dst := by
    rw [merged_edge, PredEdge, and_comm]
    by_cases h : dst = 2 <;> simp [merged, h]

theorem merged_enumerates : Linked merged .copy ∧ ∃ sccs, SCCIterator.emitted merged .copy true {0} = some sccs ∧
    Enumerates merged .copy true (SCCIterator.Starts merged {0}) sccs :=
  ⟨merged_linked, emitted_enumerates merged_linked true {0}⟩

theorem collapsed_start_left_out : Linked merged .copy ∧
    (∀ id other, (merged.node id).superNode ≠ none → ¬merged.Edge .copy id other ∧ ¬merged.Edge .copy other id) ∧
    SCCIterator.emitted merged .copy false ∅ = some [[2], [0]] ∧
    ¬∃ sccs, SCCIterator.emitted merged .copy false ∅ = some sccs ∧
      Enumerates merged .copy false (fun root => root < merged.nodeNum ∧ root ∉ (∅ : Finset ℕ)) sccs := by
  have hemitted : SCCIterator.emitted merged .copy false ∅ = some [[2], [0]] := by decide +kernel
  refine ⟨merged_linked, fun id other hsuper => ?_, hemitted, ?_⟩
  · have hid : id = 1 := by
      by_contra hne
      exact hsuper (if_neg hne)
    rw [merged_edge, merged_edge]
    omega
  · rintro ⟨sccs, heq, henum⟩
    rw [hemitted] at heq
    obtain rfl := Option.some.inj heq
    -- the collapsed node is unset, and in no component
    have hcovered := (henum.covered 1).mpr ⟨1, ⟨by decide, by decide⟩, .refl⟩
    simp at hcovered

end ConstraintGraph

namespace ConstraintGraph

variable {graph : ConstraintGraph}

/-- No component leads to an earlier one, and all that a component leads to is there. -/
structure Topological (graph : ConstraintGraph) (sccs : List (List ℕ)) : Prop where
  strong : ∀ scc ∈ sccs, scc ≠ [] ∧ scc.Nodup ∧
    ∀ a ∈ scc, ∀ b, b ∈ scc ↔ graph.Path .copy a b ∧ graph.Path .copy b a
  ordered : sccs.Pairwise fun first second => ∀ a ∈ first, ∀ b ∈ second, ¬graph.Path .copy b a
  followed : ∀ scc ∈ sccs, ∀ a ∈ scc, ∀ b, graph.Edge .copy a b → ∃ scc' ∈ sccs, b ∈ scc'

lemma Topological.apart {scc : List ℕ} {sccs : List (List ℕ)} (h : graph.Topological (scc :: sccs)) {a : ℕ}
    (ha : a ∈ scc) {scc' : List ℕ} (hscc : scc' ∈ sccs) : a ∉ scc' :=
  fun ha' => (List.pairwise_cons.mp h.ordered).1 scc' hscc a ha a ha' .refl

lemma Topological.edge_notMem {scc : List ℕ} {sccs : List (List ℕ)} (h : graph.Topological (scc :: sccs))
    {scc' : List ℕ} (hscc : scc' ∈ sccs) {a b : ℕ} (ha : a ∈ scc') (he : graph.Edge .copy a b) : b ∉ scc :=
  fun hb => (List.pairwise_cons.mp h.ordered).1 scc' hscc b hb a ha (.single he)

lemma Topological.tail {scc : List ℕ} {sccs : List (List ℕ)} (h : graph.Topological (scc :: sccs)) :
    graph.Topological sccs where
  strong scc' hscc := h.strong scc' (List.mem_cons_of_mem _ hscc)
  ordered := (List.pairwise_cons.mp h.ordered).2
  followed scc' hscc a ha b he := by
    obtain ⟨other, hother, hb⟩ := h.followed scc' (List.mem_cons_of_mem _ hscc) a ha b he
    rcases List.mem_cons.mp hother with rfl | hother
    · exact absurd hb (h.edge_notMem hscc ha he)
    · exact ⟨other, hother, hb⟩

lemma Topological.later {scc : List ℕ} {sccs : List (List ℕ)} (h : graph.Topological (scc :: sccs)) {a b : ℕ}
    (ha : a ∈ scc) (he : graph.Edge .copy a b) (hb : b ∉ scc) : ∃ scc' ∈ sccs, b ∈ scc' := by
  obtain ⟨other, hother, hin⟩ := h.followed scc List.mem_cons_self a ha b he
  rcases List.mem_cons.mp hother with rfl | hother
  · exact absurd hin hb
  · exact ⟨other, hother, hin⟩

lemma Topological.entered {sccs : List (List ℕ)} (h : graph.Topological sccs) {scc : List ℕ} (hscc : scc ∈ sccs)
    {a b : ℕ} (ha : a ∈ scc) (hb : b ∈ scc) (hne : a ≠ b) :
    (∃ src ∈ scc, graph.Edge .copy src a) ∧ ∃ dst ∈ scc, graph.Edge .copy a dst := by
  obtain ⟨-, -, hstrong⟩ := h.strong scc hscc
  obtain ⟨hab, hba⟩ := (hstrong a ha b).mp hb
  constructor
  · rcases Relation.ReflTransGen.cases_tail hba with rfl | ⟨src, hpath, he⟩
    · exact absurd rfl hne
    · exact ⟨src, (hstrong a ha src).mpr ⟨hab.trans hpath, .single he⟩, he⟩
  · rcases Relation.ReflTransGen.cases_head hab with rfl | ⟨dst, he, hpath⟩
    · exact absurd rfl hne
    · exact ⟨dst, (hstrong a ha dst).mpr ⟨.single he, hpath.trans hba⟩, he⟩

section Emitted

variable (h : graph.Linked .copy)

include h

lemma emitted_given (reverse : Bool) (workList : Finset ℕ) :
    ∃ sccs, SCCIterator.emitted graph .copy reverse workList = some sccs ∧
      (∀ scc ∈ sccs, scc ≠ [] ∧ scc.Nodup ∧
        ∀ a ∈ scc, ∀ b, b ∈ scc ↔ graph.Path .copy a b ∧ graph.Path .copy b a) ∧
      (sccs.Pairwise fun first second => ∀ a ∈ first, ∀ b ∈ second, ¬graph.Follows .copy reverse a b) ∧
      (∀ root, SCCIterator.Starts graph workList root → ∃ scc ∈ sccs, root ∈ scc) ∧
      ∀ scc ∈ sccs, ∀ a ∈ scc, ∀ b, graph.Follows .copy reverse a b → ∃ scc' ∈ sccs, b ∈ scc' := by
  obtain ⟨sccs, it, heq, hended⟩ := SCCIterator.emitted_spec h reverse workList
  have hgiven : ∀ a, (∃ scc ∈ sccs, a ∈ scc) ↔ it.nodeVisitNumbers a ≠ none := by
    intro a
    rw [hended.running.visited, hended.running.stack_nil hended.visitStack]
    exact (or_iff_left List.not_mem_nil).symm
  refine ⟨sccs, heq, fun scc hscc => ?_, ?_, fun root hroot => (hgiven root).mpr (hended.roots root hroot),
    fun scc hscc a ha b hb => ?_⟩
  · obtain ⟨hne, hnodup, hstrong⟩ := hended.running.components.strong scc hscc
    exact ⟨hne, hnodup, fun a ha b => (hstrong a ha b).trans (h.strong reverse a b)⟩
  · refine hended.running.components.apart.imp fun hapart a hfirst b hsecond hpath => ?_
    exact hapart a hfirst b hsecond ((h.reach_children reverse a b).mpr hpath)
  · exact hended.running.components.reach ⟨scc, hscc, ha⟩ ((h.reach_children reverse a b).mpr hb)

lemma emitted_reversed (workList : Finset ℕ) : ∃ sccs, SCCIterator.emitted graph .copy false workList = some sccs ∧
    graph.Topological sccs.reverse ∧
      ∀ root, SCCIterator.Starts graph workList root → ∃ scc ∈ sccs.reverse, root ∈ scc := by
  obtain ⟨sccs, heq, hstrong, hordered, hcovered, hfollowed⟩ := emitted_given h false workList
  refine ⟨sccs, heq, ⟨fun scc hscc => hstrong scc (List.mem_reverse.mp hscc), ?_, fun scc hscc a ha b he => ?_⟩,
    fun root hroot => ?_⟩
  · rw [List.pairwise_reverse]
    exact hordered.imp fun hnone a ha b hb => hnone b hb a ha
  · obtain ⟨scc', hscc', hb⟩ := hfollowed scc (List.mem_reverse.mp hscc) a ha b (.single he)
    exact ⟨scc', List.mem_reverse.mpr hscc', hb⟩
  · obtain ⟨scc, hscc, hin⟩ := hcovered root hroot
    exact ⟨scc, List.mem_reverse.mpr hscc, hin⟩

lemma emitted_ordered (hroots : ∀ id, (graph.node id).superNode = none) :
    ∃ sccs, SCCIterator.emitted graph .copy true ∅ = some sccs ∧ graph.Topological sccs ∧
      ∀ id < graph.nodeNum, ∃ scc ∈ sccs, id ∈ scc := by
  obtain ⟨sccs, heq, hstrong, hordered, hcovered, -⟩ := emitted_given h true ∅
  have hall : ∀ id < graph.nodeNum, ∃ scc ∈ sccs, id ∈ scc :=
    fun id hid => hcovered id ⟨hid, by simp, .inl (hroots id)⟩
  exact ⟨sccs, heq, ⟨hstrong, hordered, fun scc _ a _ b he => hall b (h.ends a b he).2⟩, hall⟩

end Emitted

end ConstraintGraph

end OpenRace
