import OpenRace.PointerAnalysis.Graph.CollapsedSets

/-! The edges of a constraint graph after any run of insertions and collapses. -/

namespace OpenRace

namespace ConstraintGraph

abbrev Inserted := List (ℕ × Constraints × ℕ)

/-- An address is asked for as a copy of the anonymous node. -/
def request (src dst : ℕ) (constraint : Constraints) : ℕ × Constraints × ℕ :=
  if constraint = .addrOf then (src + 1, .copy, dst) else (src, constraint, dst)

inductive Reached : ConstraintGraph → Inserted → Prop
  | empty : Reached empty []
  | addCGNode {graph graph' : ConstraintGraph} {inserted : Inserted} {type : CGNodeKind} {isAnonymous : Bool}
      (h : Reached graph inserted) (eq : graph.addCGNode type isAnonymous = some graph') :
      Reached graph' (if type = .objNode then (graph.nodeNum, .addrOf, graph.nodeNum + 1) :: inserted else inserted)
  | setImmutable {graph : ConstraintGraph} {inserted : Inserted} {id : ℕ} (h : Reached graph inserted)
      (node : id < graph.nodeNum) : Reached (graph.setImmutable id) inserted
  | addConstraints {graph graph' : ConstraintGraph} {inserted : Inserted} {src dst : ℕ} {constraint : Constraints}
      {added : Bool} (h : Reached graph inserted) (source : src < graph.nodeNum) (target : dst < graph.nodeNum)
      (eq : graph.addConstraints src dst constraint = some (added, graph')) :
      Reached graph' (request src dst constraint :: inserted)
  | collapseSCCTo {graph graph' : ConstraintGraph} {inserted : Inserted} {scc : List ℕ} {superNode : ℕ}
      (h : Reached graph inserted) (nodes : graph.Collapsible scc superNode)
      (eq : graph.collapseSCCTo scc superNode = some graph') : Reached graph' inserted

structure Logged (graph : ConstraintGraph) (inserted : Inserted) : Prop where
  image : ∀ kind src dst, graph.Edge kind src dst → ∃ src' dst', (src', kind, dst') ∈ inserted ∧
    graph.getSuperNode src' = some src ∧ graph.getSuperNode dst' = some dst
  kept : ∀ src kind dst, (src, kind, dst) ∈ inserted → ∃ src' dst', graph.getSuperNode src = some src' ∧
    graph.getSuperNode dst = some dst' ∧ (graph.Edge kind src' dst' ∨ (kind = .copy ∧ src' = dst') ∨
      (kind ≠ .special ∧ ∃ id < graph.nodeNum, (graph.node id).isImmutable ∧ graph.getSuperNode id = some dst'))

variable {graph graph' : ConstraintGraph} {inserted : Inserted}

structure Extends (graph graph' : ConstraintGraph) : Prop where
  nodeNum : graph.nodeNum ≤ graph'.nodeNum
  superNode : ∀ id, (graph'.node id).superNode = (graph.node id).superNode
  edge : ∀ kind src dst, graph'.Edge kind src dst ↔ graph.Edge kind src dst
  predEdge : ∀ kind src dst, graph'.PredEdge kind src dst ↔ graph.PredEdge kind src dst
  collapsedNum : graph'.collapsedNum = graph.collapsedNum
  isImmutable : ∀ id < graph.nodeNum, (graph.node id).isImmutable → (graph'.node id).isImmutable

lemma Extends.getSuperNode (h : Extends graph graph') {id root : ℕ} (hroot : graph.getSuperNode id = some root) :
    graph'.getSuperNode id = some root := by
  have hle := h.nodeNum
  rw [ConstraintGraph.getSuperNode, followSuper_congr h.superNode]
  exact followSuper_mono (by omega) hroot

lemma Extends.sound (h : Extends graph graph') (hs : Sound graph) : Sound graph' where
  ends := by
    intro kind src dst he
    have hle := h.nodeNum
    obtain ⟨hsrc, hdst, hroots⟩ := hs.ends ((h.edge kind src dst).mp he)
    rw [h.superNode, h.superNode]
    exact ⟨by omega, by omega, hroots⟩
  plain id := by
    rw [h.edge]
    exact hs.plain id
  mirrored kind src dst := by
    rw [h.edge, h.predEdge]
    exact hs.mirrored kind src dst
  link := by
    intro id next hlink
    have hle := h.nodeNum
    rw [h.superNode] at hlink
    have hold := hs.link hlink
    omega
  found id := by
    rw [h.collapsedNum, followSuper_congr h.superNode]
    exact hs.found id

lemma Extends.logged (h : Extends graph graph') (hl : Logged graph inserted) : Logged graph' inserted where
  image kind src dst he := by
    obtain ⟨src', dst', hm, hsrc, hdst⟩ := hl.image kind src dst ((h.edge kind src dst).mp he)
    exact ⟨src', dst', hm, h.getSuperNode hsrc, h.getSuperNode hdst⟩
  kept src kind dst hm := by
    have hle := h.nodeNum
    obtain ⟨src', dst', hsrc, hdst, hkept⟩ := hl.kept src kind dst hm
    refine ⟨src', dst', h.getSuperNode hsrc, h.getSuperNode hdst, ?_⟩
    rcases hkept with he | hself | ⟨hkind, id, hid, hi, hfound⟩
    · exact .inl ((h.edge kind src' dst').mpr he)
    · exact .inr (.inl hself)
    · exact .inr (.inr ⟨hkind, id, by omega, h.isImmutable id hid hi, h.getSuperNode hfound⟩)

lemma extends_addNewNode (h : Sound graph) (type : CGNodeKind) (isAnonymous : Bool) :
    Extends graph (graph.addNewNode type isAnonymous) := by
  have hnone : (graph.node graph.nodeNum).superNode = none := by
    cases hs : (graph.node graph.nodeNum).superNode with
    | none => rfl
    | some next => exact absurd (h.link hs).1 (Nat.lt_irrefl _)
  have hsuper : ∀ id, ((graph.addNewNode type isAnonymous).node id).superNode = (graph.node id).superNode := by
    intro id
    by_cases hid : id = graph.nodeNum
    · subst hid
      simp [addNewNode, hnone]
    · simp [addNewNode, hid]
  constructor
  · exact Nat.le_succ _
  · exact hsuper
  · intro kind src dst
    by_cases hsrc : src = graph.nodeNum
    · subst hsrc
      have hout : ¬graph.Edge kind graph.nodeNum dst := fun he => Nat.lt_irrefl _ (h.ends he).1
      simpa [Edge, addNewNode] using hout
    · simp [Edge, addNewNode, hsrc]
  · intro kind src dst
    by_cases hdst : dst = graph.nodeNum
    · subst hdst
      have hin : ¬graph.PredEdge kind src graph.nodeNum := by
        rw [← h.mirrored]
        exact fun he => Nat.lt_irrefl _ (h.ends he).2.1
      simpa [PredEdge, addNewNode] using hin
    · simp [PredEdge, addNewNode, hdst]
  · have hnum : (graph.addNewNode type isAnonymous).nodeNum = graph.nodeNum + 1 := rfl
    simp [collapsedNum, hnum, Finset.range_add_one, Finset.filter_insert, hsuper, hnone]
  · intro id hid hi
    simpa [addNewNode, Nat.ne_of_lt hid] using hi

lemma extends_setImmutable (graph : ConstraintGraph) (id : ℕ) : Extends graph (graph.setImmutable id) := by
  have hsuper : ∀ other, ((graph.setImmutable id).node other).superNode = (graph.node other).superNode := by
    intro other
    by_cases hother : other = id
    · subst hother
      simp [setImmutable, modify]
    · simp [setImmutable, modify, hother]
  constructor
  · exact le_rfl
  · exact hsuper
  · intro kind src dst
    by_cases hsrc : src = id
    · subst hsrc
      simp [Edge, setImmutable, modify]
    · simp [Edge, setImmutable, modify, hsrc]
  · intro kind src dst
    by_cases hdst : dst = id
    · subst hdst
      simp [PredEdge, setImmutable, modify]
    · simp [PredEdge, setImmutable, modify, hdst]
  · simp only [collapsedNum, hsuper]
    rfl
  · intro other _ hi
    by_cases hother : other = id
    · subst hother
      simp [setImmutable, modify]
    · simpa [setImmutable, modify, hother] using hi

lemma Logged.insertConstraint (h : Sound graph) (hl : Logged graph inserted) {this node : ℕ} {kind : Constraints}
    {added : Bool} (hthis : this < graph.nodeNum) (hnode : node < graph.nodeNum)
    (heq : graph.insertConstraint this node kind = some (added, graph')) :
    Sound graph' ∧ Logged graph' ((this, kind, node) :: inserted) := by
  obtain ⟨added', next, src, dst, heq', hsrc, hdst, hsame, hsound, hedges⟩ :=
    insertConstraint_spec h kind hthis hnode
  rw [heq] at heq'
  cases heq'
  refine ⟨hsound, ⟨fun kind' src' dst' he => ?_, fun src' kind' dst' hm => ?_⟩⟩
  · rcases (hedges kind' src' dst').mp he with hold | ⟨⟨rfl, rfl, rfl⟩, -⟩
    · obtain ⟨src, dst, hm, hsrc, hdst⟩ := hl.image kind' src' dst' hold
      exact ⟨src, dst, List.mem_cons_of_mem _ hm, by rwa [hsame.getSuperNode], by rwa [hsame.getSuperNode]⟩
    · exact ⟨this, node, List.mem_cons_self, by rwa [hsame.getSuperNode], by rwa [hsame.getSuperNode]⟩
  · rcases List.mem_cons.mp hm with heq | hm
    · cases heq
      refine ⟨src, dst, by rwa [hsame.getSuperNode], by rwa [hsame.getSuperNode], ?_⟩
      by_cases hself : kind = .copy ∧ src = dst
      · exact .inr (.inl hself)
      · by_cases hguard : kind = .special ∨ (graph.node node).isImmutable = false
        · exact .inl ((hedges kind src dst).mpr (.inr ⟨⟨rfl, rfl, rfl⟩, hself, hguard⟩))
        · rw [not_or, Bool.not_eq_false] at hguard
          refine .inr (.inr ⟨hguard.1, node, by rwa [hsame.nodeNum], ?_, by rwa [hsame.getSuperNode]⟩)
          rw [hsame.isImmutable]
          exact hguard.2
    · obtain ⟨src, dst, hsrc, hdst, hkept⟩ := hl.kept src' kind' dst' hm
      refine ⟨src, dst, by rwa [hsame.getSuperNode], by rwa [hsame.getSuperNode], ?_⟩
      rcases hkept with he | hself | ⟨hkind, id, hid, himmutable, hfound⟩
      · exact .inl ((hedges kind' src dst).mpr (.inl he))
      · exact .inr (.inl hself)
      · refine .inr (.inr ⟨hkind, id, by rwa [hsame.nodeNum], ?_, by rwa [hsame.getSuperNode]⟩)
        rwa [hsame.isImmutable]

lemma Logged.addCGNode (h : Sound graph) (hl : Logged graph inserted) {type : CGNodeKind} {isAnonymous : Bool}
    (heq : graph.addCGNode type isAnonymous = some graph') : Sound graph' ∧ Logged graph'
      (if type = .objNode then (graph.nodeNum, .addrOf, graph.nodeNum + 1) :: inserted else inserted) := by
  have hsound := (extends_addNewNode h type isAnonymous).sound h
  have hlogged := (extends_addNewNode h type isAnonymous).logged hl
  rw [ConstraintGraph.addCGNode] at heq
  split at heq
  · next htype =>
    rw [if_pos htype]
    obtain ⟨result, hresult, hsnd⟩ := Option.map_eq_some_iff.mp heq
    obtain ⟨added, next⟩ := result
    cases hsnd
    have hanon := extends_addNewNode hsound .ptrNode true
    refine (hanon.logged hlogged).insertConstraint (hanon.sound hsound) ?_ ?_ hresult
    · exact Nat.lt_succ_of_lt (Nat.lt_succ_self _)
    · exact Nat.lt_succ_self _
  · next htype =>
    rw [if_neg htype]
    cases heq
    exact ⟨hsound, hlogged⟩

lemma Logged.addConstraints (h : Sound graph) (hl : Logged graph inserted) {src dst : ℕ} {constraint : Constraints}
    {added : Bool} (hsrc : src < graph.nodeNum) (hdst : dst < graph.nodeNum)
    (heq : graph.addConstraints src dst constraint = some (added, graph')) :
    Sound graph' ∧ Logged graph' (request src dst constraint :: inserted) := by
  rw [ConstraintGraph.addConstraints] at heq
  split at heq
  · next hself =>
    -- the graph stays, and the edge left out is a copy of a node to itself
    cases heq
    obtain ⟨rfl, rfl⟩ := hself
    obtain ⟨root, hroot, -⟩ := h.getSuperNode src
    refine ⟨h, ⟨fun kind src' dst' he => ?_, fun src' kind dst' hm => ?_⟩⟩
    · obtain ⟨src, dst, hm, hroots⟩ := hl.image kind src' dst' he
      exact ⟨src, dst, List.mem_cons_of_mem _ hm, hroots⟩
    · rcases List.mem_cons.mp hm with heq | hm
      · cases heq
        exact ⟨root, root, hroot, hroot, .inr (.inl ⟨rfl, rfl⟩)⟩
      · exact hl.kept src' kind dst' hm
  · split at heq
    · next haddr =>
      dsimp only at heq
      split at heq
      · next hanon =>
        rw [request, if_pos haddr]
        exact hl.insertConstraint h hanon.2.1 hdst heq
      · cases heq
    · next haddr =>
      rw [request, if_neg haddr]
      exact hl.insertConstraint h hsrc hdst heq

lemma Logged.collapse {scc : List ℕ} {superNode : ℕ} (h : Sound graph) (hl : Logged graph inserted)
    (hc : graph.Collapsible scc superNode) (hset : SetCollapsed scc superNode graph graph') :
    Logged graph' inserted := by
  have hroot := hset.collapses.representative
  obtain ⟨hlt, hsuper⟩ := hc.nodes superNode List.mem_cons_self
  constructor
  · intro kind src dst he
    obtain ⟨-, src', dst', hold, rfl, rfl⟩ := hset.collapses.image kind src dst he
    obtain ⟨src, dst, hm, hsrc, hdst⟩ := hl.image kind src' dst' hold
    exact ⟨src, dst, hm, hroot src src' hsrc, hroot dst dst' hdst⟩
  · intro src kind dst hm
    obtain ⟨src', dst', hsrc, hdst, hkept⟩ := hl.kept src kind dst hm
    refine ⟨_, _, hroot src src' hsrc, hroot dst dst' hdst, ?_⟩
    have hlost : ∀ {id root}, id < graph.nodeNum → (graph.node id).isImmutable → graph.getSuperNode id = some root →
        target scc superNode root = target scc superNode dst' → ∃ id < graph'.nodeNum,
          (graph'.node id).isImmutable ∧ graph'.getSuperNode id = some (target scc superNode dst') := by
      intro id root hid hi hfound hsame
      exact ⟨id, by rwa [hset.nodeNum], by rwa [hset.isImmutable], hsame ▸ hroot id root hfound⟩
    rcases hkept with he | hself | ⟨hkind, id, hid, hi, hfound⟩
    · obtain ⟨-, hend, -, hnone⟩ := h.ends he
      rcases hset.collapses.kept kind src' dst' he with hedge | hself | ⟨hkind, -, hi⟩
      · exact .inl hedge
      · exact .inr (.inl hself)
      · refine .inr (.inr ⟨hkind, ?_⟩)
        rcases hi with hi | hi
        · exact hlost hend hi (getSuperNode_root hnone) rfl
        · by_cases hin : dst' ∈ scc
          · have hto : target scc superNode dst' = superNode := if_pos hin
            rw [hto] at hi
            exact hlost hlt hi (getSuperNode_root hsuper) (by rw [hto, target_superNode])
          · have hto : target scc superNode dst' = dst' := if_neg hin
            rw [hto] at hi
            exact hlost hend hi (getSuperNode_root hnone) rfl
    · exact .inr (.inl ⟨hself.1, by rw [hself.2]⟩)
    · exact .inr (.inr ⟨hkind, hlost hid hi hfound rfl⟩)

theorem Reached.logged (h : Reached graph inserted) : Sound graph ∧ Logged graph inserted := by
  induction h with
  | empty =>
    refine ⟨⟨?_, ?_, ?_, ?_, ?_⟩, ⟨?_, ?_⟩⟩
    · exact fun he => absurd he (Finset.notMem_empty _)
    · exact fun id he => absurd he (Finset.notMem_empty _)
    · exact fun kind src dst => by simp [Edge, PredEdge, ConstraintGraph.empty]
    · exact fun hlink => by cases hlink
    · exact fun id => ⟨id, rfl⟩
    · exact fun kind src dst he => absurd he (Finset.notMem_empty _)
    · exact fun src kind dst hm => absurd hm List.not_mem_nil
  | addCGNode _ heq ih => exact ih.2.addCGNode ih.1 heq
  | @setImmutable graph _ id _ _ ih =>
    have hextends := extends_setImmutable graph id
    exact ⟨hextends.sound ih.1, hextends.logged ih.2⟩
  | addConstraints _ hsrc hdst heq ih => exact ih.2.addConstraints ih.1 hsrc hdst heq
  | collapseSCCTo _ hc heq ih =>
    obtain ⟨next, heq', hset⟩ := collapseSCCTo_spec ih.1 hc
    rw [heq] at heq'
    cases heq'
    exact ⟨hset.sound, ih.2.collapse ih.1 hc hset⟩

/-- What holds of the edges in every graph reached: both sets of each kind agree, collapsed nodes have none,
and the edges are those asked for between representatives. -/
structure Exact (graph : ConstraintGraph) (inserted : Inserted) : Prop where
  mirrored : graph.Mirrored
  bare : ∀ id, (graph.node id).superNode ≠ none →
    ∀ kind, (graph.node id).succCons kind = ∅ ∧ (graph.node id).predCons kind = ∅
  plain : ∀ id, ¬graph.Edge .copy id id
  logged : Logged graph inserted

lemma exact_of_sound (h : Sound graph) (hl : Logged graph inserted) : Exact graph inserted where
  mirrored := h.mirrored
  bare id hsuper kind := by
    constructor
    · refine Finset.eq_empty_of_forall_notMem fun dst he => ?_
      exact hsuper (h.ends (show graph.Edge kind id dst from he)).2.2.1
    · refine Finset.eq_empty_of_forall_notMem fun src he => ?_
      exact hsuper (h.ends ((h.mirrored kind src id).mpr he)).2.2.2
  plain := h.plain
  logged := hl

/-- In every run the edges are exact, and every set that may be collapsed next is, with the edges moved. -/
theorem reached_exact (h : Reached graph inserted) : Exact graph inserted ∧
    ∀ scc superNode, graph.Collapsible scc superNode →
      ∃ graph', graph.collapseSCCTo scc superNode = some graph' ∧ CollapsesTo scc superNode graph graph' := by
  obtain ⟨hsound, hlogged⟩ := h.logged
  refine ⟨exact_of_sound hsound hlogged, fun scc superNode hc => ?_⟩
  obtain ⟨graph', heq, hset⟩ := collapseSCCTo_spec hsound hc
  exact ⟨graph', heq, hset.collapses⟩

def ImageOf (scc : List ℕ) (superNode : ℕ) (graph graph' : ConstraintGraph) : Prop :=
  ∀ kind src dst, graph'.Edge kind src dst ↔ ¬(kind = .copy ∧ src = dst) ∧
    ∃ src' dst', graph.Edge kind src' dst' ∧ src = target scc superNode src' ∧ dst = target scc superNode dst'

-- A constant holds an address, and the pointer with this address is collapsed into another one.
namespace ConstantInitializer

def onePointer : ConstraintGraph := (ConstraintGraph.empty.addCGNode .ptrNode false).getD .empty

def pointers : ConstraintGraph := (onePointer.addCGNode .ptrNode false).getD .empty

def allocated : ConstraintGraph := (pointers.addCGNode .objNode false).getD .empty

def stored : ConstraintGraph := ((allocated.addConstraints 0 2 .copy).map Prod.snd).getD .empty

def constant : ConstraintGraph := stored.setImmutable 2

def collapsed : ConstraintGraph := (constant.collapseSCCTo [1, 0] 1).getD .empty

lemma eq_some_getD {option : Option ConstraintGraph} (h : option.isSome) : option = some (option.getD .empty) := by
  cases option with
  | none => cases h
  | some graph => rfl

lemma reached_constant : Reached constant [(0, .copy, 2), (2, .addrOf, 3)] := by
  have hone : Reached onePointer [] := .addCGNode .empty (eq_some_getD (by decide +kernel))
  have hpointers : Reached pointers [] := .addCGNode hone (eq_some_getD (by decide +kernel))
  have hallocated : Reached allocated [(2, .addrOf, 3)] := .addCGNode hpointers (eq_some_getD (by decide +kernel))
  have hstored : allocated.addConstraints 0 2 .copy = some (true, stored) := rfl
  exact .setImmutable (.addConstraints hallocated (by decide +kernel) (by decide +kernel) hstored) (by decide +kernel)

lemma collapsible_constant : constant.Collapsible [1, 0] 1 := ⟨by decide, by decide +kernel⟩

theorem reached_exact_constant : Exact constant [(0, .copy, 2), (2, .addrOf, 3)] ∧
    ∀ scc superNode, constant.Collapsible scc superNode →
      ∃ graph', constant.collapseSCCTo scc superNode = some graph' ∧ CollapsesTo scc superNode constant graph' :=
  reached_exact reached_constant

theorem edge_into_constant_lost : ¬∀ graph inserted, Reached graph inserted → ∀ scc superNode,
    graph.Collapsible scc superNode → ∀ graph', graph.collapseSCCTo scc superNode = some graph' →
      ImageOf scc superNode graph graph' := by
  intro hall
  have himage := hall constant _ reached_constant [1, 0] 1 collapsible_constant collapsed
    (eq_some_getD (by decide +kernel))
  have hedge : constant.Edge .copy 0 2 := by
    show 2 ∈ (constant.node 0).succCons .copy
    decide +kernel
  have hlost : ¬collapsed.Edge .copy 1 2 := by
    show 2 ∉ (collapsed.node 1).succCons .copy
    decide +kernel
  exact hlost ((himage .copy 1 2).mpr ⟨by decide, 0, 2, hedge, rfl, rfl⟩)

end ConstantInitializer

end ConstraintGraph

end OpenRace
