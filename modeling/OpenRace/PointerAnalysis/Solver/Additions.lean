import OpenRace.PointerAnalysis.Solver.ClosedSets

/-! What the language model adds to the constraint graph keeps it built. -/

namespace OpenRace

open ConstraintGraph

def Addition.edge {Obj : Type} : Addition Obj → Option (Constraints × ℕ × ℕ)
  | .ptrNode => none
  | .objNode _ => none
  | .indirectCallNode _ _ => none
  | .constraint src dst kind => some (if kind = .addrOf then (.copy, src + 1, dst) else (kind, src, dst))

def Addition.pointers {Obj : Type} : Addition Obj → ℕ
  | .ptrNode => 1
  | .objNode _ => 0
  | .indirectCallNode _ _ => 0
  | .constraint _ _ _ => 0

namespace SolverBase

variable {Obj : Type} {model : FieldModel Obj} {edges : Constraints → Place Obj → Place Obj → Prop}
  {solver solver' : SolverBase Obj} {addition : Addition Obj}

structure Admits (solver : SolverBase Obj) (src dst : ℕ) (kind : Constraints) : Prop where
  src_lt : src < solver.graph.nodeNum
  dst_lt : dst < solver.graph.nodeNum
  ordinary : kind ≠ .special
  taken : kind = .addrOf → solver.ObjNode src
  offset : kind = .offset → solver.graph.root dst = dst
  accepts : ∀ {kind' a b}, (Addition.constraint src dst kind : Addition Obj).edge = some (kind', a, b) →
    solver.Accepts kind' (solver.graph.root a) (solver.graph.root b)

def Allows (solver : SolverBase Obj) : Addition Obj → Prop
  | .ptrNode => True
  | .objNode object => object ∉ solver.objVec.map Prod.snd
  | .indirectCallNode _ _ => True
  | .constraint src dst kind => solver.Admits src dst kind

structure Added (solver : SolverBase Obj) (addition : Addition Obj) (call : Option (Constraints × ℕ × ℕ))
    (solver' : SolverBase Obj) : Prop extends Expands solver solver' where
  created : solver'.graph.nodeNum + 2 * solver.objVec.length =
    solver.graph.nodeNum + 2 * solver'.objVec.length + addition.pointers
  objects : ∀ entry ∈ solver'.objVec, entry ∈ solver.objVec ∨ addition = .objNode entry.2
  handled : solver'.handledGEPMap = solver.handledGEPMap
  added : ∀ {kind src dst}, solver'.graph.Edge kind src dst → kind ≠ .addrOf → solver.graph.Edge kind src dst ∨
    call = some (kind, src, dst)
  called : ∀ {kind src dst}, call = some (kind, src, dst) → solver'.graph.Edge kind src dst ∧ kind ≠ .special ∧
    src < solver.graph.nodeNum ∧ dst < solver.graph.nodeNum
  linked : ∀ {kind src dst}, addition.edge = some (kind, src, dst) → src < solver.graph.nodeNum ∧
    dst < solver.graph.nodeNum ∧ solver'.Linked kind src dst ∧ (kind = .offset → solver'.graph.root dst = dst)
  pointed : ∀ {id index}, index ∈ solver'.pts id → index ∈ solver.pts id ∨
    ∃ node object, solver'.objVec[index]? = some (node, object) ∧ id = node + 1

section Nodes

structure Relabeled (solver solver' : SolverBase Obj) : Prop where
  nodeNum : solver.graph.nodeNum ≤ solver'.graph.nodeNum
  objVec : solver'.objVec = solver.objVec
  handledGEPMap : solver'.handledGEPMap = solver.handledGEPMap
  sound : solver'.graph.Sound
  superNode : ∀ id, (solver'.graph.node id).superNode = (solver.graph.node id).superNode
  edge : ∀ kind a b, solver'.graph.Edge kind a b ↔ solver.graph.Edge kind a b
  isImmutable : ∀ id, (solver'.graph.node id).isImmutable = (solver.graph.node id).isImmutable
  type : ∀ id < solver.graph.nodeNum, (solver'.graph.node id).type = (solver.graph.node id).type ∧
    (solver'.graph.node id).isAnonymous = (solver.graph.node id).isAnonymous
  pts : ∀ id, solver'.pts id = solver.pts id ∨ (solver.graph.nodeNum ≤ id ∧ solver'.pts id = ∅)

variable (hr : Relabeled solver solver')

include hr

lemma Relabeled.objNode_iff {id : ℕ} : solver'.ObjNode id ↔ solver.ObjNode id := by
  rw [ObjNode, ObjNode, hr.objVec]

lemma Relabeled.anonNode_iff {id : ℕ} : solver'.AnonNode id ↔ solver.AnonNode id := by
  simp only [AnonNode, hr.objNode_iff]

lemma Relabeled.place_eq (id : ℕ) : solver'.place id = solver.place id := by
  rw [place, place, objectAt, objectAt, objectAt, objectAt, hr.objVec]

lemma Relabeled.root_eq (hs : solver.graph.Sound) (id : ℕ) : solver'.graph.root id = solver.graph.root id :=
  root_congr hr.superNode hs hr.sound id

lemma Relabeled.pts_subset (id : ℕ) : solver'.pts id ⊆ solver.pts id := by
  rcases hr.pts id with heq | ⟨-, heq⟩ <;> rw [heq]
  exact Finset.empty_subset _

lemma Relabeled.pts_eq {id : ℕ} (hid : id < solver.graph.nodeNum) : solver'.pts id = solver.pts id :=
  (hr.pts id).resolve_right fun hnew => absurd hid (Nat.not_lt.mpr hnew.1)

lemma Relabeled.leaf (hs : solver.graph.Sound) {id : ℕ} (hl : solver.Leaf id) : solver'.Leaf id where
  apart node hobj := by
    rw [hr.root_eq hs]
    exact hl.apart node (hr.objNode_iff.mp hobj)
  unloaded src he := hl.unloaded src ((hr.edge _ _ _).mp he)
  copied src he := hr.anonNode_iff.mpr (hl.copied src ((hr.edge _ _ _).mp he))

lemma Relabeled.expands : Expands solver solver' where
  nodeNum := hr.nodeNum
  objVec hi := hr.objVec ▸ hi
  superNode := hr.superNode
  pts _ hid := hr.pts_eq hid
  edge he := (hr.edge _ _ _).mpr he
  handledGEPMap id := by rw [hr.handledGEPMap]
  nodes _ hm := .inl (hr.objVec ▸ hm)

lemma Relabeled.built (h : solver.Built model) : solver'.Built model := by
  constructor
  · exact hr.sound
  · rw [hr.objVec]
    exact h.objects
  · rw [hr.objVec]
    exact h.nodes
  · intro node hobj
    obtain ⟨hlt, htype, hanon⟩ := h.objNode (hr.objNode_iff.mp hobj)
    rw [(hr.type node (by omega)).1, (hr.type _ hlt).1, (hr.type _ hlt).2]
    exact ⟨hlt.trans_le hr.nodeNum, htype, hanon⟩
  · intro node object hm
    rw [hr.isImmutable]
    exact h.constant (hr.objVec ▸ hm)
  · intro id hi
    rw [hr.isImmutable] at hi
    exact hr.objNode_iff.mpr (h.immutable hi)
  · intro id hor
    rw [hr.anonNode_iff, hr.isImmutable] at hor
    rw [hr.superNode]
    exact h.kept hor
  · intro id hor
    rw [hr.root_eq h.sound, hr.anonNode_iff, hr.isImmutable] at hor
    rw [hr.root_eq h.sound]
    exact h.alone hor
  · intro src id ha
    simp only [hr.edge]
    exact h.anon (hr.anonNode_iff.mp ha)
  · intro src id he
    exact hr.leaf h.sound (h.offset ((hr.edge _ _ _).mp he))
  · intro kind src id hi he
    rw [hr.isImmutable] at hi
    obtain ⟨hkind, hor⟩ := h.settled hi ((hr.edge _ _ _).mp he)
    exact ⟨hkind, hor.imp hr.anonNode_iff.mpr (hr.leaf h.sound)⟩
  · intro id index hm
    rw [hr.objVec]
    exact h.known (hr.pts_subset id hm)
  · intro index node object hi
    rw [hr.objVec] at hi
    rw [hr.pts_eq (h.objNode ⟨object, List.mem_of_getElem? hi⟩).1]
    exact h.addressed hi
  · intro id index hm
    rw [hr.handledGEPMap] at hm
    obtain ⟨hl, hid, hindex⟩ := h.handled hm
    rw [hr.objVec]
    exact ⟨hr.leaf h.sound hl, hid.trans_le hr.nodeNum, hindex⟩

lemma Relabeled.valid (h : solver.Valid model edges) : solver'.Valid model edges := by
  refine ⟨hr.built h.built, ⟨fun {id index node object} hm hi => ?_, fun {kind src dst} he => ?_, fun id object => ?_⟩,
    h.unknown⟩
  · rw [hr.objVec] at hi
    rw [hr.place_eq]
    exact h.justified.pts (hr.pts_subset id hm) hi
  · rw [hr.place_eq, hr.place_eq]
    exact h.justified.edge ((hr.edge _ _ _).mp he)
  · rw [hr.place_eq, hr.place_eq, hr.root_eq h.built.sound]
    exact h.justified.same id object

end Nodes

lemma Expands.indexed (h : Expands solver solver') (hb : solver.Built model)
    (hhandled : solver'.handledGEPMap = solver.handledGEPMap) (hi : solver.Indexed model) : solver'.Indexed model := by
  intro id index node object field hm hobject hindex
  rw [hhandled] at hm
  obtain ⟨-, hlt, hknown⟩ := hb.handled hm
  exact h.reaches hlt (hi hm (h.objVec_eq hknown hobject) hindex)

lemma relabeled_addNewNode (h : solver.Built model) :
    Relabeled solver { solver with
      graph := solver.graph.addNewNode .ptrNode false
      pts := Function.update solver.pts solver.graph.nodeNum ∅ } := by
  have hextends := extends_addNewNode h.sound .ptrNode false
  have hnode : ∀ id, id ≠ solver.graph.nodeNum →
      (solver.graph.addNewNode .ptrNode false).node id = solver.graph.node id := by
    intro id hid
    simp [addNewNode, hid]
  refine ⟨Nat.le_succ _, rfl, rfl, hextends.sound h.sound, hextends.superNode, hextends.edge, fun id => ?_,
    fun id hid => ?_, fun id => ?_⟩
  · by_cases hid : id = solver.graph.nodeNum
    · subst hid
      have hold : (solver.graph.node solver.graph.nodeNum).isImmutable = false := by
        by_contra hi
        have := (h.objNode (h.immutable (Bool.eq_true_of_not_eq_false hi))).1
        omega
      rw [hold]
      simp [addNewNode]
    · exact congrArg CGNode.isImmutable (hnode id hid)
  · dsimp only
    rw [hnode id hid.ne]
    exact ⟨rfl, rfl⟩
  · by_cases hid : id = solver.graph.nodeNum
    · subst hid
      exact .inr ⟨le_rfl, Function.update_self ..⟩
    · exact .inl (Function.update_of_ne hid ..)

lemma relabeled_indirectCallNode (hs : solver.graph.Sound) (id callNode : ℕ) :
    Relabeled solver { solver with
      graph := solver.graph.modify id fun node =>
          { node with indirectNodes := insert callNode node.indirectNodes } } := by
  obtain ⟨graph, hgraph⟩ : ∃ graph, graph =
    solver.graph.modify id fun node => { node with indirectNodes := insert callNode node.indirectNodes } := ⟨_, rfl⟩
  have hnode : ∀ other, graph.node other = { solver.graph.node other with
      indirectNodes := if other = id then insert callNode (solver.graph.node other).indirectNodes
        else (solver.graph.node other).indirectNodes } := by
    intro other
    by_cases hid : other = id
    · subst hid
      simp [hgraph, ConstraintGraph.modify]
    · simp [hgraph, ConstraintGraph.modify, hid]
  have hnum : graph.nodeNum = solver.graph.nodeNum := by
    rw [hgraph]
    rfl
  have hextends : Extends solver.graph graph := by
    refine ⟨hnum.ge, fun other => ?_, fun kind src dst => ?_, fun kind src dst => ?_, ?_, fun other _ hi => ?_⟩
    · rw [hnode]
    · rw [Edge, Edge, hnode]
    · rw [PredEdge, PredEdge, hnode]
    · simp only [collapsedNum, hnode, hnum]
    · rw [hnode]
      exact hi
  rw [← hgraph]
  refine ⟨hnum.ge, rfl, rfl, hextends.sound hs, hextends.superNode, hextends.edge, fun other => ?_,
    fun other _ => ⟨?_, ?_⟩, fun _ => .inl rfl⟩
  · dsimp only
    rw [hnode]
  · dsimp only
    rw [hnode]
  · dsimp only
    rw [hnode]

lemma Relabeled.added (hr : Relabeled solver solver')
    (hnum : solver'.graph.nodeNum = solver.graph.nodeNum + addition.pointers) (hedge : addition.edge = none) :
    Added solver addition none solver' where
  toExpands := hr.expands
  created := by
    rw [hr.objVec]
    omega
  objects _ hm := .inl (hr.objVec ▸ hm)
  handled := hr.handledGEPMap
  added he _ := .inl ((hr.edge _ _ _).mp he)
  called hcall := by cases hcall
  linked hsome := by
    rw [hedge] at hsome
    cases hsome
  pointed hm := .inl (hr.pts_subset _ hm)

lemma addCGNode_ptrNode (graph : ConstraintGraph) :
    graph.addCGNode .ptrNode false = some (graph.addNewNode .ptrNode false) := by
  simp [addCGNode]

lemma NodeCreated.added {object : Obj} (hn : NodeCreated model solver object solver') :
    Added solver (.objNode object) none solver' where
  toExpands := hn.expands
  created := hn.created
  objects entry hm := by
    rw [hn.objVec, List.mem_append, List.mem_singleton] at hm
    rcases hm with hm | rfl
    · exact .inl hm
    · exact .inr rfl
  handled := hn.handledGEPMap
  added he hkind := .inl (((hn.edge _ _ _).mp he).resolve_right fun hnew => hkind hnew.1)
  called hcall := by cases hcall
  linked hsome := by cases hsome
  pointed := by
    intro id index hm
    by_cases hid : id = solver.graph.nodeNum + 1
    · rw [hn.pts, hid, Function.update_self, Finset.mem_singleton] at hm
      exact .inr ⟨solver.graph.nodeNum, object, by simp [hn.objVec, hm], hid⟩
    · by_cases hid' : id = solver.graph.nodeNum
      · rw [hn.pts, hid', Function.update_of_ne (by omega), Function.update_self] at hm
        cases hm
      · rw [hn.pts_eq hid' hid] at hm
        exact .inl hm

lemma addEdge_admitted {src dst a b : ℕ} {kind kind' : Constraints} (h : solver.Built model)
    (ha : solver.Admits src dst kind)
    (hedge : (Addition.constraint src dst kind : Addition Obj).edge = some (kind', a, b)) :
    ∃ call graph, solver.addEdge src dst kind = some (call, { solver with graph }) ∧
      solver.EdgeAdded kind' (solver.graph.root a) (solver.graph.root b) graph ∧
      (∀ edge, call = some edge → edge = (kind', solver.graph.root a, solver.graph.root b) ∧
        graph.Edge kind' (solver.graph.root a) (solver.graph.root b)) ∧
      (call = none → solver.graph.Edge kind' (solver.graph.root a) (solver.graph.root b) ∨
        (kind' = .copy ∧ solver.graph.root a = solver.graph.root b)) := by
  have haccepts := ha.accepts hedge
  have hmutable : (solver.graph.node dst).isImmutable = false := by
    by_contra hi
    have hi := Bool.eq_true_of_not_eq_false hi
    have hunsettled := haccepts.unsettled
    have hb : b = dst := by
      rw [Addition.edge] at hedge
      split at hedge <;> cases hedge <;> rfl
    rw [hb, root_eq (h.kept (.inr hi)), hi] at hunsettled
    cases hunsettled
  suffices hadd : ∃ added graph, solver.graph.addConstraints src dst kind = some (added, graph) ∧
      solver.EdgeAdded kind' (solver.graph.root a) (solver.graph.root b) graph ∧
      (added = true ↔ ¬solver.graph.Edge kind' (solver.graph.root a) (solver.graph.root b) ∧
        graph.Edge kind' (solver.graph.root a) (solver.graph.root b)) ∧
      edgeSource graph src kind = some (solver.graph.root a) ∧
      graph.getSuperNode dst = some (solver.graph.root b) ∧ (if kind = .addrOf then .copy else kind) = kind' by
    obtain ⟨added, graph, heq, hc, hadded, hsource, htarget, hkind⟩ := hadd
    cases added with
    | true =>
      refine ⟨_, graph, by simp [addEdge, heq, hsource, htarget, hkind]; rfl, hc, fun edge hsome => ?_, fun hnone => ?_⟩
      · cases hsome
        exact ⟨rfl, (hadded.mp rfl).2⟩
      · cases hnone
    | false =>
      refine ⟨none, graph, by simp [addEdge, heq], hc, fun edge hsome => (by cases hsome), fun _ => ?_⟩
      by_contra hnot
      rw [not_or] at hnot
      exact Bool.false_ne_true (hadded.mpr ⟨hnot.1, (hc.edge _ _ _).mpr (.inr ⟨rfl, rfl, rfl, hnot.2⟩)⟩)
  by_cases hkind : kind = .addrOf
  · subst hkind
    have hobj := ha.taken rfl
    cases hedge
    obtain ⟨added, graph, heq, hc, hadded⟩ := addAddress_spec h hobj ha.dst_lt hmutable
    have hroot : solver.graph.root (src + 1) = src + 1 := root_eq (h.kept (.inl ⟨src, hobj, rfl⟩))
    rw [hroot]
    refine ⟨added, graph, heq, hc, hadded, rfl, ?_, rfl⟩
    rw [hc.sound.getSuperNode_eq, hc.root_eq h.sound]
  · rw [Addition.edge, if_neg hkind] at hedge
    cases hedge
    obtain ⟨added, graph, heq, hc, hadded⟩ := addEdge_spec h.sound hkind ha.src_lt ha.dst_lt hmutable
    refine ⟨added, graph, heq, hc, hadded, ?_, ?_, if_neg hkind⟩
    · rw [edgeSource, if_neg hkind, hc.sound.getSuperNode_eq, hc.root_eq h.sound]
    · rw [hc.sound.getSuperNode_eq, hc.root_eq h.sound]

lemma Justified.respects_root {holds : Place Obj → Obj → Prop} {special : Prop}
    (hj : solver.Justified model holds special)
    {kind : Constraints} {a b : ℕ} (hoffset : kind = .offset → solver.graph.root b = b)
    (h : model.Respects holds special kind (solver.place a) (solver.place b)) :
    model.Respects holds special kind (solver.place (solver.graph.root a)) (solver.place (solver.graph.root b)) := by
  have hsame := hj.same
  cases kind with
  | copy =>
    intro o ho
    rw [← hsame] at ho ⊢
    exact h o ho
  | load =>
    intro o o' ho ho'
    rw [← hsame] at ho ⊢
    exact h o o' ho ho'
  | store =>
    intro o o' ho hmutable ho'
    rw [← hsame] at ho ho'
    exact h o o' ho hmutable ho'
  | offset =>
    intro o o' id hp ho hindex
    rw [hoffset rfl] at hp ⊢
    rw [← hsame] at ho
    exact h o o' id hp ho hindex
  | addrOf => exact trivial
  | special => exact h

lemma Allows.ordinary (ha : solver.Allows addition) {kind : Constraints} {src dst : ℕ}
    (hedge : addition.edge = some (kind, src, dst)) : kind ≠ .special := by
  cases addition with
  | ptrNode => cases hedge
  | objNode object => cases hedge
  | indirectCallNode id callNode => cases hedge
  | constraint a b kind' =>
    rw [Addition.edge] at hedge
    split at hedge <;> cases hedge
    · simp
    · exact Admits.ordinary ha

lemma addConstraint_spec {src dst : ℕ} {kind : Constraints} (h : solver.Valid model edges)
    (ha : solver.Admits src dst kind)
    (hedges : ∀ {kind' a b}, (Addition.constraint src dst kind : Addition Obj).edge = some (kind', a, b) →
      edges kind' (solver.place a) (solver.place b)) :
    ∃ call solver', solver.addEdge src dst kind = some (call, solver') ∧
      Added solver (.constraint src dst kind) call solver' ∧ solver'.Valid model edges := by
  obtain ⟨⟨kind', a, b⟩, hedge⟩ : ∃ edge, (Addition.constraint src dst kind : Addition Obj).edge = some edge := ⟨_, rfl⟩
  have hs := h.built.sound
  have hoffset : kind' = .offset → b = dst ∧ kind = .offset := by
    rintro rfl
    rw [Addition.edge] at hedge
    split at hedge <;> cases hedge
    exact ⟨rfl, rfl⟩
  have hallows : solver.Allows (.constraint src dst kind) := ha
  have hspecial : kind' ≠ .special := hallows.ordinary hedge
  have hlt : a < solver.graph.nodeNum ∧ b < solver.graph.nodeNum := by
    rw [Addition.edge] at hedge
    split at hedge
    · next hkind =>
      cases hedge
      exact ⟨(h.built.objNode (ha.taken hkind)).1, ha.dst_lt⟩
    · cases hedge
      exact ⟨ha.src_lt, ha.dst_lt⟩
  have hroot : kind' = .offset → solver.graph.root b = b := by
    intro hkind
    obtain ⟨rfl, hkind⟩ := hoffset hkind
    exact ha.offset hkind
  obtain ⟨call, graph, heq, hc, hcall, hnone⟩ := addEdge_admitted h.built ha hedge
  refine ⟨call, _, heq, ⟨hc.expands, congrArg (· + _) hc.same.nodeNum, fun _ hm => .inl hm, rfl, ?_, ?_, ?_, .inl⟩,
    hc.built h.built (ha.accepts hedge), hc.justified hs h.justified ?_, h.unknown⟩
  · intro kind'' c d he _
    rcases (hc.edge _ _ _).mp he with hold | ⟨rfl, rfl, rfl, hself⟩
    · exact .inl hold
    · cases call with
      | none => exact .inl ((hnone rfl).resolve_right hself)
      | some edge => exact .inr (congrArg some (hcall edge rfl).1)
  · intro kind'' c d hsome
    obtain ⟨heq', he⟩ := hcall _ hsome
    cases heq'
    exact ⟨he, hspecial, hs.root_lt hlt.1, hs.root_lt hlt.2⟩
  · intro kind'' c d hsome
    rw [hedge] at hsome
    cases hsome
    refine ⟨hlt.1, hlt.2, ?_, fun hkind => ?_⟩
    · rw [Linked, hc.root_eq hs, hc.root_eq hs]
      by_cases hself : kind' = .copy ∧ solver.graph.root a = solver.graph.root b
      · exact .inr hself
      · exact .inl ((hc.edge _ _ _).mpr (.inr ⟨rfl, rfl, rfl, hself⟩))
    · rw [hc.root_eq hs]
      exact hroot hkind
  · exact h.justified.respects_root hroot (FieldModel.respects_edge (hedges hedge))

lemma add_spec [DecidableEq Obj] (h : solver.Valid model edges) (ha : solver.Allows addition)
    (hedges : ∀ {kind src dst}, addition.edge = some (kind, src, dst) →
      edges kind (solver.place src) (solver.place dst)) :
    ∃ call solver', solver.add model addition = some (call, solver') ∧ Added solver addition call solver' ∧
      solver'.Valid model edges := by
  cases addition with
  | ptrNode =>
    have hr := relabeled_addNewNode h.built
    exact ⟨none, _, by rw [add, addCGNode_ptrNode]; rfl, hr.added rfl rfl, hr.valid h⟩
  | objNode object =>
    obtain ⟨solver', heq, hn, hvalid⟩ := h.createNode ha
    exact ⟨none, solver', by rw [add, heq]; rfl, hn.added, hvalid⟩
  | indirectCallNode id callNode =>
    have hr := relabeled_indirectCallNode h.built.sound id callNode
    exact ⟨none, _, rfl, hr.added rfl rfl, hr.valid h⟩
  | constraint src dst kind => exact addConstraint_spec h ha hedges

lemma Allows.unknown (ha : solver.Allows addition) (hb : solver.Built model) {kind : Constraints} {src dst : ℕ} {o : Obj}
    (hedge : addition.edge = some (kind, src, dst)) (hplace : solver.place dst = .address o) :
    kind ≠ .copy ∧ kind ≠ .load := by
  cases addition with
  | ptrNode => cases hedge
  | objNode object => cases hedge
  | indirectCallNode id callNode => cases hedge
  | constraint a b kind' =>
    have haccepts := Admits.accepts ha hedge
    have hanon := hb.anonNode_of_place hplace
    rw [root_eq (hb.kept (.inl hanon))] at haccepts
    exact ⟨(haccepts.unknown hanon).1, (haccepts.unknown hanon).2.1⟩

lemma Fresh.add [DecidableEq Obj] (h : solver.Fresh model) (ha : solver.Allows addition) :
    ∃ call solver', solver.add model addition = some (call, solver') ∧ Added solver addition call solver' ∧
      solver'.Fresh model := by
  have hvalid : solver.Valid model (fun kind _ q => ∀ o, q = .address o → kind ≠ .copy ∧ kind ≠ .load) :=
    h.valid (fun he o hq => h.unknown (hq ▸ he)) fun kind p o he => he o rfl
  obtain ⟨call, solver', heq, hadded, hvalid'⟩ := add_spec hvalid ha fun hedge o hplace =>
    ha.unknown h.built hedge hplace
  refine ⟨call, solver', heq, hadded, hvalid'.built, fun id => ?_, fun {id index} hm => ?_, fun id => ?_⟩
  · rw [hadded.superNode]
    exact h.roots id
  · rcases hadded.pointed hm with hold | hnew
    · obtain ⟨node, object, hi, hid⟩ := h.pointed hold
      exact ⟨node, object, hadded.objVec hi, hid⟩
    · exact hnew
  · rw [hadded.handled]
    exact h.unhandled id

def empty : SolverBase Obj where
  graph := .empty
  objVec := []
  pts _ := ∅

lemma fresh_empty : (empty : SolverBase Obj).Fresh model := by
  have hnone : ∀ node, ¬(empty : SolverBase Obj).ObjNode node := fun node ⟨object, hm⟩ => absurd hm List.not_mem_nil
  have hanon : ∀ id, ¬(empty : SolverBase Obj).AnonNode id := fun id ⟨node, hobj, _⟩ => hnone node hobj
  have hedge : ∀ kind src dst, ¬(empty : SolverBase Obj).graph.Edge kind src dst :=
    fun kind src dst he => absurd he (Finset.notMem_empty _)
  have hpts : ∀ {id index : ℕ}, index ∉ (empty : SolverBase Obj).pts id := Finset.notMem_empty _
  refine ⟨⟨Reached.empty.logged.1, List.nodup_nil, List.nodup_nil, fun hobj => absurd hobj (hnone _), fun hm => ?_,
    fun hi => ?_, fun _ => rfl, fun _ => rfl, fun ha => absurd ha (hanon _), fun he => absurd he (hedge _ _ _),
    fun _ he => absurd he (hedge _ _ _), fun hm => absurd hm hpts, fun hi => ?_, fun hm => ?_⟩,
    fun _ => rfl, fun hm => absurd hm hpts, fun _ => rfl⟩
  · exact absurd hm List.not_mem_nil
  · cases hi
  · cases hi
  · exact absurd hm (Finset.notMem_empty _)

lemma Built.admits {src dst : ℕ} {kind : Constraints} (h : solver.Built model) (hsrc : src < solver.graph.nodeNum)
    (hdst : dst < solver.graph.nodeNum) (hroot : (solver.graph.node dst).superNode = none) (hkind : kind ≠ .special)
    (htaken : kind = .addrOf → solver.ObjNode src) (hobj : ¬solver.ObjNode dst) (hanon : ¬solver.AnonNode dst)
    (hloose : ¬solver.Pinned dst) (hleaf : kind = .offset → solver.Leaf dst) : solver.Admits src dst kind := by
  have hself : solver.graph.root dst = dst := root_eq hroot
  refine ⟨hsrc, hdst, hkind, htaken, fun _ => hself, fun {kind' a b} hedge => ?_⟩
  obtain ⟨ha, rfl, hoffset⟩ : a < solver.graph.nodeNum ∧ dst = b ∧ (kind' = .offset → kind = .offset) := by
    rw [Addition.edge] at hedge
    split at hedge
    · next haddr =>
      cases hedge
      exact ⟨(h.objNode (htaken haddr)).1, rfl, fun hcopy => by cases hcopy⟩
    · cases hedge
      exact ⟨hsrc, rfl, id⟩
  rw [hself]
  refine ⟨h.sound.root_lt ha, hdst, h.sound.superNode_root a, hroot, ?_, fun ha => absurd ha hanon,
    fun hp => absurd hp hloose, fun hk => hleaf (hoffset hk)⟩
  by_contra hi
  exact hobj (h.immutable (Bool.eq_true_of_not_eq_false hi))

lemma not_pinned {id : ℕ} (h : ∀ kind, (solver.graph.node id).succCons kind = ∅ ∧
    (solver.graph.node id).predCons kind = ∅) (hs : solver.graph.Sound) (hhandled : solver.handledGEPMap id = ∅) :
    ¬solver.Pinned id := by
  rintro (⟨src, he⟩ | ⟨object, hm⟩ | ⟨kind, dst, -, he, -⟩)
  · have hpred := (hs.mirrored _ _ _).mp he
    rw [PredEdge, (h _).2] at hpred
    cases hpred
  · rw [hhandled] at hm
    cases hm
  · rw [Edge, (h _).1] at he
    cases he

lemma Fresh.added [DecidableEq Obj] (h : solver.Fresh model) (addition : Addition Obj) (ha : solver.Allows addition) :
    (((solver.add model addition).map Prod.snd).getD empty).Fresh model := by
  obtain ⟨call, solver', heq, -, hfresh⟩ := h.add ha
  rw [heq]
  exact hfresh

-- A function, and a pointer to it that is called.
namespace FunctionPointer

def fields : FieldModel Unit where
  index _ _ := none
  constant _ := false

def pointer : SolverBase Unit := ((empty.add fields .ptrNode).map Prod.snd).getD empty

def allocated : SolverBase Unit := ((pointer.add fields (.objNode ())).map Prod.snd).getD empty

def taken : SolverBase Unit := ((allocated.add fields (.constraint 1 0 .addrOf)).map Prod.snd).getD empty

def called : SolverBase Unit := ((taken.add fields (.indirectCallNode 0 0)).map Prod.snd).getD empty

lemma fresh_called : called.Fresh fields := by
  have hpointer : pointer.Fresh fields := fresh_empty.added .ptrNode trivial
  have hallocated : allocated.Fresh fields := hpointer.added (.objNode ()) List.not_mem_nil
  refine (hallocated.added (.constraint 1 0 .addrOf) ?_).added (.indirectCallNode 0 0) trivial
  have hobj : ∀ id, allocated.ObjNode id ↔ id = 1 := by
    intro id
    simp [ObjNode, show allocated.objVec = [(1, ())] from rfl]
  refine hallocated.built.admits (by decide) (by decide) rfl (by simp) (fun _ => (hobj 1).mpr rfl) ?_ ?_ ?_ (by simp)
  · rw [hobj]
    simp
  · rintro ⟨node, hnode, hid⟩
    rw [hobj] at hnode
    omega
  · refine not_pinned (fun kind => ?_) hallocated.built.sound rfl
    cases kind <;> exact ⟨rfl, rfl⟩

lemma not_special_called (src dst : ℕ) : ¬called.graph.Edge .special src dst := by
  intro he
  have hsrc : src < 3 := (fresh_called.built.sound.ends he).1
  rw [Edge, (by decide : ∀ src < 3, (called.graph.node src).succCons .special = ∅) src hsrc] at he
  exact absurd he (Finset.notMem_empty _)

end FunctionPointer

end SolverBase

end OpenRace
