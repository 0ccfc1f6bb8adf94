import OpenRace.PointerAnalysis.Solver.ConstraintSteps

/-! The edges that load, store and offset constraints add to the constraint graph. -/

namespace OpenRace

open ConstraintGraph

namespace SolverBase

variable {Obj : Type} {model : FieldModel Obj} {edges : Constraints → Place Obj → Place Obj → Prop}
  {solver solver' solver'' : SolverBase Obj}

/-- What holds in every state of a run: no edge and no object is there without need, and nothing but the address taken
is demanded of the anonymous nodes. -/
structure Valid (model : FieldModel Obj) (edges : Constraints → Place Obj → Place Obj → Prop)
    (solver : SolverBase Obj) : Prop where
  built : solver.Built model
  justified : solver.Justified model (model.system edges).Holds (∃ p q, edges .special p q)
  unknown : ∀ ⦃kind p o⦄, edges kind p (.address o) → kind ≠ .copy ∧ kind ≠ .load

lemma Valid.not_special (h : solver.Valid model edges) (hspecial : ∀ p q, ¬edges .special p q) (src dst : ℕ) :
    ¬solver.graph.Edge .special src dst := by
  intro he
  obtain ⟨p, q, hpq⟩ := h.justified.edge he
  exact hspecial p q hpq

structure Expands (solver solver' : SolverBase Obj) : Prop where
  nodeNum : solver.graph.nodeNum ≤ solver'.graph.nodeNum
  objVec : ∀ {index : ℕ} {entry : ℕ × Obj}, solver.objVec[index]? = some entry → solver'.objVec[index]? = some entry
  superNode : ∀ id, (solver'.graph.node id).superNode = (solver.graph.node id).superNode
  pts : ∀ id < solver.graph.nodeNum, solver'.pts id = solver.pts id
  edge : ∀ {kind src dst}, solver.graph.Edge kind src dst → solver'.graph.Edge kind src dst
  handledGEPMap : ∀ id, solver.handledGEPMap id ⊆ solver'.handledGEPMap id
  nodes : ∀ entry ∈ solver'.objVec, entry ∈ solver.objVec ∨ solver.graph.nodeNum ≤ entry.1

structure Later (model : FieldModel Obj) (solver solver' : SolverBase Obj) : Prop extends Expands solver solver' where
  same : ∀ {kind src dst}, solver'.graph.Edge kind src dst → kind ≠ .addrOf → kind ≠ .copy →
    solver.graph.Edge kind src dst
  updatedFunPtrs : solver'.updatedFunPtrs = solver.updatedFunPtrs
  created : solver'.graph.nodeNum + 2 * solver.objVec.length = solver.graph.nodeNum + 2 * solver'.objVec.length
  within : ∀ {objects : Set Obj}, model.Indexes objects → (∀ entry ∈ solver.objVec, entry.2 ∈ objects) →
    ∀ entry ∈ solver'.objVec, entry.2 ∈ objects

/-- Each edge called back is new, or not closed yet. -/
structure Grows (model : FieldModel Obj) (solver solver' : SolverBase Obj) (called : List (ℕ × ℕ)) : Prop
    extends Later model solver solver' where
  added : ∀ {src dst}, solver'.graph.Edge .copy src dst → solver.graph.Edge .copy src dst ∨ (src, dst) ∈ called
  called : ∀ {src dst}, (src, dst) ∈ called → solver'.graph.Edge .copy src dst ∧ dst < solver.graph.nodeNum ∧
    (solver.graph.Edge .copy src dst → ¬solver.pts src ⊆ solver.pts dst)

lemma Later.refl (solver : SolverBase Obj) : Later model solver solver where
  nodeNum := le_rfl
  objVec hi := hi
  superNode _ := rfl
  pts _ _ := rfl
  edge he := he
  same he _ _ := he
  handledGEPMap _ := subset_rfl
  updatedFunPtrs := rfl
  created := rfl
  within _ hin := hin
  nodes _ hm := .inl hm

lemma Later.trans (h : Later model solver solver') (h' : Later model solver' solver'') :
    Later model solver solver'' where
  nodeNum := h.nodeNum.trans h'.nodeNum
  objVec hi := h'.objVec (h.objVec hi)
  superNode id := (h'.superNode id).trans (h.superNode id)
  pts id hid := (h'.pts id (hid.trans_le h.nodeNum)).trans (h.pts id hid)
  edge he := h'.edge (h.edge he)
  same he haddr hcopy := h.same (h'.same he haddr hcopy) haddr hcopy
  handledGEPMap id := (h.handledGEPMap id).trans (h'.handledGEPMap id)
  updatedFunPtrs := h'.updatedFunPtrs.trans h.updatedFunPtrs
  created := by
    have := h.created
    have := h'.created
    omega
  within hclosed hin := h'.within hclosed (h.within hclosed hin)
  nodes entry hm := by
    rcases h'.nodes entry hm with hmiddle | hnew
    · exact h.nodes entry hmiddle
    · exact .inr (h.nodeNum.trans hnew)

lemma Grows.refl (solver : SolverBase Obj) : Grows model solver solver [] where
  toLater := .refl solver
  added := .inl
  called hm := absurd hm List.not_mem_nil

lemma Grows.trans {called called' : List (ℕ × ℕ)} (hs : solver.graph.Sound) (h : Grows model solver solver' called)
    (hdst : ∀ {src dst}, (src, dst) ∈ called' → dst < solver.graph.nodeNum) (h' : Grows model solver' solver'' called') :
    Grows model solver solver'' (called ++ called') where
  toLater := h.toLater.trans h'.toLater
  added he := by
    rcases h'.added he with hold | hm
    · exact (h.added hold).imp_right (List.mem_append_left _)
    · exact .inr (List.mem_append_right _ hm)
  called := by
    intro src dst hm
    rcases List.mem_append.mp hm with hm | hm
    · obtain ⟨he, hlt, hnew⟩ := h.called hm
      exact ⟨h'.edge he, hlt, hnew⟩
    · obtain ⟨he, hlt, hnew⟩ := h'.called hm
      refine ⟨he, hdst hm, fun hold => ?_⟩
      obtain ⟨hsrc, hlt', -⟩ := hs.ends hold
      rw [← h.pts src hsrc, ← h.pts dst hlt']
      exact hnew (h.edge hold)

lemma Expands.root_eq (h : Expands solver solver') (hs : solver.graph.Sound)
    (hs' : solver'.graph.Sound) (id : ℕ) : solver'.graph.root id = solver.graph.root id :=
  root_congr h.superNode hs hs' id

lemma Expands.linked (h : Expands solver solver') (hs : solver.graph.Sound)
    (hs' : solver'.graph.Sound) {kind : Constraints} {src dst : ℕ} (hl : solver.Linked kind src dst) :
    solver'.Linked kind src dst := by
  rw [Linked, h.root_eq hs hs', h.root_eq hs hs']
  exact hl.imp_left h.edge

lemma Expands.objVec_eq (h : Expands solver solver') {index : ℕ} {entry : ℕ × Obj}
    (hlt : index < solver.objVec.length) (hi : solver'.objVec[index]? = some entry) :
    solver.objVec[index]? = some entry := by
  have hold := List.getElem?_eq_getElem hlt
  rw [h.objVec hold] at hi
  rw [hold, hi]

lemma Expands.known (h : Expands solver solver') {object : Obj}
    (hm : object ∈ solver.objVec.map Prod.snd) : object ∈ solver'.objVec.map Prod.snd := by
  obtain ⟨entry, hentry, rfl⟩ := List.mem_map.mp hm
  obtain ⟨index, hindex⟩ := List.mem_iff_getElem?.mp hentry
  exact List.mem_map_of_mem (List.mem_of_getElem? (h.objVec hindex))

lemma Expands.place_eq (h : Expands solver solver') (hb : solver.Built model) (hb' : solver'.Built model) {id : ℕ}
    (hid : id < solver.graph.nodeNum) : solver'.place id = solver.place id := by
  have hmem : ∀ {entry}, entry ∈ solver.objVec → entry ∈ solver'.objVec := by
    intro entry hm
    obtain ⟨index, hindex⟩ := List.mem_iff_getElem?.mp hm
    exact List.mem_of_getElem? (h.objVec hindex)
  rcases hb.place_cases id with ⟨object, hm, hp⟩ | ⟨node, object, hm, rfl, hp⟩ | ⟨hobj, ha, hp⟩
  · rw [hp, hb'.place_node (hmem hm)]
  · rw [hp, hb'.place_anon (hmem hm)]
  · rw [hp, place_pointer]
    · rintro ⟨object, hm⟩
      rcases h.nodes _ hm with hold | hnew
      · exact hobj ⟨object, hold⟩
      · exact absurd hid (Nat.not_lt.mpr hnew)
    · rintro ⟨node, ⟨object, hm⟩, rfl⟩
      rcases h.nodes _ hm with hold | hnew
      · exact ha ⟨node, ⟨object, hold⟩, rfl⟩
      · exact absurd ((Nat.lt_succ_self node).trans hid) (Nat.not_lt.mpr hnew)

lemma Expands.carries (h : Expands solver solver') (hb : solver.Built model) (hb' : solver'.Built model)
    (hcarries : solver.Carries edges) : solver'.Carries edges := by
  intro kind p q he
  obtain ⟨src, dst, hsrc, hdst, hp, hq, hl, hoffset⟩ := hcarries he
  refine ⟨src, dst, hsrc.trans_le h.nodeNum, hdst.trans_le h.nodeNum, (h.place_eq hb hb' hsrc).trans hp,
    (h.place_eq hb hb' hdst).trans hq, h.linked hb.sound hb'.sound hl, fun hkind => ?_⟩
  rw [h.root_eq hb.sound hb'.sound]
  exact hoffset hkind

lemma Expands.store_lt (h : Expands solver solver') (hb : solver.Built model) (hs' : solver'.graph.Sound)
    {id index node : ℕ} {object : Obj} (hid : id < solver.graph.nodeNum) (hm : index ∈ solver'.pts id)
    (hi : solver'.objVec[index]? = some (node, object)) : solver'.graph.root node < solver.graph.nodeNum := by
  rw [h.pts id hid] at hm
  have hobj := hb.objNode ⟨object, List.mem_of_getElem? (h.objVec_eq (hb.known hm) hi)⟩
  rw [h.root_eq hb.sound hs']
  exact hb.sound.root_lt (by omega)

section Done

variable (h : Expands solver solver') (hb : solver.Built model) (hs' : solver'.graph.Sound)

include h hb hs'

lemma Expands.loaded {id dst : ℕ} (hid : id < solver.graph.nodeNum) (hl : solver.Loaded id dst) :
    solver'.Loaded id dst := by
  intro index node object hm hi
  rw [h.pts id hid] at hm
  exact h.linked hb.sound hs' (hl hm (h.objVec_eq (hb.known hm) hi))

lemma Expands.stored {src id : ℕ} (hid : id < solver.graph.nodeNum) (hl : solver.Stored model src id) :
    solver'.Stored model src id := by
  intro index node object hm hi hmutable
  rw [h.pts id hid] at hm
  exact h.linked hb.sound hs' (hl hm (h.objVec_eq (hb.known hm) hi) hmutable)

end Done

lemma Later.done (h : Later model solver solver') (hb : solver.Built model) (hs' : solver'.graph.Sound) {id : ℕ}
    (hd : solver.Done model id) : solver'.Done model id where
  load he := by
    have hold := h.same he (by simp) (by simp)
    exact h.loaded hb hs' (hb.sound.ends hold).1 (hd.load hold)
  store he := by
    have hold := h.same he (by simp) (by simp)
    exact h.stored hb hs' (hb.sound.ends hold).2.1 (hd.store hold)
  offset he := by
    have hold := h.same he (by simp) (by simp)
    rw [h.pts id (hb.sound.ends hold).1]
    exact (hd.offset hold).trans (h.handledGEPMap _)

lemma Valid.holds_address (h : solver.Valid model edges) {object o : Obj}
    (ho : (model.system edges).Holds (.address object) o) : o = object := by
  generalize hp : (.address object : Place Obj) = p at ho
  induction ho with
  | address ha =>
    subst hp
    exact (Place.address.inj ha).symm
  | copy he =>
    subst hp
    exact absurd rfl (h.unknown he).1
  | load he =>
    subst hp
    exact absurd rfl (h.unknown he).2
  | store => cases hp
  | offset _ _ hindex =>
    subst hp
    cases hindex

section Objects

variable {graph : ConstraintGraph} {src dst : ℕ}

lemma Valid.addCopy (h : solver.Valid model edges) (ha : solver.Accepts .copy src dst)
    (hflow : ∀ o, (model.system edges).Holds (solver.place src) o → (model.system edges).Holds (solver.place dst) o)
    (hc : solver.EdgeAdded .copy src dst graph) : { solver with graph }.Valid model edges where
  built := hc.built h.built ha
  justified := hc.justified h.built.sound h.justified hflow
  unknown := h.unknown

lemma EdgeAdded.expands {kind : Constraints} (hc : solver.EdgeAdded kind src dst graph) :
    Expands solver { solver with graph } where
  nodeNum := hc.same.nodeNum.ge
  objVec hi := hi
  superNode := hc.same.superNode
  pts _ _ := rfl
  edge he := (hc.edge _ _ _).mpr (.inl he)
  handledGEPMap _ := subset_rfl
  nodes _ hm := .inl hm

lemma EdgeAdded.later (hc : solver.EdgeAdded .copy src dst graph) : Later model solver { solver with graph } where
  toExpands := hc.expands
  same he _ hcopy := ((hc.edge _ _ _).mp he).resolve_right fun hnew => hcopy hnew.1
  updatedFunPtrs := rfl
  created := congrArg (· + _) hc.same.nodeNum
  within _ hin := hin

lemma EdgeAdded.grows (hc : solver.EdgeAdded .copy src dst graph) (ha : solver.Accepts .copy src dst) (hne : src ≠ dst)
    (hnew : solver.graph.Edge .copy src dst → ¬solver.pts src ⊆ solver.pts dst) :
    Grows model solver { solver with graph } [(src, dst)] where
  toLater := hc.later
  added he := ((hc.edge _ _ _).mp he).imp_right fun hnew =>
    List.mem_singleton.mpr (Prod.ext hnew.2.1 hnew.2.2.1)
  called hm := by
    obtain ⟨rfl, rfl⟩ := Prod.mk.inj (List.mem_singleton.mp hm)
    exact ⟨(hc.edge _ _ _).mpr (.inr ⟨rfl, rfl, rfl, fun hself => hne hself.2⟩), ha.dst_lt, hnew⟩

lemma EdgeAdded.grows_nil (hc : solver.EdgeAdded .copy src dst graph)
    (hold : src ≠ dst → solver.graph.Edge .copy src dst) :
    Grows model solver { solver with graph } [] where
  toLater := hc.later
  added he := by
    rcases (hc.edge _ _ _).mp he with he | ⟨-, rfl, rfl, hne⟩
    · exact .inl he
    · exact .inl (hold fun hself => hne ⟨rfl, hself⟩)
  called hm := absurd hm List.not_mem_nil

def Ready (model : FieldModel Obj) (edges : Constraints → Place Obj → Place Obj → Prop) (solver : SolverBase Obj)
    (edge : ℕ × ℕ) : Prop :=
  (solver.Accepts .copy edge.1 edge.2 ∧ ∀ o, (model.system edges).Holds (solver.place edge.1) o →
    (model.system edges).Holds (solver.place edge.2) o) ∨ (solver.graph.node edge.2).isImmutable = true

lemma addCopy_ready (h : solver.Valid model edges) {edge : ℕ × ℕ} (hr : solver.Ready model edges edge) :
    ∃ added graph, solver.graph.addConstraints edge.1 edge.2 .copy = some (added, graph) ∧
      SameNodes solver.graph graph ∧ { solver with graph }.Valid model edges ∧
      Grows model solver { solver with graph } (if added then [edge] else []) ∧
      (∀ edge', solver.Ready model edges edge' → { solver with graph }.Ready model edges edge') ∧
      ((solver.graph.node edge.2).isImmutable = false → edge.1 = edge.2 ∨ graph.Edge .copy edge.1 edge.2) := by
  rcases hr with ⟨ha, hflow⟩ | himmutable
  · obtain ⟨added, graph, heq, hc, hadded⟩ := addCopy_spec h.built.sound ha
    refine ⟨added, graph, heq, hc.same, h.addCopy ha hflow hc, ?_, fun edge' hr => ?_, fun _ => ?_⟩
    · by_cases htrue : added = true
      · obtain ⟨hold, hnew⟩ := hadded.mp htrue
        rw [if_pos htrue]
        refine hc.grows ha (fun hself => ?_) fun he => absurd he hold
        rw [hself] at hnew
        exact hc.sound.plain _ hnew
      · rw [if_neg htrue]
        refine hc.grows_nil fun hne => ?_
        by_contra hold
        exact htrue (hadded.mpr ⟨hold, (hc.edge _ _ _).mpr (.inr ⟨rfl, rfl, rfl, fun hself => hne hself.2⟩)⟩)
    · exact hr.imp (And.imp_left (hc.accepts ha.unsettled)) (hc.same.isImmutable _).trans
    · by_cases hself : edge.1 = edge.2
      · exact .inl hself
      · exact .inr ((hc.edge _ _ _).mpr (.inr ⟨rfl, rfl, rfl, fun hboth => hself hboth.2⟩))
  · refine ⟨false, solver.graph, ?_, .refl _, h, .refl solver, fun _ hr => hr, fun hmutable => ?_⟩
    · by_cases hself : edge.1 = edge.2
      · rw [addConstraints, if_pos ⟨hself, rfl⟩]
      · rw [addConstraints, if_neg fun hboth => hself hboth.1, if_neg (by simp), insertConstraint,
          if_pos ⟨by simp, himmutable⟩]
    · rw [hmutable] at himmutable
      cases himmutable

lemma foldlM_copyEdge (edge : ℕ → ℕ × ℕ) (ids : List ℕ) : ∀ {solver : SolverBase Obj} (before : List (ℕ × ℕ)),
    solver.Valid model edges →
    (∀ index ∈ ids, ∃ node object, solver.objVec[index]? = some (node, object) ∧
      solver.Ready model edges (edge (solver.graph.root node))) →
    ∃ called graph, ids.foldlM (copyEdge solver.objVec edge) (before, solver.graph) = some (before ++ called, graph) ∧
      SameNodes solver.graph graph ∧ { solver with graph }.Valid model edges ∧
      Grows model solver { solver with graph } called ∧
      (∀ call ∈ called, ∃ index ∈ ids, ∃ node object, solver.objVec[index]? = some (node, object) ∧
        call = edge (solver.graph.root node)) ∧
      ∀ index ∈ ids, ∀ node object, solver.objVec[index]? = some (node, object) →
        (solver.graph.node (edge (solver.graph.root node)).2).isImmutable = false →
        (edge (solver.graph.root node)).1 = (edge (solver.graph.root node)).2 ∨
          graph.Edge .copy (edge (solver.graph.root node)).1 (edge (solver.graph.root node)).2 := by
  induction ids with
  | nil =>
    intro solver before h _
    exact ⟨[], solver.graph, by simp, .refl _, h, .refl solver, by simp, fun index hm => absurd hm List.not_mem_nil⟩
  | cons id rest ih =>
    intro solver before h hready
    obtain ⟨node, object, hi, hr⟩ := hready id List.mem_cons_self
    obtain ⟨added, graph, heq, hsame, hvalid, hgrows, hkept, hlinked⟩ := addCopy_ready h hr
    have hroot : ∀ id, graph.root id = solver.graph.root id := hgrows.root_eq h.built.sound hvalid.built.sound
    obtain ⟨called, graph', heq', hsame', hvalid', hgrows', hcalls, hlinked'⟩ := ih
      (before ++ if added then [edge (solver.graph.root node)] else []) hvalid (fun index hm => by
        obtain ⟨node, object, hi, hr⟩ := hready index (List.mem_cons_of_mem _ hm)
        exact ⟨node, object, hi, by simpa only [hroot] using hkept _ hr⟩)
    refine ⟨(if added then [edge (solver.graph.root node)] else []) ++ called, graph', ?_, hsame.trans hsame', hvalid',
      hgrows.trans h.built.sound ?_ hgrows', fun call hm => ?_, ?_⟩
    · have hstep : copyEdge solver.objVec edge (before, solver.graph) id =
          some (before ++ (if added then [edge (solver.graph.root node)] else []), graph) := by
        simp only [copyEdge, hi, h.built.sound.getSuperNode_eq, heq, Option.bind_eq_bind, Option.bind_some,
          Option.pure_def]
        cases added with
        | true => rfl
        | false => simp
      rw [List.foldlM_cons, hstep]
      simpa [List.append_assoc] using heq'
    · intro src dst hm
      exact (hgrows'.called hm).2.1.trans_eq hsame.nodeNum
    · rcases List.mem_append.mp hm with hm | hm
      · split at hm
        · exact ⟨id, List.mem_cons_self, node, object, hi, List.mem_singleton.mp hm⟩
        · cases hm
      · obtain ⟨index, hindex, other, object', hi', hcall⟩ := hcalls call hm
        exact ⟨index, List.mem_cons_of_mem _ hindex, other, object', hi', by rw [hcall, hroot]⟩
    · intro index hm other object' hi' hmutable
      rcases List.mem_cons.mp hm with rfl | hm
      · rw [hi] at hi'
        cases hi'
        exact (hlinked hmutable).imp_right fun he => hgrows'.edge he
      · have hlater := hlinked' index hm other object' hi'
        simp only [hroot, hsame.isImmutable] at hlater
        exact hlater hmutable

lemma Indexed.withGraph (h : solver.Indexed model)
    (he : ∀ {src dst}, solver.graph.Edge .copy src dst → graph.Edge .copy src dst) :
    { solver with graph }.Indexed model := by
  intro id index node object field hm hi hindex
  obtain ⟨index', node', hfield, hor⟩ := h hm hi hindex
  exact ⟨index', node', hfield, hor.imp_right he⟩

lemma Valid.hasSuperNode (h : solver.Valid model edges) {kind : Constraints} (he : solver.graph.Edge kind src dst) :
    (solver.graph.hasSuperNode src || solver.graph.hasSuperNode dst) = false := by
  obtain ⟨-, -, hsrc, hdst⟩ := h.built.sound.ends he
  rw [ConstraintGraph.hasSuperNode, ConstraintGraph.hasSuperNode, hsrc, hdst]
  rfl

lemma Valid.holds_root (h : solver.Valid model edges) {node : ℕ} {object o : Obj}
    (hm : (node, object) ∈ solver.objVec) :
    (model.system edges).Holds (.cell object) o ↔
      (model.system edges).Holds (solver.place (solver.graph.root node)) o := by
  rw [← h.built.place_node hm]
  exact h.justified.same node o

lemma Built.exists_object (h : solver.Built model) {id index : ℕ} (hm : index ∈ solver.pts id) :
    ∃ node object, solver.objVec[index]? = some (node, object) :=
  ⟨_, _, List.getElem?_eq_getElem (h.known hm)⟩

lemma processLoad_spec (h : solver.Valid model edges) (he : solver.graph.Edge .load src dst) :
    ∃ called graph, solver.processLoad src dst = some (called, { solver with graph }) ∧
      SameNodes solver.graph graph ∧ { solver with graph }.Valid model edges ∧
      Grows model solver { solver with graph } called ∧ (∀ call ∈ called, call.2 = dst) ∧
      { solver with graph }.Loaded src dst := by
  obtain ⟨-, hdst, -, hroot⟩ := h.built.sound.ends he
  have hready : ∀ index ∈ (solver.pts src).sort (· ≤ ·), ∃ node object,
      solver.objVec[index]? = some (node, object) ∧
        solver.Ready model edges ((fun node => (node, dst)) (solver.graph.root node)) := by
    intro index hm
    rw [Finset.mem_sort] at hm
    obtain ⟨node, object, hi⟩ := h.built.exists_object hm
    have hmem := List.mem_of_getElem? hi
    have hobj := h.built.objNode ⟨object, hmem⟩
    refine ⟨node, object, hi, .inl ⟨accepts_copy ?_ hdst (h.built.sound.superNode_root node) hroot ?_ ?_ ?_,
      fun o ho => ?_⟩⟩
    · exact h.built.sound.root_lt (by omega)
    · exact fun ha => (h.built.anon ha).2.1 he
    · by_contra himmutable
      cases (h.built.settled (Bool.eq_true_of_not_eq_false himmutable) he).1
    · exact fun hp => absurd he ((h.built.pinned hp).unloaded src)
    · exact h.justified.edge he object o (h.justified.pts hm hi) ((h.holds_root hmem).mpr ho)
  obtain ⟨called, graph, heq, hsame, hvalid, hgrows, hcalls, hlinked⟩ :=
    foldlM_copyEdge (fun node => (node, dst)) _ [] h hready
  refine ⟨called, graph, ?_, hsame, hvalid, hgrows, fun call hm => ?_, fun index node object hm hi => ?_⟩
  · rw [processLoad, processObjects, if_neg (by simp [h.hasSuperNode he]), heq]
    rfl
  · obtain ⟨-, -, node, -, -, rfl⟩ := hcalls call hm
    rfl
  · have hmutable : (solver.graph.node dst).isImmutable = false := by
      by_contra himmutable
      cases (h.built.settled (Bool.eq_true_of_not_eq_false himmutable) he).1
    have hor := hlinked index ((Finset.mem_sort _).mpr hm) node object hi hmutable
    rw [Linked, hgrows.root_eq h.built.sound hvalid.built.sound, hgrows.root_eq h.built.sound hvalid.built.sound,
      root_eq hroot]
    exact hor.symm.imp_right fun hself => ⟨rfl, hself⟩

lemma processStore_spec (h : solver.Valid model edges) (he : solver.graph.Edge .store src dst) :
    ∃ called graph, solver.processStore src dst = some (called, { solver with graph }) ∧
      SameNodes solver.graph graph ∧ { solver with graph }.Valid model edges ∧
      Grows model solver { solver with graph } called ∧
      (∀ call ∈ called, ∃ index ∈ solver.pts dst, ∃ node object, solver.objVec[index]? = some (node, object) ∧
        call = (src, solver.graph.root node)) ∧
      { solver with graph }.Stored model src dst := by
  obtain ⟨hsrc, -, hroot, -⟩ := h.built.sound.ends he
  have hmutable : ∀ {node object}, (node, object) ∈ solver.objVec → model.constant object = false →
      (solver.graph.node (solver.graph.root node)).isImmutable = false := by
    intro node object hmem hc
    by_contra himmutable
    have himmutable := Bool.eq_true_of_not_eq_false himmutable
    rw [h.built.alone (.inr himmutable), h.built.constant hmem, hc] at himmutable
    cases himmutable
  have hready : ∀ index ∈ (solver.pts dst).sort (· ≤ ·), ∃ node object,
      solver.objVec[index]? = some (node, object) ∧
        solver.Ready model edges ((fun node => (src, node)) (solver.graph.root node)) := by
    intro index hm
    rw [Finset.mem_sort] at hm
    obtain ⟨node, object, hi⟩ := h.built.exists_object hm
    have hmem := List.mem_of_getElem? hi
    have hobj := h.built.objNode ⟨object, hmem⟩
    refine ⟨node, object, hi, ?_⟩
    cases hc : model.constant object with
    | true =>
      have himmutable := (h.built.constant hmem).trans hc
      rw [root_eq (h.built.kept (.inr himmutable))]
      exact .inr himmutable
    | false =>
      refine .inl ⟨accepts_copy hsrc (h.built.sound.root_lt (by omega)) hroot (h.built.sound.superNode_root node) ?_
        (hmutable hmem hc) ?_, fun o ho => ?_⟩
      · intro ha
        rw [h.built.alone (.inl ha)] at ha
        exact h.built.not_objNode ha ⟨object, hmem⟩
      · exact fun hp => absurd rfl ((h.built.pinned hp).apart node ⟨object, hmem⟩)
      · exact (h.holds_root hmem).mp (h.justified.edge he object o (h.justified.pts hm hi) hc ho)
  obtain ⟨called, graph, heq, hsame, hvalid, hgrows, hcalls, hlinked⟩ :=
    foldlM_copyEdge (fun node => (src, node)) _ [] h hready
  simp only [Finset.mem_sort] at hcalls
  refine ⟨called, graph, ?_, hsame, hvalid, hgrows, hcalls, fun index node object hm hi hc => ?_⟩
  · rw [processStore, processObjects, if_neg (by simp [h.hasSuperNode he]), heq]
    rfl
  · have hor := hlinked index ((Finset.mem_sort _).mpr hm) node object hi
      (hmutable (List.mem_of_getElem? hi) hc)
    rw [Linked, hgrows.root_eq h.built.sound hvalid.built.sound, hgrows.root_eq h.built.sound hvalid.built.sound,
      root_eq hroot]
    exact hor.symm.imp_right fun hself => ⟨rfl, hself⟩

end Objects

section Fields

variable {src dst : ℕ}

lemma NodeCreated.expands {object : Obj} (hn : NodeCreated model solver object solver') :
    Expands solver solver' where
  nodeNum := by
    rw [hn.nodeNum]
    omega
  objVec := hn.objVec_old
  superNode := hn.superNode
  pts id hid := hn.pts_eq (by omega) (by omega)
  edge he := (hn.edge _ _ _).mpr (.inl he)
  handledGEPMap id := by rw [hn.handledGEPMap]
  nodes := by
    intro entry hm
    rw [hn.objVec, List.mem_append, List.mem_singleton] at hm
    rcases hm with hm | rfl
    · exact .inl hm
    · exact .inr le_rfl

lemma NodeCreated.created {object : Obj} (hn : NodeCreated model solver object solver') :
    solver'.graph.nodeNum + 2 * solver.objVec.length = solver.graph.nodeNum + 2 * solver'.objVec.length := by
  rw [hn.nodeNum, hn.objVec, List.length_append, List.length_singleton]
  omega

lemma NodeCreated.grows {object field : Obj} {id : ℕ} (hn : NodeCreated model solver field solver')
    (hobject : object ∈ solver.objVec.map Prod.snd) (hindex : model.index id object = some field) :
    Grows model solver solver' [] where
  toExpands := hn.expands
  same he haddr _ := ((hn.edge _ _ _).mp he).resolve_right fun hnew => haddr hnew.1
  added he := .inl (((hn.edge _ _ _).mp he).resolve_right fun hnew => by cases hnew.1)
  called hm := absurd hm List.not_mem_nil
  updatedFunPtrs := hn.updatedFunPtrs
  created := hn.created
  within := by
    intro objects hclosed hin entry hm
    rw [hn.objVec, List.mem_append, List.mem_singleton] at hm
    rcases hm with hm | rfl
    · exact hin entry hm
    · obtain ⟨entry, hentry, rfl⟩ := List.mem_map.mp hobject
      exact hclosed (hin entry hentry) hindex

lemma Valid.place_offset (h : solver.Valid model edges) (he : solver.graph.Edge .offset src dst) :
    solver.place dst = .pointer dst := by
  obtain ⟨-, -, -, hroot⟩ := h.built.sound.ends he
  refine place_pointer (fun hobj => ?_) fun ha => (h.built.anon ha).2.2 he
  exact (h.built.offset he).apart dst hobj (root_eq hroot)

lemma takeAddress_spec (h : solver.Valid model edges) (he : solver.graph.Edge .offset src dst) {id node : ℕ}
    {field : Obj} (hi : solver.objVec[id]? = some (node, field))
    (hfield : (model.system edges).Holds (.pointer dst) field) (hout : id ∉ solver.pts dst) :
    ∃ added graph, solver.graph.addConstraints node dst .addrOf = some (added, graph) ∧
      { solver with graph }.Valid model edges ∧ Grows model solver { solver with graph } [(node + 1, dst)] := by
  have hmem := List.mem_of_getElem? hi
  have hobj : solver.ObjNode node := ⟨field, hmem⟩
  have hanon : solver.AnonNode (node + 1) := ⟨node, hobj, rfl⟩
  obtain ⟨-, hdst, -, hroot⟩ := h.built.sound.ends he
  have hunknown : ¬solver.AnonNode dst := fun ha => (h.built.anon ha).2.2 he
  have hmutable : (solver.graph.node dst).isImmutable = false := by
    by_contra himmutable
    cases (h.built.settled (Bool.eq_true_of_not_eq_false himmutable) he).1
  have ha : solver.Accepts .copy (node + 1) dst :=
    accepts_copy (h.built.objNode hobj).1 hdst (h.built.kept (.inl hanon)) hroot hunknown hmutable fun _ => hanon
  obtain ⟨added, graph, heq, hc, -⟩ := addAddress_spec h.built hobj hdst hmutable
  rw [root_eq hroot] at hc
  refine ⟨added, graph, heq, h.addCopy ha (fun o ho => ?_) hc, hc.grows ha ?_ fun _ hsub => hout (hsub ?_)⟩
  · rw [h.built.place_anon hmem] at ho
    rw [h.place_offset he, h.holds_address ho]
    exact hfield
  · rintro rfl
    exact hunknown hanon
  · exact h.built.addressed hi

def Reaches (solver : SolverBase Obj) (dst : ℕ) (field : Obj) : Prop :=
  ∃ index node, solver.objVec[index]? = some (node, field) ∧
    (index ∈ solver.pts dst ∨ solver.graph.Edge .copy (node + 1) dst)

lemma Expands.reaches (h : Expands solver solver') (hdst : dst < solver.graph.nodeNum)
    {field : Obj} (hr : solver.Reaches dst field) : solver'.Reaches dst field := by
  obtain ⟨index, node, hi, hor⟩ := hr
  refine ⟨index, node, h.objVec hi, hor.imp (fun hm => ?_) h.edge⟩
  rwa [h.pts dst hdst]

def addresses (called : List (ℕ × ℕ)) : List (ℕ × ℕ) := called.map fun call => (call.1 + 1, call.2)

lemma Valid.setHandled (h : solver.Valid model edges) {handled : ℕ → Finset ℕ}
    (hknown : ∀ {id object}, object ∈ handled id →
      solver.Leaf id ∧ id < solver.graph.nodeNum ∧ object < solver.objVec.length) :
    { solver with handledGEPMap := handled }.Valid model edges := by
  have hleaf : ∀ {id}, solver.Leaf id → { solver with handledGEPMap := handled }.Leaf id :=
    fun hl => ⟨hl.apart, hl.unloaded, hl.copied⟩
  have hb := h.built
  refine ⟨⟨hb.sound, hb.objects, hb.nodes, hb.objNode, hb.constant, hb.immutable, hb.kept, hb.alone, hb.anon,
    fun he => hleaf (hb.offset he), fun hi he => ?_, hb.known, hb.addressed, fun hm => ?_⟩,
    ⟨h.justified.pts, h.justified.edge, h.justified.same⟩, h.unknown⟩
  · obtain ⟨hkind, hor⟩ := hb.settled hi he
    exact ⟨hkind, hor.imp_right hleaf⟩
  · obtain ⟨hl, hknown⟩ := hknown hm
    exact ⟨hleaf hl, hknown⟩

variable [DecidableEq Obj]

lemma Valid.createNode (h : solver.Valid model edges) {object : Obj} (hnew : object ∉ solver.objVec.map Prod.snd) :
    ∃ solver', solver.createNode model object = some solver' ∧ NodeCreated model solver object solver' ∧
      solver'.Valid model edges := by
  obtain ⟨solver', heq, hn⟩ := createNode_spec h.built.sound object
  have hbuilt := hn.built h.built hnew
  exact ⟨solver', heq, hn, hbuilt, hn.justified h.built hbuilt h.justified (.address rfl), h.unknown⟩

lemma findObject_some {id : ℕ} {object : Obj} (heq : solver.findObject object = some id) :
    ∃ node, solver.objVec[id]? = some (node, object) := by
  rw [findObject, List.findIdx?_eq_some_iff_getElem] at heq
  obtain ⟨hlt, hobject, -⟩ := heq
  refine ⟨(solver.objVec[id]).1, ?_⟩
  rw [List.getElem?_eq_getElem hlt, ← of_decide_eq_true hobject]

lemma findObject_none {object : Obj} (heq : solver.findObject object = none) :
    object ∉ solver.objVec.map Prod.snd := by
  rw [findObject, List.findIdx?_eq_none_iff] at heq
  intro hm
  obtain ⟨entry, hentry, rfl⟩ := List.mem_map.mp hm
  simpa using heq entry hentry

lemma indexField_spec (h : solver.Valid model edges) (he : solver.graph.Edge .offset src dst) {object : Obj}
    (hobject : object ∈ solver.objVec.map Prod.snd)
    (hfield : ∀ field, model.index dst object = some field → (model.system edges).Holds (.pointer dst) field)
    (before : List (ℕ × ℕ)) :
    ∃ called solver', indexField model dst (before, solver) object = some (before ++ called, solver') ∧
      solver'.Valid model edges ∧ Grows model solver solver' (addresses called) ∧
      solver'.handledGEPMap = solver.handledGEPMap ∧ (∀ call ∈ called, call.2 = dst) ∧
      ∀ field, model.index dst object = some field → solver'.Reaches dst field := by
  obtain ⟨-, hdst, -⟩ := h.built.sound.ends he
  cases hindex : model.index dst object with
  | none =>
    refine ⟨[], solver, ?_, h, .refl solver, rfl, by simp, fun field hsome => by cases hsome⟩
    simp [indexField, indexObject, hindex]
  | some field =>
    -- the object is found or created first
    have hfound : ∃ id node solver', solver.indexObject model object dst = some (some id, solver') ∧
        solver'.objVec[id]? = some (node, field) ∧ solver'.Valid model edges ∧ Grows model solver solver' [] ∧
        solver'.handledGEPMap = solver.handledGEPMap := by
      cases hfind : solver.findObject field with
      | some id =>
        obtain ⟨node, hi⟩ := findObject_some hfind
        exact ⟨id, node, solver, by simp [indexObject, hindex, hfind], hi, h, .refl solver, rfl⟩
      | none =>
        obtain ⟨solver', heq, hn, hvalid⟩ := h.createNode (findObject_none hfind)
        refine ⟨solver.objVec.length, solver.graph.nodeNum, solver', ?_, ?_, hvalid, hn.grows hobject hindex,
          hn.handledGEPMap⟩
        · simp [indexObject, hindex, hfind, heq]
        · simp [hn.objVec]
    obtain ⟨id, node, solver', heq, hi, hvalid, hgrows, hhandled⟩ := hfound
    by_cases hin : id ∈ solver'.pts dst
    · refine ⟨[], solver', ?_, hvalid, hgrows, hhandled, by simp, fun other hother => ?_⟩
      · simp [indexField, heq, hin]
      · cases hother
        exact ⟨id, node, hi, .inl hin⟩
    · obtain ⟨added, graph, heq', hvalid', hgrows'⟩ :=
        takeAddress_spec hvalid (hgrows.edge he) hi (hfield field hindex) hin
      refine ⟨[(node, dst)], { solver' with graph }, ?_, hvalid', ?_, hhandled, by simp, fun other hother => ?_⟩
      · simp [indexField, heq, hin, hi, heq']
      · refine hgrows.trans h.built.sound (fun hm => ?_) hgrows'
        obtain ⟨-, rfl⟩ := Prod.mk.inj (List.mem_singleton.mp hm)
        exact hdst
      · cases hother
        exact ⟨id, node, hi, .inr (hgrows'.called (List.mem_singleton_self _)).1⟩

lemma foldlM_indexField (objects : List Obj) : ∀ {solver : SolverBase Obj} (before : List (ℕ × ℕ)),
    solver.Valid model edges → solver.graph.Edge .offset src dst →
    (∀ object ∈ objects, object ∈ solver.objVec.map Prod.snd ∧ ∀ field, model.index dst object = some field →
      (model.system edges).Holds (.pointer dst) field) →
    ∃ called solver', objects.foldlM (indexField model dst) (before, solver) = some (before ++ called, solver') ∧
      solver'.Valid model edges ∧ Grows model solver solver' (addresses called) ∧
      solver'.handledGEPMap = solver.handledGEPMap ∧ (∀ call ∈ called, call.2 = dst) ∧
      ∀ object ∈ objects, ∀ field, model.index dst object = some field → solver'.Reaches dst field := by
  induction objects with
  | nil =>
    intro solver before h _ _
    exact ⟨[], solver, by simp, h, .refl solver, rfl, by simp, fun object hm => absurd hm List.not_mem_nil⟩
  | cons object rest ih =>
    intro solver before h he hfields
    obtain ⟨-, hdst, -⟩ := h.built.sound.ends he
    obtain ⟨hobject, hfield⟩ := hfields object List.mem_cons_self
    obtain ⟨called, solver', heq, hvalid, hgrows, hhandled, hdsts, hreaches⟩ :=
      indexField_spec h he hobject hfield before
    obtain ⟨called', solver'', heq', hvalid', hgrows', hhandled', hdsts', hreaches'⟩ := ih (before ++ called) hvalid
      (hgrows.edge he) fun object hm => by
        obtain ⟨hobject, hfield⟩ := hfields object (List.mem_cons_of_mem _ hm)
        exact ⟨hgrows.known hobject, hfield⟩
    refine ⟨called ++ called', solver'', ?_, hvalid', ?_, hhandled'.trans hhandled, ?_, fun other hm field hindex => ?_⟩
    · rw [List.foldlM_cons, heq]
      simpa [List.append_assoc] using heq'
    · rw [addresses, List.map_append]
      refine hgrows.trans h.built.sound (fun hm => ?_) hgrows'
      obtain ⟨call, hcall, heq⟩ := List.mem_map.mp hm
      cases heq
      rwa [hdsts' call hcall]
    · intro call hm
      exact (List.mem_append.mp hm).elim (hdsts call) (hdsts' call)
    · rcases List.mem_cons.mp hm with rfl | hm
      · exact hgrows'.reaches (hdst.trans_le hgrows.nodeNum) (hreaches field hindex)
      · exact hreaches' other hm field hindex

lemma exists_mapM {α β : Type} {f : α → Option β} (list : List α) (h : ∀ a ∈ list, ∃ b, f a = some b) :
    ∃ result, list.mapM f = some result ∧ (∀ b ∈ result, ∃ a ∈ list, f a = some b) ∧
      ∀ a ∈ list, ∀ b, f a = some b → b ∈ result := by
  induction list with
  | nil => exact ⟨[], rfl, by simp, by simp⟩
  | cons a rest ih =>
    obtain ⟨b, hb⟩ := h a List.mem_cons_self
    obtain ⟨result, heq, hfrom, hto⟩ := ih fun a hm => h a (List.mem_cons_of_mem _ hm)
    refine ⟨b :: result, by simp [List.mapM_cons, hb, heq], fun b' hm => ?_, fun a' hm b' hb' => ?_⟩
    · rcases List.mem_cons.mp hm with rfl | hm
      · exact ⟨a, List.mem_cons_self, hb⟩
      · obtain ⟨a', ha', hb'⟩ := hfrom b' hm
        exact ⟨a', List.mem_cons_of_mem _ ha', hb'⟩
    · rcases List.mem_cons.mp hm with rfl | hm
      · rw [hb] at hb'
        cases hb'
        exact List.mem_cons_self
      · exact List.mem_cons_of_mem _ (hto a' hm b' hb')

lemma processOffset_spec (h : solver.Valid model edges) (he : solver.graph.Edge .offset src dst) :
    ∃ called solver', solver.processOffset model src dst = some (called, solver') ∧ solver'.Valid model edges ∧
      Grows model solver solver' (addresses called) ∧ (∀ call ∈ called, call.2 = dst) ∧
      solver.pts src ⊆ solver'.handledGEPMap dst ∧ (solver.Indexed model → solver'.Indexed model) := by
  obtain ⟨-, hdst, -⟩ := h.built.sound.ends he
  obtain ⟨handled, hhandled⟩ : ∃ handled, handled = Function.update solver.handledGEPMap dst
    (solver.handledGEPMap dst ∪ solver.pts src \ solver.handledGEPMap dst) := ⟨_, rfl⟩
  have hself : handled dst = solver.handledGEPMap dst ∪ solver.pts src := by
    rw [hhandled, Function.update_self, Finset.union_sdiff_self_eq_union]
  have hother : ∀ id, id ≠ dst → handled id = solver.handledGEPMap id := by
    intro id hid
    rw [hhandled, Function.update_of_ne hid]
  have hvalid : { solver with handledGEPMap := handled }.Valid model edges := by
    refine h.setHandled fun {id index} hm => ?_
    by_cases hid : id = dst
    · rw [hid, hself] at hm
      refine ⟨hid ▸ h.built.offset he, hid ▸ hdst, ?_⟩
      exact (Finset.mem_union.mp hm).elim (fun hm => (h.built.handled hm).2.2) h.built.known
    · rw [hother id hid] at hm
      exact h.built.handled hm
  have hgrows : Grows model solver { solver with handledGEPMap := handled } [] := {
    Grows.refl solver with
    handledGEPMap := fun id => by
      by_cases hid : id = dst
      · change _ ⊆ handled id
        rw [hid, hself]
        exact Finset.subset_union_left
      · exact (hother id hid).ge }
  -- all the objects are known, and what is indexed in them is held
  obtain ⟨nodeVec, hmap, hfrom, hto⟩ := exists_mapM (f := fun id => solver.objVec[id]?)
    ((solver.pts src \ solver.handledGEPMap dst).sort (· ≤ ·)) fun index hm =>
      ⟨_, List.getElem?_eq_getElem (h.built.known (Finset.mem_sdiff.mp ((Finset.mem_sort _).mp hm)).1)⟩
  obtain ⟨called, solver', heq, hvalid', hgrows', hsame, hdsts, hreaches⟩ := foldlM_indexField (nodeVec.map Prod.snd) []
    hvalid he fun object hm => by
      obtain ⟨⟨node, object⟩, hentry, rfl⟩ := List.mem_map.mp hm
      obtain ⟨index, hin, hi⟩ := hfrom _ hentry
      have hin := (Finset.mem_sdiff.mp ((Finset.mem_sort _).mp hin)).1
      have hrespects := h.justified.edge he
      rw [h.place_offset he] at hrespects
      exact ⟨List.mem_map_of_mem (List.mem_of_getElem? hi),
        fun field hindex => hrespects object field dst rfl (h.justified.pts hin hi) hindex⟩
  refine ⟨called, solver', ?_, hvalid', hgrows.trans h.built.sound ?_ hgrows', hdsts, ?_, fun hindexed => ?_⟩
  · rw [processOffset, if_neg (by simp [h.hasSuperNode he])]
    simp only [hmap, ← hhandled, Option.bind_eq_bind, Option.bind_some]
    exact heq
  · exact fun hm => (hgrows'.called hm).2.1
  · rw [hsame]
    change _ ⊆ handled dst
    rw [hself]
    exact Finset.subset_union_right
  · intro id index node object field hm hi hindex
    rw [hsame] at hm
    change index ∈ handled id at hm
    by_cases hnew : id = dst ∧ index ∉ solver.handledGEPMap dst
    · obtain ⟨rfl, hout⟩ := hnew
      rw [hself, Finset.mem_union, or_iff_right hout] at hm
      have hold := hgrows'.objVec_eq (h.built.known hm) hi
      have hentry := hto index ((Finset.mem_sort _).mpr (Finset.mem_sdiff.mpr ⟨hm, hout⟩)) _ hold
      exact hreaches object (List.mem_map.mpr ⟨_, hentry, rfl⟩) field hindex
    · have hold : index ∈ solver.handledGEPMap id := by
        by_cases hid : id = dst
        · subst hid
          by_contra hout
          exact hnew ⟨rfl, hout⟩
        · rwa [hother id hid] at hm
      obtain ⟨-, hlt, hknown⟩ := h.built.handled hold
      exact hgrows'.reaches hlt (hindexed hold (hgrows'.objVec_eq hknown hi) hindex)

end Fields

/-- The loops over the neighbours of a node, and over the nodes themselves, in a state with a solver in it. -/
lemma foldlM_derives {State : Type} {base : State → SolverBase Obj} {step : State → ℕ → Option State}
    (keeps : List (ℕ × ℕ) → State → Prop) (ready finished : SolverBase Obj → ℕ → Prop)
    (hbuilt : ∀ {called state}, keeps called state → (base state).Built model)
    (hstep : ∀ {called state id}, keeps called state → ready (base state) id →
      ∃ new state', step state id = some state' ∧ keeps (called ++ new) state' ∧
        Later model (base state) (base state') ∧ finished (base state') id)
    (hready : ∀ {solver solver' id}, Later model solver solver' → ready solver id → ready solver' id)
    (hfinished : ∀ {solver solver' id}, solver.Built model → solver'.Built model → Later model solver solver' →
      finished solver id → finished solver' id) (ids : List ℕ) :
    ∀ {called state}, keeps called state → (∀ id ∈ ids, ready (base state) id) →
      ∃ new state', ids.foldlM step state = some state' ∧ keeps (called ++ new) state' ∧
        Later model (base state) (base state') ∧ ∀ id ∈ ids, finished (base state') id := by
  induction ids with
  | nil =>
    intro called state h _
    exact ⟨[], state, rfl, by rwa [List.append_nil], .refl _, fun id hm => absurd hm List.not_mem_nil⟩
  | cons id rest ih =>
    intro called state h hall
    obtain ⟨new, middle, heq, hderiving, hlater, hfirst⟩ := hstep h (hall id List.mem_cons_self)
    obtain ⟨new', last, heq', hderiving', hlater', hrest⟩ := ih hderiving fun other hm =>
      hready hlater (hall other (List.mem_cons_of_mem _ hm))
    refine ⟨new ++ new', last, ?_, by rwa [← List.append_assoc], hlater.trans hlater', fun other hm => ?_⟩
    · rw [List.foldlM_cons, heq]
      exact heq'
    · rcases List.mem_cons.mp hm with rfl | hm
      · exact hfinished (hbuilt hderiving) (hbuilt hderiving') hlater' hfirst
      · exact hrest other hm

lemma Later.done_all (h : Later model solver solver') (hs : solver.graph.Sound)
    (hold : ∀ id < solver.graph.nodeNum, solver'.Done model id) (id : ℕ) : solver'.Done model id := by
  by_cases hid : id < solver.graph.nodeNum
  · exact hold id hid
  · have hnone : ∀ kind other, kind ≠ .addrOf → kind ≠ .copy →
        ¬solver'.graph.Edge kind id other ∧ ¬solver'.graph.Edge kind other id := by
      intro kind other haddr hcopy
      constructor <;> intro he <;> have hends := hs.ends (h.same he haddr hcopy)
      · exact hid hends.1
      · exact hid hends.2.1
    exact ⟨fun he => absurd he (hnone .load _ (by simp) (by simp)).1,
      fun he => absurd he (hnone .store _ (by simp) (by simp)).2,
      fun he => absurd he (hnone .offset _ (by simp) (by simp)).1⟩

end SolverBase

end OpenRace
