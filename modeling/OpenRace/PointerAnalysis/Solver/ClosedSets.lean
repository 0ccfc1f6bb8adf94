import Mathlib.Data.Finset.Prod
import Mathlib.Data.Set.Card
import OpenRace.PointerAnalysis.Solver.DerivedEdges

/-! Points-to sets with nothing left to do are the least solution of the constraints. -/

namespace OpenRace

open ConstraintGraph

namespace SolverBase

variable {Obj : Type} {model : FieldModel Obj} {edges : Constraints → Place Obj → Place Obj → Prop}
  {solver solver' : SolverBase Obj}

def Held (solver : SolverBase Obj) (p : Place Obj) (o : Obj) : Prop :=
  p = .address o ∨ ∃ id, solver.place id = p ∧ solver.PointsTo id o

lemma Valid.holds_of_pointsTo (h : solver.Valid model edges) {id : ℕ} {object : Obj} (hp : solver.PointsTo id object) :
    (model.system edges).Holds (solver.place id) object := by
  obtain ⟨index, node, hi, hm⟩ := hp
  exact (h.justified.same id object).mpr (h.justified.pts hm hi)

lemma Valid.held_place (h : solver.Valid model edges) {id : ℕ} {object : Obj} :
    solver.Held (solver.place id) object ↔ solver.PointsTo id object := by
  refine ⟨?_, fun hp => .inr ⟨id, rfl, hp⟩⟩
  rintro (haddr | ⟨other, hplace, hp⟩)
  · rcases h.built.place_cases id with ⟨o, -, hcell⟩ | ⟨node, o, hm, rfl, haddr'⟩ | ⟨-, -, hpointer⟩
    · rw [hcell] at haddr
      cases haddr
    · rw [haddr'] at haddr
      obtain rfl := Place.address.inj haddr
      obtain ⟨index, hi⟩ := List.mem_iff_getElem?.mp hm
      refine ⟨index, node, hi, ?_⟩
      rw [root_eq (h.built.kept (.inl ⟨node, ⟨o, hm⟩, rfl⟩))]
      exact h.built.addressed hi
    · rw [hpointer] at haddr
      cases haddr
  · rwa [← h.built.place_injective hplace]

lemma Closed.pointsTo_of_linked (h : solver.Closed model) {src dst : ℕ} (hl : solver.Linked .copy src dst)
    {object : Obj} (hp : solver.PointsTo src object) : solver.PointsTo dst object := by
  obtain ⟨index, node, hi, hm⟩ := hp
  rcases hl with he | ⟨-, heq⟩
  · exact ⟨index, node, hi, h.copy he hm⟩
  · exact ⟨index, node, hi, heq ▸ hm⟩

lemma pointsTo_root (hs : solver.graph.Sound) {id : ℕ} {object : Obj} :
    solver.PointsTo (solver.graph.root id) object ↔ solver.PointsTo id object := by
  rw [PointsTo, PointsTo, hs.root_root]

section Closed

variable (hc : solver.Closed model) (h : solver.Valid model edges) (hcarries : solver.Carries edges)

include hc h hcarries

lemma Closed.held_copy {p q : Place Obj} {o : Obj} (he : edges .copy p q) (ho : solver.Held p o) :
    solver.Held q o := by
  obtain ⟨src, dst, -, -, rfl, rfl, hl, -⟩ := hcarries he
  rw [h.held_place] at ho ⊢
  exact hc.pointsTo_of_linked hl ho

lemma Closed.held_load {p q : Place Obj} {o o' : Obj} (he : edges .load p q) (ho : solver.Held p o)
    (hcell : solver.Held (.cell o) o') : solver.Held q o' := by
  obtain ⟨src, dst, -, -, rfl, rfl, hl, -⟩ := hcarries he
  rw [h.held_place] at ho ⊢
  obtain ⟨index, node, hi, hm⟩ := ho
  rw [← h.built.place_node (List.mem_of_getElem? hi), h.held_place] at hcell
  have hcopy := (hc.done _).load (hl.resolve_right (by simp)) hm hi
  exact (pointsTo_root h.built.sound).mp (hc.pointsTo_of_linked hcopy hcell)

lemma Closed.held_store {p q : Place Obj} {o o' : Obj} (he : edges .store p q) (ho : solver.Held q o)
    (hmutable : ¬model.constant o = true) (hsource : solver.Held p o') : solver.Held (.cell o) o' := by
  obtain ⟨src, dst, -, -, rfl, rfl, hl, -⟩ := hcarries he
  rw [h.held_place] at ho hsource
  obtain ⟨index, node, hi, hm⟩ := ho
  rw [← h.built.place_node (List.mem_of_getElem? hi), h.held_place]
  have hcopy := (hc.done _).store (hl.resolve_right (by simp)) hm hi (Bool.eq_false_of_not_eq_true hmutable)
  exact hc.pointsTo_of_linked hcopy ((pointsTo_root h.built.sound).mpr hsource)

lemma Closed.held_offset {p q : Place Obj} {o o' : Obj} (he : edges .offset p q) (ho : solver.Held p o)
    (hindex : (model.system edges).index q o = some o') : solver.Held q o' := by
  obtain ⟨src, dst, -, -, rfl, rfl, hl, hroot⟩ := hcarries he
  rw [h.held_place] at ho ⊢
  obtain ⟨index, node, hi, hm⟩ := ho
  have hedge := hl.resolve_right (by simp)
  rw [hroot rfl] at hedge
  have hplace : solver.place dst = .pointer dst := h.place_offset hedge
  rw [hplace] at hindex
  have hhandled := (hc.done _).offset hedge hm
  obtain ⟨index', node', hfield, hor⟩ := hc.indexed hhandled hi hindex
  refine ⟨index', node', hfield, ?_⟩
  rw [hroot rfl]
  exact hor.elim id fun hcopy => hc.copy hcopy (h.built.addressed hfield)

lemma Closed.solution : (model.system edges).Solution solver.Held where
  address haddr := .inl haddr
  copy he ho := hc.held_copy h hcarries he ho
  load he ho hcell := hc.held_load h hcarries he ho hcell
  store he ho hmutable hsource := hc.held_store h hcarries he ho hmutable hsource
  offset he ho hindex := hc.held_offset h hcarries he ho hindex

end Closed

lemma Valid.holds_of_held (h : solver.Valid model edges) (p : Place Obj) (o : Obj) (ho : solver.Held p o) :
    (model.system edges).Holds p o := by
  rcases ho with haddr | ⟨id, rfl, hp⟩
  · exact .address haddr
  · exact h.holds_of_pointsTo hp

/-- Read through the nodes that stand for them, pointers point to what the constraints demand and to nothing else. -/
lemma Closed.pointsTo_iff (hc : solver.Closed model) (h : solver.Valid model edges) (hcarries : solver.Carries edges)
    {id : ℕ} {object : Obj} :
    solver.PointsTo id object ↔ (model.system edges).Holds (solver.place id) object := by
  rw [← h.held_place, (hc.solution h hcarries).eq_holds h.holds_of_held]

def constraints (solver : SolverBase Obj) (kind : Constraints) (p q : Place Obj) : Prop :=
  ∃ src dst, solver.graph.Edge kind src dst ∧ solver.place src = p ∧ solver.place dst = q

/-- A graph that was built and not solved: only the anonymous nodes point to objects. -/
structure Fresh (model : FieldModel Obj) (solver : SolverBase Obj) : Prop where
  built : solver.Built model
  roots : ∀ id, (solver.graph.node id).superNode = none
  pointed : ∀ {id index}, index ∈ solver.pts id → ∃ node object,
    solver.objVec[index]? = some (node, object) ∧ id = node + 1
  unhandled : ∀ id, solver.handledGEPMap id = ∅

lemma Fresh.root_eq (h : solver.Fresh model) (id : ℕ) : solver.graph.root id = id :=
  ConstraintGraph.root_eq (h.roots id)

lemma constraints_not_special (hspecial : ∀ src dst, ¬solver.graph.Edge .special src dst)
    (p q : Place Obj) : ¬solver.constraints .special p q :=
  fun ⟨src, dst, he, _⟩ => hspecial src dst he

lemma Fresh.valid (h : solver.Fresh model) (hedges : ∀ {kind p q}, solver.constraints kind p q → edges kind p q)
    (hunknown : ∀ ⦃kind p o⦄, edges kind p (.address o) → kind ≠ .copy ∧ kind ≠ .load) :
    solver.Valid model edges := by
  refine ⟨h.built, ⟨?_, ?_, fun id object => by rw [h.root_eq]⟩, hunknown⟩
  · intro id index node object hm hi
    obtain ⟨node', object', hi', rfl⟩ := h.pointed hm
    rw [hi] at hi'
    cases hi'
    rw [h.built.place_anon (List.mem_of_getElem? hi)]
    exact .address rfl
  · exact fun he => FieldModel.respects_edge (hedges ⟨_, _, he, rfl, rfl⟩)

lemma Fresh.carries (h : solver.Fresh model) : solver.Carries solver.constraints := by
  rintro kind p q ⟨src, dst, he, rfl, rfl⟩
  obtain ⟨hsrc, hdst, -⟩ := h.built.sound.ends he
  refine ⟨src, dst, hsrc, hdst, rfl, rfl, .inl ?_, fun _ => h.root_eq dst⟩
  rwa [h.root_eq, h.root_eq]

lemma Fresh.unknown (h : solver.Fresh model) ⦃kind : Constraints⦄ ⦃p : Place Obj⦄ ⦃o : Obj⦄
    (he : solver.constraints kind p (.address o)) : kind ≠ .copy ∧ kind ≠ .load := by
  obtain ⟨src, dst, he, -, hplace⟩ := he
  obtain ⟨hcopy, hload, -⟩ := @Built.anon _ _ _ h.built src dst (h.built.anonNode_of_place hplace)
  exact ⟨fun hkind => hcopy (hkind ▸ he), fun hkind => hload (hkind ▸ he)⟩

lemma Fresh.indexed (h : solver.Fresh model) : solver.Indexed model := by
  intro id index node object field hm
  rw [h.unhandled] at hm
  cases hm

def copies (solver : SolverBase Obj) : Set (ℕ × ℕ) :=
  {pair | pair.1 < solver.graph.nodeNum ∧ pair.2 < solver.graph.nodeNum ∧ solver.Linked .copy pair.1 pair.2}

lemma copies_subset (solver : SolverBase Obj) : solver.copies ⊆
    ↑(Finset.range solver.graph.nodeNum ×ˢ Finset.range solver.graph.nodeNum) := by
  rintro ⟨src, dst⟩ ⟨hsrc, hdst, -⟩
  simp only [Finset.coe_product, Finset.coe_range, Set.mem_prod, Set.mem_Iio]
  exact ⟨hsrc, hdst⟩

lemma ncard_copies_le (solver : SolverBase Obj) : solver.copies.ncard ≤ solver.graph.nodeNum * solver.graph.nodeNum := by
  have hle := Set.ncard_le_ncard solver.copies_subset (Finset.finite_toSet _)
  rwa [Set.ncard_coe_finset, Finset.card_product, Finset.card_range] at hle

lemma finite_copies (solver : SolverBase Obj) : solver.copies.Finite :=
  (Finset.finite_toSet _).subset solver.copies_subset

lemma Grows.copies_lt {called : List (ℕ × ℕ)} (h : Grows model solver solver' called) (hs : solver.graph.Sound)
    (hs' : solver'.graph.Sound)
    (hclosed : ∀ {src dst}, solver.graph.Edge .copy src dst → solver.pts src ⊆ solver.pts dst)
    (hnew : called ≠ [] ∨ solver.graph.nodeNum < solver'.graph.nodeNum) :
    solver.copies.ncard < solver'.copies.ncard := by
  have hsub : solver.copies ⊆ solver'.copies := fun pair hp =>
    ⟨hp.1.trans_le h.nodeNum, hp.2.1.trans_le h.nodeNum, h.linked hs hs' hp.2.2⟩
  suffices hnew : ∃ pair ∈ solver'.copies, pair ∉ solver.copies by
    obtain ⟨pair, hin, hout⟩ := hnew
    have hle := Set.ncard_le_ncard (Set.insert_subset hin hsub) solver'.finite_copies
    rwa [Set.ncard_insert_of_notMem hout solver.finite_copies] at hle
  rcases hnew with hcalled | hlt
  · obtain ⟨⟨src, dst⟩, hm⟩ := List.exists_mem_of_ne_nil called hcalled
    obtain ⟨he, -, hnot⟩ := h.called hm
    obtain ⟨hsrc, hdst, hroot, hroot'⟩ := hs'.ends he
    refine ⟨(src, dst), ⟨hsrc, hdst, .inl ?_⟩, ?_⟩
    · rwa [root_eq hroot, root_eq hroot']
    · rintro ⟨-, -, hl⟩
      rw [h.superNode] at hroot hroot'
      rw [Linked, root_eq hroot, root_eq hroot'] at hl
      rcases hl with hold | ⟨-, heq⟩
      · exact hnot hold (hclosed hold)
      · obtain rfl : src = dst := heq
        exact hs'.plain _ he
  · exact ⟨(solver.graph.nodeNum, solver.graph.nodeNum), ⟨hlt, hlt, .inr ⟨rfl, rfl⟩⟩, fun hp => lt_irrefl _ hp.1⟩

structure Within (objects : Finset Obj) (nodeNum objNum : ℕ) (solver : SolverBase Obj) : Prop where
  mem : ∀ entry ∈ solver.objVec, entry.2 ∈ objects
  created : solver.graph.nodeNum + 2 * objNum = nodeNum + 2 * solver.objVec.length

lemma Within.nodeNum_le {objects : Finset Obj} {nodeNum objNum : ℕ} (h : Within objects nodeNum objNum solver)
    (hb : solver.Built model) : solver.graph.nodeNum ≤ nodeNum + 2 * objects.card := by
  classical
  have hsub : (solver.objVec.map Prod.snd).toFinset ⊆ objects := by
    intro object hm
    obtain ⟨entry, hentry, rfl⟩ := List.mem_map.mp (List.mem_toFinset.mp hm)
    exact h.mem entry hentry
  have hle := Finset.card_le_card hsub
  rw [List.toFinset_card_of_nodup hb.objects, List.length_map] at hle
  have := h.created
  omega

lemma Within.later {objects : Finset Obj} {nodeNum objNum : ℕ} (hw : Within objects nodeNum objNum solver)
    (hindex : model.Indexes ↑objects) (h : Later model solver solver') : Within objects nodeNum objNum solver' where
  mem := h.within hindex hw.mem
  created := by
    have := h.created
    have := hw.created
    omega

end SolverBase

end OpenRace
