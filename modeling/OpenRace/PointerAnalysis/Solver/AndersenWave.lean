import OpenRace.Library.DoWhile
import OpenRace.PointerAnalysis.Solver.Resolution

/-! The solver that goes through the whole constraint graph in every round, and merges nothing. One sweep closes all
copy edges, and both solvers end with the same points-to sets. -/

namespace OpenRace

open ConstraintGraph SolverBase

namespace AndersenWave

section Rounds

variable {Obj : Type}

def copyFrom (solver : SolverBase Obj) (node : ℕ) : SolverBase Obj :=
  (solver.graph.copySuccs node).foldl (fun solver dst => (solver.processCopy node dst).2) solver

/-- The body of the second loop over a component: the points-to set of the front goes back to its nodes. -/
def spreadTo (front : ℕ) (solver : SolverBase Obj) (node : ℕ) : SolverBase Obj :=
  copyFrom (solver.processCopy front node).2 node

/-- The loops over a component are empty where it has one node. -/
def processSCC (solver : SolverBase Obj) (scc : List ℕ) : Option (SolverBase Obj) :=
  match scc with
  | [] => none
  | front :: rest =>
    let gathered := rest.foldl (fun solver node => (solver.processCopy node front).2) solver
    some (copyFrom (rest.foldl (spreadTo front) gathered) front)

def copyPhase (solver : SolverBase Obj) : Option (SolverBase Obj) := do
  let sccs ← SCCIterator.emitted solver.graph .copy true ∅
  sccs.foldlM processSCC solver

/-- Whether edges were added so far comes first. -/
def loadInto (curNode : ℕ) (state : Bool × SolverBase Obj) (dst : ℕ) : Option (Bool × SolverBase Obj) :=
  (state.2.processLoad curNode dst).map fun result => (state.1 || !result.1.isEmpty, result.2)

def storeInto (curNode : ℕ) (state : Bool × SolverBase Obj) (dst : ℕ) : Option (Bool × SolverBase Obj) :=
  (state.2.processStore curNode dst).map fun result => (state.1 || !result.1.isEmpty, result.2)

section Model

variable [DecidableEq Obj] (model : FieldModel Obj)

def offsetInto (curNode : ℕ) (state : Bool × SolverBase Obj) (dst : ℕ) : Option (Bool × SolverBase Obj) :=
  (state.2.processOffset model curNode dst).map fun result => (state.1 || !result.1.isEmpty, result.2)

def processNode (state : Bool × SolverBase Obj) (curNode : ℕ) : Option (Bool × SolverBase Obj) := do
  let state ← (((state.2.graph.node curNode).succCons .load).sort (· ≤ ·)).foldlM (loadInto curNode) state
  let state ← (((state.2.graph.node curNode).succCons .store).sort (· ≤ ·)).foldlM (storeInto curNode) state
  (((state.2.graph.node curNode).succCons .offset).sort (· ≤ ·)).foldlM (offsetInto model curNode) state

/-- Nodes that are added in a round are left to the next. -/
def round (state : Bool × SolverBase Obj) : Option (Bool × SolverBase Obj) := do
  let solver ← copyPhase state.2
  (List.range solver.graph.nodeNum).foldlM (processNode model) (false, solver)

def runSolver (fuel : ℕ) (solver : SolverBase Obj) : Option (SolverBase Obj) :=
  (Library.doWhile (round model) Prod.fst fuel (false, solver)).map Prod.snd

def solveOnce {lang : LangModel Obj} (fuel : ℕ) (solving : Solving lang (SolverBase Obj)) :
    Option (Solving lang (SolverBase Obj)) := do
  let solver ← runSolver model fuel solving.solver
  SolverBase.resolveFunPtrs id (fun solver addition => (solver.add model addition).map Prod.snd)
    (fun solver => { solver with updatedFunPtrs := ∅ }) { solving with solver }

def solve (lang : LangModel Obj) (state : lang.State) (fuel : ℕ) (solver : SolverBase Obj) :
    Option (Solving lang (SolverBase Obj)) :=
  Library.doWhile (solveOnce model fuel) (fun solving => solving.reanalyze) fuel
    { reanalyze := true, state, solver, added := [] }

end Model

end Rounds

variable {Obj : Type} {model : FieldModel Obj} {edges : Constraints → Place Obj → Place Obj → Prop}
  {graph : ConstraintGraph} {start solver solver' : SolverBase Obj} {node front : ℕ} {scc rest : List ℕ}

structure Flows (model : FieldModel Obj) (edges : Constraints → Place Obj → Place Obj → Prop) (node : ℕ)
    (dsts : List ℕ) (solver solver' : SolverBase Obj) : Prop where
  valid : solver'.Valid model edges
  enlarges : Enlarges solver solver'
  closed : ∀ dst ∈ dsts, solver.pts node ⊆ solver'.pts dst
  bound : ∀ id, solver'.pts id ⊆ solver.pts id ∪ solver.pts node
  other : ∀ id ∉ dsts, solver'.pts id = solver.pts id

lemma foldl_flows (dsts : List ℕ) : ∀ {solver : SolverBase Obj}, solver.Valid model edges →
    (∀ dst ∈ dsts, solver.graph.Edge .copy node dst) → Flows model edges node dsts solver
      (dsts.foldl (fun solver dst => (solver.processCopy node dst).2) solver) := by
  induction dsts with
  | nil =>
    intro solver hv _
    exact ⟨hv, .refl solver, fun dst hm => absurd hm List.not_mem_nil, fun id => Finset.subset_union_left,
      fun _ _ => rfl⟩
  | cons dst rest ih =>
    intro solver hv hall
    have he := hall dst List.mem_cons_self
    have hne : node ≠ dst := by
      rintro rfl
      exact hv.built.sound.plain _ he
    have hrest := ih (hv.processCopy he) fun other hm => hall other (List.mem_cons_of_mem _ hm)
    have hnode : (solver.processCopy node dst).2.pts node = solver.pts node := processCopy_pts_of_ne hne
    refine ⟨hrest.valid, (enlarges_processCopy solver node dst).trans hrest.enlarges, fun other hm => ?_, fun id => ?_,
      fun id hid => ?_⟩
    · rcases List.mem_cons.mp hm with rfl | hm
      · refine Finset.Subset.trans ?_ (hrest.enlarges.pts other)
        rw [processCopy_pts_self]
        exact Finset.subset_union_right
      · have hclosed := hrest.closed other hm
        rwa [hnode] at hclosed
    · have hbound := hrest.bound id
      rw [hnode] at hbound
      refine hbound.trans (Finset.union_subset ?_ Finset.subset_union_right)
      rw [processCopy_pts]
      split
      · next hid => rw [hid]
      · exact Finset.subset_union_left
    · rw [List.mem_cons, not_or] at hid
      exact (hrest.other id hid.2).trans (processCopy_pts_of_ne hid.1)

lemma copyFrom_flows (hv : solver.Valid model edges) (node : ℕ) :
    Flows model edges node (solver.graph.copySuccs node) solver (copyFrom solver node) :=
  foldl_flows _ hv fun _ hm => mem_copySuccs.mp hm

structure Spreading (model : FieldModel Obj) (edges : Constraints → Place Obj → Place Obj → Prop) (scc : List ℕ)
    (front : ℕ) (full : Finset ℕ) (finished : ℕ → Prop) (start solver : SolverBase Obj) : Prop where
  valid : solver.Valid model edges
  enlarges : Enlarges start solver
  front : solver.pts front = full
  bound : ∀ a ∈ scc, solver.pts a ⊆ full
  closed : ∀ a, finished a → solver.pts a = full ∧ ∀ dst, solver.graph.Edge .copy a dst → full ⊆ solver.pts dst
  other : ∀ id ∉ scc, (∀ a ∈ scc, ¬solver.graph.Edge .copy a id) → solver.pts id = start.pts id

section Spreading

variable {full : Finset ℕ} {finished : ℕ → Prop}

lemma Spreading.copyFrom (h : Spreading model edges scc front full finished start solver) (hfront : front ∈ scc)
    (hnode : node ∈ scc) (hfull : solver.pts node = full) :
    Spreading model edges scc front full (fun a => a = node ∨ finished a) start (copyFrom solver node) := by
  have hflows := copyFrom_flows h.valid node
  have hgraph := hflows.enlarges.graph
  have hbound : ∀ a ∈ scc, (AndersenWave.copyFrom solver node).pts a ⊆ full := fun a ha =>
    (hflows.bound a).trans (Finset.union_subset (h.bound a ha) hfull.subset)
  have hkept : ∀ a ∈ scc, solver.pts a = full → (AndersenWave.copyFrom solver node).pts a = full :=
    fun a ha heq => (hbound a ha).antisymm (heq ▸ hflows.enlarges.pts a)
  refine ⟨hflows.valid, h.enlarges.trans hflows.enlarges, hkept front hfront h.front, hbound, fun a ha => ?_, ?_⟩
  · rw [hgraph]
    rcases ha with rfl | ha
    · refine ⟨hkept a hnode hfull, fun dst he => ?_⟩
      rw [← hfull]
      exact hflows.closed dst (mem_copySuccs.mpr he)
    · obtain ⟨heq, hclosed⟩ := h.closed a ha
      refine ⟨?_, fun dst he => (hclosed dst he).trans (hflows.enlarges.pts dst)⟩
      by_cases hin : a ∈ scc
      · exact hkept a hin heq
      · refine Finset.Subset.antisymm ?_ (heq ▸ hflows.enlarges.pts a)
        exact (hflows.bound a).trans (Finset.union_subset heq.subset hfull.subset)
  · intro id hid hnone
    rw [hgraph] at hnone
    rw [hflows.other id fun hm => hnone node hnode (mem_copySuccs.mp hm)]
    exact h.other id hid hnone

lemma Spreading.fill (h : Spreading model edges scc front full finished start solver)
    (hpath : solver.graph.Path .copy front node) (hnode : node ∈ scc) :
    Spreading model edges scc front full finished start (solver.processCopy front node).2 ∧
      (solver.processCopy front node).2.pts node = full := by
  have hself : (solver.processCopy front node).2.pts node = full := by
    rw [processCopy_pts_self, h.front]
    exact Finset.union_eq_right.mpr (h.bound node hnode)
  have henlarges := enlarges_processCopy solver front node
  have hkept : ∀ a, solver.pts a = full → (solver.processCopy front node).2.pts a = full := by
    intro a heq
    by_cases ha : a = node
    · rw [ha, hself]
    · rw [processCopy_pts_of_ne ha, heq]
  refine ⟨⟨h.valid.copied fun o ho => h.valid.justified.path hpath ho, h.enlarges.trans henlarges,
    hkept front h.front, fun a ha => ?_, fun a ha => ?_, fun id hid hnone => ?_⟩, hself⟩
  · by_cases heq : a = node
    · rw [heq, hself]
    · rw [processCopy_pts_of_ne heq]
      exact h.bound a ha
  · obtain ⟨heq, hclosed⟩ := h.closed a ha
    exact ⟨hkept a heq, fun dst he => (hclosed dst he).trans (henlarges.pts dst)⟩
  · have hne : id ≠ node := by
      rintro rfl
      exact hid hnode
    rw [processCopy_pts_of_ne hne]
    exact h.other id hid hnone

lemma Spreading.spread (hfront : front ∈ scc) (nodes : List ℕ) : ∀ {finished : ℕ → Prop} {solver : SolverBase Obj},
    Spreading model edges scc front full finished start solver →
    (∀ node ∈ nodes, node ∈ scc ∧ solver.graph.Path .copy front node) →
    Spreading model edges scc front full (fun a => a ∈ nodes ∨ finished a) start
      (nodes.foldl (spreadTo front) solver) := by
  induction nodes with
  | nil =>
    intro finished solver h _
    simpa using h
  | cons node rest ih =>
    intro finished solver h hall
    obtain ⟨hin, hpath⟩ := hall node List.mem_cons_self
    obtain ⟨hfilled, hfull⟩ := h.fill hpath hin
    have hstep := hfilled.copyFrom hfront hin hfull
    have hlast := ih hstep fun other hm => by
      have hgraph := (copyFrom_flows hfilled.valid node).enlarges.graph
      rw [hgraph]
      exact hall other (List.mem_cons_of_mem _ hm)
    refine { hlast with closed := fun a ha => hlast.closed a ?_ }
    rcases ha with hm | ha
    · rcases List.mem_cons.mp hm with rfl | hm
      · exact .inr (.inl rfl)
      · exact .inl hm
    · exact .inr (.inr ha)

end Spreading

lemma foldl_gathers (rest : List ℕ) : ∀ {solver : SolverBase Obj}, solver.Valid model edges → front ∉ rest →
    (∀ node ∈ rest, solver.graph.Path .copy node front) →
    ∃ solver', rest.foldl (fun solver node => (solver.processCopy node front).2) solver = solver' ∧
      solver'.Valid model edges ∧ Enlarges solver solver' ∧ (∀ id, id ≠ front → solver'.pts id = solver.pts id) ∧
      ∀ node ∈ rest, solver.pts node ⊆ solver'.pts front := by
  induction rest with
  | nil =>
    exact fun {solver} hv _ _ =>
      ⟨solver, rfl, hv, .refl solver, fun _ _ => rfl, fun _ hm => absurd hm List.not_mem_nil⟩
  | cons node rest ih =>
    intro solver hv hfront hpaths
    rw [List.mem_cons, not_or] at hfront
    have henlarges := enlarges_processCopy solver node front
    obtain ⟨last, heq, hvalid, henlarges', hother, hin⟩ := ih
      (hv.copied fun o ho => hv.justified.path (hpaths node List.mem_cons_self) ho) hfront.2
      fun other hm => hpaths other (List.mem_cons_of_mem _ hm)
    refine ⟨last, heq, hvalid, henlarges.trans henlarges', fun id hid => ?_, fun other hm => ?_⟩
    · rw [hother id hid, processCopy_pts_of_ne hid]
    · rcases List.mem_cons.mp hm with rfl | hm
      · refine Finset.Subset.trans ?_ (henlarges'.pts front)
        rw [processCopy_pts_self]
        exact Finset.subset_union_right
      · exact (henlarges.pts other).trans (hin other hm)

lemma processSCC_spec (hv : solver.Valid model edges) (hne : scc ≠ []) (hnodup : scc.Nodup)
    (hpaths : ∀ a ∈ scc, ∀ b ∈ scc, solver.graph.Path .copy a b) :
    ∃ solver', processSCC solver scc = some solver' ∧ solver'.Valid model edges ∧ Enlarges solver solver' ∧
      (∀ a ∈ scc, ∀ dst, solver.graph.Edge .copy a dst → solver'.pts a ⊆ solver'.pts dst) ∧
      ∀ id ∉ scc, (∀ a ∈ scc, ¬solver.graph.Edge .copy a id) → solver'.pts id = solver.pts id := by
  cases scc with
  | nil => exact absurd rfl hne
  | cons front rest =>
    have hfront : front ∈ front :: rest := List.mem_cons_self
    obtain ⟨gathered, hgathered, hvalid, henlarges, hother, hin⟩ := foldl_gathers rest hv
      (List.nodup_cons.mp hnodup).1 fun node hm => hpaths node (List.mem_cons_of_mem _ hm) front hfront
    have hspreading : Spreading model edges (front :: rest) front (gathered.pts front) (fun _ => False) solver
        gathered := by
      refine ⟨hvalid, henlarges, rfl, fun a ha => ?_, fun _ hfalse => hfalse.elim, fun id hid _ => ?_⟩
      · rcases List.mem_cons.mp ha with rfl | hm
        · exact subset_rfl
        · rw [hother a fun heq => (List.nodup_cons.mp hnodup).1 (heq ▸ hm)]
          exact hin a hm
      · exact hother id fun heq => hid (heq ▸ hfront)
    have hspread := hspreading.spread hfront rest fun node hm => by
      rw [henlarges.graph]
      exact ⟨List.mem_cons_of_mem _ hm, hpaths front hfront node (List.mem_cons_of_mem _ hm)⟩
    have hlast := hspread.copyFrom hfront hfront hspread.front
    have hgraph := hlast.enlarges.graph
    refine ⟨_, by rw [processSCC, hgathered], hlast.valid, hlast.enlarges, fun a ha dst he => ?_, fun id hid hnone => ?_⟩
    · obtain ⟨heq, hclosed⟩ := hlast.closed a ((List.mem_cons.mp ha).imp_right .inl)
      rw [heq]
      exact hclosed dst (hgraph ▸ he)
    · exact hlast.other id hid (hgraph ▸ hnone)

structure Sweeping (model : FieldModel Obj) (edges : Constraints → Place Obj → Place Obj → Prop)
    (start : SolverBase Obj) (queue : List (List ℕ)) (solver : SolverBase Obj) : Prop where
  valid : solver.Valid model edges
  enlarges : Enlarges start solver
  edge : ∀ {src dst}, start.graph.Edge .copy src dst → (∀ scc ∈ queue, src ∉ scc) → solver.pts src ⊆ solver.pts dst

lemma foldlM_processSCC (queue : List (List ℕ)) : ∀ {solver : SolverBase Obj}, start.graph.Topological queue →
    Sweeping model edges start queue solver →
    ∃ solver', queue.foldlM processSCC solver = some solver' ∧ Sweeping model edges start [] solver' := by
  induction queue with
  | nil => exact fun {solver} _ h => ⟨solver, rfl, h⟩
  | cons scc queue ih =>
    intro solver ht h
    obtain ⟨hne, hnodup, hstrong⟩ := ht.strong scc List.mem_cons_self
    have hgraph := h.enlarges.graph
    obtain ⟨middle, heq, hvalid, henlarges, hclosed, hother⟩ := processSCC_spec h.valid hne hnodup
      fun a ha b hb => hgraph ▸ ((hstrong a ha b).mp hb).1
    rw [hgraph] at hclosed hother
    have hmiddle : Sweeping model edges start queue middle := by
      refine ⟨hvalid, h.enlarges.trans henlarges, fun {src dst} he hout => ?_⟩
      by_cases hsrc : src ∈ scc
      · exact hclosed src hsrc dst he
      · -- what is changed is in the component, or is still to be visited
        have hkept : middle.pts src = solver.pts src := by
          refine hother src hsrc fun a ha hedge => ?_
          obtain ⟨scc', hscc', hin⟩ := ht.later ha hedge hsrc
          exact hout scc' hscc' hin
        rw [hkept]
        refine (h.edge he fun scc' hscc' => ?_).trans (henlarges.pts dst)
        rcases List.mem_cons.mp hscc' with rfl | hscc'
        · exact hsrc
        · exact hout scc' hscc'
    obtain ⟨last, heq', hlast⟩ := ih ht.tail hmiddle
    refine ⟨last, ?_, hlast⟩
    rw [List.foldlM_cons, heq]
    exact heq'

lemma copyPhase_spec (h : solver.Valid model edges) (hroots : ∀ id, (solver.graph.node id).superNode = none)
    (hids : solver.graph.nodeNum ≤ SCCIterator.finished) :
    ∃ solver', copyPhase solver = some solver' ∧ solver'.Valid model edges ∧ Enlarges solver solver' ∧
      ∀ {src dst}, solver'.graph.Edge .copy src dst → solver'.pts src ⊆ solver'.pts dst := by
  obtain ⟨sccs, hemitted, ht, hall⟩ := emitted_ordered (h.built.sound.linked hids .copy) hroots
  have hsweeping : Sweeping model edges solver sccs solver := by
    refine ⟨h, .refl solver, fun {src dst} he hout => ?_⟩
    obtain ⟨scc, hscc, hin⟩ := hall src (h.built.sound.ends he).1
    exact absurd hin (hout scc hscc)
  obtain ⟨last, heq, hlast⟩ := foldlM_processSCC sccs ht hsweeping
  refine ⟨last, by simp [copyPhase, hemitted, heq], hlast.valid, hlast.enlarges, fun {src dst} he => ?_⟩
  rw [hlast.enlarges.graph] at he
  exact hlast.edge he fun _ hm => absurd hm List.not_mem_nil

end AndersenWave

namespace AndersenWave

variable {Obj : Type} {model : FieldModel Obj} {edges : Constraints → Place Obj → Place Obj → Prop}
  {start solver base : SolverBase Obj} {state : Bool × SolverBase Obj} {called : List (ℕ × ℕ)} {objects : Finset Obj}
  {node dst nodeNum objNum : ℕ}

structure Deriving (model : FieldModel Obj) (edges : Constraints → Place Obj → Place Obj → Prop)
    (start : SolverBase Obj) (called : List (ℕ × ℕ)) (state : Bool × SolverBase Obj) : Prop where
  valid : state.2.Valid model edges
  indexed : state.2.Indexed model
  grows : Grows model start state.2 called
  changed : state.1 = !called.isEmpty

lemma Deriving.built (h : Deriving model edges start called state) : state.2.Built model := h.valid.built

lemma Deriving.step (h : Deriving model edges start called state) (hs : start.graph.Sound) {base : SolverBase Obj}
    {new given : List (ℕ × ℕ)} (hv : base.Valid model edges) (hi : base.Indexed model)
    (hgrows : Grows model state.2 base new) (hdst : ∀ {src dst}, (src, dst) ∈ new → dst < start.graph.nodeNum)
    (hgiven : given.isEmpty = new.isEmpty) :
    Deriving model edges start (called ++ new) (state.1 || !given.isEmpty, base) :=
  ⟨hv, hi, h.grows.trans hs hdst hgrows, by
    rw [h.changed, hgiven]
    cases called <;> simp⟩

lemma Deriving.loadInto (h : Deriving model edges start called state) (hs : start.graph.Sound)
    (he : state.2.graph.Edge .load node dst) :
    ∃ new state', loadInto node state dst = some state' ∧ Deriving model edges start (called ++ new) state' ∧
      Later model state.2 state'.2 ∧ state'.2.Loaded node dst := by
  obtain ⟨new, graph, heq, -, hv, hgrows, hdst, hloaded⟩ := processLoad_spec h.valid he
  have hlt := (hs.ends (h.grows.same he (by simp) (by simp))).2.1
  refine ⟨new, _, by rw [AndersenWave.loadInto, heq]; rfl, h.step hs hv (h.indexed.withGraph hgrows.edge) hgrows
    (fun {src target} hm => ?_) rfl, hgrows.toLater, hloaded⟩
  obtain rfl : target = dst := hdst _ hm
  exact hlt

lemma Deriving.storeInto (h : Deriving model edges start called state) (hb : start.Built model)
    (he : state.2.graph.Edge .store node dst) :
    ∃ new state', storeInto node state dst = some state' ∧ Deriving model edges start (called ++ new) state' ∧
      Later model state.2 state'.2 ∧ state'.2.Stored model node dst := by
  obtain ⟨new, graph, heq, -, hv, hgrows, hcalls, hstored⟩ := processStore_spec h.valid he
  have hlt := (hb.sound.ends (h.grows.same he (by simp) (by simp))).2.1
  refine ⟨new, _, by rw [AndersenWave.storeInto, heq]; rfl, h.step hb.sound hv (h.indexed.withGraph hgrows.edge)
    hgrows (fun {source target} hm => ?_) rfl, hgrows.toLater, hstored⟩
  obtain ⟨index, hin, objNode, object, hi, hcall⟩ := hcalls _ hm
  obtain ⟨rfl, rfl⟩ := Prod.mk.inj hcall
  exact h.grows.store_lt hb h.valid.built.sound hlt hin hi

def LeavesDone (solver : SolverBase Obj) (node : ℕ) (model : FieldModel Obj) : Prop :=
  (∀ dst, solver.graph.Edge .load node dst → solver.Loaded node dst) ∧
  (∀ dst, solver.graph.Edge .store node dst → solver.Stored model node dst) ∧
  ∀ dst, solver.graph.Edge .offset node dst → solver.pts node ⊆ solver.handledGEPMap dst

lemma leavesDone_later {solver solver' : SolverBase Obj} (hb : solver.Built model) (hb' : solver'.Built model)
    (hlater : Later model solver solver') (h : LeavesDone solver node model) : LeavesDone solver' node model := by
  refine ⟨fun dst he => ?_, fun dst he => ?_, fun dst he => ?_⟩ <;>
    have hold := hlater.same he (by simp) (by simp)
  · exact hlater.loaded hb hb'.sound (hb.sound.ends hold).1 (h.1 dst hold)
  · exact hlater.stored hb hb'.sound (hb.sound.ends hold).2.1 (h.2.1 dst hold)
  · rw [hlater.pts node (hb.sound.ends hold).1]
    exact (h.2.2 dst hold).trans (hlater.handledGEPMap dst)

section Nodes

variable [DecidableEq Obj]

lemma Deriving.offsetInto (h : Deriving model edges start called state) (hs : start.graph.Sound)
    (he : state.2.graph.Edge .offset node dst) :
    ∃ new state', offsetInto model node state dst = some state' ∧
      Deriving model edges start (called ++ new) state' ∧ Later model state.2 state'.2 ∧
      state'.2.pts node ⊆ state'.2.handledGEPMap dst := by
  obtain ⟨new, base, heq, hv, hgrows, hdst, hhandled, hindexed⟩ := processOffset_spec h.valid he
  have hlt := (hs.ends (h.grows.same he (by simp) (by simp))).2.1
  refine ⟨addresses new, _, by rw [AndersenWave.offsetInto, heq]; rfl, h.step hs hv (hindexed h.indexed) hgrows
    (fun {source target} hm => ?_) (by simp [addresses]), hgrows.toLater, ?_⟩
  · obtain ⟨call, hcall, heq⟩ := List.mem_map.mp hm
    obtain ⟨-, rfl⟩ := Prod.mk.inj heq
    rwa [hdst call hcall]
  · rw [hgrows.pts node (h.valid.built.sound.ends he).1]
    exact hhandled

lemma Deriving.processNode (h : Deriving model edges start called state) (hb : start.Built model) (node : ℕ) :
    ∃ new state', processNode model state node = some state' ∧ Deriving model edges start (called ++ new) state' ∧
      Later model state.2 state'.2 ∧ LeavesDone state'.2 node model := by
  have hmem : ∀ (graph : ConstraintGraph) kind dst,
      dst ∈ ((graph.node node).succCons kind).sort (· ≤ ·) ↔ graph.Edge kind node dst :=
    fun _ _ _ => Finset.mem_sort _
  obtain ⟨loaded, first, hfirst, hderiving, hlater, hloaded⟩ := foldlM_derives (Deriving model edges start)
    (fun base dst => base.graph.Edge .load node dst)
    (fun base dst => base.graph.Edge .load node dst ∧ base.Loaded node dst)
    Deriving.built
    (fun {called state dst} h he => by
      obtain ⟨new, state', heq, hderiving, hlater, hfinished⟩ := h.loadInto hb.sound he
      exact ⟨new, state', heq, hderiving, hlater, hlater.edge he, hfinished⟩)
    (fun hlater he => hlater.edge he)
    (fun hb hb' hlater ⟨he, hl⟩ => ⟨hlater.edge he, hlater.loaded hb hb'.sound (hb.sound.ends he).1 hl⟩)
    _ h fun dst hm => (hmem state.2.graph .load dst).mp hm
  obtain ⟨stored, second, hsecond, hderiving', hlater', hstored⟩ := foldlM_derives (Deriving model edges start)
    (fun base dst => base.graph.Edge .store node dst)
    (fun base dst => base.graph.Edge .store node dst ∧ base.Stored model node dst)
    Deriving.built
    (fun {called state dst} h he => by
      obtain ⟨new, state', heq, hderiving, hlater, hfinished⟩ := h.storeInto hb he
      exact ⟨new, state', heq, hderiving, hlater, hlater.edge he, hfinished⟩)
    (fun hlater he => hlater.edge he)
    (fun hb hb' hlater ⟨he, hs⟩ => ⟨hlater.edge he, hlater.stored hb hb'.sound (hb.sound.ends he).2.1 hs⟩)
    _ hderiving fun dst hm => (hmem first.2.graph .store dst).mp hm
  obtain ⟨indexed, third, hthird, hderiving'', hlater'', hindexed⟩ := foldlM_derives (Deriving model edges start)
    (fun base dst => base.graph.Edge .offset node dst)
    (fun base dst => base.graph.Edge .offset node dst ∧ base.pts node ⊆ base.handledGEPMap dst)
    Deriving.built
    (fun {called state dst} h he => by
      obtain ⟨new, state', heq, hderiving, hlater, hfinished⟩ := h.offsetInto hb.sound he
      exact ⟨new, state', heq, hderiving, hlater, hlater.edge he, hfinished⟩)
    (fun hlater he => hlater.edge he)
    (fun hb _ hlater ⟨he, hsub⟩ => ⟨hlater.edge he, by
      rw [hlater.pts node (hb.sound.ends he).1]
      exact hsub.trans (hlater.handledGEPMap _)⟩)
    _ hderiving' fun dst hm => (hmem second.2.graph .offset dst).mp hm
  refine ⟨loaded ++ (stored ++ indexed), third, ?_, by simpa only [← List.append_assoc] using hderiving'',
    hlater.trans (hlater'.trans hlater''), fun dst he => ?_, fun dst he => ?_, fun dst he => ?_⟩
  · simp only [AndersenWave.processNode, hfirst, hsecond, Option.bind_eq_bind, Option.bind_some]
    exact hthird
  · have hold := (hlater.trans (hlater'.trans hlater'')).same he (by simp) (by simp)
    obtain ⟨hedge, hdone⟩ := hloaded dst ((hmem state.2.graph .load dst).mpr hold)
    have hb' := hderiving.valid.built
    exact (hlater'.trans hlater'').loaded hb' hderiving''.valid.built.sound (hb'.sound.ends hedge).1 hdone
  · have hold := (hlater'.trans hlater'').same he (by simp) (by simp)
    obtain ⟨hedge, hdone⟩ := hstored dst ((hmem first.2.graph .store dst).mpr hold)
    have hb' := hderiving'.valid.built
    exact hlater''.stored hb' hderiving''.valid.built.sound (hb'.sound.ends hedge).2.1 hdone
  · have hold := hlater''.same he (by simp) (by simp)
    exact (hindexed dst ((hmem second.2.graph .offset dst).mpr hold)).2

/-- What every round keeps. -/
structure Running (model : FieldModel Obj) (edges : Constraints → Place Obj → Place Obj → Prop)
    (objects : Finset Obj) (nodeNum objNum : ℕ) (solver : SolverBase Obj) : Prop where
  valid : solver.Valid model edges
  indexed : solver.Indexed model
  roots : ∀ id, (solver.graph.node id).superNode = none
  within : Within objects nodeNum objNum solver

lemma Running.round (h : Running model edges objects nodeNum objNum state.2) (hindex : model.Indexes ↑objects)
    (hids : nodeNum + 2 * objects.card ≤ SCCIterator.finished) :
    ∃ state', round model state = some state' ∧ Running model edges objects nodeNum objNum state'.2 ∧
      Follows state.2 state'.2 ∧ (state'.1 = true → state.2.copies.ncard < state'.2.copies.ncard) ∧
      (state'.1 = false → state'.2.Closed model) := by
  have hle := (h.within.nodeNum_le h.valid.built).trans hids
  obtain ⟨middle, hcopy, hvalid, henlarges, hclosed⟩ := copyPhase_spec h.valid h.roots hle
  have hb := hvalid.built
  have hderiving : Deriving model edges middle [] (false, middle) :=
    ⟨hvalid, henlarges.indexed h.indexed, .refl _, rfl⟩
  obtain ⟨called, last, hlast, hderiving', hlater, hnodes⟩ := foldlM_derives (Deriving model edges middle)
    (fun _ _ => True) (fun base node => LeavesDone base node model) Deriving.built
    (fun {called state id} h _ => h.processNode hb id) (fun _ _ => trivial)
    (fun hb hb' hlater hd => leavesDone_later hb hb' hlater hd) (List.range middle.graph.nodeNum) hderiving
    fun _ _ => trivial
  rw [List.nil_append] at hderiving'
  have hdone : ∀ id, last.2.Done model id := by
    refine hlater.done_all hb.sound fun id hid => ⟨fun he => ?_, fun {src} he => ?_, fun he => ?_⟩
    · exact (hnodes id (List.mem_range.mpr hid)).1 _ he
    · have hsrc := (hb.sound.ends (hlater.same he (by simp) (by simp))).1
      exact (hnodes src (List.mem_range.mpr hsrc)).2.1 _ he
    · exact (hnodes id (List.mem_range.mpr hid)).2.2 _ he
  refine ⟨last, by simp [AndersenWave.round, hcopy, hlast], ⟨hderiving'.valid, hderiving'.indexed, fun id => ?_,
    (henlarges.keeps.within h.within).later hindex hlater⟩, ?_, fun hchanged => ?_,
    fun hsame => ⟨fun {src dst} he => ?_, hdone, hderiving'.indexed⟩⟩
  · rw [hlater.superNode, henlarges.graph]
    exact h.roots id
  · exact (henlarges.keeps.follows h.valid.built).trans h.valid.built.sound
      (hlater.follows hb hderiving'.valid.built)
  · have hnew : called ≠ [] := by
      rintro rfl
      rw [hderiving'.changed] at hchanged
      cases hchanged
    exact henlarges.keeps.ncard_copies_le.trans_lt
      (hderiving'.grows.copies_lt hb.sound hderiving'.valid.built.sound hclosed (.inl hnew))
  · have hnone : called = [] := by
      rw [hderiving'.changed, Bool.not_eq_false', List.isEmpty_iff] at hsame
      exact hsame
    have hold := (hderiving'.grows.added he).resolve_right (by simp [hnone])
    obtain ⟨hsrc, hdst, -⟩ := hb.sound.ends hold
    rw [hlater.pts src hsrc, hlater.pts dst hdst]
    exact hclosed hold

lemma Running.runSolver (h : Running model edges objects nodeNum objNum solver) (hindex : model.Indexes ↑objects)
    (hids : nodeNum + 2 * objects.card ≤ SCCIterator.finished) {fuel : ℕ}
    (hfuel : (nodeNum + 2 * objects.card) * (nodeNum + 2 * objects.card) ≤ fuel) :
    ∃ solver', runSolver model (fuel + 1) solver = some solver' ∧
      Running model edges objects nodeNum objNum solver' ∧ Follows solver solver' ∧ solver'.Closed model := by
  have hs := h.valid.built.sound
  obtain ⟨last, heq, hrunning, hfollows, hclosed⟩ := @Library.doWhile_ends _ (AndersenWave.round model) Prod.fst
    (fun state => Running model edges objects nodeNum objNum state.2 ∧ Follows solver state.2)
    (fun state => Running model edges objects nodeNum objNum state.2 ∧ Follows solver state.2 ∧
      state.2.Closed model) (fun state => state.2.copies.ncard)
    ((nodeNum + 2 * objects.card) * (nodeNum + 2 * objects.card)) (fun state ⟨hrunning, hfollows⟩ => by
      obtain ⟨state', heq, hrunning', hfollows', hprogress, hclosed⟩ := hrunning.round hindex hids
      have hle := hrunning'.within.nodeNum_le hrunning'.valid.built
      have hlast := hfollows.trans hs hfollows'
      refine ⟨state', heq, fun hagain => ⟨⟨hrunning', hlast⟩, hprogress hagain, ?_⟩,
        fun hagain => ⟨hrunning', hlast, hclosed hagain⟩⟩
      exact (ncard_copies_le state'.2).trans (Nat.mul_le_mul hle hle))
    fuel (false, solver) ⟨h, .refl hs⟩ (hfuel.trans (Nat.le_add_right _ _))
  exact ⟨last.2, by rw [AndersenWave.runSolver, heq]; rfl, hrunning, hfollows, hclosed⟩

/-- The solver ends with the least solution, and collapses nothing. -/
theorem runSolver_wave_least (h : base.Fresh model) (hindex : model.Indexes ↑objects)
    (hobjects : ∀ entry ∈ base.objVec, entry.2 ∈ objects)
    (hids : base.graph.nodeNum + 2 * objects.card ≤ SCCIterator.finished) :
    ∃ fuel solver', runSolver model fuel base = some solver' ∧
      (∀ id, (solver'.graph.node id).superNode = none) ∧ ∀ id < base.graph.nodeNum, ∀ object,
        solver'.PointsTo id object ↔ (model.system base.constraints).Holds (base.place id) object := by
  have hrunning : Running model base.constraints objects base.graph.nodeNum base.objVec.length base :=
    ⟨h.valid id h.unknown, h.indexed, h.roots, ⟨hobjects, rfl⟩⟩
  obtain ⟨solver', heq, hrunning', hfollows, hclosed⟩ := hrunning.runSolver hindex hids le_rfl
  refine ⟨_, solver', heq, hrunning'.roots, fun id hid object => ?_⟩
  rw [hclosed.pointsTo_iff hrunning'.valid (hfollows.carries h.carries), hfollows.place id hid]

theorem runSolver_wave_least_called : ∃ fuel solver',
    runSolver FunctionPointer.fields fuel FunctionPointer.called = some solver' ∧
      (∀ id, (solver'.graph.node id).superNode = none) ∧ ∀ id < 3, ∀ object, solver'.PointsTo id object ↔
        (FunctionPointer.fields.system FunctionPointer.called.constraints).Holds
          (FunctionPointer.called.place id) object := by
  have hobjects : ∀ entry ∈ FunctionPointer.called.objVec, entry.2 ∈ ({()} : Finset Unit) := by simp
  exact runSolver_wave_least FunctionPointer.fresh_called (fun _ hindex => by cases hindex) hobjects (by decide)

end Nodes

end AndersenWave

namespace SolverBase

variable {Obj : Type} {model : FieldModel Obj} {base solver solver' : SolverBase Obj} {n n1 n2 : ℕ}

/-- The null object and the universal object. -/
def Special (solver : SolverBase Obj) (object : Obj) : Prop :=
  ∃ index < normalObjStartID, ∃ node, solver.objVec[index]? = some (node, object)

lemma mem_pts_root (h : solver.Built model) {index node : ℕ} {object : Obj}
    (hi : solver.objVec[index]? = some (node, object)) :
    index ∈ solver.pts (solver.graph.root n) ↔ solver.PointsTo n object := by
  constructor
  · exact fun hm => ⟨index, node, hi, hm⟩
  · rintro ⟨index', node', hi', hm⟩
    rwa [h.index_eq hi hi']

lemma aliasPTS_spec (h : solver.Built model) (n1 n2 : ℕ) : ∃ answer, solver.aliasPTS n1 n2 = some answer ∧
    (answer = true ↔ ∃ object, ¬solver.Special object ∧ solver.PointsTo n1 object ∧ solver.PointsTo n2 object) := by
  refine ⟨_, by simp [aliasPTS, h.sound.getSuperNode_eq]; rfl, ?_⟩
  rw [intersectWithNoSpecialNode, decide_eq_true_eq]
  constructor
  · rintro ⟨index, hm⟩
    simp only [Finset.mem_filter, Finset.mem_inter] at hm
    obtain ⟨⟨hm, hm'⟩, hnormal⟩ := hm
    obtain ⟨node, object, hi⟩ := h.exists_object hm
    refine ⟨object, ?_, (mem_pts_root h hi).mp hm, (mem_pts_root h hi).mp hm'⟩
    rintro ⟨index', hlt, node', hi'⟩
    rw [h.index_eq hi hi'] at hnormal
    exact absurd hlt (Nat.not_lt.mpr hnormal)
  · rintro ⟨object, hspecial, ⟨index, node, hi, hm⟩, hp⟩
    refine ⟨index, ?_⟩
    simp only [Finset.mem_filter, Finset.mem_inter]
    refine ⟨⟨hm, (mem_pts_root h hi).mpr hp⟩, Nat.le_of_not_lt fun hlt => hspecial ⟨index, hlt, node, hi⟩⟩

lemma containsPTS_spec (h : solver.Built model) (n1 n2 : ℕ) : ∃ answer, solver.containsPTS n1 n2 = some answer ∧
    (answer = true ↔ ∀ object, solver.PointsTo n2 object → solver.PointsTo n1 object) := by
  refine ⟨_, by simp [containsPTS, h.sound.getSuperNode_eq]; rfl, ?_⟩
  rw [decide_eq_true_eq]
  constructor
  · rintro hsub object ⟨index, node, hi, hm⟩
    exact ⟨index, node, hi, hsub hm⟩
  · intro himp index hm
    obtain ⟨node, object, hi⟩ := h.exists_object hm
    exact (mem_pts_root h hi).mpr (himp object ((mem_pts_root h hi).mp hm))

lemma hasIdenticalPTS_spec (h : solver.Built model) (n1 n2 : ℕ) : ∃ answer, solver.hasIdenticalPTS n1 n2 = some answer ∧
    (answer = true ↔ ∀ object, solver.PointsTo n1 object ↔ solver.PointsTo n2 object) := by
  refine ⟨_, by simp [hasIdenticalPTS, h.sound.getSuperNode_eq]; rfl, ?_⟩
  rw [decide_eq_true_eq]
  constructor
  · intro heq object
    rw [PointsTo, PointsTo, heq]
  · intro hiff
    ext index
    constructor <;> intro hm <;> obtain ⟨node, object, hi⟩ := h.exists_object hm
    · exact (mem_pts_root h hi).mpr ((hiff object).mp ((mem_pts_root h hi).mp hm))
    · exact (mem_pts_root h hi).mpr ((hiff object).mpr ((mem_pts_root h hi).mp hm))

lemma getPointsTo_spec (h : solver.Built model) (n : ℕ) : ∃ result, solver.getPointsTo n = some result ∧
    ∀ object, object ∈ result ↔ solver.PointsTo n object ∧
      ∃ node, (node, object) ∈ solver.objVec ∧ normalNodeStartID ≤ node := by
  obtain ⟨objNodes, hmap, hfrom, hto⟩ := exists_mapM (f := fun id => solver.objVec[id]?)
    ((solver.pts (solver.graph.root n)).sort (· ≤ ·)) fun index hm =>
      ⟨_, List.getElem?_eq_getElem (h.known ((Finset.mem_sort _).mp hm))⟩
  refine ⟨_, by simp [getPointsTo, h.sound.getSuperNode_eq, hmap]; rfl, fun object => ?_⟩
  simp only [List.mem_map, List.mem_filter, decide_eq_true_eq]
  constructor
  · rintro ⟨⟨node, object⟩, ⟨hm, hnormal⟩, rfl⟩
    obtain ⟨index, hindex, hi⟩ := hfrom _ hm
    exact ⟨⟨index, node, hi, (Finset.mem_sort _).mp hindex⟩, node, List.mem_of_getElem? hi, hnormal⟩
  · rintro ⟨⟨index, node, hi, hm⟩, node', hm', hnormal⟩
    rw [h.node_eq hm' (List.mem_of_getElem? hi)] at hnormal
    exact ⟨(node, object), ⟨hto index ((Finset.mem_sort _).mpr hm) _ hi, hnormal⟩, rfl⟩

lemma Follows.special_iff (h : Follows base solver) (hlen : normalObjStartID ≤ base.objVec.length) {object : Obj} :
    solver.Special object ↔ base.Special object := by
  refine exists_congr fun index => and_congr_right fun hlt => exists_congr fun node => ?_
  have hold := List.getElem?_eq_getElem (hlt.trans_le hlen)
  rw [hold, h.objVec hold]

lemma Follows.normal_iff (h : Follows base solver) (h' : Follows base solver') (hb : solver.Built model)
    (hnum : normalNodeStartID ≤ base.graph.nodeNum) {object : Obj} {node node' : ℕ}
    (hm : (node, object) ∈ solver.objVec) (hm' : (node', object) ∈ solver'.objVec) (hle : normalNodeStartID ≤ node) :
    normalNodeStartID ≤ node' := by
  by_contra hlt
  have hold : (node', object) ∈ base.objVec := (h'.nodes _ hm').resolve_right fun hnew => hlt (hnum.trans hnew)
  obtain ⟨index, hindex⟩ := List.mem_iff_getElem?.mp hold
  have hsame := hb.node_eq hm (List.mem_of_getElem? (h.objVec hindex))
  exact hlt (hsame ▸ hle)

lemma eq_of_answers {α : Type} {result result' : Option α} {answer answer' : α} (h : result = some answer)
    (h' : result' = some answer') (heq : answer = answer') : result = result' := by rw [h, h', heq]

structure Agree (n1 n2 : ℕ) (solver solver' : SolverBase Obj) : Prop where
  aliasPTS : solver.aliasPTS n1 n2 = solver'.aliasPTS n1 n2
  containsPTS : solver.containsPTS n1 n2 = solver'.containsPTS n1 n2
  hasIdenticalPTS : solver.hasIdenticalPTS n1 n2 = solver'.hasIdenticalPTS n1 n2
  getPointsTo : ∃ result result', solver.getPointsTo n1 = some result ∧ solver'.getPointsTo n1 = some result' ∧
    ∀ object, object ∈ result ↔ object ∈ result'

lemma agree_of_pointsTo (hb : solver.Built model) (hb' : solver'.Built model) (h : Follows base solver)
    (h' : Follows base solver') (hlen : normalObjStartID ≤ base.objVec.length)
    (hnum : normalNodeStartID ≤ base.graph.nodeNum)
    (hpts : ∀ object, solver.PointsTo n1 object ↔ solver'.PointsTo n1 object)
    (hpts' : ∀ object, solver.PointsTo n2 object ↔ solver'.PointsTo n2 object) : Agree n1 n2 solver solver' := by
  refine ⟨?_, ?_, ?_, ?_⟩
  · obtain ⟨answer, heq, hiff⟩ := aliasPTS_spec hb n1 n2
    obtain ⟨answer', heq', hiff'⟩ := aliasPTS_spec hb' n1 n2
    refine eq_of_answers heq heq' (Bool.eq_iff_iff.mpr ?_)
    simp only [hiff, hiff', hpts, hpts', h.special_iff hlen, h'.special_iff hlen]
  · obtain ⟨answer, heq, hiff⟩ := containsPTS_spec hb n1 n2
    obtain ⟨answer', heq', hiff'⟩ := containsPTS_spec hb' n1 n2
    refine eq_of_answers heq heq' (Bool.eq_iff_iff.mpr ?_)
    simp only [hiff, hiff', hpts, hpts']
  · obtain ⟨answer, heq, hiff⟩ := hasIdenticalPTS_spec hb n1 n2
    obtain ⟨answer', heq', hiff'⟩ := hasIdenticalPTS_spec hb' n1 n2
    refine eq_of_answers heq heq' (Bool.eq_iff_iff.mpr ?_)
    simp only [hiff, hiff', hpts, hpts']
  · obtain ⟨result, heq, hmem⟩ := getPointsTo_spec hb n1
    obtain ⟨result', heq', hmem'⟩ := getPointsTo_spec hb' n1
    refine ⟨result, result', heq, heq', fun object => ?_⟩
    rw [hmem, hmem', hpts]
    refine and_congr_right fun hp => ⟨?_, ?_⟩
    · rintro ⟨node, hm, hle⟩
      obtain ⟨index, node', hi, -⟩ := hp
      have hm' := List.mem_of_getElem? hi
      exact ⟨node', hm', h.normal_iff h' hb hnum hm hm' hle⟩
    · rintro ⟨node, hm, hle⟩
      obtain ⟨index, node', hi, -⟩ := (hpts object).mpr hp
      have hm' := List.mem_of_getElem? hi
      exact ⟨node', hm', h'.normal_iff h hb' hnum hm hm' hle⟩

lemma Built.nodeNum_le (h : solver.Built model) (hlen : normalObjStartID ≤ solver.objVec.length) :
    normalNodeStartID ≤ solver.graph.nodeNum := by
  have hnodes : ∀ {index : ℕ} (hlt : index < solver.objVec.length), solver.ObjNode solver.objVec[index].1 :=
    fun hlt => ⟨_, List.getElem_mem hlt⟩
  have hzero : 0 < solver.objVec.length := lt_of_lt_of_le (by decide) hlen
  have hone : 1 < solver.objVec.length := lt_of_lt_of_le (by decide) hlen
  have hne : solver.objVec[0].1 ≠ solver.objVec[1].1 := by
    intro heq
    have hsame := List.inj_on_of_nodup_map h.nodes (List.getElem_mem hzero) (List.getElem_mem hone) heq
    exact absurd ((List.Nodup.getElem_inj_iff (List.Nodup.of_map _ h.nodes)).mp hsame) (by simp)
  have hfirst := (h.objNode (hnodes hzero)).1
  have hsecond := (h.objNode (hnodes hone)).1
  have hleft := h.not_objNode ⟨_, hnodes hzero, rfl⟩
  have hright := h.not_objNode ⟨_, hnodes hone, rfl⟩
  have hapart : solver.objVec[0].1 + 1 ≠ solver.objVec[1].1 := fun heq => hleft (heq ▸ hnodes hone)
  have hapart' : solver.objVec[1].1 + 1 ≠ solver.objVec[0].1 := fun heq => hright (heq ▸ hnodes hzero)
  rw [normalNodeStartID]
  omega

/-- The solver that updates part of the graph and the one that goes through all of it answer alike. -/
theorem solvers_agree [DecidableEq Obj] {objects : Finset Obj} (hash : ℕ → ℕ → ℕ) (h : base.Fresh model)
    (hspecial : ∀ src dst, ¬base.graph.Edge .special src dst) (hindex : model.Indexes ↑objects)
    (hobjects : ∀ entry ∈ base.objVec, entry.2 ∈ objects) (hreserved : normalObjStartID ≤ base.objVec.length)
    (hids : base.graph.nodeNum + 2 * objects.card ≤ SCCIterator.finished) :
    ∃ fuel wave updated, AndersenWave.runSolver model fuel base = some wave ∧
      PartialUpdateSolver.runSolver hash model fuel (PartialUpdateSolver.start base) = some updated ∧
      ∀ n1 < base.graph.nodeNum, ∀ n2 < base.graph.nodeNum, Agree n1 n2 wave updated.toSolverBase := by
  have hvalid := h.valid id h.unknown
  have hwithin : Within objects base.graph.nodeNum base.objVec.length base := ⟨hobjects, rfl⟩
  obtain ⟨wave, hwave, hrunning, hfollows, hclosed⟩ := AndersenWave.Running.runSolver
    ⟨hvalid, h.indexed, h.roots, hwithin⟩ hindex hids le_rfl
  obtain ⟨updated, hupdated, hrunning', hfollows', hclosed', -⟩ := PartialUpdateSolver.Running.runSolver
    ⟨PartialUpdateSolver.ready_start hash hvalid h.indexed, hwithin⟩ (constraints_not_special hspecial) hindex
    hids le_rfl
  have hpts : ∀ n < base.graph.nodeNum, ∀ object, wave.PointsTo n object ↔ updated.PointsTo n object := by
    intro n hn object
    rw [hclosed.pointsTo_iff hrunning.valid (hfollows.carries h.carries), hfollows.place n hn,
      hclosed'.pointsTo_iff hrunning'.ready.valid (hfollows'.carries h.carries), hfollows'.place n hn]
    rfl
  exact ⟨_, wave, updated, hwave, hupdated, fun n1 hn1 n2 hn2 => agree_of_pointsTo hrunning.valid.built
    hrunning'.ready.valid.built hfollows hfollows' hreserved (h.built.nodeNum_le hreserved) (hpts n1 hn1) (hpts n2 hn2)⟩

/-- A language model that finds no new target of any call. -/
def Unresolving (lang : LangModel Obj) : Prop :=
  ∀ state solver, (lang.updateFunPtrs state solver).1 = [] ∧ (lang.updateFunPtrs state solver).2.1 = false

lemma resolveFunPtrs_unresolving {lang : LangModel Obj} (hlang : Unresolving lang) {Solver : Type}
    (toBase : Solver → SolverBase Obj) (add : Solver → Addition Obj → Option Solver) (clear : Solver → Solver)
    (solving : Solving lang Solver) : ∃ solving', resolveFunPtrs toBase add clear solving = some solving' ∧
      solving'.reanalyze = false ∧
        (solving'.solver = solving.solver ∨ solving'.solver = clear solving.solver) := by
  by_cases hupdated : (toBase solving.solver).updatedFunPtrs = ∅
  · exact ⟨{ solving with reanalyze := false }, if_pos hupdated, rfl, .inl rfl⟩
  · obtain ⟨hnone, hsame⟩ := hlang solving.state (toBase solving.solver)
    refine ⟨⟨false, (lang.updateFunPtrs solving.state (toBase solving.solver)).2.2, clear solving.solver,
      solving.added ++ []⟩, ?_, rfl, .inr rfl⟩
    rw [resolveFunPtrs, if_neg hupdated]
    dsimp only
    rw [hnone, hsame]
    rfl

lemma doWhile_once {State : Type*} {body : State → Option State} {again : State → Bool} {state state' : State}
    (h : body state = some state') (hagain : again state' = false) (fuel : ℕ) :
    Library.doWhile body again (fuel + 1) state = some state' := by
  simp [Library.doWhile, h, hagain]

/-- Where no call is resolved, the wave solver ends, collapses nothing and points to what the least solution says, and
so does the partial update solver, through the nodes that its nodes are collapsed into. -/
theorem wave_least_as_partial [DecidableEq Obj] {objects : Finset Obj} (hash : ℕ → ℕ → ℕ) {lang : LangModel Obj}
    (hlang : Unresolving lang) (state : lang.State) (h : base.Fresh model)
    (hspecial : ∀ src dst, ¬base.graph.Edge .special src dst) (hindex : model.Indexes ↑objects)
    (hobjects : ∀ entry ∈ base.objVec, entry.2 ∈ objects)
    (hids : base.graph.nodeNum + 2 * objects.card ≤ SCCIterator.finished) :
    ∃ fuel wave updated, AndersenWave.solve model lang state fuel base = some wave ∧
      PartialUpdateSolver.solve hash model lang state fuel base = some updated ∧
      (∀ id, (wave.solver.graph.node id).superNode = none) ∧ ∀ id < base.graph.nodeNum, ∀ object,
        (wave.solver.PointsTo id object ↔ (model.system base.constraints).Holds (base.place id) object) ∧
          (updated.solver.PointsTo id object ↔ wave.solver.PointsTo id object) := by
  have hvalid := h.valid id h.unknown
  have hwithin : Within objects base.graph.nodeNum base.objVec.length base := ⟨hobjects, rfl⟩
  obtain ⟨wave, hwave, hrunning, hfollows, hclosed⟩ := AndersenWave.Running.runSolver
    ⟨hvalid, h.indexed, h.roots, hwithin⟩ hindex hids le_rfl
  obtain ⟨updated, hupdated, hrunning', hfollows', hclosed', hfinished⟩ := PartialUpdateSolver.Running.runSolver
    ⟨PartialUpdateSolver.ready_start hash hvalid h.indexed, hwithin⟩ (constraints_not_special hspecial) hindex
    hids le_rfl
  have hleast : ∀ id < base.graph.nodeNum, ∀ object, wave.PointsTo id object ↔
      (model.system base.constraints).Holds (base.place id) object := by
    intro id hid object
    rw [hclosed.pointsTo_iff hrunning.valid (hfollows.carries h.carries), hfollows.place id hid]
  have hleast' : ∀ id < base.graph.nodeNum, ∀ object, updated.PointsTo id object ↔
      (model.system base.constraints).Holds (base.place id) object := by
    intro id hid object
    rw [hclosed'.pointsTo_iff hrunning'.ready.valid (hfollows'.carries h.carries), hfollows'.place id hid]
    rfl
  obtain ⟨last, hlast, hend, hsolver⟩ := resolveFunPtrs_unresolving hlang id
    (fun solver addition => (solver.add model addition).map Prod.snd) (fun solver => { solver with updatedFunPtrs := ∅ })
    { reanalyze := true, state, solver := wave, added := [] }
  obtain ⟨last', hlast', hend', hsolver'⟩ := resolveFunPtrs_unresolving hlang PartialUpdateSolver.toSolverBase
    (PartialUpdateSolver.addNoticed hash model updated.graph.nodeNum) (fun solver => { solver with updatedFunPtrs := ∅ })
    { reanalyze := true, state, solver := updated, added := [] }
  have hgraph : last.solver.graph = wave.graph ∧
      ∀ id object, last.solver.PointsTo id object ↔ wave.PointsTo id object := by
    rcases hsolver with heq | heq <;> rw [heq] <;> exact ⟨rfl, fun _ _ => Iff.rfl⟩
  have hpoints : ∀ id object, last'.solver.PointsTo id object ↔ updated.PointsTo id object := by
    rcases hsolver' with heq | heq <;> rw [heq] <;> exact fun _ _ => Iff.rfl
  have honce : AndersenWave.solveOnce model ((base.graph.nodeNum + 2 * objects.card) *
      (base.graph.nodeNum + 2 * objects.card) + 1) { reanalyze := true, state, solver := base, added := [] } =
        some last := by
    rw [AndersenWave.solveOnce, hwave]
    exact hlast
  have honce' : PartialUpdateSolver.solveOnce hash model ((base.graph.nodeNum + 2 * objects.card) *
      (base.graph.nodeNum + 2 * objects.card) + 1)
        { reanalyze := true, state, solver := PartialUpdateSolver.start base, added := [] } =
          some { last' with solver := PartialUpdateSolver.resized last'.solver } := by
    simp [PartialUpdateSolver.solveOnce, hupdated, hfinished, hlast', PartialUpdateSolver.resized]
  refine ⟨_, last, { last' with solver := PartialUpdateSolver.resized last'.solver }, doWhile_once honce hend _,
    doWhile_once honce' hend' _, ?_, fun id hid object => ?_⟩
  · rw [hgraph.1]
    exact hrunning.roots
  · rw [hgraph.2, hleast id hid]
    refine ⟨Iff.rfl, (hpoints id object).trans (hleast' id hid object)⟩

-- The null pointer and the universal pointer, and their objects.
namespace SpecialNodes

def fields : FieldModel Bool where
  index _ _ := none
  constant _ := false

def pointers : SolverBase Bool :=
  ((((((empty.add fields .ptrNode).map Prod.snd).getD empty).add fields .ptrNode).map Prod.snd).getD empty)

def nullObject : SolverBase Bool := ((pointers.add fields (.objNode false)).map Prod.snd).getD empty

def allocated : SolverBase Bool := ((nullObject.add fields (.objNode true)).map Prod.snd).getD empty

lemma fresh_allocated : allocated.Fresh fields := by
  have hpointers : pointers.Fresh fields := (fresh_empty.added .ptrNode trivial).added .ptrNode trivial
  have hnull : nullObject.Fresh fields := hpointers.added (.objNode false) List.not_mem_nil
  refine hnull.added (.objNode true) ?_
  rw [Allows, show nullObject.objVec = [(2, false)] from rfl]
  simp

lemma not_special_allocated (src dst : ℕ) : ¬allocated.graph.Edge .special src dst := by
  intro he
  have hsrc : src < 6 := (fresh_allocated.built.sound.ends he).1
  rw [Edge, (by decide : ∀ src < 6, (allocated.graph.node src).succCons .special = ∅) src hsrc] at he
  exact absurd he (Finset.notMem_empty _)

end SpecialNodes

-- Two pointers that are copied to each other, one of which takes an address.
namespace CopyCycle

def pointers : SolverBase Bool :=
  ((((((SpecialNodes.allocated.add SpecialNodes.fields .ptrNode).map Prod.snd).getD empty).add
    SpecialNodes.fields .ptrNode).map Prod.snd).getD empty)

def taken : SolverBase Bool := ((pointers.add SpecialNodes.fields (.constraint 4 6 .addrOf)).map Prod.snd).getD empty

def copied : SolverBase Bool := ((taken.add SpecialNodes.fields (.constraint 6 7 .copy)).map Prod.snd).getD empty

def cycle : SolverBase Bool := ((copied.add SpecialNodes.fields (.constraint 7 6 .copy)).map Prod.snd).getD empty

lemma admits {solver : SolverBase Bool} (h : solver.Built SpecialNodes.fields)
    (hobjs : solver.objVec = [(2, false), (4, true)])
    (hnum : solver.graph.nodeNum = 8) (hroots : ∀ id, (solver.graph.node id).superNode = none)
    (hoffset : ∀ src < 8, (solver.graph.node src).succCons .offset = ∅) (hhandled : ∀ id, solver.handledGEPMap id = ∅)
    {src dst : ℕ} {kind : Constraints} (hkind : kind = .copy ∨ kind = .addrOf ∧ src = 4) (hsrc : src < 8)
    (hdst : 6 ≤ dst ∧ dst < 8) : solver.Admits src dst kind := by
  have hobj : ∀ id, solver.ObjNode id ↔ id = 2 ∨ id = 4 := by
    intro id
    simp [ObjNode, hobjs, exists_or]
  refine h.admits (hnum ▸ hsrc) (hnum ▸ hdst.2) (hroots dst) ?_ ?_ ?_ ?_ ?_ ?_
  · rcases hkind with rfl | ⟨rfl, -⟩ <;> simp
  · rcases hkind with rfl | ⟨-, rfl⟩
    · intro hkind
      cases hkind
    · exact fun _ => (hobj 4).mpr (.inr rfl)
  · rw [hobj]
    omega
  · rintro ⟨node, hnode, hid⟩
    rw [hobj] at hnode
    omega
  · rintro (⟨other, he⟩ | ⟨object, hm⟩ | ⟨kind', other, hi, -⟩)
    · have hlt : other < 8 := hnum ▸ (h.sound.ends he).1
      rw [Edge, hoffset other hlt] at he
      cases he
    · rw [hhandled] at hm
      cases hm
    · obtain ⟨object, hm⟩ := h.immutable hi
      rw [h.constant hm] at hi
      cases hi
  · rcases hkind with rfl | ⟨rfl, -⟩ <;> simp

lemma fresh_cycle : cycle.Fresh SpecialNodes.fields := by
  have hpointers : pointers.Fresh SpecialNodes.fields :=
    (SpecialNodes.fresh_allocated.added .ptrNode trivial).added .ptrNode trivial
  have htaken : taken.Fresh SpecialNodes.fields := hpointers.added (.constraint 4 6 .addrOf)
    (admits hpointers.built rfl rfl hpointers.roots (by decide) hpointers.unhandled (.inr ⟨rfl, rfl⟩) (by decide)
      (by decide))
  have hcopied : copied.Fresh SpecialNodes.fields := htaken.added (.constraint 6 7 .copy)
    (admits htaken.built rfl rfl htaken.roots (by decide) htaken.unhandled (.inl rfl) (by decide) (by decide))
  exact hcopied.added (.constraint 7 6 .copy)
    (admits hcopied.built rfl rfl hcopied.roots (by decide) hcopied.unhandled (.inl rfl) (by decide) (by decide))

lemma not_special_cycle (src dst : ℕ) : ¬cycle.graph.Edge .special src dst := by
  intro he
  have hsrc : src < 8 := (fresh_cycle.built.sound.ends he).1
  rw [Edge, (by decide : ∀ src < 8, (cycle.graph.node src).succCons .special = ∅) src hsrc] at he
  exact absurd he (Finset.notMem_empty _)

def lang : LangModel Bool where
  State := Unit
  updateFunPtrs _ _ := ([], false, ())

end CopyCycle

theorem wave_least_as_partial_cycle : ∃ fuel wave updated,
    AndersenWave.solve SpecialNodes.fields CopyCycle.lang () fuel CopyCycle.cycle = some wave ∧
      PartialUpdateSolver.solve (· + ·) SpecialNodes.fields CopyCycle.lang () fuel CopyCycle.cycle = some updated ∧
      (∀ id, (wave.solver.graph.node id).superNode = none) ∧ ∀ id < 8, ∀ object,
        (wave.solver.PointsTo id object ↔ (SpecialNodes.fields.system CopyCycle.cycle.constraints).Holds
          (CopyCycle.cycle.place id) object) ∧
            (updated.solver.PointsTo id object ↔ wave.solver.PointsTo id object) := by
  have hobjects : ∀ entry ∈ CopyCycle.cycle.objVec, entry.2 ∈ (Finset.univ : Finset Bool) := by simp
  have hlang : Unresolving CopyCycle.lang := fun _ _ => ⟨rfl, rfl⟩
  exact wave_least_as_partial (· + ·) hlang () CopyCycle.fresh_cycle CopyCycle.not_special_cycle
    (fun _ hindex => by cases hindex) hobjects (by decide)

theorem solvers_agree_special : ∃ fuel wave updated,
    AndersenWave.runSolver SpecialNodes.fields fuel SpecialNodes.allocated = some wave ∧
      PartialUpdateSolver.runSolver (· + ·) SpecialNodes.fields fuel
        (PartialUpdateSolver.start SpecialNodes.allocated) = some updated ∧
      ∀ n1 < 6, ∀ n2 < 6, Agree n1 n2 wave updated.toSolverBase := by
  have hobjects : ∀ entry ∈ SpecialNodes.allocated.objVec, entry.2 ∈ (Finset.univ : Finset Bool) := by simp
  exact solvers_agree (· + ·) SpecialNodes.fresh_allocated SpecialNodes.not_special_allocated
    (fun _ hindex => by cases hindex) hobjects (by decide) (by decide)

end SolverBase

end OpenRace
