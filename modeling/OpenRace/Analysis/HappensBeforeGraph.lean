import OpenRace.Analysis.SyncGraph

/-! Happens-before queries, answered on the sync events alone. -/

namespace OpenRace

open Library SortedSearch Relation

structure HappensBeforeGraph extends SyncGraph where
  syncReachable : EventPID → Option (Finset EventPID)

namespace HappensBeforeGraph

/-- Everything the worklist of the constructor visits, when it starts with `src`. -/
def reachableFrom (graph : SyncGraph) (src : EventPID) (h : src ∈ graph.allSrcs) : Finset EventPID :=
  Worklist.search graph.next graph.allSrcs graph.closed [src] ∅ (by simpa using h)

def precompute (graph : SyncGraph) : HappensBeforeGraph where
  toSyncGraph := graph
  syncReachable src := if h : src ∈ graph.allSrcs then some (reachableFrom graph src h) else none

def isReachable (graph : HappensBeforeGraph) (src dst : EventPID) : Bool :=
  match graph.syncReachable src with
  | none => false
  | some reachable => decide (dst ∈ reachable)

def canReach (graph : HappensBeforeGraph) (src dst : EventPID) : Bool :=
  match graph.findNextSync src with
  | none => false
  | some srcSync =>
    match graph.findPrevSync dst with
    | none => false
    | some dstSync =>
      if graph.hasEdge srcSync dstSync then true else graph.isReachable srcSync dstSync

def areParallel (graph : HappensBeforeGraph) (lhs rhs : EventPID) : Bool :=
  !graph.canReach lhs rhs && !graph.canReach rhs lhs

abbrev SyncHop (graph : SyncGraph) : EventPID → EventPID → Prop :=
  CrossedChains.Hop SyncGraph.chainOf (fun a b => b ∈ graph.edges a) graph.syncs

lemma step_iff_hop (graph : SyncGraph) (a b : EventPID) :
    Worklist.Step graph.next a b ↔ SyncHop graph a b :=
  SyncTables.mem_next

lemma isReachable_iff (graph : SyncGraph) {src dst : EventPID} (h : src ∈ graph.allSrcs) :
    (precompute graph).isReachable src dst = true ↔ ReflTransGen (SyncHop graph) src dst := by
  have hstep : Worklist.Step graph.next = SyncHop graph := by
    funext a b
    exact propext (step_iff_hop graph a b)
  simp only [isReachable, precompute, dif_pos h, decide_eq_true_eq, reachableFrom,
    Worklist.mem_search_iff, List.mem_singleton, exists_eq_left, Worklist.Reachable, hstep]

lemma findNextSync_mem (graph : SyncGraph) {a s : EventPID} (h : graph.findNextSync a = some s) :
    s ∈ graph.allSrcs := by
  rw [SyncTables.findNextSync_eq] at h
  have hm := (lowerBound_some (graph.ascending _) h).1
  rw [SyncGraph.mem_allSrcs]
  rwa [graph.on_thread _ s hm]

lemma canReach_iff_hops (graph : SyncGraph) (a b : EventPID) :
    (precompute graph).canReach a b = true ↔ ∃ s t, graph.findNextSync a = some s ∧
      graph.findPrevSync b = some t ∧ ReflTransGen (SyncHop graph) s t := by
  change (match graph.findNextSync a with
    | none => false
    | some srcSync => match graph.findPrevSync b with
      | none => false
      | some dstSync =>
        if graph.hasEdge srcSync dstSync then true
        else (precompute graph).isReachable srcSync dstSync) = true ↔ _
  cases hs : graph.findNextSync a with
  | none => simp
  | some s =>
    cases ht : graph.findPrevSync b with
    | none => simp
    | some t =>
      have hr : (precompute graph).isReachable s t = true ↔ ReflTransGen (SyncHop graph) s t :=
        isReachable_iff graph (findNextSync_mem graph hs)
      have hends : (∃ s' t', some s = some s' ∧ some t = some t' ∧
          ReflTransGen (SyncHop graph) s' t') ↔ ReflTransGen (SyncHop graph) s t := by
        simp
      rw [hends, ← hr]
      by_cases he : graph.hasEdge s t
      · simp only [he, if_true, true_iff, hr]
        obtain rfl | he := (SyncTables.hasEdge_iff _ s t).mp he
        · exact .refl
        · exact .single (Or.inl he)
      · simp [he]

/-- Reachability along threads and sync edges, over all event numbers. -/
abbrev Ordered (graph : SyncGraph) : EventPID → EventPID → Prop :=
  CrossedChains.Full SyncGraph.chainOf (fun a b => b ∈ graph.edges a)

theorem canReach_iff_ordered (graph : SyncGraph) {a b : EventPID} (hab : a.tid ≠ b.tid) :
    (precompute graph).canReach a b = true ↔ Ordered graph a b := by
  rw [canReach_iff_hops, Ordered, CrossedChains.full_iff graph.landmarks hab]
  simp only [SyncTables.findNextSync_eq, SyncTables.findPrevSync_eq]
  rfl

section EventGraph

variable (size : ℕ → ℕ)

def IsEvent (a : EventPID) : Prop := a.eid < size a.tid

/-- An edge of the full event graph: the next event of the thread, or a sync edge. -/
def EventStep (edges : List (EventPID × EventPID)) (a b : EventPID) : Prop :=
  (a.tid = b.tid ∧ b.eid = a.eid + 1 ∧ IsEvent size b) ∨ (a, b) ∈ edges

variable {size}
variable {edges : List (EventPID × EventPID)}

lemma EventStep.along (n : ℕ) {a b : EventPID} (hb : IsEvent size b) (htid : a.tid = b.tid)
    (hn : b.eid = a.eid + n) : ReflTransGen (EventStep size edges) a b := by
  induction n generalizing b with
  | zero =>
    obtain rfl : a = b := EventPID.ext htid (by omega)
    exact .refl
  | succ n ih =>
    have hprev : IsEvent size ⟨b.tid, a.eid + n⟩ := by
      simp only [IsEvent] at hb ⊢
      omega
    refine .tail (ih hprev htid rfl) (Or.inl ⟨rfl, ?_, hb⟩)
    simp only
    omega

lemma path_iff_ordered (hedges : ∀ edge ∈ edges, IsEvent size edge.1 ∧ IsEvent size edge.2)
    {a b : EventPID} (hb : IsEvent size b) :
    ReflTransGen (EventStep size edges) a b ↔ Ordered (SyncGraph.empty.addSyncEdges edges) a b := by
  have hedge : ∀ c d, d ∈ (SyncGraph.empty.addSyncEdges edges).edges c ↔ (c, d) ∈ edges := by
    intro c d
    rw [SyncGraph.addSyncEdges_edges]
    simp [SyncGraph.empty, SyncTables.empty, SyncTables.edges]
  constructor
  · apply ReflTransGen.mono
    intro c d h
    cases h with
    | inl h => exact Or.inl ⟨h.1, (EventPID.le_iff_eid h.1).mpr (by omega)⟩
    | inr h => exact Or.inr ((hedge c d).mpr h)
  · intro h
    -- from the target backwards every node of the path is an event
    suffices IsEvent size a ∧ ReflTransGen (EventStep size edges) a b from this.2
    induction h using ReflTransGen.head_induction_on with
    | refl => exact ⟨hb, .refl⟩
    | @head c d hstep _ ih =>
      cases hstep with
      | inl hstep =>
        have htid : c.tid = d.tid := hstep.1
        have hle := (EventPID.le_iff_eid htid).mp hstep.2
        have hd := ih.1
        refine ⟨?_, (EventStep.along (d.eid - c.eid) hd htid (by omega)).trans ih.2⟩
        simp only [IsEvent, htid] at hd ⊢
        omega
      | inr hstep =>
        have hm := (hedge c d).mp hstep
        exact ⟨(hedges _ hm).1, .head (Or.inr hm) ih.2⟩

/-- On different threads `canReach` decides paths of the full event graph. -/
theorem canReach_iff_path (edges : List (EventPID × EventPID))
    (hedges : ∀ edge ∈ edges, IsEvent size edge.1 ∧ IsEvent size edge.2) (a b : EventPID)
    (hb : IsEvent size b) (hab : a.tid ≠ b.tid) :
    (precompute (SyncGraph.empty.addSyncEdges edges)).canReach a b = true ↔
      ReflTransGen (EventStep size edges) a b :=
  (canReach_iff_ordered _ hab).trans (path_iff_ordered hedges hb).symm

/-- Two threads of three events with a fork edge between them. -/
theorem canReach_iff_path_forked :
    (precompute (SyncGraph.empty.addSyncEdges [(⟨0, 1⟩, ⟨1, 0⟩)])).canReach ⟨0, 0⟩ ⟨1, 2⟩ = true ↔
      ReflTransGen (EventStep (fun _ => 3) [(⟨0, 1⟩, ⟨1, 0⟩)]) ⟨0, 0⟩ ⟨1, 2⟩ :=
  canReach_iff_path _ (by simp [IsEvent]) _ _ (by simp [IsEvent]) (by decide)

end EventGraph

end HappensBeforeGraph

end OpenRace
