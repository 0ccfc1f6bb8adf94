import OpenRace.Library.CrossedChains
import OpenRace.Library.Worklist
import OpenRace.Trace.Event
import Mathlib.Data.Finset.Sort
import Mathlib.Data.List.AList

/-! The sync events of each thread and the edges between them. -/

namespace OpenRace

open Library SortedSearch

structure SyncTables where
  syncEdges : AList (fun _ : EventPID => Finset EventPID)
  threadSyncs : AList (fun _ : ℕ => List EventPID)

namespace SyncTables

def empty : SyncTables := ⟨∅, ∅⟩

def edges (tables : SyncTables) (node : EventPID) : Finset EventPID :=
  (tables.syncEdges.lookup node).getD ∅

def syncs (tables : SyncTables) (tid : ℕ) : List EventPID :=
  (tables.threadSyncs.lookup tid).getD []

def addSync (tables : SyncTables) (sync : EventPID) : SyncTables :=
  { tables with
    threadSyncs := tables.threadSyncs.insert sync.tid (insertAt (tables.syncs sync.tid) sync) }

def insertEdge (tables : SyncTables) (src dst : EventPID) : SyncTables :=
  { tables with syncEdges := tables.syncEdges.insert src (insert dst (tables.edges src)) }

def addSyncEdge (tables : SyncTables) (src dst : EventPID) : SyncTables :=
  ((tables.insertEdge src dst).addSync src).addSync dst

def findNextSyncAfter (tables : SyncTables) (node : EventPID) : Option EventPID :=
  match tables.threadSyncs.lookup node.tid with
  | none => none
  | some syncs => upperBound syncs node

def findNextSync (tables : SyncTables) (node : EventPID) : Option EventPID :=
  match tables.threadSyncs.lookup node.tid with
  | none => none
  | some syncs => lowerBound syncs node

def findPrevSync (tables : SyncTables) (node : EventPID) : Option EventPID :=
  match tables.threadSyncs.lookup node.tid with
  | none => none
  | some syncs => lastAtMost syncs node

def hasEdge (tables : SyncTables) (src dst : EventPID) : Bool :=
  if src = dst then true
  else match tables.syncEdges.lookup src with
    | none => false
    | some destinations => decide (dst ∈ destinations)

def allSrcs (tables : SyncTables) : Finset EventPID :=
  (tables.threadSyncs.entries.flatMap (·.2)).toFinset

/-- What the search puts on its worklist after a node, in order. -/
def next (tables : SyncTables) (node : EventPID) : List EventPID :=
  (tables.edges node).sort (· ≤ ·) ++ (tables.findNextSyncAfter node).toList

@[simp] lemma addSync_edges (tables : SyncTables) (sync : EventPID) :
    (tables.addSync sync).edges = tables.edges := rfl

lemma addSync_syncs (tables : SyncTables) (sync : EventPID) (tid : ℕ) :
    (tables.addSync sync).syncs tid =
      if tid = sync.tid then insertAt (tables.syncs tid) sync else tables.syncs tid := by
  by_cases h : tid = sync.tid
  · subst h
    simp [addSync, syncs]
  · simp [addSync, syncs, AList.lookup_insert_ne h, h]

lemma addSyncEdge_edges (tables : SyncTables) (src dst node : EventPID) :
    (tables.addSyncEdge src dst).edges node =
      if node = src then insert dst (tables.edges node) else tables.edges node := by
  simp only [addSyncEdge, addSync_edges]
  by_cases h : node = src
  · subst h
    simp [insertEdge, edges]
  · simp [insertEdge, edges, AList.lookup_insert_ne h, h]

lemma mem_addSyncEdge_edges {tables : SyncTables} {src dst a b : EventPID} :
    b ∈ (tables.addSyncEdge src dst).edges a ↔ (a = src ∧ b = dst) ∨ b ∈ tables.edges a := by
  rw [addSyncEdge_edges]
  split <;> simp_all

lemma findNextSyncAfter_eq (tables : SyncTables) (node : EventPID) :
    tables.findNextSyncAfter node = upperBound (tables.syncs node.tid) node := by
  rw [findNextSyncAfter, syncs]
  split <;> simp_all [upperBound]

lemma findNextSync_eq (tables : SyncTables) (node : EventPID) :
    tables.findNextSync node = lowerBound (tables.syncs node.tid) node := by
  rw [findNextSync, syncs]
  split <;> simp_all [lowerBound]

lemma findPrevSync_eq (tables : SyncTables) (node : EventPID) :
    tables.findPrevSync node = lastAtMost (tables.syncs node.tid) node := by
  rw [findPrevSync, syncs]
  split <;> simp_all [lastAtMost]

lemma hasEdge_iff (tables : SyncTables) (src dst : EventPID) :
    tables.hasEdge src dst = true ↔ src = dst ∨ dst ∈ tables.edges src := by
  rw [hasEdge, edges]
  by_cases h : src = dst
  · simp [h]
  · cases tables.syncEdges.lookup src <;> simp [h]

lemma mem_next {tables : SyncTables} {a b : EventPID} :
    b ∈ tables.next a ↔ b ∈ tables.edges a ∨ upperBound (tables.syncs a.tid) a = some b := by
  simp [next, findNextSyncAfter_eq]

end SyncTables

structure SyncGraph extends SyncTables where
  ascending : ∀ tid, Ascending (toSyncTables.syncs tid)
  on_thread : ∀ tid, ∀ sync ∈ toSyncTables.syncs tid, sync.tid = tid
  edge_src : ∀ a, ∀ b ∈ toSyncTables.edges a, a ∈ toSyncTables.syncs a.tid
  edge_dst : ∀ a, ∀ b ∈ toSyncTables.edges a, b ∈ toSyncTables.syncs b.tid

namespace SyncGraph

lemma mem_addSync {tables : SyncTables} (ha : ∀ tid, Ascending (tables.syncs tid))
    (sync : EventPID) (tid : ℕ) (b : EventPID) :
    b ∈ (tables.addSync sync).syncs tid ↔ (tid = sync.tid ∧ b = sync) ∨ b ∈ tables.syncs tid := by
  rw [SyncTables.addSync_syncs]
  split
  · rename_i h
    rw [mem_insertAt (ha tid)]
    tauto
  · rename_i h
    tauto

lemma addSync_ascending {tables : SyncTables} (ha : ∀ tid, Ascending (tables.syncs tid))
    (sync : EventPID) (tid : ℕ) : Ascending ((tables.addSync sync).syncs tid) := by
  rw [SyncTables.addSync_syncs]
  split
  · exact insertAt_ascending (ha tid) sync
  · exact ha tid

def empty : SyncGraph where
  toSyncTables := SyncTables.empty
  ascending _ := by simp [SyncTables.empty, SyncTables.syncs]
  on_thread _ := by simp [SyncTables.empty, SyncTables.syncs]
  edge_src _ := by simp [SyncTables.empty, SyncTables.edges]
  edge_dst _ := by simp [SyncTables.empty, SyncTables.edges]

lemma mem_addSyncEdge (graph : SyncGraph) (src dst : EventPID) (tid : ℕ) (b : EventPID) :
    b ∈ (graph.toSyncTables.addSyncEdge src dst).syncs tid ↔
      (tid = dst.tid ∧ b = dst) ∨ (tid = src.tid ∧ b = src) ∨ b ∈ graph.syncs tid := by
  have ha : ∀ tid, Ascending ((graph.toSyncTables.insertEdge src dst).syncs tid) := graph.ascending
  rw [SyncTables.addSyncEdge, mem_addSync (addSync_ascending ha src), mem_addSync ha]
  rfl

def addSyncEdge (graph : SyncGraph) (src dst : EventPID) : SyncGraph where
  toSyncTables := graph.toSyncTables.addSyncEdge src dst
  ascending := addSync_ascending (addSync_ascending graph.ascending src) dst
  on_thread tid sync h := by
    rw [mem_addSyncEdge] at h
    obtain ⟨rfl, rfl⟩ | ⟨rfl, rfl⟩ | h := h
    · rfl
    · rfl
    · exact graph.on_thread tid sync h
  edge_src a b h := by
    rw [mem_addSyncEdge]
    rw [SyncTables.mem_addSyncEdge_edges] at h
    cases h with
    | inl h => simp [h.1]
    | inr h => exact Or.inr (Or.inr (graph.edge_src a b h))
  edge_dst a b h := by
    rw [mem_addSyncEdge]
    rw [SyncTables.mem_addSyncEdge_edges] at h
    cases h with
    | inl h => simp [h.2]
    | inr h => exact Or.inr (Or.inr (graph.edge_dst a b h))

def addSyncEdges (graph : SyncGraph) (edges : List (EventPID × EventPID)) : SyncGraph :=
  edges.foldl (fun graph edge => graph.addSyncEdge edge.1 edge.2) graph

lemma addSyncEdges_edges (graph : SyncGraph) (edges : List (EventPID × EventPID)) (a b : EventPID) :
    b ∈ (graph.addSyncEdges edges).edges a ↔ b ∈ graph.edges a ∨ (a, b) ∈ edges := by
  induction edges generalizing graph with
  | nil => simp [addSyncEdges]
  | cons edge rest ih =>
    have hstep : b ∈ (graph.addSyncEdge edge.1 edge.2).edges a ↔
        (a = edge.1 ∧ b = edge.2) ∨ b ∈ graph.edges a := SyncTables.mem_addSyncEdge_edges
    have hpair : (a, b) = edge ↔ a = edge.1 ∧ b = edge.2 := Prod.ext_iff
    change b ∈ ((graph.addSyncEdge edge.1 edge.2).addSyncEdges rest).edges a ↔ _
    rw [ih, hstep, List.mem_cons, hpair]
    tauto

lemma mem_allSrcs (graph : SyncGraph) (node : EventPID) :
    node ∈ graph.allSrcs ↔ node ∈ graph.syncs node.tid := by
  simp only [SyncTables.allSrcs, List.mem_toFinset, List.mem_flatMap, SyncTables.syncs]
  constructor
  · rintro ⟨⟨tid, syncs⟩, hentry, hnode⟩
    have hlookup : graph.threadSyncs.lookup tid = some syncs := by
      rw [← Option.mem_def, AList.mem_lookup_iff]
      exact hentry
    have htid : node.tid = tid := graph.on_thread tid node (by simpa [SyncTables.syncs, hlookup])
    subst htid
    simpa [hlookup] using hnode
  · intro h
    cases hlookup : graph.threadSyncs.lookup node.tid with
    | none => simp [hlookup] at h
    | some syncs =>
      rw [← Option.mem_def, AList.mem_lookup_iff] at hlookup
      refine ⟨⟨node.tid, syncs⟩, hlookup, ?_⟩
      rw [AList.mem_lookup_iff.mpr hlookup] at h
      simpa using h

def chainOf (pid : EventPID) : ℕ := pid.tid

lemma landmarks (graph : SyncGraph) :
    CrossedChains.Landmarks chainOf (fun a b => b ∈ graph.edges a) graph.syncs :=
  ⟨graph.ascending, graph.on_thread, graph.edge_src, graph.edge_dst⟩

lemma closed (graph : SyncGraph) : Worklist.Closed graph.next graph.allSrcs := by
  intro a _ b hb
  rw [mem_allSrcs]
  cases SyncTables.mem_next.mp hb with
  | inl h => exact graph.edge_dst a b h
  | inr h =>
    have hm := (upperBound_some (graph.ascending _) h).1
    rwa [graph.on_thread _ b hm]

end SyncGraph

end OpenRace
