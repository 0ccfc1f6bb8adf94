import OpenRace.Analysis.GraphConstruction

/-! The edges of a constructed graph, told from the events that were visited. -/

namespace OpenRace

open LLVM Relation

variable {Ctx : Type} [DecidableEq Ctx]

abbrev Visit (Ctx : Type) := ThreadTrace Ctx × Event Ctx

def ProgramTrace.visits (program : ProgramTrace Ctx) : List (Visit Ctx) :=
  program.threads.flatMap (fun thread => thread.events.map (fun event => (thread, event)))

omit [DecidableEq Ctx] in
lemma mem_visits {program : ProgramTrace Ctx} {visit : Visit Ctx} :
    visit ∈ program.visits ↔ visit.1 ∈ program.threads ∧ visit.2 ∈ visit.1.events := by
  obtain ⟨thread, event⟩ := visit
  simp [ProgramTrace.visits]

inductive SyncEdge (program : ProgramTrace Ctx) (seen : List (Visit Ctx)) (a b : EventPID) : Prop
  | fork (visit : Visit Ctx) (h : visit ∈ seen) (htype : visit.2.type = .fork)
      (he : forkEdge program visit.2 = .ok (some (a, b)))
  | join (visit : Visit Ctx) (h : visit ∈ seen) (htype : visit.2.type = .join)
      (he : joinEdge program visit.1 visit.2 = .ok (some (a, b)))
  | barrier (v w : Visit Ctx) (hv : v ∈ seen) (hw : w ∈ seen) (hvtype : v.2.type = .barrier)
      (hwtype : w.2.type = .barrier) (hinst : v.2.ir.inst = w.2.ir.inst) (ha : a = v.2.pid)
      (hb : b = w.2.pid)

lemma SyncEdge.mono {program : ProgramTrace Ctx} {seen more : List (Visit Ctx)} {a b : EventPID}
    (hs : ∀ visit ∈ seen, visit ∈ more) (h : SyncEdge program seen a b) :
    SyncEdge program more a b := by
  cases h with
  | fork visit h htype he => exact .fork visit (hs _ h) htype he
  | join visit h htype he => exact .join visit (hs _ h) htype he
  | barrier v w hv hw hvt hwt hinst ha hb => exact .barrier v w (hs _ hv) (hs _ hw) hvt hwt hinst ha hb

abbrev GraphEdge (graph : SyncGraph) (a b : EventPID) : Prop := b ∈ graph.edges a

def Linked (graph : SyncGraph) (a b : EventPID) : Prop :=
  ReflTransGen (GraphEdge graph) a b ∧ ReflTransGen (GraphEdge graph) b a

lemma Linked.refl (graph : SyncGraph) (a : EventPID) : Linked graph a a := ⟨.refl, .refl⟩

lemma Linked.symm {graph : SyncGraph} {a b : EventPID} (h : Linked graph a b) : Linked graph b a :=
  ⟨h.2, h.1⟩

lemma Linked.trans {graph : SyncGraph} {a b c : EventPID} (h : Linked graph a b)
    (h' : Linked graph b c) : Linked graph a c :=
  ⟨h.1.trans h'.1, h'.2.trans h.2⟩

lemma Linked.mono {graph graph' : SyncGraph} {a b : EventPID}
    (hg : ∀ a b, GraphEdge graph a b → GraphEdge graph' a b) (h : Linked graph a b) :
    Linked graph' a b :=
  ⟨ReflTransGen.mono hg _ _ h.1, ReflTransGen.mono hg _ _ h.2⟩

lemma Linked.ordered {graph : SyncGraph} {a b : EventPID} (h : Linked graph a b) :
    HappensBeforeGraph.Ordered graph a b :=
  ReflTransGen.mono (fun _ _ hedge => Or.inr hedge) _ _ h.1

structure Built (program : ProgramTrace Ctx) (seen : List (Visit Ctx)) (state : ConstructionState) :
    Prop where
  sound : ∀ a b, GraphEdge state.graph a b → SyncEdge program seen a b
  fork : ∀ visit ∈ seen, visit.2.type = .fork → ∀ a b,
    forkEdge program visit.2 = .ok (some (a, b)) → GraphEdge state.graph a b
  join : ∀ visit ∈ seen, visit.2.type = .join → ∀ a b,
    joinEdge program visit.1 visit.2 = .ok (some (a, b)) → GraphEdge state.graph a b
  last : ∀ inst pid, state.lastBarrier.lookup inst = some pid →
    ∃ visit ∈ seen, visit.2.type = .barrier ∧ visit.2.ir.inst = inst ∧ visit.2.pid = pid
  barrier : ∀ visit ∈ seen, visit.2.type = .barrier →
    ∃ pid, state.lastBarrier.lookup visit.2.ir.inst = some pid ∧ Linked state.graph visit.2.pid pid

namespace Built

variable {program : ProgramTrace Ctx} {seen : List (Visit Ctx)} {state : ConstructionState}

lemma initial : Built program [] ConstructionState.initial where
  sound a b h := by
    have hempty : (∅ : Finset EventPID) = ConstructionState.initial.graph.edges a := rfl
    rw [GraphEdge, ← hempty] at h
    exact absurd h (Finset.notMem_empty b)
  fork _ h := by simp at h
  join _ h := by simp at h
  last _ _ h := by simp [ConstructionState.initial] at h
  barrier _ h := by simp at h

lemma edges_grow (graph : SyncGraph) (edges : List (EventPID × EventPID)) (a b : EventPID)
    (h : GraphEdge graph a b) : GraphEdge (graph.addSyncEdges edges) a b :=
  (SyncGraph.addSyncEdges_edges graph edges a b).mpr (Or.inl h)

lemma add_edge (hb : Built program seen state) (visit : Visit Ctx)
    (edge : Option (EventPID × EventPID)) (htype : visit.2.type ≠ .barrier)
    (hnew : ∀ a b, edge = some (a, b) → SyncEdge program (seen ++ [visit]) a b)
    (hfork : visit.2.type = .fork → forkEdge program visit.2 = .ok edge)
    (hjoin : visit.2.type = .join → joinEdge program visit.1 visit.2 = .ok edge) :
    Built program (seen ++ [visit]) (state.addSyncEdge edge) := by
  have hgrow := edges_grow state.graph edge.toList
  have hmem : ∀ v ∈ seen, v ∈ seen ++ [visit] := fun v h => List.mem_append_left _ h
  have hadded : ∀ a b, edge = some (a, b) → GraphEdge (state.addSyncEdge edge).graph a b := by
    intro a b h
    exact (SyncGraph.addSyncEdges_edges _ _ a b).mpr (Or.inr (by simp [h]))
  constructor
  · intro a b h
    cases (SyncGraph.addSyncEdges_edges state.graph edge.toList a b).mp h with
    | inl h => exact (hb.sound a b h).mono hmem
    | inr h => exact hnew a b (by simpa using h)
  · intro v hv hvt a b he
    cases List.mem_append.mp hv with
    | inl hv => exact hgrow a b (hb.fork v hv hvt a b he)
    | inr hv =>
      obtain rfl := List.mem_singleton.mp hv
      exact hadded a b (by simpa [hfork hvt] using he)
  · intro v hv hvt a b he
    cases List.mem_append.mp hv with
    | inl hv => exact hgrow a b (hb.join v hv hvt a b he)
    | inr hv =>
      obtain rfl := List.mem_singleton.mp hv
      exact hadded a b (by simpa [hjoin hvt] using he)
  · intro inst pid h
    obtain ⟨v, hv, hrest⟩ := hb.last inst pid h
    exact ⟨v, hmem v hv, hrest⟩
  · intro v hv hvt
    cases List.mem_append.mp hv with
    | inl hv =>
      obtain ⟨pid, hpid, hlink⟩ := hb.barrier v hv hvt
      exact ⟨pid, hpid, hlink.mono hgrow⟩
    | inr hv =>
      obtain rfl := List.mem_singleton.mp hv
      exact absurd hvt htype

lemma add_barrier (hb : Built program seen state) (visit : Visit Ctx) (htype : visit.2.type = .barrier)
    {state' : ConstructionState} (hs : state.addBarrierEdge visit.2 = .ok state') :
    Built program (seen ++ [visit]) state' := by
  have hmem : ∀ v ∈ seen, v ∈ seen ++ [visit] := fun v h => List.mem_append_left _ h
  have hvisit : visit ∈ seen ++ [visit] := List.mem_append_right _ List.mem_cons_self
  rw [ConstructionState.addBarrierEdge] at hs
  split at hs
  · rw [Except.ok.injEq] at hs
    subst hs
    have hgrow := edges_grow state.graph (state.barrierEdges visit.2)
    have hedges := SyncGraph.addSyncEdges_edges state.graph (state.barrierEdges visit.2)
    constructor
    · intro a b h
      cases (hedges a b).mp h with
      | inl h => exact (hb.sound a b h).mono hmem
      | inr h =>
        cases hlast : state.lastBarrier.lookup visit.2.ir.inst with
        | none => simp [ConstructionState.barrierEdges, hlast] at h
        | some pid =>
          obtain ⟨v, hv, hvt, hinst, rfl⟩ := hb.last _ _ hlast
          simp only [ConstructionState.barrierEdges, hlast, List.mem_cons, List.not_mem_nil, or_false,
            Prod.mk.injEq] at h
          cases h with
          | inl h => exact .barrier visit v hvisit (hmem v hv) htype hvt hinst.symm h.1 h.2
          | inr h => exact .barrier v visit (hmem v hv) hvisit hvt htype hinst h.1 h.2
    · intro v hv hvt a b he
      cases List.mem_append.mp hv with
      | inl hv => exact hgrow a b (hb.fork v hv hvt a b he)
      | inr hv =>
        obtain rfl := List.mem_singleton.mp hv
        simp [htype] at hvt
    · intro v hv hvt a b he
      cases List.mem_append.mp hv with
      | inl hv => exact hgrow a b (hb.join v hv hvt a b he)
      | inr hv =>
        obtain rfl := List.mem_singleton.mp hv
        simp [htype] at hvt
    · intro inst pid h
      by_cases hinst : inst = visit.2.ir.inst
      · subst hinst
        rw [AList.lookup_insert, Option.some.injEq] at h
        exact ⟨visit, hvisit, htype, rfl, h⟩
      · rw [AList.lookup_insert_ne hinst] at h
        obtain ⟨v, hv, hrest⟩ := hb.last inst pid h
        exact ⟨v, hmem v hv, hrest⟩
    · intro v hv hvt
      cases List.mem_append.mp hv with
      | inr hv =>
        obtain rfl := List.mem_singleton.mp hv
        exact ⟨_, AList.lookup_insert _, Linked.refl _ _⟩
      | inl hv =>
        obtain ⟨pid, hpid, hlink⟩ := hb.barrier v hv hvt
        have hlink' := hlink.mono hgrow
        by_cases hinst : v.2.ir.inst = visit.2.ir.inst
        · rw [hinst] at hpid
          have hback : GraphEdge (state.graph.addSyncEdges (state.barrierEdges visit.2)) pid visit.2.pid :=
            (hedges _ _).mpr (Or.inr (by simp [ConstructionState.barrierEdges, hpid]))
          have hforth : GraphEdge (state.graph.addSyncEdges (state.barrierEdges visit.2)) visit.2.pid pid :=
            (hedges _ _).mpr (Or.inr (by simp [ConstructionState.barrierEdges, hpid]))
          refine ⟨visit.2.pid, ?_, hlink'.trans ⟨.single hback, .single hforth⟩⟩
          rw [hinst]
          exact AList.lookup_insert _
        · refine ⟨pid, ?_, hlink'⟩
          rw [AList.lookup_insert_ne hinst]
          exact hpid
  · exact absurd hs (by simp)

lemma step (hb : Built program seen state) (visit : Visit Ctx) {state' : ConstructionState}
    (hs : ConstructionState.visitEvent program visit.1 state visit.2 = .ok state') :
    Built program (seen ++ [visit]) state' := by
  rw [ConstructionState.visitEvent] at hs
  split at hs
  · rename_i htype
    cases hedge : forkEdge program visit.2 with
    | error e => simp [hedge, bind, Except.bind] at hs
    | ok edge =>
      simp only [hedge, bind, Except.bind, pure, Except.pure, Except.ok.injEq] at hs
      subst hs
      refine hb.add_edge visit edge (by simp [htype]) ?_ (fun _ => hedge) (by simp [htype])
      intro a b h
      exact .fork visit (List.mem_append_right _ List.mem_cons_self) htype (by rw [hedge, h])
  · rename_i htype
    cases hedge : joinEdge program visit.1 visit.2 with
    | error e => simp [hedge, bind, Except.bind] at hs
    | ok edge =>
      simp only [hedge, bind, Except.bind, pure, Except.pure, Except.ok.injEq] at hs
      subst hs
      refine hb.add_edge visit edge (by simp [htype]) ?_ (by simp [htype]) (fun _ => hedge)
      intro a b h
      exact .join visit (List.mem_append_right _ List.mem_cons_self) htype (by rw [hedge, h])
  · rename_i htype
    exact hb.add_barrier visit htype hs
  · rename_i hf hj hbar
    rw [Except.ok.injEq] at hs
    subst hs
    have h := hb.add_edge visit none hbar (by simp) (fun h => absurd h hf) (fun h => absurd h hj)
    exact h

lemma run (hb : Built program seen state) (later : List (Visit Ctx)) {state' : ConstructionState}
    (hs : later.foldlM (fun state visit => ConstructionState.visitEvent program visit.1 state visit.2)
      state = .ok state') : Built program (seen ++ later) state' := by
  induction later generalizing seen state with
  | nil =>
    simp only [List.foldlM_nil, pure, Except.pure, Except.ok.injEq] at hs
    rw [List.append_nil, ← hs]
    exact hb
  | cons visit later ih =>
    rw [List.foldlM_cons] at hs
    cases hstep : ConstructionState.visitEvent program visit.1 state visit.2 with
    | error e => simp [hstep, bind, Except.bind] at hs
    | ok next =>
      rw [hstep] at hs
      have hrest := ih (hb.step visit hstep) hs
      simpa using hrest

end Built

lemma visitProgram_eq (program : ProgramTrace Ctx) :
    ConstructionState.visitProgram program = program.visits.foldlM
      (fun state visit => ConstructionState.visitEvent program visit.1 state visit.2)
      ConstructionState.initial := by
  rw [ConstructionState.visitProgram, ProgramTrace.visits]
  generalize ConstructionState.initial = state
  generalize program.threads = threads
  induction threads generalizing state with
  | nil => rfl
  | cons thread threads ih =>
    rw [List.foldlM_cons, List.flatMap_cons, List.foldlM_append, List.foldlM_map]
    exact congrArg _ (funext ih)

theorem built_visitProgram {program : ProgramTrace Ctx} {state : ConstructionState}
    (h : ConstructionState.visitProgram program = .ok state) : Built program program.visits state := by
  rw [visitProgram_eq] at h
  simpa using Built.initial.run program.visits h

lemma same_instruction_linked {program : ProgramTrace Ctx} {seen : List (Visit Ctx)}
    {state : ConstructionState} (hb : Built program seen state) {v w : Visit Ctx} (hv : v ∈ seen)
    (hw : w ∈ seen) (hvt : v.2.type = .barrier) (hwt : w.2.type = .barrier)
    (hinst : v.2.ir.inst = w.2.ir.inst) : Linked state.graph v.2.pid w.2.pid := by
  obtain ⟨pid, hlookup, hlink⟩ := hb.barrier v hv hvt
  obtain ⟨pid', hlookup', hlink'⟩ := hb.barrier w hw hwt
  rw [hinst] at hlookup
  obtain rfl := Option.some.inj (hlookup.symm.trans hlookup')
  exact hlink.trans hlink'.symm

lemma visits_succeed {program : ProgramTrace Ctx} (visits : List (Visit Ctx))
    (h : ∀ visit ∈ visits, (visit.2.type = .fork → ∃ edge, forkEdge program visit.2 = .ok edge) ∧
      (visit.2.type = .join → ∃ edge, joinEdge program visit.1 visit.2 = .ok edge) ∧
      (visit.2.type = .barrier → visit.2.ir.type = .openMPBarrier)) (state : ConstructionState) :
    ∃ final, visits.foldlM (fun state visit => ConstructionState.visitEvent program visit.1 state visit.2)
      state = .ok final := by
  induction visits generalizing state with
  | nil => exact ⟨state, rfl⟩
  | cons visit visits ih =>
    obtain ⟨hfork, hjoin, hbarrier⟩ := h visit List.mem_cons_self
    have hstep : ∃ next, ConstructionState.visitEvent program visit.1 state visit.2 = .ok next := by
      rw [ConstructionState.visitEvent]
      split
      · rename_i htype
        obtain ⟨edge, he⟩ := hfork htype
        exact ⟨state.addSyncEdge edge, by rw [he]; rfl⟩
      · rename_i htype
        obtain ⟨edge, he⟩ := hjoin htype
        exact ⟨state.addSyncEdge edge, by rw [he]; rfl⟩
      · rename_i htype
        exact ⟨_, by rw [ConstructionState.addBarrierEdge, if_pos (hbarrier htype)]⟩
      · exact ⟨state, rfl⟩
    obtain ⟨next, hnext⟩ := hstep
    obtain ⟨final, hfinal⟩ := ih (fun v hv => h v (List.mem_cons_of_mem _ hv)) next
    refine ⟨final, ?_⟩
    rw [List.foldlM_cons, hnext]
    exact hfinal

end OpenRace
