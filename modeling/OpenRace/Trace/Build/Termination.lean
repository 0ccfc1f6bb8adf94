import OpenRace.Trace.Build.MasterRuns
import OpenRace.Trace.Build.SingleTasks

/-! The construction of a trace comes to an end. -/

namespace OpenRace

open LLVM

variable {Ctx : Type}

/-- The functions of the call graph; every one of them may occur in any number of contexts. -/
structure Program.CallGraphOver (program : Program Ctx) (functions : List Function) : Prop where
  direct : ∀ context f node, program.getDirectNodeOrNull context f = some node → node.function ∈ functions
  resolved : ∀ context callsite, ∀ node ∈ program.getResolvedNode context callsite, node.function ∈ functions

namespace Program.CallGraphOver

variable {program : Program Ctx} {functions : List Function} (hg : program.CallGraphOver functions)

include hg

lemma threadEntry {fork : ForkEvent Ctx} {entry : CallGraphNode Ctx}
    (h : program.getThreadEntry fork = some entry) : entry.function ∈ functions := by
  rw [Program.getThreadEntry] at h
  split at h
  · cases h
  · exact hg.direct _ _ _ h
  · exact hg.resolved _ _ _ (List.mem_of_head? h)

lemma callee {context : Ctx} {inst : Instruction} {callee : CallGraphNode Ctx}
    (h : program.callee context inst = some callee) : callee.function ∈ functions := by
  cases inst with
  | call call =>
    rw [Program.callee] at h
    split at h
    · cases h
    · split at h
      · cases h
      · split at h
        · cases h
        · exact hg.direct _ _ _ h
  | alloca | load | store | other => cases h

end Program.CallGraphOver

def chainEntries (program : Program Ctx) (sites : List (ForkEvent Ctx)) : List Function :=
  sites.filterMap fun fork => (program.getThreadEntry fork).map CallGraphNode.function

/-- What bounds the recursion: no function is twice on the call stack, and none is started twice in a
chain of threads. -/
structure Bounded (program : Program Ctx) (functions : List Function) (state : ThreadBuildState Ctx) : Prop where
  stack : state.callstack.Nodup
  stackMem : ∀ f ∈ state.callstack, f ∈ functions
  chain : (chainEntries program state.thread.spawnSites).Nodup
  chainMem : ∀ f ∈ chainEntries program state.thread.spawnSites, f ∈ functions
  chainLength : (chainEntries program state.thread.spawnSites).length = state.thread.spawnSites.length

def depthLeft (functions : List Function) (state : ThreadBuildState Ctx) : ℕ :=
  (functions.length - state.thread.spawnSites.length) * (functions.length + 2) +
    (functions.length - state.callstack.length)

lemma not_recursive_spawn {program : Program Ctx} {f : Function} {sites : List (ForkEvent Ctx)}
    (h : isRecursiveThreadSpawn program f 2 sites 1 = false) : f ∉ chainEntries program sites := by
  induction sites with
  | nil => exact List.not_mem_nil
  | cons fork rest ih =>
    rw [isRecursiveThreadSpawn] at h
    split at h
    · simp at h
    · rename_i hne
      have hrest := ih h
      rw [chainEntries, List.filterMap_cons]
      split
      · exact hrest
      · rename_i g hg
        rw [hg] at hne
        intro hm
        cases List.mem_cons.mp hm with
        | inl heq => exact hne (congrArg some heq.symm)
        | inr hmem => exact hrest hmem

section Fork

variable {program : Program Ctx} {functions : List Function} {state state' : ThreadBuildState Ctx}

lemma Bounded.of_fields (h : Bounded program functions state) (ht : state'.thread = state.thread)
    (hc : state'.callstack = state.callstack) : Bounded program functions state' := by
  refine ⟨?_, ?_, ?_, ?_, ?_⟩
  · rw [hc]
    exact h.stack
  · rw [hc]
    exact h.stackMem
  · rw [ht]
    exact h.chain
  · rw [ht]
    exact h.chainMem
  · rw [ht]
    exact h.chainLength

lemma depthLeft_congr (ht : state'.thread = state.thread) (hc : state'.callstack = state.callstack) :
    depthLeft functions state' = depthLeft functions state := by
  rw [depthLeft, depthLeft, ht, hc]

lemma Bounded.enter (h : Bounded program functions state) {node : CallGraphNode Ctx}
    (hm : node.function ∈ functions) (hn : node.function ∉ state.callstack) :
    Bounded program functions (state.enter node) ∧
      depthLeft functions (state.enter node) < depthLeft functions state := by
  have hnodup : (state.callstack ++ [node.function]).Nodup := by
    rw [List.nodup_append]
    refine ⟨h.stack, List.nodup_singleton _, ?_⟩
    intro f hf g hg heq
    rw [List.mem_singleton.mp hg] at heq
    exact hn (heq ▸ hf)
  have hmem : ∀ f ∈ state.callstack ++ [node.function], f ∈ functions := by
    intro f hf
    cases List.mem_append.mp hf with
    | inl hold => exact h.stackMem f hold
    | inr hnew => exact List.mem_singleton.mp hnew ▸ hm
  have hlength := hnodup.length_le_of_subset hmem
  rw [List.length_append, List.length_singleton] at hlength
  refine ⟨⟨hnodup, hmem, h.chain, h.chainMem, h.chainLength⟩, ?_⟩
  have hstack : (state.enter node).callstack.length = state.callstack.length + 1 := by
    simp [ThreadBuildState.enter]
  have hthread : (state.enter node).thread = state.thread := rfl
  rw [depthLeft, depthLeft, hstack, hthread]
  omega

lemma Bounded.child (h : Bounded program functions state) {fork : ForkEvent Ctx} {entry : CallGraphNode Ctx}
    (he : program.getThreadEntry fork = some entry) (hm : entry.function ∈ functions)
    (hn : entry.function ∉ chainEntries program state.thread.spawnSites) :
    Bounded program functions (state.child fork entry) ∧
      depthLeft functions (state.child fork entry) < depthLeft functions state := by
  have hentries : chainEntries program (state.child fork entry).thread.spawnSites =
      entry.function :: chainEntries program state.thread.spawnSites := by
    simp [ThreadBuildState.child, chainEntries, he]
  have hnodup : (entry.function :: chainEntries program state.thread.spawnSites).Nodup :=
    List.nodup_cons.mpr ⟨hn, h.chain⟩
  have hmem : ∀ f ∈ entry.function :: chainEntries program state.thread.spawnSites, f ∈ functions := by
    intro f hf
    cases List.mem_cons.mp hf with
    | inl heq => exact heq ▸ hm
    | inr hold => exact h.chainMem f hold
  have hlength := hnodup.length_le_of_subset hmem
  rw [List.length_cons, h.chainLength] at hlength
  refine ⟨⟨List.nodup_nil, fun f hf => absurd hf List.not_mem_nil, ?_, ?_, ?_⟩, ?_⟩
  · rw [hentries]
    exact hnodup
  · rw [hentries]
    exact hmem
  · rw [hentries, List.length_cons, h.chainLength]
    rfl
  · have hsites : (state.child fork entry).thread.spawnSites.length = state.thread.spawnSites.length + 1 := rfl
    have hstack : (state.child fork entry).callstack.length = 0 := rfl
    obtain ⟨left, hleft⟩ : ∃ left, functions.length - state.thread.spawnSites.length = left + 1 :=
      ⟨functions.length - state.thread.spawnSites.length - 1, by omega⟩
    have hleft' : functions.length - (state.thread.spawnSites.length + 1) = left := by omega
    rw [depthLeft, depthLeft, hsites, hstack, hleft, hleft', Nat.succ_mul]
    omega

end Fork

def Ends {α : Type} (result : Except BuildError α) : Prop := result ≠ .error .outOfFuel

namespace Ends

variable {α β : Type}

lemma ok (a : α) : Ends (.ok a) := by simp [Ends]

lemma bind {x : Except BuildError α} {f : α → Except BuildError β} (hx : Ends x)
    (hf : ∀ a, x = .ok a → Ends (f a)) : Ends (x >>= f) := by
  cases x with
  | error e =>
    intro h
    apply hx
    simpa [Bind.bind, Except.bind] using h
  | ok a => exact hf a rfl

end Ends

lemma preVisit_ends (node : CallGraphNode Ctx) (ir : IR) (state : ThreadBuildState Ctx) :
    Ends (OpenMPRuntime.preVisit node ir state) := by
  rw [OpenMPRuntime.preVisit, Ends]
  split
  · simp
  · split
    · simp
    · split <;> try simp
      · split
        · split <;> simp
        · split <;> simp
      · split
        · split <;> simp
        · simp

lemma dispatch_ends (program : Program Ctx) (node : CallGraphNode Ctx) (ir : IR)
    (state : ThreadBuildState Ctx) : Ends (dispatch program node ir state) := by
  rw [dispatch, Ends]
  split <;> try simp
  · rw [visitFork]
    split
    · simp
    · split <;> simp
  · rw [visitCall]
    split
    · split
      · simp
      · split
        · simp
        · split
          · simp
          · split
            · simp
            · split <;> simp
    · simp

lemma visitStart_ends (program : Program Ctx) (node : CallGraphNode Ctx) (ir : IR)
    (state : ThreadBuildState Ctx) : Ends (visitStart program node ir state) := by
  rw [visitStart]
  dsimp only
  split
  · exact .ok _
  · refine .bind (preVisit_ends _ _ _) ?_
    rintro ⟨skip, asked⟩ -
    cases skip with
    | true => exact .ok _
    | false => exact dispatch_ends program node ir asked

section Steps

variable {program : Program Ctx} {node : CallGraphNode Ctx} {ir : IR} {state state' : ThreadBuildState Ctx}

lemma visitStart_call {callee : CallGraphNode Ctx}
    (h : visitStart program node ir state = .ok (.call callee state')) :
    program.callee node.context ir.inst = some callee := by
  rcases visitStart_cases h with ⟨-, hnext⟩ | ⟨-, ⟨_, -, hnext⟩ | ⟨asked, -, hdispatch⟩⟩
  · cases hnext
  · cases hnext
  · have hd := dispatched_of_dispatch hdispatch
    generalize hstep : VisitStep.call callee state' = step at hd
    cases hd with
    | call _ callee' hc _ =>
      injection hstep with heq
      rw [heq]
      exact hc
    | _ => cases hstep

lemma visitStart_fork {fork : ForkEvent Ctx} {entry : CallGraphNode Ctx}
    (h : visitStart program node ir state = .ok (.fork fork entry state')) :
    program.getThreadEntry fork = some entry ∧
      isRecursiveThreadSpawn program entry.function 2 state'.thread.spawnSites 1 = false := by
  rcases visitStart_cases h with ⟨-, hnext⟩ | ⟨-, ⟨_, -, hnext⟩ | ⟨asked, -, hdispatch⟩⟩
  · cases hnext
  · cases hnext
  · have hd := dispatched_of_dispatch hdispatch
    generalize hstep : VisitStep.fork fork entry state' = step at hd
    cases hd with
    | fork _ entry' he hr =>
      injection hstep with hfork hentry hstate
      rw [hfork, hentry, hstate]
      exact ⟨he, hr⟩
    | _ => cases hstep

end Steps

section Terminates

variable {program : Program Ctx} {functions : List Function}
  {build : CallGraphNode Ctx → ThreadBuildState Ctx → Except BuildError (ThreadBuildState Ctx)}

lemma logCall_bounded {state : ThreadBuildState Ctx} (h : Bounded program functions state)
    (node callee : CallGraphNode Ctx) : Bounded program functions (state.logCall node callee) ∧
      depthLeft functions (state.logCall node callee) = depthLeft functions state := by
  have hlog := Frame.of_logCall state node callee
  exact ⟨h.of_fields hlog.thread hlog.callstack, depthLeft_congr hlog.thread hlog.callstack⟩

lemma visit_ends (hg : program.CallGraphOver functions) {depth : ℕ}
    (hbuild : ∀ node state, Bounded program functions state → node.function ∈ functions →
      depthLeft functions state ≤ depth → Ends (build node state))
    {node : CallGraphNode Ctx} {ir : IR} {state : ThreadBuildState Ctx}
    (h : Bounded program functions state) (hd : depthLeft functions state ≤ depth) :
    Ends (visit program build node state ir) := by
  rw [visit]
  refine .bind (visitStart_ends program node ir state) ?_
  intro step hstart
  have hemit := visitStart_emits hstart
  have hvisited := h.of_fields hemit.thread hemit.callstack
  have hdepth : depthLeft functions step.state = depthLeft functions state :=
    depthLeft_congr hemit.thread hemit.callstack
  cases step with
  | next state' => exact .ok _
  | call callee state' =>
    obtain ⟨hlogged, hlogDepth⟩ := logCall_bounded hvisited node callee
    exact .bind (hbuild _ _ hlogged (hg.callee (visitStart_call hstart))
      ((hlogDepth.trans hdepth).le.trans hd)) fun _ _ => .ok _
  | fork fork entry state' =>
    obtain ⟨hentry, hrec⟩ := visitStart_fork hstart
    have hm := hg.threadEntry hentry
    obtain ⟨hchild, hlt⟩ := Bounded.child hvisited hentry hm (not_recursive_spawn hrec)
    exact .bind (hbuild _ _ hchild hm ((hlt.trans_eq hdepth).le.trans hd)) fun _ _ => .ok _

lemma visits_end (hg : program.CallGraphOver functions) {depth : ℕ}
    (hbuild : ∀ node state, Bounded program functions state → node.function ∈ functions →
      depthLeft functions state ≤ depth → Ends (build node state))
    (hrun : ∀ node state last, build node state = .ok last → Run program (.build node) state last)
    {node : CallGraphNode Ctx} (summary : List IR) {state : ThreadBuildState Ctx}
    (h : Bounded program functions state) (hd : depthLeft functions state ≤ depth) :
    Ends (summary.foldlM (visit program build node) state) := by
  induction summary generalizing state with
  | nil => exact .ok state
  | cons ir rest ih =>
    rw [List.foldlM_cons]
    refine .bind (visit_ends hg hbuild h hd) ?_
    intro state' hvisit
    have hone : [ir].foldlM (visit program build node) state = .ok state' := by
      rw [List.foldlM_cons, hvisit]
      rfl
    obtain ⟨hthread, hstack⟩ := (run_of_visits hrun node [ir] state state' hone).returns
    exact ih (h.of_fields hthread hstack) ((depthLeft_congr hthread hstack).le.trans hd)

theorem buildTrace_ends (hg : program.CallGraphOver functions) {fuel : ℕ} {node : CallGraphNode Ctx}
    {state : ThreadBuildState Ctx} (h : Bounded program functions state) (hm : node.function ∈ functions)
    (hd : depthLeft functions state < fuel) : Ends (buildTrace program fuel node state) := by
  induction fuel generalizing node state with
  | zero => omega
  | succ fuel ih =>
    rw [buildTrace]
    split
    · exact .ok _
    · rename_i hnew
      split
      · simp [Ends]
      · obtain ⟨hentered, hlt⟩ := h.enter hm hnew
        refine .bind ?_ fun _ _ => .ok _
        refine visits_end hg (fun node state h hm hle => ih h hm (Nat.lt_of_le_of_lt hle (Nat.lt_of_lt_of_le hlt ?_)))
          (fun _ _ _ => run_of_buildTrace) _ hentered le_rfl
        omega

lemma visit_congr {build' : CallGraphNode Ctx → ThreadBuildState Ctx → Except BuildError (ThreadBuildState Ctx)}
    (hbuild : ∀ node state, Ends (build node state) → build' node state = build node state)
    {node : CallGraphNode Ctx} {state : ThreadBuildState Ctx} {ir : IR}
    (h : Ends (visit program build node state ir)) :
    visit program build' node state ir = visit program build node state ir := by
  rw [visit, visit] at *
  cases hstart : visitStart program node ir state with
  | error e => rfl
  | ok step =>
    rw [hstart] at h
    cases step with
    | next => rfl
    | call callee state' =>
      have hcall : Ends (build callee (state'.logCall node callee)) := by
        intro herror
        exact h (by simp [herror, Bind.bind, Except.bind])
      simp only [Bind.bind, Except.bind, hbuild _ _ hcall]
    | fork fork entry state' =>
      have hchild : Ends (build entry (state'.child fork entry)) := by
        intro herror
        exact h (by simp [herror, Bind.bind, Except.bind])
      simp only [Bind.bind, Except.bind, hbuild _ _ hchild]

lemma visits_congr {build' : CallGraphNode Ctx → ThreadBuildState Ctx → Except BuildError (ThreadBuildState Ctx)}
    (hbuild : ∀ node state, Ends (build node state) → build' node state = build node state)
    {node : CallGraphNode Ctx} (summary : List IR) {state : ThreadBuildState Ctx}
    (h : Ends (summary.foldlM (visit program build node) state)) :
    summary.foldlM (visit program build' node) state = summary.foldlM (visit program build node) state := by
  induction summary generalizing state with
  | nil => rfl
  | cons ir rest ih =>
    rw [List.foldlM_cons] at h
    rw [List.foldlM_cons, List.foldlM_cons]
    have hvisit : Ends (visit program build node state ir) := by
      intro herror
      exact h (by simp [herror, Bind.bind, Except.bind])
    rw [visit_congr hbuild hvisit]
    cases hv : visit program build node state ir with
    | error e => rfl
    | ok state' =>
      rw [hv] at h
      exact ih h

lemma buildTrace_succ {fuel : ℕ} {node : CallGraphNode Ctx} {state : ThreadBuildState Ctx}
    (h : Ends (buildTrace program fuel node state)) :
    buildTrace program (fuel + 1) node state = buildTrace program fuel node state := by
  induction fuel generalizing node state with
  | zero => exact absurd rfl h
  | succ fuel ih =>
    rw [buildTrace] at h
    rw [buildTrace, buildTrace.eq_def program (fuel + 1)]
    dsimp only
    split
    · rfl
    · rename_i hnew
      rw [if_neg hnew] at h
      cases hs : program.getFunctionSummary node.function with
      | error e => rfl
      | ok summary =>
        rw [hs] at h
        have hbody : Ends (summary.foldlM (visit program (buildTrace program fuel) node) (state.enter node)) := by
          intro herror
          exact h (by simp [herror, Bind.bind, Except.bind])
        dsimp only
        rw [visits_congr (fun _ _ => ih) summary hbody]

lemma buildTrace_mono {fuel more : ℕ} (hle : fuel ≤ more) {node : CallGraphNode Ctx}
    {state : ThreadBuildState Ctx} (h : Ends (buildTrace program fuel node state)) :
    buildTrace program more node state = buildTrace program fuel node state := by
  induction more, hle using Nat.le_induction with
  | base => rfl
  | succ more _ ih =>
    rw [← ih] at h
    rw [buildTrace_succ h, ih]

/-- Whatever calls whatever and forks whatever: the recursion is at most this deep, and its result
does not depend on the fuel that is left. -/
theorem buildMainThread_terminates (hg : program.CallGraphOver functions) {entry : CallGraphNode Ctx}
    (he : entry.function ∈ functions) :
    ∃ result, Ends result ∧ ∀ fuel, functions.length * (functions.length + 2) + functions.length < fuel →
      buildMainThread program fuel entry = result := by
  have hmain : Bounded program functions (.main entry) :=
    ⟨List.nodup_nil, fun f hf => absurd hf List.not_mem_nil, List.nodup_nil,
      fun f hf => absurd hf List.not_mem_nil, rfl⟩
  have hdepth : depthLeft functions (.main entry) =
      functions.length * (functions.length + 2) + functions.length := rfl
  have hends := buildTrace_ends hg hmain he (Nat.lt_succ_self _)
  exact ⟨_, hends, fun fuel hfuel => buildTrace_mono (by omega) hends⟩

end Terminates

namespace RecursiveThreads

def mainFunction : Function := { id := 10, name := "main" }

def worker : Function := { id := 11, name := "worker" }

def helper : Function := { id := 12, name := "helper" }

def create : CallBase where
  id := 1
  calledOperand := .function { id := 0, name := "pthread_create" }
  args := [.globalVariable 20 false, .undef, .function worker, .undef]

/-- Every function starts `worker` in a new thread; `worker` and `helper` call each other. -/
def body (f : Function) : List BasicBlock :=
  [[.call create, .call { id := 2, calledOperand := .function (if f = worker then helper else worker) }]]

/-- A context is the whole string of call sites. -/
def program : Program (List ℕ) where
  getFunctionSummary f := generateFunctionSummary (body f)
  contextEvolve context callsite := callsite.id :: context
  getDirectNodeOrNull context f :=
    if f ∈ [mainFunction, worker, helper] then some { context := context, function := f } else none
  getResolvedNode _ _ := []

def entry : CallGraphNode (List ℕ) := { context := [], function := mainFunction }

lemma callGraph : program.CallGraphOver [mainFunction, worker, helper] where
  direct context f node h := by
    simp only [program] at h
    split at h
    · obtain rfl := Option.some.inj h
      assumption
    · cases h
  resolved _ _ _ h := absurd h List.not_mem_nil

theorem buildMainThread_terminates_recursive : ∃ result, Ends result ∧ ∀ fuel, 18 < fuel →
    buildMainThread program fuel entry = result :=
  buildMainThread_terminates callGraph List.mem_cons_self

end RecursiveThreads

end OpenRace
