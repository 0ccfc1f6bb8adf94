import OpenRace.Trace.Build.Frame

/-! The contexts that events carry. -/

namespace OpenRace

open LLVM

variable {Ctx : Type}

def LogEntry.creation : LogEntry Ctx → Option (CallGraphNode Ctx × Event Ctx)
  | .created node event => some (node, event)
  | _ => none

def LogEntry.entry : LogEntry Ctx → Option (CallGraphNode Ctx × CallGraphNode Ctx)
  | .entered caller callee => some (caller, callee)
  | _ => none

/-- Every event carries the context of the node whose body it was created from. -/
def OwnContexts (log : List (LogEntry Ctx)) : Prop :=
  ∀ created ∈ log.filterMap LogEntry.creation, created.2.context = created.1.context

/-- Every function that a call goes into has the context of its caller. -/
def CallsKeepContext (log : List (LogEntry Ctx)) : Prop :=
  ∀ call ∈ log.filterMap LogEntry.entry, call.2.context = call.1.context

instance [DecidableEq Ctx] (log : List (LogEntry Ctx)) : Decidable (OwnContexts log) :=
  inferInstanceAs (Decidable (∀ created ∈ log.filterMap LogEntry.creation, _))

def LogEntry.KeepsContext : LogEntry Ctx → Prop
  | .visited _ _ _ _ => True
  | .created node event => event.context = node.context
  | .entered caller callee => callee.context = caller.context

lemma ownContexts_iff (log : List (LogEntry Ctx)) :
    OwnContexts log ↔ ∀ node event, .created node event ∈ log → event.context = node.context := by
  constructor
  · intro h node event hm
    exact h (node, event) (List.mem_filterMap.mpr ⟨_, hm, rfl⟩)
  · rintro h ⟨node, event⟩ hm
    obtain ⟨entry, hentry, heq⟩ := List.mem_filterMap.mp hm
    cases entry with
    | created _ _ =>
      obtain ⟨rfl, rfl⟩ := by simpa [LogEntry.creation] using heq
      exact h _ _ hentry
    | visited _ _ _ _ => simp [LogEntry.creation] at heq
    | entered _ _ => simp [LogEntry.creation] at heq

lemma callsKeepContext_iff (log : List (LogEntry Ctx)) : CallsKeepContext log ↔
    ∀ caller callee, .entered caller callee ∈ log → callee.context = caller.context := by
  constructor
  · intro h caller callee hm
    exact h (caller, callee) (List.mem_filterMap.mpr ⟨_, hm, rfl⟩)
  · rintro h ⟨caller, callee⟩ hm
    obtain ⟨entry, hentry, heq⟩ := List.mem_filterMap.mp hm
    cases entry with
    | entered _ _ =>
      obtain ⟨rfl, rfl⟩ := by simpa [LogEntry.entry] using heq
      exact h _ _ hentry
    | visited _ _ _ _ => simp [LogEntry.entry] at heq
    | created _ _ => simp [LogEntry.entry] at heq

/-- Either side of the equivalence, as it is handed down to the parts of a run. -/
def Consistent (log : List (LogEntry Ctx)) : Prop := OwnContexts log ∨ CallsKeepContext log

lemma Consistent.of_frame {state state' : ThreadBuildState Ctx} (hf : Frame state state')
    (h : Consistent state'.log) : Consistent state.log := by
  obtain ⟨entries, hlog, -⟩ := hf.log
  have hsub : ∀ {α : Type} (f : LogEntry Ctx → Option α), ∀ a ∈ state.log.filterMap f,
      a ∈ state'.log.filterMap f := by
    intro α f a ha
    rw [hlog, List.filterMap_append]
    exact List.mem_append_left _ ha
  cases h with
  | inl h => exact Or.inl (fun created hm => h created (hsub _ created hm))
  | inr h => exact Or.inr (fun call hm => h call (hsub _ call hm))

def Keeps (state state' : ThreadBuildState Ctx) : Prop :=
  ∀ entry ∈ state'.log, entry ∈ state.log ∨ entry.KeepsContext

lemma Keeps.trans {state state' state'' : ThreadBuildState Ctx} (h : Keeps state state')
    (h' : Keeps state' state'') : Keeps state state'' := by
  intro entry hentry
  cases h' entry hentry with
  | inl hm => exact h entry hm
  | inr hk => exact Or.inr hk

lemma Emits.keeps {node : CallGraphNode Ctx} {state state' : ThreadBuildState Ctx}
    (h : Emits node state state') (hi : state.einfo = node.context) : Keeps state state' := by
  obtain ⟨entries, hlog, -, hfrom, -⟩ := h.log
  intro entry hentry
  rw [hlog] at hentry
  cases List.mem_append.mp hentry with
  | inl hm => exact Or.inl hm
  | inr hm =>
    right
    have hf := hfrom entry hm
    cases entry with
    | visited _ _ _ _ => trivial
    | created _ event => exact hf.2.2.trans (hi.trans (congrArg _ hf.1.symm))
    | entered _ _ => exact hf.elim

/-- The context after a task, and the state a task is meant to start in. -/
def Task.Returns (state last : ThreadBuildState Ctx) : Task Ctx → Prop
  | .build node => (node.function ∈ state.callstack → last.einfo = state.einfo) ∧
      (node.function ∉ state.callstack → last.einfo = node.context)
  | .body node _ => last.einfo = node.context

def Task.Starts (state : ThreadBuildState Ctx) : Task Ctx → Prop
  | .build _ => True
  | .body node _ => state.einfo = node.context

lemma call_context {node callee : CallGraphNode Ctx} {ir : IR}
    {state returned last : ThreadBuildState Ctx} (hi : state.einfo = node.context)
    (hcall : Frame (state.logCall node callee) returned)
    (hrest : Frame (returned.push node .callEnd ir) last) (hc : Consistent last.log)
    (hreturn : (Task.build callee).Returns (state.logCall node callee) returned) :
    returned.einfo = node.context ∧
      (callee.function ∉ state.callstack → callee.context = node.context) := by
  have hstack : (state.logCall node callee).callstack = state.callstack ∧
      (state.logCall node callee).einfo = state.einfo := by
    rw [ThreadBuildState.logCall]
    split <;> exact ⟨rfl, rfl⟩
  by_cases hrec : callee.function ∈ state.callstack
  · refine ⟨?_, fun h => absurd hrec h⟩
    rw [hreturn.1 (hstack.1 ▸ hrec), hstack.2, hi]
  · have heinfo := hreturn.2 (hstack.1 ▸ hrec)
    obtain ⟨entries, hlog, -⟩ := hcall.log
    obtain ⟨entries', hlog', -⟩ := hrest.log
    have hsame : callee.context = node.context := by
      cases hc with
      | inl hown =>
        have hend := (ownContexts_iff _).mp hown node (returned.nextEvent .callEnd ir none) (by
          rw [hlog']
          exact List.mem_append_left _ (List.mem_append_right _ List.mem_cons_self))
        exact heinfo.symm.trans hend
      | inr hkeep =>
        refine (callsKeepContext_iff _).mp hkeep node callee ?_
        rw [hlog']
        refine List.mem_append_left _ (List.mem_append_left _ ?_)
        change _ ∈ returned.log
        rw [hlog, ThreadBuildState.logCall, if_neg hrec]
        exact List.mem_append_left _ (List.mem_append_right _ List.mem_cons_self)
    exact ⟨heinfo.trans hsame, fun _ => hsame⟩

lemma logCall_keeps {state : ThreadBuildState Ctx} {node callee : CallGraphNode Ctx}
    (h : callee.function ∉ state.callstack → callee.context = node.context) :
    Keeps state (state.logCall node callee) := by
  rw [ThreadBuildState.logCall]
  split
  · exact fun entry hentry => Or.inl hentry
  · rename_i hrec
    intro entry hentry
    cases List.mem_append.mp hentry with
    | inl hm => exact Or.inl hm
    | inr hm =>
      obtain rfl := List.mem_singleton.mp hm
      exact Or.inr (h hrec)

lemma Run.keeps {program : Program Ctx} {task : Task Ctx} {state last : ThreadBuildState Ctx}
    (h : Run program task state last) (hn : state.Numbered) (hs : task.Starts state)
    (hc : Consistent last.log) : task.Returns state last ∧ Keeps state last := by
  induction h with
  | recursive h => exact ⟨⟨fun _ => rfl, fun hnot => absurd h hnot⟩, fun entry hm => Or.inl hm⟩
  | function h _ _ ih =>
    obtain ⟨hreturn, hkeep⟩ := ih hn rfl hc
    exact ⟨⟨fun hm => absurd hm h, fun _ => hreturn⟩, hkeep⟩
  | done => exact ⟨hs, fun entry hm => Or.inl hm⟩
  | next hstart _ ih =>
    have hemit := visitStart_emits hstart
    have hf := Frame.of_emits hemit
    obtain ⟨hreturn, hkeep⟩ := ih (hf.numbered hn) (hemit.einfo.trans hs) hc
    exact ⟨hreturn, (hemit.keeps hs).trans hkeep⟩
  | @call node ir _ state callee state' returned _ hstart hcall hrest ihcall ihrest =>
    have hemit := visitStart_emits hstart
    have hi : state'.einfo = node.context := hemit.einfo.trans hs
    have hvisit := (Frame.of_emits hemit).trans (.of_logCall state' node callee)
    have hfcall := hcall.frame (hvisit.numbered hn)
    have hpush := Emits.push node returned .callEnd ir none
    have hend := (hvisit.trans hfcall).trans (.of_emits hpush)
    have hfrest := hrest.frame (hend.numbered hn)
    have hc' := hc.of_frame hfrest
    obtain ⟨hreturn, hkeepcall⟩ := ihcall (hvisit.numbered hn) trivial (hc'.of_frame (.of_emits hpush))
    obtain ⟨hback, hsame⟩ := call_context hi hfcall hfrest hc hreturn
    obtain ⟨hlast, hkeeprest⟩ := ihrest (hend.numbered hn) hback hc
    refine ⟨hlast, ?_⟩
    exact ((((hemit.keeps hs).trans (logCall_keeps hsame)).trans hkeepcall).trans
      (hpush.keeps hback)).trans hkeeprest
  | @fork node ir _ state fork entry state' childState _ hstart hchild hrest ihchild ihrest =>
    have hemit := visitStart_emits hstart
    have hi : state'.einfo = node.context := hemit.einfo.trans hs
    have hvisit := Frame.of_emits hemit
    have hfchild := hchild.frame (Frame.child_numbered state' fork entry)
    have hend := hvisit.trans (Frame.of_fork ir (hvisit.numbered hn) hfchild)
    have hc' : Consistent (state'.finishFork ir childState).log :=
      hc.of_frame (hrest.frame (hend.numbered hn))
    obtain ⟨-, hkeepchild⟩ := ihchild (Frame.child_numbered state' fork entry) trivial hc'
    obtain ⟨hlast, hkeeprest⟩ := ihrest (hend.numbered hn) hi hc
    have hkeepfork : Keeps state' (state'.finishFork ir childState) := hkeepchild
    exact ⟨hlast, ((hemit.keeps hs).trans hkeepfork).trans hkeeprest⟩

/-- Events carry the contexts of their own nodes exactly when no call changes the context. -/
theorem own_contexts_iff {program : Program Ctx} {fuel : ℕ} {entry : CallGraphNode Ctx}
    {final : ThreadBuildState Ctx} (h : buildMainThread program fuel entry = .ok final) :
    OwnContexts final.log ↔ CallsKeepContext final.log := by
  have hrun := run_of_buildTrace h
  have hkept : Consistent final.log → ∀ e ∈ final.log, e.KeepsContext := by
    intro hc e he
    cases (hrun.keeps le_rfl trivial hc).2 e he with
    | inl hm => exact absurd hm List.not_mem_nil
    | inr hk => exact hk
  constructor
  · intro hown
    exact (callsKeepContext_iff _).mpr (fun _ _ hm => hkept (Or.inl hown) _ hm)
  · intro hkeep
    exact (ownContexts_iff _).mpr (fun _ _ hm => hkept (Or.inr hkeep) _ hm)

namespace StaleContext

def worker : Function := { id := 10, name := "worker" }

def helper : Function := { id := 11, name := "helper" }

def mainFunction : Function := { id := 12, name := "main" }

def create : CallBase where
  id := 1
  calledOperand := .function { id := 0, name := "pthread_create" }
  args := [.globalVariable 20 false, .undef, .function worker, .undef]

def callHelper : CallBase := { id := 2, calledOperand := .function helper }

/-- `main` spawns `worker`, calls `helper` and then reads a global variable. -/
def body (f : Function) : List BasicBlock :=
  if f = mainFunction then
    [[.call create, .call callHelper, .load 3 (.globalVariable 21 false) false false]]
  else [[.load 4 (.globalVariable 21 false) false false]]

/-- The context of a function is the call site that it was called from. -/
def program : Program (Option ℕ) where
  getFunctionSummary f := generateFunctionSummary (body f)
  contextEvolve _ callsite := some callsite.id
  getDirectNodeOrNull context f := some { context := context, function := f }
  getResolvedNode _ _ := []

def entry : CallGraphNode (Option ℕ) := { context := none, function := mainFunction }

lemma built : EndsIn (buildMainThread program 3 entry) (fun _ => True) := by decide +kernel

theorem own_contexts_iff_called : EndsIn (buildMainThread program 3 entry)
    (fun final => OwnContexts final.log ↔ CallsKeepContext final.log) := by
  obtain ⟨final, h, -⟩ := built
  exact ⟨final, h, own_contexts_iff h⟩

/-- The read in `main` carries the context that the call of `helper` left behind. -/
theorem read_after_call_stale : EndsIn (buildMainThread program 3 entry)
    (fun final => ¬ OwnContexts final.log) := by decide +kernel

end StaleContext

end OpenRace
