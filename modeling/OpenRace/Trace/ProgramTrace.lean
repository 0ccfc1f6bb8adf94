import OpenRace.Trace.Build.SingleTasks

/-! The flat list of all threads of a program. -/

namespace OpenRace

variable {Ctx : Type}

lemma threadsBelow_reverse_length (traces : List (ThreadTrace Ctx)) :
    (threadsBelow traces.reverse).length = (threadsBelow traces).length := by
  induction traces with
  | nil => rfl
  | cons trace rest ih =>
    rw [List.reverse_cons, threadsBelow_append, List.length_append, ih]
    simp [threadsBelow, Nat.add_comm]

lemma threadsBelow_singleton (trace : ThreadTrace Ctx) :
    threadsBelow [trace] = trace :: threadsBelow trace.childThreads := by
  rw [threadsBelow_cons, List.append_nil]

/-- The loop that flattens the threads; the list is the deque, its last element the back. -/
def flattenThreads (worklist : List (ThreadTrace Ctx)) : List (ThreadTrace Ctx) :=
  match _back : worklist.getLast? with
  | none => []
  | some currentThread =>
    currentThread :: flattenThreads (worklist.dropLast ++ currentThread.childThreads.reverse)
termination_by (threadsBelow worklist).length
decreasing_by
  obtain ⟨front, rfl⟩ := List.getLast?_eq_some_iff.mp _back
  rw [List.dropLast_concat, threadsBelow_append, threadsBelow_append, threadsBelow_singleton,
    List.length_append, List.length_append, threadsBelow_reverse_length, List.length_cons]
  omega

lemma flattenThreads_eq (worklist : List (ThreadTrace Ctx)) :
    flattenThreads worklist = threadsBelow worklist.reverse := by
  fun_induction flattenThreads worklist with
  | case1 worklist h =>
    rw [List.getLast?_eq_none_iff] at h
    rw [h]
    rfl
  | case2 worklist currentThread h ih =>
    obtain ⟨front, rfl⟩ := List.getLast?_eq_some_iff.mp h
    rw [ih, List.dropLast_concat, List.reverse_append, List.reverse_reverse, List.reverse_append,
      List.reverse_singleton, List.singleton_append, threadsBelow_cons]

lemma buildProgramTrace_threads (final : ThreadBuildState Ctx) (storeUsers : LLVM.Value → List LLVM.Value) :
    flattenThreads [final.trace] = (buildProgramTrace final storeUsers).threads := by
  rw [flattenThreads_eq]
  simp [threadsBelow, buildProgramTrace]

def ThreadTrace.ForksChildren (trace : ThreadTrace Ctx) : Prop :=
  ∀ child ∈ trace.childThreads, ∃ event ∈ trace.events, event.type = .fork ∧
    child.thread.spawnSite = some event.asFork

lemma ForksChildren.mono {thread : ThreadRef Ctx} {events new : List (Event Ctx)}
    {childThreads : List (ThreadTrace Ctx)} (h : (ThreadTrace.mk thread events childThreads).ForksChildren) :
    (ThreadTrace.mk thread (events ++ new) childThreads).ForksChildren := by
  intro child hchild
  obtain ⟨event, hevent, hfork⟩ := h child hchild
  exact ⟨event, List.mem_append_left _ hevent, hfork⟩

/-- This holds of the thread that is being built, and of the finished threads below it. -/
def Parented (state : ThreadBuildState Ctx) : Prop := ∀ trace ∈ state.trace.threads, trace.ForksChildren

namespace Parented

variable {state state' : ThreadBuildState Ctx}

lemma of_events {new : List (Event Ctx)} (h : Parented state) (ht : state'.thread = state.thread)
    (he : state'.events = state.events ++ new) (hc : state'.childThreads = state.childThreads) :
    Parented state' := by
  intro trace htrace
  rw [ThreadBuildState.trace, ThreadTrace.threads] at htrace
  cases List.mem_cons.mp htrace with
  | inl hself =>
    rw [hself, ht, he, hc]
    exact ForksChildren.mono (h _ List.mem_cons_self)
  | inr hbelow =>
    rw [hc] at hbelow
    exact h trace (List.mem_cons_of_mem _ hbelow)

lemma emits {node : CallGraphNode Ctx} (h : Parented state) (he : Emits node state state') :
    Parented state' := by
  obtain ⟨entries, -, hevents, -⟩ := he.log
  exact h.of_events he.thread hevents he.childThreads

lemma child (fork : ForkEvent Ctx) (entry : CallGraphNode Ctx) : Parented (state.child fork entry) := by
  intro trace htrace
  cases List.mem_singleton.mp htrace
  exact fun child hchild => absurd hchild List.not_mem_nil

lemma finishFork {fork : ForkEvent Ctx} {entry : CallGraphNode Ctx} {childState : ThreadBuildState Ctx}
    {event : Event Ctx} (h : Parented state) (hc : Parented childState)
    (ht : childState.thread = (state.child fork entry).thread) (he : event ∈ state.events)
    (hfork : event.type = .fork) (heq : event.asFork = fork) (ir : IR) :
    Parented (state.finishFork ir childState) := by
  intro trace htrace
  rw [ThreadBuildState.trace, ThreadTrace.threads] at htrace
  cases List.mem_cons.mp htrace with
  | inl hself =>
    rw [hself]
    intro child hchild
    cases List.mem_append.mp hchild with
    | inl hold => exact h _ List.mem_cons_self child hold
    | inr hnew =>
      rw [List.mem_singleton.mp hnew]
      refine ⟨event, he, hfork, ?_⟩
      rw [heq]
      exact congrArg ThreadRef.spawnSite ht
  | inr hbelow =>
    change trace ∈ threadsBelow (state.childThreads ++ [childState.trace]) at hbelow
    rw [threadsBelow_append, List.mem_append] at hbelow
    cases hbelow with
    | inl hold => exact h trace (List.mem_cons_of_mem _ hold)
    | inr hnew =>
      rw [threadsBelow, threadsBelow, List.append_nil] at hnew
      exact hc trace hnew

end Parented

lemma visitStart_forkEvent {program : Program Ctx} {node entry : CallGraphNode Ctx} {ir : IR}
    {state state' : ThreadBuildState Ctx} {fork : ForkEvent Ctx}
    (h : visitStart program node ir state = .ok (.fork fork entry state')) :
    ∃ event ∈ state'.events, event.type = .fork ∧ event.asFork = fork := by
  have hemit := visitStart_emits h
  rcases visitOutcome h with ⟨-, hnext⟩ | ⟨-, joins, own, ho⟩
  · cases hnext
  · obtain ⟨event, rfl, htype, rfl⟩ := ho.forks
    have hevents : state'.events = state.events ++ (joins ++ [event]) := ho.events hemit
    refine ⟨event, ?_, htype, rfl⟩
    rw [hevents]
    simp

theorem Run.parented {program : Program Ctx} {task : Task Ctx} {state last : ThreadBuildState Ctx}
    (h : Run program task state last) (hn : state.Numbered) (hp : Parented state) : Parented last := by
  induction h with
  | recursive => exact hp
  | function _ _ _ ih => exact ih hn hp
  | done => exact hp
  | next hstart _ ih =>
    have hemit := visitStart_emits hstart
    exact ih ((Frame.of_emits hemit).numbered hn) (hp.emits hemit)
  | @call node ir _ _ callee state' returned _ hstart hcall _ ihcall ihrest =>
    have hemit := visitStart_emits hstart
    have hlog := Frame.of_logCall state' node callee
    have hn' := hlog.numbered ((Frame.of_emits hemit).numbered hn)
    have hentered : Parented (state'.logCall node callee) := by
      have hp' := hp.emits hemit
      rw [ThreadBuildState.logCall]
      split <;> exact hp'
    have hend := Emits.push node returned .callEnd ir none
    exact ihrest ((Frame.of_emits hend).numbered ((hcall.frame hn').numbered hn'))
      ((ihcall hn' hentered).emits hend)
  | @fork node ir _ _ fork entry state' childState _ hstart hchild _ ihchild ihrest =>
    have hemit := visitStart_emits hstart
    have hn' : state'.Numbered := (Frame.of_emits hemit).numbered hn
    have hchildNumbered := Frame.child_numbered state' fork entry
    have hframe := hchild.frame hchildNumbered
    obtain ⟨event, hevent, hfork, heq⟩ := visitStart_forkEvent hstart
    exact ihrest ((Frame.of_fork ir hn' hframe).numbered hn')
      ((hp.emits hemit).finishFork (ihchild hchildNumbered (.child fork entry)) hframe.thread hevent
        hfork heq ir)

lemma exists_parent {worklist : List (ThreadTrace Ctx)} {s : ThreadTrace Ctx} (hs : s ∈ threadsBelow worklist) :
    s ∈ worklist ∨ ∃ t ∈ threadsBelow worklist, s ∈ t.childThreads := by
  generalize hn : (threadsBelow worklist).length = n
  induction n generalizing worklist with
  | zero =>
    rw [List.length_eq_zero_iff] at hn
    rw [hn] at hs
    exact absurd hs List.not_mem_nil
  | succ n ih =>
    cases worklist with
    | nil => exact absurd hs List.not_mem_nil
    | cons trace rest =>
      rw [threadsBelow_cons] at hs hn ⊢
      cases List.mem_cons.mp hs with
      | inl hself => exact Or.inl (hself ▸ List.mem_cons_self)
      | inr hbelow =>
        rcases ih hbelow (Nat.succ.inj hn) with hfront | ⟨t, ht, hchild⟩
        · cases List.mem_append.mp hfront with
          | inl hchild => exact Or.inr ⟨trace, List.mem_cons_self, hchild⟩
          | inr hrest => exact Or.inl (List.mem_cons_of_mem _ hrest)
        · exact Or.inr ⟨t, List.mem_cons_of_mem _ ht, hchild⟩

/-- Identifiers are positions, and fork events and threads belong together. -/
structure Indexed (main : ThreadTrace Ctx) (threads : List (ThreadTrace Ctx)) : Prop where
  eventIds : ∀ t ∈ threads, ∀ i (event : Event Ctx), t.events[i]? = some event → event.id = i
  threadIds : ∀ i (t : ThreadTrace Ctx), threads[i]? = some t → t.id = i
  main : main ∈ threads ∧ main.id = 0 ∧ main.thread.spawnSite = none
  forked : ∀ t ∈ threads, ∀ event ∈ t.events, event.type = .fork →
    ∃! s, s ∈ threads ∧ s.thread.spawnSite = some event.asFork
  parents : ∀ s ∈ threads, s.id ≠ 0 → ∃ t ∈ threads, s ∈ t.childThreads
  sites : ∀ t ∈ threads, ∀ s ∈ t.childThreads, s ∈ threads ∧ ∃ event ∈ t.events, event.type = .fork ∧
    s.thread.spawnSite = some event.asFork

lemma id_of_map_range {α : Type} {f : α → ℕ} {l : List α} (h : l.map f = List.range' 0 l.length) {i : ℕ} {a : α}
    (ha : l[i]? = some a) : f a = i := by
  have hget : (l.map f)[i]? = some (f a) := by simp [ha]
  obtain ⟨hlt, -⟩ := List.getElem?_eq_some_iff.mp ha
  rw [h, List.getElem?_range' hlt] at hget
  simpa using hget.symm

lemma threads_of_child {worklist : List (ThreadTrace Ctx)} {t s : ThreadTrace Ctx} (ht : t ∈ threadsBelow worklist)
    (hs : s ∈ t.childThreads) : s ∈ threadsBelow worklist := by
  generalize hn : (threadsBelow worklist).length = n
  induction n generalizing worklist with
  | zero =>
    rw [List.length_eq_zero_iff] at hn
    rw [hn] at ht
    exact absurd ht List.not_mem_nil
  | succ n ih =>
    cases worklist with
    | nil => exact absurd ht List.not_mem_nil
    | cons trace rest =>
      rw [threadsBelow_cons] at ht hn ⊢
      apply List.mem_cons_of_mem
      cases List.mem_cons.mp ht with
      | inl hself =>
        rw [hself] at hs
        rw [threadsBelow_append]
        refine List.mem_append_left _ ?_
        obtain ⟨front, back, heq⟩ := List.append_of_mem hs
        rw [heq, threadsBelow_append, threadsBelow_cons]
        exact List.mem_append_right _ List.mem_cons_self
      | inr hbelow => exact ih hbelow (Nat.succ.inj hn)

/-- Numbers given while the threads are built are positions in the flat list of threads. -/
theorem flattenThreads_indexed {program : Program Ctx} {fuel : ℕ} {entry : CallGraphNode Ctx}
    {final : ThreadBuildState Ctx} (h : buildMainThread program fuel entry = .ok final) :
    Indexed final.trace (flattenThreads [final.trace]) := by
  obtain ⟨hl, hframe, hadds⟩ := buildMainThread_adds h
  have hthreads : flattenThreads [final.trace] = final.trace :: threadsBelow final.childThreads := by
    rw [flattenThreads_eq, List.reverse_singleton, threadsBelow_singleton]
    rfl
  have hbelow : final.trace :: threadsBelow final.childThreads = threadsBelow [final.trace] := by
    rw [threadsBelow_singleton]
    rfl
  have hid : final.trace.id = 0 := congrArg ThreadRef.id hframe.thread
  have hsite : final.trace.thread.spawnSite = none := congrArg ThreadRef.spawnSite hframe.thread
  have hparented := (run_of_buildTrace h).parented le_rfl (by
    intro trace htrace
    cases List.mem_singleton.mp htrace
    exact fun child hchild => absurd hchild List.not_mem_nil)
  rw [hthreads]
  refine ⟨?_, ?_, ⟨List.mem_cons_self, hid, hsite⟩, ?_, ?_, ?_⟩
  · intro t ht i event hevent
    cases List.mem_cons.mp ht with
    | inl hself =>
      rw [hself] at hevent
      exact id_of_map_range hl.ids hevent
    | inr hm => exact id_of_map_range (hadds.numbered t hm) hevent
  · intro i t ht
    refine id_of_map_range ?_ ht
    rw [List.map_cons, hadds.ids, hid, List.length_cons, List.range'_succ]
    rfl
  · intro t ht event hevent hfork
    have hlog := threads_of_log h t ht
    rw [hlog, List.mem_filter] at hevent
    exact forked_once h (List.mem_map_of_mem (List.mem_filter.mpr ⟨hevent.1, by simpa using hfork⟩))
  · intro s hs hne
    cases List.mem_cons.mp hs with
    | inl hself => exact absurd (hself ▸ hid) hne
    | inr hm =>
      rcases exists_parent hm with hchild | ⟨t, ht, hchild⟩
      · exact ⟨final.trace, List.mem_cons_self, hchild⟩
      · exact ⟨t, List.mem_cons_of_mem _ ht, hchild⟩
  · intro t ht s hs
    refine ⟨?_, hparented t ht s hs⟩
    rw [hbelow] at ht ⊢
    exact threads_of_child ht hs

theorem flattenThreads_indexed_nested : EndsIn (buildMainThread NestedTask.program 5 NestedTask.entry)
    (fun final => Indexed final.trace (flattenThreads [final.trace])) := by
  obtain ⟨final, h, -⟩ := NestedTask.built
  exact ⟨final, h, flattenThreads_indexed h⟩

end OpenRace
