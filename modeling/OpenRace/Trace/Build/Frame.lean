import OpenRace.Trace.Build.Emits

/-! What a run leaves unchanged. -/

namespace OpenRace

variable {Ctx : Type}

def LogEntry.thread : LogEntry Ctx → Option (ThreadRef Ctx)
  | .visited thread _ _ _ => some thread
  | .created _ event => some event.thread
  | .entered _ _ => none

/-- A run adds to the history of its own thread and of threads that it numbers itself. -/
structure Frame (state state' : ThreadBuildState Ctx) : Prop where
  thread : state'.thread = state.thread
  callstack : state'.callstack = state.callstack
  currentTID : state.programState.currentTID ≤ state'.programState.currentTID
  log : ∃ entries, state'.log = state.log ++ entries ∧
    state'.events = state.events ++ (eventsOf entries).filter (·.thread.id = state.thread.id) ∧
    ∀ entry ∈ entries, ∀ thread, entry.thread = some thread →
      thread = state.thread ∨ state.programState.currentTID < thread.id

def ThreadBuildState.Numbered (state : ThreadBuildState Ctx) : Prop :=
  state.thread.id ≤ state.programState.currentTID

namespace Frame

variable {state state' state'' : ThreadBuildState Ctx}

lemma refl (state : ThreadBuildState Ctx) : Frame state state :=
  ⟨rfl, rfl, le_rfl, [], by simp, by simp [eventsOf], by simp⟩

lemma trans (h : Frame state state') (h' : Frame state' state'') : Frame state state'' := by
  obtain ⟨entries, hlog, hevents, hthread⟩ := h.log
  obtain ⟨entries', hlog', hevents', hthread'⟩ := h'.log
  refine ⟨h'.thread.trans h.thread, h'.callstack.trans h.callstack, h.currentTID.trans h'.currentTID,
    entries ++ entries', by rw [hlog', hlog, List.append_assoc], ?_, ?_⟩
  · rw [hevents', hevents, List.append_assoc, h.thread]
    simp [eventsOf]
  · intro entry hentry thread ht
    cases List.mem_append.mp hentry with
    | inl hm => exact hthread entry hm thread ht
    | inr hm =>
      cases hthread' entry hm thread ht with
      | inl heq => exact Or.inl (heq.trans h.thread)
      | inr hlt => exact Or.inr (h.currentTID.trans_lt hlt)

lemma numbered (h : Frame state state') (hn : state.Numbered) : state'.Numbered := by
  have hle := h.currentTID
  rw [ThreadBuildState.Numbered] at hn ⊢
  rw [h.thread]
  omega

lemma of_emits {node : CallGraphNode Ctx} (h : Emits node state state') : Frame state state' := by
  obtain ⟨entries, hlog, hevents, hfrom, -⟩ := h.log
  have hown : ∀ entry ∈ entries, ∀ thread, entry.thread = some thread → thread = state.thread := by
    intro entry hentry thread ht
    have hf := hfrom entry hentry
    cases entry with
    | visited entryThread _ _ _ =>
      obtain rfl := Option.some.inj ht
      exact hf.1
    | created _ event =>
      obtain rfl := Option.some.inj ht
      exact hf.2.1
    | entered _ _ => exact hf.elim
  refine ⟨h.thread, h.callstack, h.currentTID.ge, entries, hlog, ?_, ?_⟩
  · rw [hevents, List.filter_eq_self.mpr]
    intro event he
    obtain ⟨entry, hentry, hevent⟩ := List.mem_filterMap.mp he
    have hthread : entry.thread = some event.thread := by
      cases entry <;> simp_all [LogEntry.event, LogEntry.thread]
    simp [hown entry hentry _ hthread]
  · intro entry hentry thread ht
    exact Or.inl (hown entry hentry thread ht)

lemma of_logCall (state : ThreadBuildState Ctx) (node callee : CallGraphNode Ctx) :
    Frame state (state.logCall node callee) := by
  rw [ThreadBuildState.logCall]
  split
  · exact refl state
  · exact ⟨rfl, rfl, le_rfl, [.entered node callee], rfl, by simp [eventsOf, LogEntry.event,
      ThreadBuildState.logEntry], by simp [LogEntry.thread]⟩

lemma of_fork {fork : ForkEvent Ctx} {entry : CallGraphNode Ctx} {childState : ThreadBuildState Ctx}
    (ir : IR) (hn : state.Numbered) (h : Frame (state.child fork entry) childState) :
    Frame state (state.finishFork ir childState) := by
  obtain ⟨entries, hlog, _, hthread⟩ := h.log
  have hnew : ∀ e ∈ entries, ∀ thread, e.thread = some thread →
      state.programState.currentTID < thread.id := by
    intro e he thread ht
    cases hthread e he thread ht with
    | inl heq =>
      rw [heq]
      exact Nat.lt_succ_self _
    | inr hlt => exact (Nat.lt_succ_self _).trans hlt
  refine ⟨rfl, rfl, ?_, entries, hlog, ?_, fun e he thread ht => Or.inr (hnew e he thread ht)⟩
  · have hle := h.currentTID
    change state.programState.currentTID + 1 ≤ childState.programState.currentTID at hle
    change state.programState.currentTID ≤ childState.programState.currentTID
    omega
  · have hnone : (eventsOf entries).filter (·.thread.id = state.thread.id) = [] := by
      rw [List.filter_eq_nil_iff]
      intro event he
      obtain ⟨e, hem, hevent⟩ := List.mem_filterMap.mp he
      have hth : e.thread = some event.thread := by
        cases e <;> simp_all [LogEntry.event, LogEntry.thread]
      have hlt := hnew e hem _ hth
      rw [ThreadBuildState.Numbered] at hn
      simp only [decide_eq_true_eq]
      omega
    rw [hnone, List.append_nil]
    rfl

lemma child_numbered (state : ThreadBuildState Ctx) (fork : ForkEvent Ctx) (entry : CallGraphNode Ctx) :
    (state.child fork entry).Numbered :=
  le_rfl

end Frame

theorem Run.frame {program : Program Ctx} {task : Task Ctx} {state last : ThreadBuildState Ctx}
    (h : Run program task state last) (hn : state.Numbered) : Frame state last := by
  induction h with
  | recursive h => exact .refl _
  | @function node summary state last _ _ _ ih =>
    have hbody := ih hn
    obtain ⟨entries, hlog, hevents, hthread⟩ := hbody.log
    refine ⟨hbody.thread, ?_, hbody.currentTID, entries, hlog, hevents, hthread⟩
    have hstack : last.callstack = state.callstack ++ [node.function] := hbody.callstack
    simp [ThreadBuildState.leave, hstack]
  | done => exact .refl _
  | next hstart _ ih =>
    have hvisit := Frame.of_emits (visitStart_emits hstart)
    exact hvisit.trans (ih (hvisit.numbered hn))
  | @call node ir _ state callee state' returned _ hstart _ _ ihcall ihrest =>
    have hvisit := (Frame.of_emits (visitStart_emits hstart)).trans (.of_logCall state' node callee)
    have hcall := hvisit.trans (ihcall (hvisit.numbered hn))
    have hend := hcall.trans (.of_emits (.push node returned .callEnd ir none))
    exact hend.trans (ihrest (hend.numbered hn))
  | @fork node ir _ state fork entry state' childState _ hstart _ _ ihchild ihrest =>
    have hvisit := Frame.of_emits (visitStart_emits hstart)
    have hn' : state'.Numbered := hvisit.numbered hn
    have hfork := Frame.of_fork ir hn' (ihchild (Frame.child_numbered state' fork entry))
    have hend := hvisit.trans hfork
    exact hend.trans (ihrest (hend.numbered hn))

end OpenRace
