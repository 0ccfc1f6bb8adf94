import OpenRace.Trace.Build.Chronicle
import OpenRace.Trace.Build.Steady

/-! What holds wherever the builder gets to. -/

namespace OpenRace

open LLVM

variable {Ctx : Type}

inductive Reached (program : Program Ctx) (main : CallGraphNode Ctx) :
    Task Ctx → ThreadBuildState Ctx → Prop
  | main : Reached program main (.build main) (.main main)
  | function {node summary state} (h : Reached program main (.build node) state)
      (hn : node.function ∉ state.callstack)
      (hs : program.getFunctionSummary node.function = .ok summary) :
      Reached program main (.body node summary) (state.enter node)
  | next {node ir rest state state'} (h : Reached program main (.body node (ir :: rest)) state)
      (hv : visitStart program node ir state = .ok (.next state')) :
      Reached program main (.body node rest) state'
  | call {node ir rest state callee state'} (h : Reached program main (.body node (ir :: rest)) state)
      (hv : visitStart program node ir state = .ok (.call callee state')) :
      Reached program main (.build callee) (state'.logCall node callee)
  | returned {node ir rest state callee state' returned}
      (h : Reached program main (.body node (ir :: rest)) state)
      (hv : visitStart program node ir state = .ok (.call callee state'))
      (hr : Run program (.build callee) (state'.logCall node callee) returned) :
      Reached program main (.body node rest) (returned.push node .callEnd ir)
  | fork {node ir rest state fork entry state'}
      (h : Reached program main (.body node (ir :: rest)) state)
      (hv : visitStart program node ir state = .ok (.fork fork entry state')) :
      Reached program main (.build entry) (state'.child fork entry)
  | forked {node ir rest state fork entry state' childState}
      (h : Reached program main (.body node (ir :: rest)) state)
      (hv : visitStart program node ir state = .ok (.fork fork entry state'))
      (hr : Run program (.build entry) (state'.child fork entry) childState) :
      Reached program main (.body node rest) (state'.finishFork ir childState)

section Tallied

variable [DecidableEq Ctx] {program : Program Ctx} {main : CallGraphNode Ctx} {task : Task Ctx}
  {state : ThreadBuildState Ctx}

lemma forked_child {node entry : CallGraphNode Ctx} {ir : IR} {state' : ThreadBuildState Ctx}
    {fork : ForkEvent Ctx} (hl : Logged state) (ht : Tallied state)
    (hv : visitStart program node ir state = .ok (.fork fork entry state')) :
    Logged (state'.child fork entry) ∧ Tallied (state'.child fork entry) ∧
      Continues program state (state'.child fork entry) := by
  have hl' : Logged state' := hl.emits (visitStart_emits hv)
  have htid : fork.pid.tid = state'.thread.id :=
    (visitStart_fork_tid hv).trans (congrArg _ (visitStart_emits hv).thread).symm
  obtain ⟨hc, ht'⟩ := visitStart_continues hl ht hv
  exact ⟨hl'.child fork entry, ht'.child hl'.numbered htid entry, hc⟩

lemma called_tallied {node callee : CallGraphNode Ctx} {ir : IR} {state' : ThreadBuildState Ctx}
    (hl : Logged state) (ht : Tallied state)
    (hv : visitStart program node ir state = .ok (.call callee state')) :
    Logged (state'.logCall node callee) ∧ Tallied (state'.logCall node callee) ∧
      Continues program state (state'.logCall node callee) := by
  obtain ⟨hc, ht'⟩ := visitStart_continues hl ht hv
  have hlog : Continues program _ _ ∧ Tallied (state'.logCall node callee) :=
    logCall_continues ht' node callee
  exact ⟨(hl.emits (visitStart_emits hv)).logCall node callee, hlog.2, hc.trans hlog.1⟩

lemma Chronicle.continued {state' : ThreadBuildState Ctx} (h : Chronicle program [] state.log)
    (hc : Continues program state state') : Chronicle program [] state'.log := by
  obtain ⟨entries, hlog, hentries⟩ := hc
  rw [hlog]
  exact h.append hentries

theorem Reached.tallied (h : Reached program main task state) :
    Logged state ∧ Tallied state ∧ Chronicle program [] state.log := by
  induction h with
  | main => exact ⟨Logged.initial main, Tallied.initial main, .nil⟩
  | function _ _ _ ih =>
    obtain ⟨hl, ht, hc⟩ := ih
    exact ⟨⟨hl.numbered, hl.threads, hl.own, hl.ids, hl.located, hl.distinct⟩,
      ht.of_fields rfl rfl rfl ht.sites, hc⟩
  | next _ hv ih =>
    obtain ⟨hl, ht, hc⟩ := ih
    obtain ⟨hnew, ht'⟩ := visitStart_continues hl ht hv
    exact ⟨hl.emits (visitStart_emits hv), ht', hc.continued hnew⟩
  | call _ hv ih =>
    obtain ⟨hl, ht, hc⟩ := ih
    obtain ⟨hl', ht', hnew⟩ := called_tallied hl ht hv
    exact ⟨hl', ht', hc.continued hnew⟩
  | @returned node ir rest state callee state' returned _ hv hr ih =>
    obtain ⟨hl, ht, hc⟩ := ih
    obtain ⟨hl', ht', hnew⟩ := called_tallied hl ht hv
    obtain ⟨hbody, ht''⟩ := hr.continues hl' ht'
    have hend : Continues program _ _ ∧ Tallied (returned.push node .callEnd ir) :=
      callEnd_continues ht'' node ir
    exact ⟨(hr.logged hl').emits (.push _ _ _ _ _), hend.2,
      hc.continued ((hnew.trans hbody).trans hend.1)⟩
  | fork _ hv ih =>
    obtain ⟨hl, ht, hc⟩ := ih
    obtain ⟨hl', ht', hnew⟩ := forked_child hl ht hv
    exact ⟨hl', ht', hc.continued hnew⟩
  | @forked node ir rest state fork entry state' childState _ hv hr ih =>
    obtain ⟨hl, ht, hc⟩ := ih
    have hl' : Logged state' := hl.emits (visitStart_emits hv)
    obtain ⟨hlc, htc, hnew⟩ := forked_child hl ht hv
    have hsites := (visitStart_continues hl ht hv).2.sites
    obtain ⟨hbody, htb⟩ := hr.continues hlc htc
    have hbuilt : Continues program _ (state'.finishFork ir childState) := hnew.trans hbody
    exact ⟨hl'.finishFork ir (hr.frame hlc.numbered) (hr.logged hlc), htb.finishFork hsites ir,
      hc.continued hbuilt⟩

end Tallied

section Positions

variable {program : Program Ctx} {main : CallGraphNode Ctx} {partner : Instruction → Instruction}

theorem Reached.at (hprog : program.MasterRegionsClosed partner) {task : Task Ctx}
    {state : ThreadBuildState Ctx} (h : Reached program main task state) :
    state.marks.Paired partner ∧ ∃ outer, task.At partner state outer := by
  induction h with
  | main => exact ⟨fun _ _ hm => absurd hm (by simp [ThreadBuildState.main, ThreadBuildState.marks]), none, rfl, rfl⟩
  | function _ _ hs ih =>
    obtain ⟨hp, outer, hskip, -⟩ := ih
    exact ⟨hp, _, .outside (hprog _ _ hs) hskip⟩
  | next _ hv ih =>
    obtain ⟨hp, outer, hat⟩ := ih
    obtain ⟨hpos, hp', -⟩ := visitStart_position hv hp hat
    exact ⟨hp', outer, at_next hpos (visitStart_emits hv).thread⟩
  | @call node ir rest state callee state' _ hv ih =>
    obtain ⟨hp, outer, hat⟩ := ih
    obtain ⟨-, hp', hskip⟩ := visitStart_position hv hp hat
    exact ⟨by rw [logCall_marks]; exact hp', _, at_called (hskip (by simp))⟩
  | @returned node ir rest state callee state' returned _ hv hr ih =>
    obtain ⟨hp, outer, hat⟩ := ih
    obtain ⟨hpos, hp', hskip⟩ := visitStart_position hv hp hat
    have hnone : state'.skipUntil = none := hskip (by simp)
    obtain ⟨hpr, hsr, hcr⟩ := hr.marks hprog (by rw [logCall_marks]; exact hp') (at_called hnone)
    have hthread := hr.returned_thread.trans (visitStart_emits hv).thread
    exact ⟨hpr, outer, at_returned hpos hthread hnone hsr hcr⟩
  | @fork node ir rest state fork entry state' _ hv ih =>
    obtain ⟨hp, outer, hat⟩ := ih
    exact ⟨(visitStart_position hv hp hat).2.1, _, rfl, rfl⟩
  | @forked node ir rest state fork entry state' childState _ hv hr ih =>
    obtain ⟨hp, outer, hat⟩ := ih
    obtain ⟨hpos, hp', -⟩ := visitStart_position hv hp hat
    have hchild : (Task.build entry).At partner (state'.child fork entry)
        state'.marks.currentMasterStart := ⟨rfl, rfl⟩
    obtain ⟨hpc, -, hcc⟩ := hr.marks hprog hp' hchild
    exact ⟨by rw [finishFork_marks]; exact hpc, outer, at_forked hpos (visitStart_emits hv).thread hcc⟩

end Positions

section Runs

variable {program : Program Ctx} {main node : CallGraphNode Ctx} {ir : IR} {rest : List IR} {task : Task Ctx}
  {state state' last : ThreadBuildState Ctx}

section Inversion

variable (h : Run program (.body node (ir :: rest)) state last)

include h

lemma Run.of_next (hv : visitStart program node ir state = .ok (.next state')) :
    Run program (.body node rest) state' last := by
  cases h with
  | next hv' hrest => cases hv.symm.trans hv'; exact hrest
  | call hv' => cases hv.symm.trans hv'
  | fork hv' => cases hv.symm.trans hv'

lemma Run.of_call {callee : CallGraphNode Ctx} (hv : visitStart program node ir state = .ok (.call callee state')) :
    ∃ returned, Run program (.build callee) (state'.logCall node callee) returned ∧
      Run program (.body node rest) (returned.push node .callEnd ir) last := by
  cases h with
  | next hv' => cases hv.symm.trans hv'
  | call hv' hcall hrest => cases hv.symm.trans hv'; exact ⟨_, hcall, hrest⟩
  | fork hv' => cases hv.symm.trans hv'

lemma Run.of_fork {fork : ForkEvent Ctx} {entry : CallGraphNode Ctx}
    (hv : visitStart program node ir state = .ok (.fork fork entry state')) :
    ∃ childState, Run program (.build entry) (state'.child fork entry) childState ∧
      Run program (.body node rest) (state'.finishFork ir childState) last := by
  cases h with
  | next hv' => cases hv.symm.trans hv'
  | call hv' => cases hv.symm.trans hv'
  | fork hv' hchild hrest => cases hv.symm.trans hv'; exact ⟨_, hchild, hrest⟩

lemma Run.visited : ∃ step, visitStart program node ir state = .ok step := by
  cases h with
  | next hv => exact ⟨_, hv⟩
  | call hv => exact ⟨_, hv⟩
  | fork hv => exact ⟨_, hv⟩

end Inversion

lemma Run.of_function {summary : List IR} (h : Run program (.build node) state last)
    (hn : node.function ∉ state.callstack) (hs : program.getFunctionSummary node.function = .ok summary) :
    ∃ final, Run program (.body node summary) (state.enter node) final ∧ last = final.leave := by
  cases h with
  | recursive hmem => exact absurd hmem hn
  | function _ hs' hbody =>
    obtain rfl := Except.ok.inj (hs.symm.trans hs')
    exact ⟨_, hbody, rfl⟩

theorem Run.unique (h : Run program task state last) {other : ThreadBuildState Ctx}
    (h' : Run program task state other) : last = other := by
  induction h generalizing other with
  | recursive hmem =>
    cases h' with
    | recursive => rfl
    | function hn => exact absurd hmem hn
  | function hn hs _ ih =>
    obtain ⟨_, hbody, rfl⟩ := h'.of_function hn hs
    rw [ih hbody]
  | done =>
    cases h'
    rfl
  | next hv _ ih => exact ih (h'.of_next hv)
  | call hv _ _ ihcall ihrest =>
    obtain ⟨_, hcall, hrest⟩ := h'.of_call hv
    obtain rfl := ihcall hcall
    exact ihrest hrest
  | fork hv _ _ ihchild ihrest =>
    obtain ⟨_, hchild, hrest⟩ := h'.of_fork hv
    obtain rfl := ihchild hchild
    exact ihrest hrest

/-- A construction that comes to an end does what is left at every point that it gets to, and goes on from there. -/
theorem Reached.extends (h : Reached program main task state) (hmain : Run program (.build main) (.main main) last) :
    ∃ final, Run program task state final ∧ Extends final last := by
  induction h with
  | main => exact ⟨last, hmain, .refl last⟩
  | function _ hn hs ih =>
    obtain ⟨final, hrun, hext⟩ := ih
    obtain ⟨inner, hbody, rfl⟩ := hrun.of_function hn hs
    exact ⟨inner, hbody, hext⟩
  | next _ hv ih =>
    obtain ⟨final, hrun, hext⟩ := ih
    exact ⟨final, hrun.of_next hv, hext⟩
  | @call node ir _ _ callee state' _ hv ih =>
    obtain ⟨final, hrun, hext⟩ := ih
    obtain ⟨returned, hcall, hrest⟩ := hrun.of_call hv
    have hend : Extends returned final := (push_extends returned node .callEnd ir).trans hrest.extends
    exact ⟨returned, hcall, hend.trans hext⟩
  | returned _ hv hr ih =>
    obtain ⟨final, hrun, hext⟩ := ih
    obtain ⟨returned, hcall, hrest⟩ := hrun.of_call hv
    obtain rfl := hr.unique hcall
    exact ⟨final, hrest, hext⟩
  | fork _ hv ih =>
    obtain ⟨final, hrun, hext⟩ := ih
    obtain ⟨childState, hchild, hrest⟩ := hrun.of_fork hv
    exact ⟨childState, hchild, Extends.trans hrest.extends hext⟩
  | forked _ hv hr ih =>
    obtain ⟨final, hrun, hext⟩ := ih
    obtain ⟨childState, hchild, hrest⟩ := hrun.of_fork hv
    obtain rfl := hr.unique hchild
    exact ⟨final, hrest, hext⟩

end Runs

section Failures

variable {program : Program Ctx} {main : CallGraphNode Ctx} {error : BuildError}

def FailsAt (program : Program Ctx) (main : CallGraphNode Ctx) (error : BuildError) : Prop :=
  ∃ node ir rest state, Reached program main (.body node (ir :: rest)) state ∧
    visitStart program node ir state = .error error

lemma failsAt_of_visits
    {build : CallGraphNode Ctx → ThreadBuildState Ctx → Except BuildError (ThreadBuildState Ctx)}
    (hrun : ∀ node state last, build node state = .ok last → Run program (.build node) state last)
    (hfail : ∀ node state, Reached program main (.build node) state → build node state = .error error →
      FailsAt program main error)
    {node : CallGraphNode Ctx} {summary : List IR} {state : ThreadBuildState Ctx}
    (hr : Reached program main (.body node summary) state)
    (h : summary.foldlM (visit program build node) state = .error error) : FailsAt program main error := by
  induction summary generalizing state with
  | nil => cases h
  | cons ir rest ih =>
    rw [List.foldlM_cons] at h
    cases hv : visitStart program node ir state with
    | error e =>
      obtain rfl : e = error := by simpa [visit, hv, bind, Except.bind] using h
      exact ⟨node, ir, rest, state, hr, hv⟩
    | ok step =>
      cases step with
      | next state' =>
        simp only [visit, hv, bind, Except.bind, pure, Except.pure] at h
        exact ih (hr.next hv) h
      | call callee state' =>
        cases hcall : build callee (state'.logCall node callee) with
        | error e =>
          obtain rfl : e = error := by simpa [visit, hv, hcall, bind, Except.bind] using h
          exact hfail _ _ (hr.call hv) hcall
        | ok returned =>
          simp only [visit, hv, hcall, bind, Except.bind, pure, Except.pure] at h
          exact ih (hr.returned hv (hrun _ _ _ hcall)) h
      | fork fork entry state' =>
        cases hchild : build entry (state'.child fork entry) with
        | error e =>
          obtain rfl : e = error := by simpa [visit, hv, hchild, bind, Except.bind] using h
          exact hfail _ _ (hr.fork hv) hchild
        | ok childState =>
          simp only [visit, hv, hchild, bind, Except.bind, pure, Except.pure] at h
          exact ih (hr.forked hv (hrun _ _ _ hchild)) h

/-- A construction that fails for want of neither fuel nor a summary fails at a statement that it gets to. -/
theorem failsAt_of_build {fuel : ℕ} {node : CallGraphNode Ctx} {state : ThreadBuildState Ctx}
    (hr : Reached program main (.build node) state) (h : buildTrace program fuel node state = .error error)
    (hfuel : error ≠ .outOfFuel) (hsummary : ∀ e, error ≠ .summary e) : FailsAt program main error := by
  induction fuel generalizing node state with
  | zero => exact absurd (Except.error.inj h).symm hfuel
  | succ fuel ih =>
    rw [buildTrace] at h
    split at h
    · cases h
    · rename_i hn
      cases hs : program.getFunctionSummary node.function with
      | error e =>
        rw [hs] at h
        exact absurd (Except.error.inj h).symm (hsummary e)
      | ok summary =>
        cases hbody : summary.foldlM (visit program (buildTrace program fuel) node) (state.enter node) with
        | error e =>
          obtain rfl : e = error := by simpa [hs, hbody, bind, Except.bind] using h
          exact failsAt_of_visits (fun _ _ _ => run_of_buildTrace) (fun _ _ => ih) (hr.function hn hs) hbody
        | ok final => simp [hs, hbody, bind, Except.bind, pure, Except.pure] at h

end Failures

end OpenRace
