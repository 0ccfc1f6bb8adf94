import OpenRace.Trace.Build.TwinVisits

/-! Both twins in step: whole runs. -/

namespace OpenRace

open LLVM

variable {Ctx : Type}

/-- At every task construct that the thread reaches, the runtime model knows whether the thread has
a single region open. -/
def SinglesTold (tid : ℕ) (log : List (LogEntry Ctx)) : Prop :=
  ∀ before thread node ir runtime after, log = before ++ .visited thread node ir runtime :: after →
    thread.id = tid → ir.type = .openMPTaskFork → runtime.inSingleRegion = singleOpenOn tid before

lemma SinglesTold.of_extends {tid : ℕ} {state last : ThreadBuildState Ctx} (h : SinglesTold tid last.log)
    (he : Extends state last) : SinglesTold tid state.log := by
  obtain ⟨entries, hlog⟩ := he
  intro before thread node ir runtime after heq ht htask
  refine h before thread node ir runtime (after ++ entries) ?_ ht htask
  rw [hlog, heq]
  simp

lemma SinglesTold.visit {program : Program Ctx} {node : CallGraphNode Ctx} {ir : IR}
    {state : ThreadBuildState Ctx} {step : VisitStep Ctx} (h : SinglesTold state.thread.id step.state.log)
    (hv : visitStart program node ir state = .ok step) (hp : passes ir state = false)
    (ht : ir.type = .openMPTaskFork) :
    state.programState.runtime.inSingleRegion = singleOpenOn state.thread.id state.log := by
  rcases visitOutcome hv with ⟨hpass, -⟩ | ⟨-, joins, own, ho⟩
  · rw [hp] at hpass
    cases hpass
  · exact h _ _ _ _ _ _ ho.log rfl ht

inductive After (program : Program Ctx) (node : CallGraphNode Ctx) (ir : IR) (rest : List IR)
    (last : ThreadBuildState Ctx) : VisitStep Ctx → Prop
  | next {state} (hrest : Run program (.body node rest) state last) : After program node ir rest last (.next state)
  | call {callee state returned} (hcall : Run program (.build callee) (state.logCall node callee) returned)
      (hrest : Run program (.body node rest) (returned.push node .callEnd ir) last) :
      After program node ir rest last (.call callee state)
  | fork {fork entry state childState}
      (hchild : Run program (.build entry) (state.child fork entry) childState)
      (hrest : Run program (.body node rest) (state.finishFork ir childState) last) :
      After program node ir rest last (.fork fork entry state)

section After

variable {program : Program Ctx} {node : CallGraphNode Ctx} {ir : IR} {rest : List IR}
  {state last : ThreadBuildState Ctx} {step : VisitStep Ctx}

lemma Run.after (h : Run program (.body node (ir :: rest)) state last) :
    ∃ step, visitStart program node ir state = .ok step ∧ After program node ir rest last step := by
  cases h with
  | next hstart hrest => exact ⟨_, hstart, .next hrest⟩
  | call hstart hcall hrest => exact ⟨_, hstart, .call hcall hrest⟩
  | fork hstart hchild hrest => exact ⟨_, hstart, .fork hchild hrest⟩

lemma After.extends (h : After program node ir rest last step) : Extends step.state last := by
  cases h with
  | next hrest => exact hrest.extends
  | @call callee state returned hcall hrest =>
    exact (((logCall_extends state node callee).trans hcall.extends).trans
      (push_extends returned node .callEnd ir)).trans hrest.extends
  | @fork fork entry state childState hchild hrest =>
    have hbuilt : Extends state (state.finishFork ir childState) := hchild.extends
    exact hbuilt.trans hrest.extends

end After

inductive TwinTask (program : Program Ctx) (R : Ctx → Ctx → Prop) (partner : Instruction → Instruction)
    (state state' : ThreadBuildState Ctx) : Bool → Task Ctx → Task Ctx → Prop
  | build {node node'} (hf : node.function = node'.function) (hr : R node.context node'.context)
      (hs : state.skipUntil = none) (hs' : state'.skipUntil = none) :
      TwinTask program R partner state state' false (.build node) (.build node')
  | body {node node' summary inMaster} (hr : R node.context node'.context)
      (hext : ∀ ir ∈ summary, ir.isMasterMarker || ir.isSingleMarker → ∀ context, ∃ callee,
        program.callee context ir.inst = some callee ∧ callee.isExtFunction = true)
      (hpos : TwinPosition partner state state' inMaster summary) :
      TwinTask program R partner state state' inMaster (.body node summary) (.body node' summary)

/-- What the builder keeps on both sides, besides the comparison of the events. -/
structure TwinInvariant (program : Program Ctx) (partner : Instruction → Instruction)
    (teams inMaster inSingle : Bool) (state state' : ThreadBuildState Ctx) : Prop where
  same : Matches program teams inMaster inSingle state state'
  paired : state.marks.Paired partner
  paired' : state'.marks.Paired partner
  numbered : state'.Numbered

def KeepsUp (program : Program Ctx) (R : Ctx → Ctx → Prop) (partner : Instruction → Instruction)
    (teams : Bool) (task : Task Ctx) (state last : ThreadBuildState Ctx) : Prop :=
  ∀ {task' state' last' inMaster inSingle}, Run program task' state' last' →
    TwinTask program R partner state state' inMaster task task' →
    TwinInvariant program partner teams inMaster inSingle state state' →
    NoTeams state last → NoTeams state' last' → SinglesTold state'.thread.id last'.log →
    ∃ inSingle', TwinInvariant program partner teams false inSingle' last last'

section Twins

variable {program : Program Ctx} {R : Ctx → Ctx → Prop} {partner : Instruction → Instruction}
  {teams inMaster inSingle : Bool} {node node' : CallGraphNode Ctx} {ir : IR} {rest : List IR}
  {state state' last last' : ThreadBuildState Ctx} {step step' : VisitStep Ctx}

lemma TwinInvariant.logCall (h : TwinInvariant program partner teams inMaster inSingle state state')
    (callee callee' : CallGraphNode Ctx) : TwinInvariant program partner teams inMaster inSingle
      (state.logCall node callee) (state'.logCall node' callee') := by
  have hf := Frame.of_logCall state node callee
  have hf' := Frame.of_logCall state' node' callee'
  have hfields : ∀ (s : ThreadBuildState Ctx) (n c : CallGraphNode Ctx), (s.logCall n c).events = s.events ∧
      (InTeams teams s → InTeams teams (s.logCall n c)) ∧
        singleOpenOn s.thread.id (s.logCall n c).log = singleOpenOn s.thread.id s.log := by
    intro s n c
    rw [ThreadBuildState.logCall]
    split
    · exact ⟨rfl, id, rfl⟩
    · exact ⟨rfl, id, singleOpenOn_foreign (by simp [LogEntry.isVisitBy])⟩
  obtain ⟨he, hi, -⟩ := hfields state node callee
  obtain ⟨he', hi', hsingle⟩ := hfields state' node' callee'
  refine ⟨h.same.quiet hf.thread hf'.thread hf.callstack hf'.callstack (hi h.same.inTeams)
    (hi' h.same.inTeams') he he' ?_, ?_, ?_, hf'.numbered h.numbered⟩
  · rw [hf'.thread, hsingle, h.same.single]
  · rw [logCall_marks]
    exact h.paired
  · rw [logCall_marks]
    exact h.paired'

lemma TwinInvariant.callEnd (h : TwinInvariant program partner teams false inSingle state state')
    (hun : ir.isMasterMarker = false) (hsm : ir.isSingleMarker = false) :
    TwinInvariant program partner teams false inSingle (state.push node .callEnd ir)
      (state'.push node' .callEnd ir) := by
  have hemit' := Emits.push node' state' .callEnd ir none
  refine ⟨h.same.extend rfl rfl rfl rfl h.same.inTeams h.same.inTeams' rfl rfl ?_ ?_, h.paired, h.paired',
    (Frame.of_emits hemit').numbered h.numbered⟩
  · exact (singleOpenOn_foreign (by simp [LogEntry.isVisitBy])).trans h.same.single
  · intro kept
    have hkept : Erasing.step ⟨false, inSingle, kept⟩ (state.nextEvent .callEnd ir none) =
        ⟨false, stepSingle ir inSingle, kept ++ [(ir.inst, .callEnd)]⟩ :=
      erased_kept hun rfl (by simp [ThreadBuildState.nextEvent]) kept
    rw [List.foldl_cons, hkept]
    simp [ThreadBuildState.nextEvent, stepSingle_unmarked hsm, withoutTaskJoins, Event.key]

lemma TwinPosition.congr {next next' : ThreadBuildState Ctx} {summary : List IR}
    (h : TwinPosition partner state state' inMaster summary) (hs : next.skipUntil = state.skipUntil)
    (hc : next.marks.currentMasterStart = state.marks.currentMasterStart)
    (hs' : next'.skipUntil = state'.skipUntil) : TwinPosition partner next next' inMaster summary := by
  cases h with
  | outside h hn hn' => exact .outside h (hs.trans hn) (hs'.trans hn')
  | inside hb hl hp hr hn hstart hn' =>
    exact .inside hb hl hp hr (hs.trans hn) (hc.trans hstart) (hs'.trans hn')

lemma TwinInvariant.forked (hprog : program.MasterRegionsClosed partner)
    (h : TwinInvariant program partner teams inMaster inSingle state state') {fork : ForkEvent Ctx}
    {entry : CallGraphNode Ctx} {childState : ThreadBuildState Ctx}
    (hrun : Run program (.build entry) (state.child fork entry) childState)
    (ht : ir.type ≠ .openMPForkTeams) (hn : NoTeams state childState) :
    TwinInvariant program partner teams inMaster inSingle (state.finishFork ir childState) state' ∧
      (state.finishFork ir childState).marks.currentMasterStart = state.marks.currentMasterStart := by
  have hat : (Task.build entry).At partner (state.child fork entry) state.marks.currentMasterStart := ⟨rfl, rfl⟩
  obtain ⟨hp, -, hc⟩ := hrun.marks hprog h.paired hat
  have hmarks := finishFork_marks state childState ir
  have hteams := finishFork_inTeams state ht (hrun.inTeams hn h.same.inTeams)
  refine ⟨⟨h.same.quiet rfl rfl rfl rfl hteams h.same.inTeams' rfl rfl h.same.single, ?_, h.paired',
    h.numbered⟩, ?_⟩
  · rw [hmarks]
    exact hp
  · rw [hmarks]
    exact hc

lemma TwinInvariant.forked' (hprog : program.MasterRegionsClosed partner)
    (h : TwinInvariant program partner teams inMaster inSingle state state') {fork : ForkEvent Ctx}
    {entry : CallGraphNode Ctx} {childState : ThreadBuildState Ctx}
    (hrun : Run program (.build entry) (state'.child fork entry) childState)
    (ht : ir.type ≠ .openMPForkTeams) (hn : NoTeams state' childState) :
    TwinInvariant program partner teams inMaster inSingle state (state'.finishFork ir childState) := by
  have hat : (Task.build entry).At partner (state'.child fork entry) state'.marks.currentMasterStart := ⟨rfl, rfl⟩
  obtain ⟨hp, -, -⟩ := hrun.marks hprog h.paired' hat
  have hmarks := finishFork_marks state' childState ir
  have hteams := finishFork_inTeams state' ht (hrun.inTeams hn h.same.inTeams')
  have hframe := hrun.frame (Frame.child_numbered state' fork entry)
  have hsingle : singleOpenOn state'.thread.id childState.log = inSingle := by
    obtain ⟨entries, hlog, -, hthreads⟩ := hframe.log
    rw [hlog, singleOpenOn_foreign]
    · exact h.same.single
    · intro e he
      cases e with
      | visited thread _ _ _ =>
        have hnumbered := h.numbered
        rw [ThreadBuildState.Numbered] at hnumbered
        have hne : thread.id ≠ state'.thread.id := by
          cases hthreads _ he thread rfl with
          | inl hown =>
            rw [hown]
            change state'.programState.currentTID + 1 ≠ _
            omega
          | inr hlt =>
            change state'.programState.currentTID + 1 < thread.id at hlt
            omega
        simpa [LogEntry.isVisitBy] using hne
      | created => rfl
      | entered => rfl
  refine ⟨h.same.quiet rfl rfl rfl rfl h.same.inTeams hteams rfl rfl hsingle, h.paired, ?_,
    (Frame.of_fork ir h.numbered hframe).numbered h.numbered⟩
  rw [hmarks]
  exact hp

lemma TwinInvariant.called (hprog : program.MasterRegionsClosed partner)
    (h : TwinInvariant program partner teams true inSingle state state') {callee : CallGraphNode Ctx}
    {returned : ThreadBuildState Ctx} {start : Instruction}
    (hrun : Run program (.build callee) (state.logCall node callee) returned)
    (hs : state.skipUntil = none) (hc : state.marks.currentMasterStart = some start)
    (hn : NoTeams state returned) (hun : ir.isMasterMarker = false) :
    TwinInvariant program partner teams true inSingle (returned.push node .callEnd ir) state' ∧
      returned.skipUntil = none ∧ returned.marks.currentMasterStart = some start := by
  have hlog := logCall_marks state node callee
  have hframe := Frame.of_logCall state node callee
  have hpaired : (state.logCall node callee).marks.Paired partner := by
    rw [hlog]
    exact h.paired
  have hat : (Task.build callee).At partner (state.logCall node callee) (some start) := by
    rw [← hc]
    exact at_called hs
  obtain ⟨hp, hskip, hcms⟩ := hrun.marks hprog hpaired hat
  obtain ⟨new, hnew, hmarks⟩ := hrun.unmarked hprog hpaired hat (by
    rw [hframe.thread]
    exact h.same.master)
  have hevents : (state.logCall node callee).events = state.events := by
    rw [ThreadBuildState.logCall]
    split <;> rfl
  have hteams : InTeams teams returned := by
    have hentered : InTeams teams (state.logCall node callee) := by
      have hi := h.same.inTeams
      rw [ThreadBuildState.logCall]
      split <;> exact hi
    exact hrun.inTeams ((logCall_extends state node callee).noTeams hrun.extends hn).2 hentered
  obtain ⟨hthread, hstack⟩ := hrun.returns
  have hadded : (returned.push node .callEnd ir).events =
      state.events ++ (new ++ [returned.nextEvent .callEnd ir none]) := by
    change returned.events ++ [returned.nextEvent .callEnd ir none] = _
    rw [hnew, hevents, List.append_assoc]
  refine ⟨⟨h.same.extend (hthread.trans hframe.thread) rfl (hstack.trans hframe.callstack) rfl hteams
    h.same.inTeams' hadded (show state'.events = state'.events ++ [] by simp) h.same.single ?_, hp,
    h.paired', h.numbered⟩, hskip, hcms⟩
  intro kept
  have hall : ∀ event ∈ new ++ [returned.nextEvent .callEnd ir none], event.ir.isMasterMarker = false := by
    intro event hevent
    cases List.mem_append.mp hevent with
    | inl hm => exact hmarks event hm
    | inr hm =>
      obtain rfl := List.mem_singleton.mp hm
      exact hun
  simp [erased_inside hall, withoutTaskJoins]

lemma twin_start_of_body {task' : Task Ctx} {node : CallGraphNode Ctx} (hR : SameCallees program R)
    (h : visitStart program node ir state = .ok step) (hafter : Extends step.state last)
    (hrun' : Run program task' state' last')
    (ht : TwinTask program R partner state state' inMaster (.body node (ir :: rest)) task')
    (hi : TwinInvariant program partner teams inMaster inSingle state state') (hn : NoTeams state last)
    (hn' : NoTeams state' last') (hs : SinglesTold state'.thread.id last'.log) :
    ∃ node' step', R node.context node'.context ∧ (∀ ir ∈ rest, ir.isMasterMarker || ir.isSingleMarker →
        ∀ context, ∃ callee, program.callee context ir.inst = some callee ∧ callee.isExtFunction = true) ∧
      TwinVisit program R partner teams ir rest state' step step' ∧
      After program node' ir rest last' step' ∧ Emits node' state' step'.state ∧
      step.state.marks.Paired partner ∧ step'.state.marks.Paired partner ∧
      NoTeams step.state last ∧ NoTeams step'.state last' ∧ (step ≠ .next (resume ir state) →
        ir.type ≠ .openMPForkTeams) := by
  cases ht with
  | @body _ node' _ _ hr hext hpos =>
    obtain ⟨step', h', hafter'⟩ := hrun'.after
    have hvisit : Extends state step.state := .of_emits (visitStart_emits h)
    have hvisit' : Extends state' step'.state := .of_emits (visitStart_emits h')
    obtain ⟨hnv, hnr⟩ := hvisit.noTeams hafter hn
    obtain ⟨hnv', hnr'⟩ := hvisit'.noTeams hafter'.extends hn'
    obtain ⟨hp, hp'⟩ := hpos.paired hi.same h h' hi.paired hi.paired'
    refine ⟨node', step', hr, fun x hx => hext x (List.mem_cons_of_mem _ hx), ?_, hafter',
      visitStart_emits h', hp, hp', hnr, hnr', visited_noTeams h hnv⟩
    refine twin_visit hR hr (hext ir List.mem_cons_self) h h' hi.same hpos hi.paired' hnv hnv' ?_
    intro hpass htype
    rw [(hs.of_extends hafter'.extends).visit h' hpass htype, hi.same.single]

lemma SinglesTold.on {log : List (LogEntry Ctx)} {thread thread' : ThreadRef Ctx}
    (h : SinglesTold thread.id log) (ht : thread' = thread) : SinglesTold thread'.id log := by
  rw [ht]
  exact h

lemma keepsUp_next {next : ThreadBuildState Ctx} (hR : SameCallees program R)
    (hstart : visitStart program node ir state = .ok (.next next))
    (hrest : Run program (.body node rest) next last)
    (ih : KeepsUp program R partner teams (.body node rest) next last) :
    KeepsUp program R partner teams (.body node (ir :: rest)) state last := by
  intro task' state' last' inMaster inSingle hrun' ht hi hn hn' hs
  obtain ⟨node', step', hr, hext, hvisit, hafter', hemit', hp, hp', hnr, hnr', -⟩ :=
    twin_start_of_body hR hstart hrest.extends hrun' ht hi hn hn' hs
  cases hvisit with
  | both hnext hm hpos _ =>
    cases hnext with
    | next =>
      cases hafter' with
      | next hrest' =>
        exact ih hrest' (.body hr hext hpos)
          ⟨hm, hp, hp', (Frame.of_emits hemit').numbered hi.numbered⟩ hnr hnr' (hs.on hemit'.thread)
  | alone hstep hm hpos _ =>
    subst hstep
    cases hafter' with
    | next hrest' => exact ih hrest' (.body hr hext hpos) ⟨hm, hp, hp', hi.numbered⟩ hnr hnr' hs

lemma TwinPosition.skips_nothing {summary : List IR}
    (h : TwinPosition partner state state' false summary) : state.skipUntil = none ∧ state'.skipUntil = none := by
  cases h with
  | outside _ hs hs' => exact ⟨hs, hs'⟩

lemma TwinPosition.region_open {summary : List IR} (h : TwinPosition partner state state' true summary) :
    state.skipUntil = none ∧ ∃ start, state.marks.currentMasterStart = some start := by
  cases h with
  | inside _ _ _ _ hs hc => exact ⟨hs, _, hc⟩

lemma Run.called_skips (hprog : program.MasterRegionsClosed partner) {callee : CallGraphNode Ctx}
    {returned : ThreadBuildState Ctx} (h : Run program (.build callee) (state.logCall node callee) returned)
    (hp : state.marks.Paired partner) (hs : state.skipUntil = none) :
    returned.skipUntil = none ∧
      returned.marks.currentMasterStart = state.marks.currentMasterStart := by
  have hlog := logCall_marks state node callee
  have hat : (Task.build callee).At partner (state.logCall node callee) state.marks.currentMasterStart :=
    ⟨(congrArg Marks.skipUntil hlog).trans hs, congrArg Marks.currentMasterStart hlog⟩
  exact (h.marks hprog (by rw [hlog]; exact hp) hat).2

lemma keepsUp_call {next returned : ThreadBuildState Ctx} {callee : CallGraphNode Ctx}
    (hR : SameCallees program R) (hprog : program.MasterRegionsClosed partner)
    (hstart : visitStart program node ir state = .ok (.call callee next))
    (hcall : Run program (.build callee) (next.logCall node callee) returned)
    (hrest : Run program (.body node rest) (returned.push node .callEnd ir) last)
    (ihcall : KeepsUp program R partner teams (.build callee) (next.logCall node callee) returned)
    (ihrest : KeepsUp program R partner teams (.body node rest) (returned.push node .callEnd ir) last) :
    KeepsUp program R partner teams (.body node (ir :: rest)) state last := by
  intro task' state' last' inMaster inSingle hrun' ht hi hn hn' hs
  have hend := push_extends returned node .callEnd ir
  have htail : Extends returned last := hend.trans hrest.extends
  obtain ⟨node', step', hr, hext, hvisit, hafter', hemit', hp, hp', hnr, hnr', -⟩ :=
    twin_start_of_body hR hstart
      (((logCall_extends next node callee).trans hcall.extends).trans htail) hrun' ht hi hn hn' hs
  obtain ⟨-, hnc⟩ := (logCall_extends next node callee).noTeams (hcall.extends.trans htail) hnr
  obtain ⟨hncall, hnend⟩ := hcall.extends.noTeams htail hnc
  obtain ⟨-, hnrest⟩ := hend.noTeams hrest.extends hnend
  cases hvisit with
  | both hnext hm hpos hmode =>
    obtain ⟨rfl, hun, hsm⟩ := hmode (by simp)
    obtain ⟨hs1, hs2⟩ := hpos.skips_nothing
    cases hnext with
    | @call _ callee' _ next' hf hrc =>
      cases hafter' with
      | @call _ _ returned' hcall' hrest' =>
        have hend' := push_extends returned' node' .callEnd ir
        have htail' : Extends returned' last' := hend'.trans hrest'.extends
        have hlog' := logCall_extends next' node' callee'
        obtain ⟨-, hnc'⟩ := hlog'.noTeams (hcall'.extends.trans htail') hnr'
        obtain ⟨hncall', hnend'⟩ := hcall'.extends.noTeams htail' hnc'
        obtain ⟨-, hnrest'⟩ := hend'.noTeams hrest'.extends hnend'
        have hthread' : (next'.logCall node' callee').thread = state'.thread :=
          (Frame.of_logCall next' node' callee').thread.trans hemit'.thread
        have hinv : TwinInvariant program partner teams false _ next next' :=
          ⟨hm, hp, hp', (Frame.of_emits hemit').numbered hi.numbered⟩
        have hskips : (next.logCall node callee).skipUntil = none :=
          (congrArg Marks.skipUntil (logCall_marks next node callee)).trans hs1
        have hskips' : (next'.logCall node' callee').skipUntil = none :=
          (congrArg Marks.skipUntil (logCall_marks next' node' callee')).trans hs2
        obtain ⟨inSingle', hback⟩ := ihcall hcall' (.build hf hrc hskips hskips')
          (hinv.logCall callee callee') hncall hncall' ((hs.of_extends htail').on hthread')
        obtain ⟨hr1, hc1⟩ := hcall.called_skips hprog hp hs1
        obtain ⟨hr2, -⟩ := hcall'.called_skips hprog hp' hs2
        have hreturned' : (returned'.push node' .callEnd ir).thread = state'.thread :=
          hcall'.returns.1.trans hthread'
        exact ihrest hrest' (.body hr hext (hpos.congr (hr1.trans hs1.symm) hc1 (hr2.trans hs2.symm)))
          (hback.callEnd hun hsm) hnrest hnrest' (hs.on hreturned')
  | alone hstep hm hpos hun =>
    subst hstep
    cases hafter' with
    | next hrest' =>
      obtain ⟨hs1, start, hc1⟩ := hpos.region_open
      have hinv : TwinInvariant program partner teams true _ next state' := ⟨hm, hp, hp', hi.numbered⟩
      obtain ⟨hback, hr1, hcr⟩ := hinv.called hprog hcall hs1 hc1
        ((logCall_extends next node callee).trans hcall.extends |>.noTeams htail hnr).1 hun
      exact ihrest hrest' (.body hr hext (hpos.congr (hr1.trans hs1.symm) (hcr.trans hc1.symm) rfl))
        hback hnrest hnr' hs

lemma keepsUp_fork {next childState : ThreadBuildState Ctx} {fork : ForkEvent Ctx} {entry : CallGraphNode Ctx}
    (hR : SameCallees program R) (hprog : program.MasterRegionsClosed partner)
    (hstart : visitStart program node ir state = .ok (.fork fork entry next))
    (hchild : Run program (.build entry) (next.child fork entry) childState)
    (hrest : Run program (.body node rest) (next.finishFork ir childState) last)
    (ihrest : KeepsUp program R partner teams (.body node rest) (next.finishFork ir childState) last) :
    KeepsUp program R partner teams (.body node (ir :: rest)) state last := by
  intro task' state' last' inMaster inSingle hrun' ht hi hn hn' hs
  have hbuilt : Extends next (next.finishFork ir childState) := hchild.extends
  obtain ⟨node', step', hr, hext, hvisit, hafter', hemit', hp, hp', hnr, hnr', hteams⟩ :=
    twin_start_of_body hR hstart (hbuilt.trans hrest.extends) hrun' ht hi hn hn' hs
  have htype := hteams (by simp)
  obtain ⟨hnchild, hnrest⟩ := hbuilt.noTeams hrest.extends hnr
  cases hvisit with
  | both hnext hm hpos hmode =>
    have hinv : TwinInvariant program partner teams _ _ next step'.state :=
      ⟨hm, hp, hp', (Frame.of_emits hemit').numbered hi.numbered⟩
    obtain ⟨hforked, hcms⟩ := hinv.forked hprog hchild htype hnchild
    cases hnext with
    | task =>
      cases hafter' with
      | next hrest' =>
        exact ihrest hrest' (.body hr hext (hpos.congr rfl hcms rfl)) hforked hnrest hnr' (hs.on hemit'.thread)
    | fork _ _ _ fork' entry' next' =>
      cases hafter' with
      | @fork _ _ _ childState' hchild' hrest' =>
        have hbuilt' : Extends next' (next'.finishFork ir childState') := hchild'.extends
        obtain ⟨hnchild', hnrest'⟩ := hbuilt'.noTeams hrest'.extends hnr'
        exact ihrest hrest' (.body hr hext (hpos.congr rfl hcms rfl))
          (hforked.forked' hprog hchild' htype hnchild') hnrest hnrest' (hs.on hemit'.thread)
  | alone hstep hm hpos _ =>
    subst hstep
    cases hafter' with
    | next hrest' =>
      have hinv : TwinInvariant program partner teams true _ next state' := ⟨hm, hp, hp', hi.numbered⟩
      obtain ⟨hforked, hcms⟩ := hinv.forked hprog hchild htype hnchild
      exact ihrest hrest' (.body hr hext (hpos.congr rfl hcms rfl)) hforked hnrest hnr' hs

theorem Run.keepsUp (hR : SameCallees program R) (hprog : program.MasterRegionsClosed partner)
    (hmark : program.MarkersExtern) {task : Task Ctx} (h : Run program task state last) :
    KeepsUp program R partner teams task state last := by
  induction h with
  | @recursive node state hrec =>
    intro task' state' last' inMaster inSingle hrun' ht hi _ _ _
    cases ht with
    | build hf _ _ _ =>
      cases hrun' with
      | recursive => exact ⟨inSingle, hi⟩
      | function hnot =>
        rw [← hf, ← hi.same.callstack] at hnot
        exact absurd hrec hnot
  | @function node summary state last hnot hsum _ ih =>
    intro task' state' last' inMaster inSingle hrun' ht hi hn hn' hs
    cases ht with
    | @build _ node' hf hr hs1 hs2 =>
      cases hrun' with
      | recursive hrec =>
        rw [← hf, ← hi.same.callstack] at hrec
        exact absurd hrec hnot
      | @function _ summary' _ last' _ hsum' hbody' =>
        rw [← hf, hsum] at hsum'
        obtain rfl := Except.ok.inj hsum'
        have hstack : (state.enter node).callstack = (state'.enter node').callstack := by
          rw [ThreadBuildState.enter, ThreadBuildState.enter, hi.same.callstack, hf]
        have hentered : TwinInvariant program partner teams false inSingle (state.enter node)
            (state'.enter node') :=
          ⟨⟨hi.same.master, hi.same.other, hstack, hi.same.sites, hi.same.inTeams, hi.same.inTeams',
            hi.same.erased, hi.same.single⟩, hi.paired, hi.paired', hi.numbered⟩
        obtain ⟨inSingle', hlast⟩ := ih hbody'
          (.body hr (hmark _ _ hsum) (.outside (hprog _ _ hsum) hs1 hs2)) hentered hn hn' hs
        have hleft : last.leave.callstack = last'.leave.callstack := by
          rw [ThreadBuildState.leave, ThreadBuildState.leave, hlast.same.callstack]
        exact ⟨inSingle', ⟨hlast.same.master, hlast.same.other, hleft, hlast.same.sites,
          hlast.same.inTeams, hlast.same.inTeams', hlast.same.erased, hlast.same.single⟩,
          hlast.paired, hlast.paired', hlast.numbered⟩
  | done =>
    intro task' state' last' inMaster inSingle hrun' ht hi _ _ _
    generalize hsum : ([] : List IR) = summary at ht
    cases ht with
    | body _ _ hpos =>
      subst hsum
      generalize hsum : ([] : List IR) = summary at hpos
      cases hpos with
      | outside =>
        cases hrun' with
        | done => exact ⟨inSingle, hi⟩
      | inside => simp at hsum
  | next hstart hrest ih => exact keepsUp_next hR hstart hrest ih
  | call hstart hcall hrest ihcall ihrest => exact keepsUp_call hR hprog hstart hcall hrest ihcall ihrest
  | fork hstart hchild hrest _ ihrest => exact keepsUp_fork hR hprog hstart hchild hrest ihrest

end Twins

end OpenRace
