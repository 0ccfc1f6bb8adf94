import OpenRace.Trace.Build.TwinSteps

/-! Both twins in step: what one statement preserves. -/

namespace OpenRace

open LLVM

variable {Ctx : Type}

structure Matches (program : Program Ctx) (teams inMaster inSingle : Bool)
    (state state' : ThreadBuildState Ctx) : Prop where
  master : isOpenMPMasterThread state.thread = true
  other : isOpenMPMasterThread state'.thread = false
  callstack : state.callstack = state'.callstack
  sites : ∀ f n count, isRecursiveThreadSpawn program f n state.thread.spawnSites count =
    isRecursiveThreadSpawn program f n state'.thread.spawnSites count
  inTeams : InTeams teams state
  inTeams' : InTeams teams state'
  erased : state.events.foldl Erasing.step {} =
    ⟨inMaster, inSingle, (withoutTaskJoins state'.events).map Event.key⟩
  single : singleOpenOn state'.thread.id state'.log = inSingle

/-- Where both twins stand; inside a master region only the master moves. -/
inductive TwinPosition (partner : Instruction → Instruction) (state state' : ThreadBuildState Ctx) :
    Bool → List IR → Prop
  | outside {summary} (h : Structured partner summary) (hs : state.skipUntil = none)
      (hs' : state'.skipUntil = none) : TwinPosition partner state state' false summary
  | inside {body last rest start} (hb : ∀ ir ∈ body, ir.isMasterMarker = false ∧ ir.inst ≠ last.inst)
      (hl : last.type = .openMPMasterEnd) (hp : last.inst = partner start)
      (hr : Structured partner rest) (hs : state.skipUntil = none)
      (hc : state.marks.currentMasterStart = some start) (hs' : state'.skipUntil = some last.inst) :
      TwinPosition partner state state' true (body ++ last :: rest)

section Matches

variable {program : Program Ctx} {teams inMaster inSingle inMaster' inSingle' : Bool}
  {state state' next next' : ThreadBuildState Ctx} {new new' : List (Event Ctx)}

lemma Matches.extend (h : Matches program teams inMaster inSingle state state')
    (ht : next.thread = state.thread) (ht' : next'.thread = state'.thread)
    (hc : next.callstack = state.callstack) (hc' : next'.callstack = state'.callstack)
    (hi : InTeams teams next) (hi' : InTeams teams next')
    (he : next.events = state.events ++ new) (he' : next'.events = state'.events ++ new')
    (hsingle : singleOpenOn next'.thread.id next'.log = inSingle')
    (hstep : ∀ kept, new.foldl Erasing.step ⟨inMaster, inSingle, kept⟩ =
      ⟨inMaster', inSingle', kept ++ (withoutTaskJoins new').map Event.key⟩) :
    Matches program teams inMaster' inSingle' next next' := by
  refine ⟨by rw [ht]; exact h.master, by rw [ht']; exact h.other, by rw [hc, hc']; exact h.callstack,
    by rw [ht, ht']; exact h.sites, hi, hi', ?_, hsingle⟩
  rw [he, List.foldl_append, h.erased, hstep, he', withoutTaskJoins_append, List.map_append]

lemma Matches.quiet (h : Matches program teams inMaster inSingle state state')
    (ht : next.thread = state.thread) (ht' : next'.thread = state'.thread)
    (hc : next.callstack = state.callstack) (hc' : next'.callstack = state'.callstack)
    (hi : InTeams teams next) (hi' : InTeams teams next')
    (he : next.events = state.events) (he' : next'.events = state'.events)
    (hsingle : singleOpenOn next'.thread.id next'.log = inSingle) :
    Matches program teams inMaster inSingle next next' :=
  h.extend ht ht' hc hc' hi hi' (show next.events = state.events ++ [] by simp [he])
    (show next'.events = state'.events ++ [] by simp [he']) hsingle (by simp [withoutTaskJoins])

end Matches

lemma singleOpenOn_append (tid : ℕ) (log entries : List (LogEntry Ctx)) :
    singleOpenOn tid (log ++ entries) =
      (entries.filter (·.isVisitBy tid)).foldl LogEntry.stepSingle (singleOpenOn tid log) := by
  rw [singleOpenOn, List.filter_append, singleOpen, List.foldl_append]
  rfl

lemma singleOpenOn_foreign {tid : ℕ} {log entries : List (LogEntry Ctx)}
    (h : ∀ entry ∈ entries, entry.isVisitBy tid = false) :
    singleOpenOn tid (log ++ entries) = singleOpenOn tid log := by
  have hnone : entries.filter (·.isVisitBy tid) = [] := by
    rw [List.filter_eq_nil_iff]
    intro entry hentry
    simp [h entry hentry]
  rw [singleOpenOn_append, hnone]
  rfl

lemma VisitOutcome.singleOpenOn {program : Program Ctx} {node : CallGraphNode Ctx} {ir : IR}
    {state : ThreadBuildState Ctx} {step : VisitStep Ctx} {joins own : List (Event Ctx)}
    (h : VisitOutcome program node ir state step joins own) :
    OpenRace.singleOpenOn state.thread.id step.state.log =
      stepSingle ir (OpenRace.singleOpenOn state.thread.id state.log) := by
  rw [h.log, List.append_cons, singleOpenOn_foreign (created_not_visitBy _), singleOpenOn_append]
  simp [LogEntry.isVisitBy, LogEntry.stepSingle]

lemma visited_singleOpenOn {program : Program Ctx} {node : CallGraphNode Ctx} {ir : IR}
    {state : ThreadBuildState Ctx} {step : VisitStep Ctx}
    (h : visitStart program node ir state = .ok step) (hp : passes ir state = false) :
    singleOpenOn state.thread.id step.state.log = stepSingle ir (singleOpenOn state.thread.id state.log) := by
  rcases visitOutcome h with ⟨hpass, -⟩ | ⟨-, joins, own, ho⟩
  · rw [hp] at hpass
    cases hpass
  · exact ho.singleOpenOn

lemma not_passed {ir : IR} {state : ThreadBuildState Ctx} (hp : state.programState.inParallel = true)
    (hs : ∀ target, state.skipUntil = some target → ir.inst = target) : passes ir state = false := by
  have hprogram := (resume_fields ir state).2.1
  have hbefore : isBeforeParallel ir (resume ir state) = false := by
    rw [isBeforeParallel, hprogram, hp]
    rfl
  rw [passes, hbefore, Bool.or_false, shouldSkipIR]
  split
  · rfl
  · rename_i target hsome
    rw [if_neg (by simpa using hs target hsome)]

inductive TwinVisit (program : Program Ctx) (R : Ctx → Ctx → Prop) (partner : Instruction → Instruction)
    (teams : Bool) (ir : IR) (rest : List IR) (state' : ThreadBuildState Ctx)
    (step step' : VisitStep Ctx) : Prop
  | both {inMaster inSingle} (hnext : TwinNext R step step')
      (hm : Matches program teams inMaster inSingle step.state step'.state)
      (hpos : TwinPosition partner step.state step'.state inMaster rest)
      (hcall : (∀ last, step ≠ .next last) → inMaster = false ∧ ir.isMasterMarker = false ∧
        ir.isSingleMarker = false)
  | alone {inSingle} (hs : step' = .next state')
      (hm : Matches program teams true inSingle step.state state')
      (hpos : TwinPosition partner step.state state' true rest) (hun : ir.isMasterMarker = false)

lemma stepSingle_unmarked {ir : IR} (h : ir.isSingleMarker = false) (inSingle : Bool) :
    stepSingle ir inSingle = inSingle := by
  simp only [IR.isSingleMarker, Bool.or_eq_false_iff, beq_eq_false_iff_ne] at h
  rw [stepSingle]
  split
  · rename_i htype
    exact absurd htype h.1
  · rename_i htype
    exact absurd htype h.2
  · rfl

lemma erased_kept {event : Event Ctx} {inSingle : Bool} (hun : event.ir.isMasterMarker = false)
    (hf : event.forkEvent = none) (ht : event.type = .fork → event.ir.type = .openMPTaskFork → inSingle = false)
    (kept : List (Instruction × EventType)) : Erasing.step ⟨false, inSingle, kept⟩ event =
      ⟨false, stepSingle event.ir inSingle, kept ++ [event.key]⟩ := by
  simp only [IR.isMasterMarker, Bool.or_eq_false_iff, beq_eq_false_iff_ne] at hun
  have hnot : ¬ (event.type = .fork ∧ event.ir.type = .openMPTaskFork ∧ inSingle = true) := by
    rintro ⟨hfork, htask, hin⟩
    rw [ht hfork htask] at hin
    cases hin
  simp [Erasing.step, hun, hf, hnot]

section Visits

variable {program : Program Ctx} {R : Ctx → Ctx → Prop} {partner : Instruction → Instruction}
  {teams inSingle : Bool} {node node' : CallGraphNode Ctx} {ir : IR} {rest : List IR}
  {state state' : ThreadBuildState Ctx} {step step' : VisitStep Ctx}

lemma erased_own {joins joins' own own' : List (Event Ctx)} (hj : TaskJoins joins)
    (hj' : TaskJoins joins') (ho : TwinOwn ir own own') (hun : ir.isMasterMarker = false)
    (ht : ir.type = .openMPTaskFork → inSingle = false) (kept : List (Instruction × EventType)) :
    (joins ++ own).foldl Erasing.step ⟨false, inSingle, kept⟩ =
      ⟨false, stepSingle ir inSingle, kept ++ (withoutTaskJoins (joins' ++ own')).map Event.key⟩ := by
  rw [List.foldl_append, hj.erased, withoutTaskJoins_append, hj'.dropped, List.nil_append]
  cases ho with
  | nothing hs => simp [stepSingle_unmarked hs, withoutTaskJoins]
  | @one event event' hir hir' htype hf hf' =>
    have hkey : event'.key = event.key := by rw [Event.key, Event.key, hir, hir', htype]
    have hstep := erased_kept (show event.ir.isMasterMarker = false by rw [hir]; exact hun) hf
      (fun _ htask => ht (by rw [← hir]; exact htask)) kept
    rw [hir] at hstep
    simp [hstep, withoutTaskJoins, hf', hkey]

lemma teamSpecific_unmarked (h : isOpenMPTeamSpecific ir = true) : ir.isSingleMarker = false := by
  cases htype : ir.type <;> simp_all [isOpenMPTeamSpecific, IR.isSingleMarker]

lemma Matches.visited {inMaster : Bool} (inMaster' : Bool) (new new' : List (Event Ctx))
    (hm : Matches program teams inMaster inSingle state state')
    (h : visitStart program node ir state = .ok step) (h' : visitStart program node' ir state' = .ok step')
    (hp' : passes ir state' = false) (hnt : NoTeams state step.state) (hnt' : NoTeams state' step'.state)
    (he : step.state.events = state.events ++ new) (he' : step'.state.events = state'.events ++ new')
    (hstep : ∀ kept, new.foldl Erasing.step ⟨inMaster, inSingle, kept⟩ =
      ⟨inMaster', stepSingle ir inSingle, kept ++ (withoutTaskJoins new').map Event.key⟩) :
    Matches program teams inMaster' (stepSingle ir inSingle) step.state step'.state := by
  have hemit := visitStart_emits h
  have hemit' := visitStart_emits h'
  refine hm.extend hemit.thread hemit'.thread hemit.callstack hemit'.callstack
    (visitStart_inTeams h hnt hm.inTeams) (visitStart_inTeams h' hnt' hm.inTeams') he he' ?_ hstep
  rw [hemit'.thread, visited_singleOpenOn h' hp', hm.single]

lemma plain_marks (h : visitStart program node ir state = .ok step) (hp : passes ir state = false)
    (hun : ir.isMasterMarker = false) :
    step.state.marks = { state.marks with skipUntil := none } := by
  have hstep := (visit_marks h hp).1
  generalize isOpenMPMasterThread state.thread = master at hstep
  generalize step.state.marks = marks at hstep ⊢
  cases hstep with
  | start htype => simp [IR.isMasterMarker, htype] at hun
  | skip htype => simp [IR.isMasterMarker, htype] at hun
  | finish htype => simp [IR.isMasterMarker, htype] at hun
  | other => rfl

lemma Dispatched.followed {asked : ThreadBuildState Ctx} (hd : Dispatched program node ir asked step)
    (hext : ir.isSingleMarker = true → ∀ context, ∃ callee,
      program.callee context ir.inst = some callee ∧ callee.isExtFunction = true)
    (hs : ∀ last, step ≠ .next last) : ir.isSingleMarker = false := by
  cases hd with
  | plain => exact absurd rfl (hs _)
  | recursiveFork => exact absurd rfl (hs _)
  | fork hfork => exact unmarked_single (by rw [hfork]; simp)
  | noCall => exact absurd rfl (hs _)
  | externCall => exact absurd rfl (hs _)
  | call _ callee hc he =>
    rw [← Bool.not_eq_true]
    intro hsm
    obtain ⟨callee', hc', he'⟩ := hext hsm node.context
    rw [hc] at hc'
    obtain rfl := Option.some.inj hc'
    rw [he] at he'
    cases he'

lemma Dispatched.task_erased {asked : ThreadBuildState Ctx} {joins : List (Event Ctx)}
    (hd : Dispatched program node ir asked step) (htask : ir.type = .openMPTaskFork)
    (hj : TaskJoins joins) :
    ∃ own, step.state.events = asked.events ++ own ∧ (∀ s' : ThreadBuildState Ctx, TwinNext R step (.next s')) ∧
      ∀ kept, (joins ++ own).foldl Erasing.step ⟨false, true, kept⟩ = ⟨false, true, kept⟩ := by
  have hkind : ir.type.kind = .fork := by rw [htask]; rfl
  rcases hd.kind_unique with ⟨_, hplain, -⟩ | ⟨-, entry, -, hstep⟩ | ⟨hcall, -⟩
  · simp [hkind, IRKind.plainEvent] at hplain
  · rcases hstep with ⟨-, rfl⟩ | ⟨-, rfl⟩
    · exact ⟨[], by simp [VisitStep.state], fun s' => .next _ s', fun kept => by simp [hj.erased]⟩
    · refine ⟨[asked.nextEvent .fork ir none], rfl, fun s' => .task _ _ _ s', fun kept => ?_⟩
      rw [List.foldl_append, hj.erased]
      simp [Erasing.step, ThreadBuildState.nextEvent, htask]
  · rw [hkind] at hcall
    cases hcall

lemma twin_plain (hR : SameCallees program R) (hn : R node.context node'.context)
    (hext : ir.isSingleMarker = true → ∀ context, ∃ callee,
      program.callee context ir.inst = some callee ∧ callee.isExtFunction = true)
    (h : visitStart program node ir state = .ok step) (h' : visitStart program node' ir state' = .ok step')
    (hm : Matches program teams false inSingle state state') (hun : ir.isMasterMarker = false)
    (hrest : Structured partner rest) (hs : state.skipUntil = none) (hs' : state'.skipUntil = none)
    (hnt : NoTeams state step.state) (hnt' : NoTeams state' step'.state)
    (hflag : ir.type = .openMPTaskFork → state'.programState.runtime.inSingleRegion = inSingle) :
    TwinVisit program R partner teams ir rest state' step step' := by
  have hp : passes ir state = false := not_passed hm.inTeams.1 (by simp [hs])
  have hp' : passes ir state' = false := not_passed hm.inTeams'.1 (by simp [hs'])
  have hpos : TwinPosition partner step.state step'.state false rest := by
    refine .outside hrest ?_ ?_
    · exact congrArg Marks.skipUntil (plain_marks h hp hun)
    · exact congrArg Marks.skipUntil (plain_marks h' hp' hun)
  have hskips : Skips ir state → isOpenMPTeamSpecific ir = true ∧ Skips ir state' := by
    rintro (⟨hin, hspec⟩ | ⟨-, -, hother⟩ | ⟨hstart, -⟩)
    · exact ⟨hspec, Or.inl ⟨by rw [hm.inTeams'.2, ← hm.inTeams.2, hin], hspec⟩⟩
    · rw [hm.master] at hother
      cases hother
    · simp [IR.isMasterMarker, hstart] at hun
  have htask : ir.type = .openMPTaskFork → (inSingle = true ↔ Skips ir state') := by
    intro htype
    have hspec : isOpenMPTeamSpecific ir = false := by simp [isOpenMPTeamSpecific, htype]
    simp [Skips, htype, hspec, hflag htype, hm.other]
  rcases visited_cases h hp with ⟨hskip, skipped, rfl, hevents⟩ |
    ⟨hrun, asked, joins, hjoins, htj, hthread, hd⟩
  · rcases visited_cases h' hp' with ⟨-, skipped', rfl, hevents'⟩ | ⟨hrun', -⟩
    · have hsame := hm.visited false [] [] h h' hp' hnt hnt'
        (by simpa [VisitStep.state] using hevents) (by simpa [VisitStep.state] using hevents')
        (by simp [stepSingle_unmarked (teamSpecific_unmarked (hskips hskip).1), withoutTaskJoins])
      exact .both (.next _ _) hsame hpos (fun hnext => absurd rfl (hnext _))
    · exact absurd (hskips hskip).2 hrun'
  · rcases visited_cases h' hp' with ⟨hskip', skipped', rfl, hevents'⟩ |
      ⟨hrun', asked', joins', hjoins', htj', hthread', hd'⟩
    · have htype : ir.type = .openMPTaskFork := by
        rcases hskip' with ⟨hin, hspec⟩ | ⟨htype, -⟩ | ⟨hstart, -⟩
        · exact absurd (Or.inl ⟨by rw [hm.inTeams.2, ← hm.inTeams'.2, hin], hspec⟩) hrun
        · exact htype
        · simp [IR.isMasterMarker, hstart] at hun
      obtain rfl := (htask htype).mpr hskip'
      obtain ⟨own, hown, hnext, herased⟩ := hd.task_erased (R := R) htype htj
      have hsame := hm.visited false _ [] h h' hp' hnt hnt'
        (by rw [hown, hjoins, List.append_assoc]) (by simpa [VisitStep.state] using hevents')
        (fun kept => by simp [herased kept, stepSingle, htype, withoutTaskJoins])
      exact .both (hnext skipped') hsame hpos (fun _ => ⟨rfl, hun, by simp [IR.isSingleMarker, htype]⟩)
    · obtain ⟨own, own', hown, hown', ho, hnext⟩ := twin_dispatch hR hn
        (by rw [hthread, hthread']; exact hm.sites) (fun hsm => (hext hsm node.context).imp fun _ h => h.1)
        hd hd'
      have hsame := hm.visited false _ _ h h' hp' hnt hnt'
        (by rw [hown, hjoins, List.append_assoc]) (by rw [hown', hjoins', List.append_assoc])
        (erased_own htj htj' ho hun (fun htype => by
          rw [← Bool.not_eq_true, htask htype]
          exact hrun'))
      exact .both hnext hsame hpos (fun hc => ⟨rfl, hun, hd.followed hext hc⟩)

lemma Dispatched.marker {asked : ThreadBuildState Ctx} (hd : Dispatched program node ir asked step)
    (hkind : ir.type.kind = .call) (hext : ∃ callee,
      program.callee node.context ir.inst = some callee ∧ callee.isExtFunction = true) :
    step = .next (asked.push node .externCall ir) := by
  obtain ⟨callee, hc, he⟩ := hext
  rcases hd.kind_unique with ⟨_, hplain, -⟩ | ⟨hfork, -⟩ | ⟨-, hstep⟩
  · simp [hkind, IRKind.plainEvent] at hplain
  · rw [hkind] at hfork
    cases hfork
  · rcases hstep with ⟨hnone, -⟩ | ⟨callee', hc', hstep⟩
    · rw [hc] at hnone
      cases hnone
    · rw [hc] at hc'
      obtain rfl := Option.some.inj hc'
      rcases hstep with ⟨-, rfl⟩ | ⟨he', -⟩
      · rfl
      · rw [he] at he'
        cases he'

lemma start_skips {s : ThreadBuildState Ctx} (htype : ir.type = .openMPMasterStart) :
    Skips ir s ↔ isOpenMPMasterThread s.thread = false := by
  simp [Skips, htype, isOpenMPTeamSpecific]

lemma end_skips {s : ThreadBuildState Ctx} (htype : ir.type = .openMPMasterEnd) : ¬ Skips ir s := by
  simp [Skips, htype, isOpenMPTeamSpecific]

lemma MarksStep.opened {master : Bool} {marks marks' : Marks} (h : MarksStep ir master marks marks')
    (hm : master = true) (htype : ir.type = .openMPMasterStart) :
    marks' = { marks with currentMasterStart := some ir.inst } := by
  cases h with
  | start => rfl
  | skip _ hother => rw [hm] at hother; cases hother
  | finish hend => rw [htype] at hend; cases hend
  | other hun =>
    rcases hun with hun | ⟨hend, -⟩
    · simp [IR.isMasterMarker, htype] at hun
    · rw [htype] at hend
      cases hend

lemma MarksStep.skipped {master : Bool} {marks marks' : Marks} (h : MarksStep ir master marks marks')
    (hm : master = false) (htype : ir.type = .openMPMasterStart) :
    ∃ last, marks.masterRegions.lookup ir.inst = some last ∧ marks' = { marks with skipUntil := some last } := by
  cases h with
  | start _ hother => rw [hm] at hother; cases hother
  | skip _ _ last hl => exact ⟨last, hl, rfl⟩
  | finish hend => rw [htype] at hend; cases hend
  | other hun =>
    rcases hun with hun | ⟨hend, -⟩
    · simp [IR.isMasterMarker, htype] at hun
    · rw [htype] at hend
      cases hend

lemma MarksStep.closed {master : Bool} {marks marks' : Marks} (h : MarksStep ir master marks marks')
    (htype : ir.type = .openMPMasterEnd) : marks'.skipUntil = marks.skipUntil := by
  cases h with
  | start => rfl
  | skip hstart => rw [htype] at hstart; cases hstart
  | finish => rfl
  | other => rfl

lemma twin_start {body : List IR} {last : IR} (hext : ∀ context, ∃ callee,
      program.callee context ir.inst = some callee ∧ callee.isExtFunction = true)
    (h : visitStart program node ir state = .ok step) (h' : visitStart program node' ir state' = .ok step')
    (hm : Matches program teams false inSingle state state') (htype : ir.type = .openMPMasterStart)
    (hb : ∀ x ∈ body, x.isMasterMarker = false ∧ x.inst ≠ last.inst)
    (hl : last.type = .openMPMasterEnd) (hpair : last.inst = partner ir.inst)
    (hrest : Structured partner rest) (hs : state.skipUntil = none) (hs' : state'.skipUntil = none)
    (hpaired : state'.marks.Paired partner) (hnt : NoTeams state step.state)
    (hnt' : NoTeams state' step'.state) :
    TwinVisit program R partner teams ir (body ++ last :: rest) state' step step' := by
  have hp : passes ir state = false := not_passed hm.inTeams.1 (by simp [hs])
  have hp' : passes ir state' = false := not_passed hm.inTeams'.1 (by simp [hs'])
  have hsingle : ir.isSingleMarker = false := by simp [IR.isSingleMarker, htype]
  rcases visited_cases h hp with ⟨hskip, -⟩ | ⟨-, asked, joins, hjoins, htj, -, hd⟩
  · rw [start_skips htype, hm.master] at hskip
    cases hskip
  · rcases visited_cases h' hp' with ⟨-, skipped', rfl, hevents'⟩ | ⟨hrun', -⟩
    · obtain rfl := hd.marker (by rw [htype]; rfl) (hext node.context)
      have hsame := hm.visited true (joins ++ [asked.nextEvent .externCall ir none]) [] h h' hp' hnt hnt'
        (by rw [← List.append_assoc, ← hjoins]; rfl) (by simpa [VisitStep.state] using hevents')
        (fun kept => by
          rw [List.foldl_append, htj.erased]
          simp [Erasing.step, ThreadBuildState.nextEvent, htype, stepSingle_unmarked hsingle,
            withoutTaskJoins])
      refine .both (.next _ _) hsame ?_ (fun hc => absurd rfl (hc _))
      have hmarks := (visit_marks h hp).1.opened hm.master htype
      obtain ⟨target, hlookup, hmarks'⟩ := (visit_marks h' hp').1.skipped hm.other htype
      refine .inside hb hl hpair hrest (congrArg Marks.skipUntil hmarks)
        (congrArg Marks.currentMasterStart hmarks) ((congrArg Marks.skipUntil hmarks').trans ?_)
      change some target = some last.inst
      rw [hpaired _ _ hlookup, hpair]
    · exact absurd ((start_skips htype).mpr hm.other) hrun'

lemma twin_end (hext : ∀ context, ∃ callee,
      program.callee context ir.inst = some callee ∧ callee.isExtFunction = true)
    (h : visitStart program node ir state = .ok step) (h' : visitStart program node' ir state' = .ok step')
    (hm : Matches program teams true inSingle state state') (htype : ir.type = .openMPMasterEnd)
    (hrest : Structured partner rest) (hs : state.skipUntil = none) (hs' : state'.skipUntil = some ir.inst)
    (hnt : NoTeams state step.state) (hnt' : NoTeams state' step'.state) :
    TwinVisit program R partner teams ir rest state' step step' := by
  have hp : passes ir state = false := not_passed hm.inTeams.1 (by simp [hs])
  have hp' : passes ir state' = false := not_passed hm.inTeams'.1 (by simp [hs'])
  have hsingle : ir.isSingleMarker = false := by simp [IR.isSingleMarker, htype]
  rcases visited_cases h hp with ⟨hskip, -⟩ | ⟨-, asked, joins, hjoins, htj, -, hd⟩
  · exact absurd hskip (end_skips htype)
  · rcases visited_cases h' hp' with ⟨hskip', -⟩ | ⟨-, asked', joins', hjoins', htj', -, hd'⟩
    · exact absurd hskip' (end_skips htype)
    · obtain rfl := hd.marker (by rw [htype]; rfl) (hext node.context)
      obtain rfl := hd'.marker (by rw [htype]; rfl) (hext node'.context)
      have hsame := hm.visited false (joins ++ [asked.nextEvent .externCall ir none])
        (joins' ++ [asked'.nextEvent .externCall ir none]) h h' hp' hnt hnt'
        (by rw [← List.append_assoc, ← hjoins]; rfl) (by rw [← List.append_assoc, ← hjoins']; rfl)
        (fun kept => by
          rw [List.foldl_append, htj.erased, withoutTaskJoins_append, htj'.dropped]
          simp [Erasing.step, ThreadBuildState.nextEvent, htype, stepSingle_unmarked hsingle,
            withoutTaskJoins, Event.key])
      refine .both (.next _ _) hsame (.outside hrest ?_ ?_) (fun hc => absurd rfl (hc _))
      · exact (visit_marks h hp).1.closed htype
      · exact (visit_marks h' hp').1.closed htype

lemma twin_alone {body : List IR} {last : IR} {start : Instruction}
    (h : visitStart program node ir state = .ok step) (h' : visitStart program node' ir state' = .ok step')
    (hm : Matches program teams true inSingle state state') (hun : ir.isMasterMarker = false)
    (hne : ir.inst ≠ last.inst) (hb : ∀ x ∈ body, x.isMasterMarker = false ∧ x.inst ≠ last.inst)
    (hl : last.type = .openMPMasterEnd) (hpair : last.inst = partner start)
    (hrest : Structured partner rest) (hs : state.skipUntil = none)
    (hc : state.marks.currentMasterStart = some start) (hs' : state'.skipUntil = some last.inst)
    (hnt : NoTeams state step.state) :
    TwinVisit program R partner teams ir (body ++ last :: rest) state' step step' := by
  have hp : passes ir state = false := not_passed hm.inTeams.1 (by simp [hs])
  have hskip : shouldSkipIR ir state' = (true, state') := by simp [shouldSkipIR, hs', hne]
  have hstep' : step' = .next state' := by
    have hpass : passes ir state' = true := by rw [passes, hskip]; rfl
    rcases visitStart_cases h' with ⟨-, hnext⟩ | ⟨hvisit, -⟩
    · rw [hnext, resume, hskip]
    · rw [hpass] at hvisit
      cases hvisit
  have hemit := visitStart_emits h
  have hmarks := plain_marks h hp hun
  obtain ⟨new, hnew, hunmarked⟩ := AddsUnmarked.visit h hun
  have hsame : Matches program teams true inSingle step.state state' :=
    hm.extend hemit.thread rfl hemit.callstack rfl (visitStart_inTeams h hnt hm.inTeams)
      hm.inTeams' hnew (show state'.events = state'.events ++ [] by simp) hm.single
      (fun kept => by simp [erased_inside hunmarked, withoutTaskJoins])
  exact .alone hstep' hsame (.inside hb hl hpair hrest (congrArg Marks.skipUntil hmarks)
    ((congrArg Marks.currentMasterStart hmarks).trans hc) hs') hun

lemma twin_visit {inMaster : Bool} (hR : SameCallees program R) (hn : R node.context node'.context)
    (hext : ir.isMasterMarker || ir.isSingleMarker → ∀ context, ∃ callee,
      program.callee context ir.inst = some callee ∧ callee.isExtFunction = true)
    (h : visitStart program node ir state = .ok step) (h' : visitStart program node' ir state' = .ok step')
    (hm : Matches program teams inMaster inSingle state state')
    (hpos : TwinPosition partner state state' inMaster (ir :: rest))
    (hpaired : state'.marks.Paired partner) (hnt : NoTeams state step.state) (hnt' : NoTeams state' step'.state)
    (hflag : passes ir state' = false → ir.type = .openMPTaskFork →
      state'.programState.runtime.inSingleRegion = inSingle) :
    TwinVisit program R partner teams ir rest state' step step' := by
  generalize hsum : ir :: rest = summary at hpos
  cases hpos with
  | outside hst hs hs' =>
    subst hsum
    have hp' : passes ir state' = false := not_passed hm.inTeams'.1 (by simp [hs'])
    cases hst with
    | plain hun hrest =>
      exact twin_plain hR hn (fun hsm => hext (by simp [hsm])) h h' hm hun hrest hs hs' hnt hnt' (hflag hp')
    | region hstart hb hl hpair hrest =>
      exact twin_start (hext (by simp [IR.isMasterMarker, hstart])) h h' hm hstart hb hl hpair hrest hs hs'
        hpaired hnt hnt'
  | @inside body last tail start hb hl hpair hrest hs hc hs' =>
    cases body with
    | nil =>
      obtain ⟨rfl, rfl⟩ := List.cons.inj hsum
      exact twin_end (hext (by simp [IR.isMasterMarker, hl])) h h' hm hl hrest hs hs' hnt hnt'
    | cons first body =>
      obtain ⟨rfl, rfl⟩ := List.cons.inj hsum
      obtain ⟨hun, hne⟩ := hb ir List.mem_cons_self
      exact twin_alone h h' hm hun hne (fun x hx => hb x (List.mem_cons_of_mem _ hx)) hl hpair hrest hs
        hc hs' hnt

lemma TwinPosition.master {inMaster : Bool} {summary : List IR}
    (h : TwinPosition partner state state' inMaster summary) :
    ∃ outer, Position partner true state.marks summary outer := by
  cases h with
  | outside h hs => exact ⟨_, .outside h hs⟩
  | inside hb hl hp hr hs hc => exact ⟨_, .inside hb hl hp hr rfl hs hc⟩

lemma TwinPosition.other {inMaster : Bool} {summary : List IR}
    (h : TwinPosition partner state state' inMaster summary) :
    ∃ outer, Position partner false state'.marks summary outer := by
  cases h with
  | outside h _ hs' => exact ⟨_, .outside h hs'⟩
  | inside hb hl _ hr _ _ hs' => exact ⟨_, .skipping hb hl hr rfl hs'⟩

lemma TwinPosition.paired {inMaster : Bool} (hpos : TwinPosition partner state state' inMaster (ir :: rest))
    (hm : Matches program teams inMaster inSingle state state')
    (h : visitStart program node ir state = .ok step) (h' : visitStart program node' ir state' = .ok step')
    (hp : state.marks.Paired partner) (hp' : state'.marks.Paired partner) :
    step.state.marks.Paired partner ∧ step'.state.marks.Paired partner := by
  obtain ⟨outer, hmaster⟩ := hpos.master
  obtain ⟨outer', hother⟩ := hpos.other
  rw [← hm.master] at hmaster
  rw [← hm.other] at hother
  exact ⟨(visitStart_position h hp hmaster).2.1, (visitStart_position h' hp' hother).2.1⟩

end Visits

end OpenRace
