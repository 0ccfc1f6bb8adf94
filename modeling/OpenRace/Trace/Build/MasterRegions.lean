import OpenRace.Trace.Build.Visit

/-! Master regions: where they are closed, and where other threads resume. -/

namespace OpenRace

open LLVM

variable {Ctx : Type}

def IR.isMasterMarker (ir : IR) : Bool :=
  ir.type == .openMPMasterStart || ir.type == .openMPMasterEnd

/-- Every master region is closed in the function body that it is opened in; `partner` tells where. -/
inductive Structured (partner : Instruction → Instruction) : List IR → Prop
  | nil : Structured partner []
  | plain {ir rest} (h : ir.isMasterMarker = false) (hr : Structured partner rest) :
      Structured partner (ir :: rest)
  | region {start body last rest} (hs : start.type = .openMPMasterStart)
      (hb : ∀ ir ∈ body, ir.isMasterMarker = false ∧ ir.inst ≠ last.inst)
      (hl : last.type = .openMPMasterEnd) (hp : last.inst = partner start.inst)
      (hr : Structured partner rest) : Structured partner (start :: (body ++ last :: rest))

lemma Structured.of_unmarked {partner : Instruction → Instruction} {summary : List IR}
    (h : ∀ ir ∈ summary, ir.isMasterMarker = false) : Structured partner summary := by
  induction summary with
  | nil => exact .nil
  | cons ir rest ih => exact .plain (h ir List.mem_cons_self) (ih fun x hx => h x (List.mem_cons_of_mem _ hx))

def Program.MasterRegionsClosed (program : Program Ctx) (partner : Instruction → Instruction) : Prop :=
  ∀ f summary, program.getFunctionSummary f = .ok summary → Structured partner summary

structure Marks where
  skipUntil : Option Instruction
  currentMasterStart : Option Instruction
  masterRegions : AList (fun _ : Instruction => Instruction)

def ThreadBuildState.marks (state : ThreadBuildState Ctx) : Marks :=
  ⟨state.skipUntil, state.programState.runtime.currentMasterStart,
    state.programState.runtime.masterRegions⟩

def Marks.Paired (partner : Instruction → Instruction) (marks : Marks) : Prop :=
  ∀ start last, marks.masterRegions.lookup start = some last → last = partner start

inductive MarksStep (ir : IR) (master : Bool) (marks : Marks) : Marks → Prop
  | start (h : ir.type = .openMPMasterStart) (hm : master = true)
      (hn : marks.currentMasterStart = none) :
      MarksStep ir master marks { marks with currentMasterStart := some ir.inst }
  | skip (h : ir.type = .openMPMasterStart) (hm : master = false) (last : Instruction)
      (hl : marks.masterRegions.lookup ir.inst = some last) :
      MarksStep ir master marks { marks with skipUntil := some last }
  | finish (h : ir.type = .openMPMasterEnd) (hm : master = true) (start : Instruction)
      (hs : marks.currentMasterStart = some start) : MarksStep ir master marks
        { marks with
          currentMasterStart := none
          masterRegions :=
            if (marks.masterRegions.lookup start).isSome then marks.masterRegions
            else marks.masterRegions.insert start ir.inst }
  | other (h : ir.isMasterMarker = false ∨ ir.type = .openMPMasterEnd ∧ master = false) :
      MarksStep ir master marks marks

lemma joins_marks (node : CallGraphNode Ctx) (tasks : List (UnjoinedTask Ctx))
    (state : ThreadBuildState Ctx) : (tasks.foldl (OpenMPRuntime.joinTask node) state).marks = state.marks := by
  induction tasks generalizing state with
  | nil => rfl
  | cons task tasks ih => exact ih _

lemma marksStep_of_asked {node : CallGraphNode Ctx} {ir : IR} {state asked : ThreadBuildState Ctx}
    {skip : Bool} (h : Asked node ir state skip asked) :
    MarksStep ir (isOpenMPMasterThread state.thread) state.marks asked.marks ∧
      (skip = false → asked.skipUntil = state.skipUntil) := by
  have unmarked : ∀ type, ir.type = type → type ≠ .openMPMasterStart → type ≠ .openMPMasterEnd →
      ir.isMasterMarker = false := by
    intro type htype hs he
    simp [IR.isMasterMarker, htype, hs, he]
  cases h with
  | team _ hs =>
    refine ⟨.other (Or.inl ?_), fun _ => rfl⟩
    cases htype : ir.type <;> simp_all [isOpenMPTeamSpecific, IR.isMasterMarker]
  | single h => exact ⟨.other (Or.inl (unmarked _ h (by simp) (by simp))), fun _ => rfl⟩
  | forkTeams h => exact ⟨.other (Or.inl (unmarked _ h (by simp) (by simp))), fun _ => rfl⟩
  | joins h =>
    have hmarks : (OpenMPRuntime.joinTasks node state).marks = state.marks :=
      congrArg (fun marks => { state.marks with skipUntil := marks.skipUntil }) (joins_marks node _ state)
    refine ⟨?_, fun _ => congrArg Marks.skipUntil hmarks⟩
    rw [hmarks]
    rcases h with h | h | h <;> exact .other (Or.inl (unmarked _ h (by simp) (by simp)))
  | masterStart h hm hn => exact ⟨.start h hm hn, fun _ => rfl⟩
  | masterSkip h hm last hl => exact ⟨.skip h hm last hl, fun h => by cases h⟩
  | masterEnd h hm start hs => exact ⟨.finish h hm start hs, fun _ => rfl⟩
  | otherEnd h hm => exact ⟨.other (Or.inr ⟨h, hm⟩), fun _ => rfl⟩
  | singleStart h => exact ⟨.other (Or.inl (unmarked _ h (by simp) (by simp))), fun _ => rfl⟩
  | singleEnd h => exact ⟨.other (Or.inl (unmarked _ h (by simp) (by simp))), fun _ => rfl⟩
  | other h =>
    refine ⟨.other (Or.inl ?_), fun _ => rfl⟩
    simp only [List.mem_cons, not_or] at h
    simp [IR.isMasterMarker, h]

lemma dispatched_marks {program : Program Ctx} {node : CallGraphNode Ctx} {ir : IR}
    {state : ThreadBuildState Ctx} {step : VisitStep Ctx} (h : Dispatched program node ir state step) :
    step.state.marks = state.marks := by
  cases h with
  | plain => rfl
  | recursiveFork => rfl
  | fork =>
    change (forked node ir _ state).marks = _
    simp only [forked, ThreadBuildState.marks, OpenMPRuntime.preFork]
    split <;> rfl
  | noCall => rfl
  | externCall => rfl
  | call => rfl

lemma resume_marks (ir : IR) (state : ThreadBuildState Ctx) :
    (resume ir state).marks = { state.marks with skipUntil := (resume ir state).skipUntil } := by
  obtain ⟨-, hprogram, -⟩ := resume_fields ir state
  simp [ThreadBuildState.marks, hprogram]

lemma resume_visited {ir : IR} {state : ThreadBuildState Ctx} (h : passes ir state = false) :
    (resume ir state).skipUntil = none := by
  simp only [passes, Bool.or_eq_false_iff] at h
  have hskip := h.1
  rw [resume]
  rw [shouldSkipIR] at hskip ⊢
  split at hskip
  · rename_i hnone
    exact hnone
  · split at hskip
    · cases hskip
    · rename_i hreached
      rw [if_neg hreached]

lemma visit_marks {program : Program Ctx} {node : CallGraphNode Ctx} {ir : IR}
    {state : ThreadBuildState Ctx} {step : VisitStep Ctx}
    (h : visitStart program node ir state = .ok step) (hp : passes ir state = false) :
    MarksStep ir (isOpenMPMasterThread state.thread) { state.marks with skipUntil := none }
        step.state.marks ∧ ((∀ last, step ≠ .next last) → step.state.skipUntil = none) := by
  have hthread := (recordVisit_fields node ir state).1
  have hmarks : (recordVisit node ir state).marks = { state.marks with skipUntil := none } := by
    change (resume ir state).marks = _
    rw [resume_marks, resume_visited hp]
  rcases visitStart_cases h with ⟨hpass, -⟩ | ⟨-, ⟨skipped, hpre, rfl⟩ | ⟨asked, hpre, hdispatch⟩⟩
  · rw [hp] at hpass
    cases hpass
  · obtain ⟨hstep, -⟩ := marksStep_of_asked (asked_of_preVisit hpre)
    rw [hthread, hmarks] at hstep
    exact ⟨hstep, fun hnext => absurd rfl (hnext skipped)⟩
  · obtain ⟨hstep, hskip⟩ := marksStep_of_asked (asked_of_preVisit hpre)
    have hd := dispatched_marks (dispatched_of_dispatch hdispatch)
    rw [hthread, hmarks] at hstep
    rw [hd]
    refine ⟨hstep, fun _ => ?_⟩
    have hsame : step.state.skipUntil = asked.skipUntil := congrArg Marks.skipUntil hd
    rw [hsame, hskip rfl]
    exact congrArg Marks.skipUntil hmarks

/-- Where a thread stands in the statements that are left, and the master region open when these
are done. -/
inductive Position (partner : Instruction → Instruction) (master : Bool) (marks : Marks) :
    List IR → Option Instruction → Prop
  | outside {summary} (h : Structured partner summary) (hs : marks.skipUntil = none) :
      Position partner master marks summary marks.currentMasterStart
  | inside {body last rest start} (hb : ∀ ir ∈ body, ir.isMasterMarker = false ∧ ir.inst ≠ last.inst)
      (hl : last.type = .openMPMasterEnd) (hp : last.inst = partner start)
      (hr : Structured partner rest) (hm : master = true) (hs : marks.skipUntil = none)
      (hc : marks.currentMasterStart = some start) :
      Position partner master marks (body ++ last :: rest) none
  | skipping {body last rest} (hb : ∀ ir ∈ body, ir.isMasterMarker = false ∧ ir.inst ≠ last.inst)
      (hl : last.type = .openMPMasterEnd) (hr : Structured partner rest) (hm : master = false)
      (hs : marks.skipUntil = some last.inst) :
      Position partner master marks (body ++ last :: rest) marks.currentMasterStart

section Position

variable {partner : Instruction → Instruction} {master : Bool} {marks marks' : Marks}
  {summary rest : List IR} {ir : IR} {outer : Option Instruction} {state : ThreadBuildState Ctx}

lemma Position.congr (h : Position partner master marks summary outer)
    (hs : marks'.skipUntil = marks.skipUntil) (hc : marks'.currentMasterStart = marks.currentMasterStart) :
    Position partner master marks' summary outer := by
  cases h with
  | outside h hn =>
    rw [← hc]
    exact .outside h (hs.trans hn)
  | inside hb hl hp hr hm hn hstart => exact .inside hb hl hp hr hm (hs.trans hn) (hc.trans hstart)
  | skipping hb hl hr hm hn =>
    rw [← hc]
    exact .skipping hb hl hr hm (hs.trans hn)

lemma marker_kind (h : ir.isMasterMarker = true) : ir.type.kind = .call := by
  rw [IR.isMasterMarker, Bool.or_eq_true, beq_iff_eq, beq_iff_eq] at h
  rcases h with h | h <;> rw [h] <;> rfl

lemma passed (h : passes ir state = true) : (∃ target, state.skipUntil = some target ∧ ir.inst ≠ target ∧
    (resume ir state).skipUntil = some target) ∨ ir.isMasterMarker = false ∧
      (resume ir state).skipUntil = none ∧ ∀ target, state.skipUntil = some target → ir.inst = target := by
  have hmarker : ∀ s : ThreadBuildState Ctx, isBeforeParallel ir s = true → ir.isMasterMarker = false := by
    intro s hb
    rw [← Bool.not_eq_true]
    intro hm
    simp [isBeforeParallel, marker_kind hm] at hb
  rw [passes, Bool.or_eq_true] at h
  rw [resume] at h ⊢
  rw [shouldSkipIR] at h ⊢
  split at h
  · rename_i hnone
    exact Or.inr ⟨hmarker _ (h.resolve_left (by simp)), hnone, by simp [hnone]⟩
  · rename_i target hsome
    split at h
    · rename_i hne
      rw [if_pos hne]
      exact Or.inl ⟨target, hsome, hne, hsome⟩
    · rename_i hreached
      rw [if_neg hreached]
      refine Or.inr ⟨hmarker _ (h.resolve_left (by simp)), rfl, ?_⟩
      intro other hother
      rw [hsome] at hother
      obtain rfl := Option.some.inj hother
      simpa using hreached

lemma visited_target (h : passes ir state = false) {target : Instruction}
    (hs : state.skipUntil = some target) : ir.inst = target := by
  simp only [passes, Bool.or_eq_false_iff] at h
  by_contra hne
  simp [shouldSkipIR, hs, hne] at h

lemma Position.pass (h : Position partner master state.marks (ir :: rest) outer)
    (hp : passes ir state = true) : Position partner master (resume ir state).marks rest outer := by
  have hcms : (resume ir state).marks.currentMasterStart = state.marks.currentMasterStart := by
    rw [resume_marks]
  have hskip : (resume ir state).marks.skipUntil = (resume ir state).skipUntil := rfl
  generalize hsum : ir :: rest = summary at h
  cases h with
  | outside h hs =>
    have hs' : state.skipUntil = none := hs
    rcases passed hp with ⟨target, hsome, -⟩ | ⟨hun, hnone, -⟩
    · rw [hs'] at hsome
      cases hsome
    · rw [← hcms]
      subst hsum
      cases h with
      | plain _ hr => exact .outside hr (hskip.trans hnone)
      | region hstart => simp [IR.isMasterMarker, hstart] at hun
  | @inside body last tail start hb hl hpair hr hm hs hc =>
    have hs' : state.skipUntil = none := hs
    rcases passed hp with ⟨target, hsome, -⟩ | ⟨hun, hnone, -⟩
    · rw [hs'] at hsome
      cases hsome
    · cases body with
      | nil =>
        obtain ⟨rfl, rfl⟩ := List.cons.inj hsum
        simp [IR.isMasterMarker, hl] at hun
      | cons first body =>
        obtain ⟨rfl, rfl⟩ := List.cons.inj hsum
        exact .inside (fun x hx => hb x (List.mem_cons_of_mem _ hx)) hl hpair hr hm
          (hskip.trans hnone) (hcms.trans hc)
  | @skipping body last tail hb hl hr hm hs =>
    have hs' : state.skipUntil = some last.inst := hs
    cases body with
    | nil =>
      obtain ⟨rfl, rfl⟩ := List.cons.inj hsum
      rcases passed hp with ⟨target, hsome, hne, -⟩ | ⟨hun, -⟩
      · rw [hs'] at hsome
        exact absurd (Option.some.inj hsome) hne
      · simp [IR.isMasterMarker, hl] at hun
    | cons first body =>
      obtain ⟨rfl, rfl⟩ := List.cons.inj hsum
      rw [← hcms]
      rcases passed hp with ⟨target, hsome, -, hkeep⟩ | ⟨-, -, htarget⟩
      · rw [hs'] at hsome
        obtain rfl := Option.some.inj hsome
        exact .skipping (fun x hx => hb x (List.mem_cons_of_mem _ hx)) hl hr hm (hskip.trans hkeep)
      · exact absurd (htarget _ hs') (hb ir List.mem_cons_self).2

lemma Position.visit (h : Position partner master marks (ir :: rest) outer)
    (ht : ∀ target, marks.skipUntil = some target → ir.inst = target) (hp : marks.Paired partner)
    (hstep : MarksStep ir master { marks with skipUntil := none } marks') :
    Position partner master marks' rest outer ∧ marks'.Paired partner := by
  have unmarked : ir.isMasterMarker = false → marks' = { marks with skipUntil := none } := by
    intro hun
    cases hstep with
    | start htype => simp [IR.isMasterMarker, htype] at hun
    | skip htype => simp [IR.isMasterMarker, htype] at hun
    | finish htype => simp [IR.isMasterMarker, htype] at hun
    | other => rfl
  generalize hsum : ir :: rest = summary at h
  cases h with
  | outside h hs =>
    subst hsum
    cases h with
    | plain hun hr =>
      obtain rfl := unmarked hun
      exact ⟨.outside hr rfl, hp⟩
    | region hstart hb hl hpair hr =>
      cases hstep with
      | start _ hm hn =>
        have hnone : marks.currentMasterStart = none := hn
        rw [hnone]
        exact ⟨.inside hb hl hpair hr hm rfl rfl, hp⟩
      | skip _ hm last hlookup =>
        have hlast := hp _ _ hlookup
        exact ⟨.skipping hb hl hr hm (by rw [hlast, hpair]), hp⟩
      | finish htype => rw [hstart] at htype; cases htype
      | other hother =>
        rcases hother with hun | ⟨htype, -⟩
        · simp [IR.isMasterMarker, hstart] at hun
        · rw [hstart] at htype
          cases htype
  | @inside body last tail start hb hl hpair hr hm hs hc =>
    cases body with
    | cons first body =>
      obtain ⟨rfl, rfl⟩ := List.cons.inj hsum
      obtain rfl := unmarked (hb ir List.mem_cons_self).1
      exact ⟨.inside (fun x hx => hb x (List.mem_cons_of_mem _ hx)) hl hpair hr hm rfl hc, hp⟩
    | nil =>
      obtain ⟨rfl, rfl⟩ := List.cons.inj hsum
      cases hstep with
      | start htype => rw [hl] at htype; cases htype
      | skip htype => rw [hl] at htype; cases htype
      | finish _ _ start' hs' =>
        have hsame : marks.currentMasterStart = some start' := hs'
        rw [hc] at hsame
        obtain rfl := Option.some.inj hsame
        refine ⟨.outside hr rfl, ?_⟩
        intro key value hlookup
        change AList.lookup key (if (marks.masterRegions.lookup start).isSome then marks.masterRegions
          else marks.masterRegions.insert start ir.inst) = some value at hlookup
        split at hlookup
        · exact hp key value hlookup
        · by_cases hkey : key = start
          · subst hkey
            rw [AList.lookup_insert] at hlookup
            rw [← Option.some.inj hlookup, hpair]
          · rw [AList.lookup_insert_ne hkey] at hlookup
            exact hp key value hlookup
      | other hother =>
        rcases hother with hun | ⟨-, hm'⟩
        · simp [IR.isMasterMarker, hl] at hun
        · rw [hm] at hm'
          cases hm'
  | @skipping body last tail hb hl hr hm hs =>
    cases body with
    | cons first body =>
      obtain ⟨rfl, rfl⟩ := List.cons.inj hsum
      exact absurd (ht _ hs) (hb ir List.mem_cons_self).2
    | nil =>
      obtain ⟨rfl, rfl⟩ := List.cons.inj hsum
      cases hstep with
      | start htype => rw [hl] at htype; cases htype
      | skip htype => rw [hl] at htype; cases htype
      | finish _ hm' =>
        rw [hm] at hm'
        cases hm'
      | other => exact ⟨.outside hr rfl, hp⟩

end Position

end OpenRace
