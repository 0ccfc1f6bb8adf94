import OpenRace.Trace.Build.Steady
import OpenRace.Trace.Build.Tally

/-! The events of a master twin, less those that the other twin does not have. -/

namespace OpenRace

open LLVM

variable {Ctx : Type}

def Event.key (event : Event Ctx) : Instruction × EventType := (event.ir.inst, event.type)

/-- A pass over the events of a master twin: the markers met, and the events kept. -/
structure Erasing where
  inMaster : Bool := false
  inSingle : Bool := false
  kept : List (Instruction × EventType) := []

def Erasing.step (s : Erasing) (event : Event Ctx) : Erasing :=
  if event.ir.type = .openMPMasterStart then { s with inMaster := true }
  else if event.ir.type = .openMPMasterEnd then
    { s with inMaster := false, kept := s.kept ++ [event.key] }
  else if s.inMaster then s
  else if event.forkEvent.isSome then s
  else if event.type = .fork ∧ event.ir.type = .openMPTaskFork ∧ s.inSingle = true then s
  else { s with inSingle := stepSingle event.ir s.inSingle, kept := s.kept ++ [event.key] }

/-- Master regions up to their end markers, task forks inside single regions and task joins are
deleted. -/
def erase (events : List (Event Ctx)) : List (Instruction × EventType) :=
  (events.foldl Erasing.step {}).kept

def withoutTaskJoins (events : List (Event Ctx)) : List (Event Ctx) :=
  events.filter (·.forkEvent.isNone)

lemma withoutTaskJoins_append (events rest : List (Event Ctx)) :
    withoutTaskJoins (events ++ rest) = withoutTaskJoins events ++ withoutTaskJoins rest :=
  List.filter_append _ _

def TaskJoins (events : List (Event Ctx)) : Prop :=
  ∀ event ∈ events, event.forkEvent.isSome ∧ event.ir.type = .openMPTaskJoin

lemma TaskJoins.erased {joins : List (Event Ctx)} (h : TaskJoins joins) (s : Erasing) :
    joins.foldl Erasing.step s = s := by
  induction joins with
  | nil => rfl
  | cons event joins ih =>
    obtain ⟨hfork, htype⟩ := h event List.mem_cons_self
    have hstep : s.step event = s := by simp [Erasing.step, htype, hfork]
    rw [List.foldl_cons, hstep]
    exact ih (fun e he => h e (List.mem_cons_of_mem _ he))

lemma TaskJoins.dropped {joins : List (Event Ctx)} (h : TaskJoins joins) :
    withoutTaskJoins joins = [] := by
  rw [withoutTaskJoins, List.filter_eq_nil_iff]
  intro event hevent
  simp [Option.isSome_iff_ne_none.mp (h event hevent).1]

lemma erased_inside {events : List (Event Ctx)} (h : ∀ event ∈ events, event.ir.isMasterMarker = false)
    (s : Erasing) (hs : s.inMaster = true) : events.foldl Erasing.step s = s := by
  induction events with
  | nil => rfl
  | cons event events ih =>
    have hun := h event List.mem_cons_self
    simp only [IR.isMasterMarker, Bool.or_eq_false_iff, beq_eq_false_iff_ne] at hun
    have hstep : s.step event = s := by simp [Erasing.step, hun, hs]
    rw [List.foldl_cons, hstep]
    exact ih (fun e he => h e (List.mem_cons_of_mem _ he))

def Skips (ir : IR) (state : ThreadBuildState Ctx) : Prop :=
  state.programState.runtime.inTeamsregion = true ∧ isOpenMPTeamSpecific ir = true ∨
    ir.type = .openMPTaskFork ∧ state.programState.runtime.inSingleRegion = true ∧
      isOpenMPMasterThread state.thread = false ∨
    ir.type = .openMPMasterStart ∧ isOpenMPMasterThread state.thread = false

lemma asked_skips {node : CallGraphNode Ctx} {ir : IR} {state asked : ThreadBuildState Ctx} {skip : Bool}
    (h : Asked node ir state skip asked) : (skip = true ↔ Skips ir state) ∧
      (skip = true → asked.events = state.events) := by
  cases h with
  | team ht hs => exact ⟨by simp [Skips, ht, hs], fun _ => rfl⟩
  | single h hs hm => exact ⟨by simp [Skips, h, hs, hm], fun _ => rfl⟩
  | masterSkip h hm => exact ⟨by simp [Skips, h, hm], fun _ => rfl⟩
  | joins h ht =>
    refine ⟨?_, fun h => by cases h⟩
    rcases h with h | h | h <;> simp [Skips, h, isOpenMPTeamSpecific, ht]
  | other h hs ht =>
    refine ⟨?_, fun h => by cases h⟩
    simp only [List.mem_cons, not_or] at h
    simp only [Bool.false_eq_true, Skips, false_iff, not_or, not_and, Bool.not_eq_false]
    exact ⟨fun hin => by simp [ht hin], fun htask hin => hs htask hin, fun hstart => absurd hstart h.2.2.2.2.1⟩
  | forkTeams h => exact ⟨by simp [Skips, h, isOpenMPTeamSpecific], fun h => by cases h⟩
  | masterStart h hm => exact ⟨by simp [Skips, h, isOpenMPTeamSpecific, hm], fun h => by cases h⟩
  | masterEnd h => exact ⟨by simp [Skips, h, isOpenMPTeamSpecific], fun h => by cases h⟩
  | otherEnd h => exact ⟨by simp [Skips, h, isOpenMPTeamSpecific], fun h => by cases h⟩
  | singleStart h => exact ⟨by simp [Skips, h, isOpenMPTeamSpecific], fun h => by cases h⟩
  | singleEnd h => exact ⟨by simp [Skips, h, isOpenMPTeamSpecific], fun h => by cases h⟩

lemma asked_events {node : CallGraphNode Ctx} {ir : IR} {state asked : ThreadBuildState Ctx} {skip : Bool}
    (h : Asked node ir state skip asked) :
    ∃ joins, asked.events = state.events ++ joins ∧ TaskJoins joins := by
  obtain ⟨joins, ho⟩ := askedOutcome_of_asked h
  obtain ⟨entries, hlog, hevents, -⟩ := (preVisit_emits h).log
  obtain rfl := List.append_cancel_left (hlog.symm.trans ho.log)
  rw [eventsOf_createdAt] at hevents
  refine ⟨joins, hevents, fun event hevent => ⟨?_, (ho.events event hevent).2.2⟩⟩
  have hm : event.forkEvent ∈ joins.map Event.forkEvent := List.mem_map_of_mem hevent
  rw [ho.forks] at hm
  split at hm
  · obtain ⟨fork, -, hfork⟩ := List.mem_map.mp hm
    rw [← hfork]
    rfl
  · exact absurd hm List.not_mem_nil

lemma visited_cases {program : Program Ctx} {node : CallGraphNode Ctx} {ir : IR}
    {state : ThreadBuildState Ctx} {step : VisitStep Ctx}
    (h : visitStart program node ir state = .ok step) (hp : passes ir state = false) :
    (Skips ir state ∧ ∃ skipped, step = .next skipped ∧ skipped.events = state.events) ∨
      ¬ Skips ir state ∧ ∃ asked joins, asked.events = state.events ++ joins ∧ TaskJoins joins ∧
        asked.thread = state.thread ∧ Dispatched program node ir asked step := by
  obtain ⟨hthread, hruntime, -⟩ := recordVisit_fields node ir state
  have hevents : (recordVisit node ir state).events = state.events := (resume_fields ir state).2.2.1
  have hskips : Skips ir (recordVisit node ir state) ↔ Skips ir state := by
    rw [Skips, hruntime, hthread, Skips]
  rcases visitStart_cases h with ⟨hpass, -⟩ | ⟨-, ⟨skipped, hpre, rfl⟩ | ⟨asked, hpre, hdispatch⟩⟩
  · rw [hp] at hpass
    cases hpass
  · obtain ⟨hskip, hsame⟩ := asked_skips (asked_of_preVisit hpre)
    exact Or.inl ⟨hskips.mp (hskip.mp rfl), skipped, rfl, (hsame rfl).trans hevents⟩
  · have hasked := asked_of_preVisit hpre
    obtain ⟨joins, hjoins, htask⟩ := asked_events hasked
    refine Or.inr ⟨fun hskip => ?_, asked, joins, by rw [hjoins, hevents], htask, ?_,
      dispatched_of_dispatch hdispatch⟩
    · have htrue := (asked_skips hasked).1.mpr (hskips.mpr hskip)
      cases htrue
    · exact (preVisit_emits hasked).thread.trans hthread

end OpenRace
