import OpenRace.Library.Failure
import OpenRace.Trace.Build.RegionFlags
import OpenRace.Trace.ProgramTrace
import Mathlib.Data.List.Chain

/-! Forks of parallel regions that are next to one another are the two forks of one team. -/

namespace OpenRace

open LLVM

variable {Ctx : Type}

def Event.isTeamFork (event : Event Ctx) : Bool := event.type == .fork && event.ir.type == .openMPFork

def TwinEvents (first second : Event Ctx) : Prop :=
  first.isTeamFork = true → second.isTeamFork = true →
    first.ir.isForkingMaster = true ∧ second.ir.isForkingMaster = false

/-- Summaries have the forks of parallel regions in pairs, with a join after them. -/
inductive ForkPaired : List IR → Prop
  | nil : ForkPaired []
  | plain {ir rest} (h : ir.type ≠ .openMPFork) (hr : ForkPaired rest) : ForkPaired (ir :: rest)
  | pair {first second join rest} (h : first.type = .openMPFork) (hm : first.isForkingMaster = true)
      (h' : second.type = .openMPFork) (ho : second.isForkingMaster = false) (hj : join.type = .openMPJoin)
      (hr : ForkPaired rest) : ForkPaired (first :: second :: join :: rest)

def lastEvent (state : ThreadBuildState Ctx) (property : Event Ctx → Prop) : Prop :=
  ∀ event ∈ state.events.getLast?, property event

def Traverses (state : ThreadBuildState Ctx) : Prop :=
  state.skipUntil = none ∧ state.programState.inParallel = true

/-- Where a traversal stands with respect to a pair of forks. -/
inductive PairPosition (state : ThreadBuildState Ctx) : List IR → Prop
  | top {summary} (h : ForkPaired summary) (hl : lastEvent state fun event => event.isTeamFork = false) :
      PairPosition state summary
  | afterFirst {second join rest} (h' : second.type = .openMPFork) (ho : second.isForkingMaster = false)
      (hj : join.type = .openMPJoin) (hr : ForkPaired rest)
      (hl : lastEvent state fun event => event.isTeamFork = true →
        Traverses state ∧ event.ir.isForkingMaster = true) : PairPosition state (second :: join :: rest)
  | afterSecond {join rest} (hj : join.type = .openMPJoin) (hr : ForkPaired rest)
      (hl : lastEvent state fun event => event.isTeamFork = true → Traverses state) :
      PairPosition state (join :: rest)

section Step

variable {program : Program Ctx} {node : CallGraphNode Ctx} {ir : IR} {state : ThreadBuildState Ctx}
  {step : VisitStep Ctx}

lemma lastEvent_append {state' : ThreadBuildState Ctx} {new : List (Event Ctx)} {property : Event Ctx → Prop}
    (he : state'.events = state.events ++ new) (hold : lastEvent state property)
    (hnew : ∀ event ∈ new, property event) : lastEvent state' property := by
  intro event hevent
  rw [he, List.getLast?_append, Option.mem_def, Option.or_eq_some_iff] at hevent
  rcases hevent with hm | ⟨-, hm⟩
  · exact hnew event (List.mem_of_getLast? hm)
  · exact hold event hm

lemma lastEvent_push {state' : ThreadBuildState Ctx} {event : Event Ctx} {property : Event Ctx → Prop}
    (he : state'.events = state.events ++ [event]) (h : property event) : lastEvent state' property := by
  intro other hother
  rw [he, List.getLast?_concat, Option.mem_some] at hother
  exact hother ▸ h

lemma adjacent_append {events new : List (Event Ctx)} (h : events.IsChain TwinEvents)
    (hnew : ∀ event ∈ new, event.isTeamFork = false) : (events ++ new).IsChain TwinEvents := by
  refine h.append ?_ ?_
  · induction new with
    | nil => exact .nil
    | cons event rest ih =>
      refine (ih fun e he => hnew e (List.mem_cons_of_mem _ he)).cons ?_
      intro next _ hfork
      rw [hnew event List.mem_cons_self] at hfork
      cases hfork
  · intro last _ next hnext _ hfork
    rw [hnew next (List.mem_of_head? hnext)] at hfork
    cases hfork

lemma not_teamFork_of_type {event : Event Ctx} (h : event.type ≠ .fork) : event.isTeamFork = false := by
  simp [Event.isTeamFork, h]

lemma visitStart_plain (h : visitStart program node ir state = .ok step)
    (hf : ∀ fork entry last, step ≠ .fork fork entry last) :
    ∃ new, step.state.events = state.events ++ new ∧ ∀ event ∈ new, event.isTeamFork = false := by
  rcases visitOutcome h with ⟨-, rfl⟩ | ⟨-, joins, own, ho⟩
  · exact ⟨[], by simp [VisitStep.state, (resume_fields ir state).2.2.1], fun _ h => absurd h List.not_mem_nil⟩
  · refine ⟨joins ++ own, ho.events (visitStart_emits h), fun event hevent => not_teamFork_of_type ?_⟩
    cases List.mem_append.mp hevent with
    | inl hjoin =>
      rw [(ho.joinEvents event hjoin).1]
      simp
    | inr hown =>
      have hforks := ho.forks
      cases step with
      | next => exact hforks event hown
      | call => exact hforks event hown
      | fork fork entry last => exact absurd rfl (hf fork entry last)

lemma asked_parallel {asked : ThreadBuildState Ctx} {skip : Bool} (h : Asked node ir state skip asked) :
    asked.programState.inParallel = state.programState.inParallel := by
  cases h with
  | joins => exact joinTasks_parallel node state
  | _ => rfl

lemma visitStart_parallel (h : visitStart program node ir state = .ok step)
    (hp : state.programState.inParallel = true) : step.state.programState.inParallel = true := by
  have hrecord : (recordVisit node ir state).programState.inParallel = true :=
    (congrArg (·.inParallel) (resume_fields ir state).2.1).trans hp
  rcases visitStart_cases h with ⟨-, rfl⟩ | ⟨-, ⟨skipped, hpre, rfl⟩ | ⟨asked, hpre, hdispatch⟩⟩
  · exact hrecord
  · exact (asked_parallel (asked_of_preVisit hpre)).trans hrecord
  · have hasked := (asked_parallel (asked_of_preVisit hpre)).trans hrecord
    cases dispatched_of_dispatch hdispatch with
    | fork => rfl
    | _ => exact hasked

lemma visited_skipUntil (h : visitStart program node ir state = .ok step) (hp : passes ir state = false)
    (hm : ir.isMasterMarker = false) : step.state.skipUntil = none := by
  have hstep := (visit_marks h hp).1
  generalize hmarks : step.state.marks = marks at hstep
  have hskip : step.state.skipUntil = marks.skipUntil := congrArg Marks.skipUntil hmarks
  rw [hskip]
  cases hstep with
  | start ht => simp [IR.isMasterMarker, ht] at hm
  | skip ht => simp [IR.isMasterMarker, ht] at hm
  | finish ht => simp [IR.isMasterMarker, ht] at hm
  | other => rfl

lemma Traverses.visits (ht : Traverses state) (ir : IR) : passes ir state = false := by
  apply not_passed ht.2
  intro target hs
  rw [ht.1] at hs
  cases hs

lemma visitStart_dropped {after : ThreadBuildState Ctx} (h : visitStart program node ir state = .ok (.next after))
    (hkind : ir.type.kind = .fork) :
    after.events = state.events ∧ (Traverses state → Traverses after) := by
  have hmaster : ir.isMasterMarker = false := by
    cases htype : ir.type <;> simp [htype, IRType.kind] at hkind <;> simp [IR.isMasterMarker, htype]
  constructor
  · rcases visitStart_cases h with ⟨-, hnext⟩ | ⟨-, ⟨skipped, hpre, hnext⟩ | ⟨asked, hpre, hdispatch⟩⟩
    · rw [VisitStep.next.inj hnext]
      exact (resume_fields ir state).2.2.1
    · have hskip := (asked_skips (asked_of_preVisit hpre)).2 rfl
      rw [VisitStep.next.inj hnext, hskip]
      exact (resume_fields ir state).2.2.1
    · have hasked : asked.events = (recordVisit node ir state).events := by
        cases asked_of_preVisit hpre with
        | joins ht => rcases ht with ht | ht | ht <;> simp [ht, IRType.kind] at hkind
        | _ => rfl
      have hd := dispatched_of_dispatch hdispatch
      generalize hstep : VisitStep.next after = step at hd
      cases hd with
      | recursiveFork =>
        rw [VisitStep.next.inj hstep, hasked]
        exact (resume_fields ir state).2.2.1
      | plain type hplain => simp [hkind, IRKind.plainEvent] at hplain
      | fork => cases hstep
      | noCall hcall =>
        rw [hkind] at hcall
        cases hcall
      | externCall hcall =>
        rw [hkind] at hcall
        cases hcall
      | call hcall =>
        rw [hkind] at hcall
        cases hcall
  · intro ht
    exact ⟨visited_skipUntil h (ht.visits ir) hmaster, visitStart_parallel h ht.2⟩

lemma visitStart_forked {fork : ForkEvent Ctx} {entry : CallGraphNode Ctx} {state' : ThreadBuildState Ctx}
    (h : visitStart program node ir state = .ok (.fork fork entry state')) :
    ∃ event, state'.events = state.events ++ [event] ∧ event.ir = ir ∧ event.type = .fork ∧ Traverses state' := by
  obtain ⟨hkind, hp⟩ := fork_kind h
  have hmaster : ir.isMasterMarker = false := by
    cases htype : ir.type <;> simp [htype, IRType.kind] at hkind <;> simp [IR.isMasterMarker, htype]
  have hskip : state'.skipUntil = none := visited_skipUntil h hp hmaster
  rcases visitOutcome h with ⟨-, hnext⟩ | ⟨-, joins, own, ho⟩
  · cases hnext
  · obtain ⟨event, rfl, htype, -⟩ := ho.forks
    have hnone : joins = [] := by
      have hjoined := ho.joined
      have hno : ¬ JoinsTasks ir state.programState.runtime := by
        rintro (ht | ht | ⟨ht, -⟩) <;> simp [ht, IRType.kind] at hkind
      rw [if_neg hno] at hjoined
      exact List.map_eq_nil_iff.mp hjoined
    subst hnone
    have hevents : state'.events = state.events ++ ([] ++ [event]) := ho.events (visitStart_emits h)
    refine ⟨event, hevents, (ho.ownEvents event (by simp)).2.1, htype, hskip, ?_⟩
    rcases visitStart_cases h with ⟨-, hnext⟩ | ⟨-, ⟨_, -, hnext⟩ | ⟨asked, -, hdispatch⟩⟩
    · cases hnext
    · cases hnext
    · have hd := dispatched_of_dispatch hdispatch
      generalize hstep : VisitStep.fork fork entry state' = step at hd
      cases hd with
      | fork =>
        injection hstep with _ _ hstate
        rw [hstate]
        rfl
      | _ => cases hstep

lemma visitStart_joined (h : visitStart program node ir state = .ok step) (hj : ir.type = .openMPJoin)
    (ht : Traverses state) : ∃ after, step = .next after ∧ lastEvent after fun event => event.isTeamFork = false := by
  have hp := ht.visits ir
  rcases visitStart_cases h with ⟨hpass, -⟩ | ⟨-, ⟨skipped, hpre, -⟩ | ⟨asked, hpre, hdispatch⟩⟩
  · rw [hp] at hpass
    cases hpass
  · have hskips := (asked_skips (asked_of_preVisit hpre)).1.mp rfl
    simp [Skips, hj, isOpenMPTeamSpecific] at hskips
  · cases dispatched_of_dispatch hdispatch with
    | plain type hplain =>
      rw [hj] at hplain
      obtain rfl : EventType.join = type := Option.some.inj hplain
      exact ⟨_, rfl, lastEvent_push rfl (not_teamFork_of_type (by simp [ThreadBuildState.nextEvent]))⟩
    | recursiveFork hk => simp [hj, IRType.kind] at hk
    | fork hk => simp [hj, IRType.kind] at hk
    | noCall hk => simp [hj, IRType.kind] at hk
    | externCall hk => simp [hj, IRType.kind] at hk
    | call hk => simp [hj, IRType.kind] at hk

end Step

/-- Adjacent forks of parallel regions are twins, on the thread that is built and on those below it. -/
structure TwinsAdjacent (state : ThreadBuildState Ctx) : Prop where
  own : state.events.IsChain TwinEvents
  below : ∀ t ∈ threadsBelow state.childThreads, t.events.IsChain TwinEvents

section Visit

variable {program : Program Ctx} {node : CallGraphNode Ctx} {ir : IR} {rest : List IR}
  {state : ThreadBuildState Ctx}

lemma kind_of_team {ir : IR} (h : ir.type = .openMPFork) : ir.type.kind = .fork := by rw [h]; rfl

lemma TwinsAdjacent.of_plain {step : VisitStep Ctx} (h : visitStart program node ir state = .ok step)
    (hf : ∀ fork entry last, step ≠ .fork fork entry last) (ha : TwinsAdjacent state) :
    TwinsAdjacent step.state := by
  obtain ⟨new, hevents, hnew⟩ := visitStart_plain h hf
  refine ⟨?_, ?_⟩
  · rw [hevents]
    exact adjacent_append ha.own hnew
  · rw [(visitStart_emits h).childThreads]
    exact ha.below

lemma PairPosition.plain {step : VisitStep Ctx} (h : visitStart program node ir state = .ok step)
    (hf : ∀ fork entry last, step ≠ .fork fork entry last)
    (hl : lastEvent state fun event => event.isTeamFork = false) :
    lastEvent step.state fun event => event.isTeamFork = false := by
  obtain ⟨new, hevents, hnew⟩ := visitStart_plain h hf
  exact lastEvent_append hevents hl hnew

lemma PairPosition.next {after : ThreadBuildState Ctx} (hpos : PairPosition state (ir :: rest))
    (h : visitStart program node ir state = .ok (.next after)) : PairPosition after rest := by
  have hf : ∀ fork entry last, VisitStep.next after ≠ .fork fork entry last := by simp
  generalize hsum : ir :: rest = summary at hpos
  cases hpos with
  | top hpaired hl =>
    have hl' : lastEvent after fun event => event.isTeamFork = false := PairPosition.plain h hf hl
    subst hsum
    cases hpaired with
    | plain _ hr => exact .top hr hl'
    | pair _ _ h2 ho hj hr =>
      refine .afterFirst h2 ho hj hr ?_
      intro event hevent hteam
      rw [hl' event hevent] at hteam
      cases hteam
  | afterFirst h2 ho hj hr hl =>
    obtain ⟨rfl, rfl⟩ := List.cons.inj hsum
    obtain ⟨hevents, htraverses⟩ := visitStart_dropped h (kind_of_team h2)
    refine .afterSecond hj hr ?_
    intro event hevent hteam
    rw [hevents] at hevent
    exact htraverses (hl event hevent hteam).1
  | afterSecond hj hr hl =>
    obtain ⟨rfl, rfl⟩ := List.cons.inj hsum
    refine .top hr ?_
    by_cases hlast : lastEvent state fun event => event.isTeamFork = false
    · exact PairPosition.plain h hf hlast
    · simp only [lastEvent, not_forall, Bool.not_eq_false] at hlast
      obtain ⟨event, hevent, hteam⟩ := hlast
      obtain ⟨after', hnext, hlast'⟩ := visitStart_joined h hj (hl event hevent hteam)
      obtain rfl := VisitStep.next.inj hnext
      exact hlast'

lemma PairPosition.call {callee : CallGraphNode Ctx} {after : ThreadBuildState Ctx}
    (hpos : PairPosition state (ir :: rest)) (h : visitStart program node ir state = .ok (.call callee after)) :
    ForkPaired rest ∧ lastEvent after fun event => event.isTeamFork = false := by
  have hf : ∀ fork entry last, VisitStep.call callee after ≠ .fork fork entry last := by simp
  have hkind : ir.type.kind = .call := by
    rcases visitStart_cases h with ⟨-, hnext⟩ | ⟨-, ⟨_, -, hnext⟩ | ⟨asked, -, hdispatch⟩⟩
    · cases hnext
    · cases hnext
    · have hd := dispatched_of_dispatch hdispatch
      generalize hstep : VisitStep.call callee after = step at hd
      cases hd with
      | call hk => exact hk
      | _ => cases hstep
  generalize hsum : ir :: rest = summary at hpos
  cases hpos with
  | top hpaired hl =>
    subst hsum
    cases hpaired with
    | plain _ hr => exact ⟨hr, PairPosition.plain h hf hl⟩
    | pair h1 =>
      rw [kind_of_team h1] at hkind
      cases hkind
  | afterFirst h2 =>
    obtain ⟨rfl, rfl⟩ := List.cons.inj hsum
    rw [kind_of_team h2] at hkind
    cases hkind
  | afterSecond hj =>
    obtain ⟨rfl, rfl⟩ := List.cons.inj hsum
    rw [hj] at hkind
    cases hkind

lemma PairPosition.forked {fork : ForkEvent Ctx} {entry : CallGraphNode Ctx} {after last : ThreadBuildState Ctx}
    (hpos : PairPosition state (ir :: rest)) (h : visitStart program node ir state = .ok (.fork fork entry after))
    (ha : state.events.IsChain TwinEvents) (hevents : last.events = after.events)
    (ht : Traverses after → Traverses last) : after.events.IsChain TwinEvents ∧ PairPosition last rest := by
  obtain ⟨event, hnew, rfl, htype, htraverses⟩ := visitStart_forked h
  have hlast : ∀ {property : Event Ctx → Prop}, property event → lastEvent last property :=
    fun hp => lastEvent_push (hevents.trans hnew) hp
  have hchain : ∀ (_ : ∀ old ∈ state.events.getLast?, TwinEvents old event), after.events.IsChain TwinEvents := by
    intro hold
    rw [hnew]
    refine ha.append (.singleton event) ?_
    intro old hm next hnext
    rw [List.head?_cons, Option.mem_some] at hnext
    rw [← hnext]
    exact hold old hm
  have hquiet : (lastEvent state fun event => event.isTeamFork = false) →
      ∀ old ∈ state.events.getLast?, TwinEvents old event := by
    intro hl old hold hteam
    rw [hl old hold] at hteam
    cases hteam
  generalize hsum : event.ir :: rest = summary at hpos
  cases hpos with
  | top hpaired hl =>
    refine ⟨hchain (hquiet hl), ?_⟩
    subst hsum
    cases hpaired with
    | plain hne hr =>
      exact .top hr (hlast (by simp [Event.isTeamFork, hne]))
    | pair h1 hm h2 ho hj hr =>
      exact .afterFirst h2 ho hj hr (hlast fun _ => ⟨ht htraverses, hm⟩)
  | afterFirst h2 ho hj hr hl =>
    obtain ⟨rfl, rfl⟩ := List.cons.inj hsum
    exact ⟨hchain fun old hold hteam _ => ⟨(hl old hold hteam).2, ho⟩,
      .afterSecond hj hr (hlast fun _ => ht htraverses)⟩
  | afterSecond hj =>
    obtain ⟨heq, rfl⟩ := List.cons.inj hsum
    have hkind := (fork_kind h).1
    rw [heq, hj] at hkind
    cases hkind

end Visit

lemma Run.parallel {program : Program Ctx} {task : Task Ctx} {state last : ThreadBuildState Ctx}
    (h : Run program task state last) (hp : state.programState.inParallel = true) :
    last.programState.inParallel = true := by
  induction h with
  | recursive => exact hp
  | function _ _ _ ih => exact ih hp
  | done => exact hp
  | next hstart _ ih => exact ih (visitStart_parallel hstart hp)
  | @call node _ _ _ callee state' _ _ hstart _ _ ihcall ihrest =>
    refine ihrest (ihcall ?_)
    have hp' := visitStart_parallel hstart hp
    rw [ThreadBuildState.logCall]
    split <;> exact hp'
  | fork hstart _ _ ihchild ihrest => exact ihrest (ihchild (visitStart_parallel hstart hp))

def Task.PairedAt (state : ThreadBuildState Ctx) : Task Ctx → Prop
  | .build _ => lastEvent state fun event => event.isTeamFork = false
  | .body _ summary => PairPosition state summary

theorem Run.twinsAdjacent {program : Program Ctx}
    (hsum : ∀ f summary, program.getFunctionSummary f = .ok summary → ForkPaired summary) {task : Task Ctx}
    {state last : ThreadBuildState Ctx} (h : Run program task state last) (ha : TwinsAdjacent state)
    (hpos : task.PairedAt state) : TwinsAdjacent last ∧ lastEvent last fun event => event.isTeamFork = false := by
  induction h with
  | recursive => exact ⟨ha, hpos⟩
  | function _ hs _ ih =>
    obtain ⟨hbody, hl⟩ := ih ⟨ha.own, ha.below⟩ (.top (hsum _ _ hs) hpos)
    exact ⟨⟨hbody.own, hbody.below⟩, hl⟩
  | done =>
    refine ⟨ha, ?_⟩
    generalize hnil : ([] : List IR) = summary at hpos
    cases hpos with
    | top _ hl => exact hl
    | afterFirst => cases hnil
    | afterSecond => cases hnil
  | next hstart _ ih => exact ih (ha.of_plain hstart (by simp)) (hpos.next hstart)
  | @call node ir rest state callee state' returned last hstart hcall _ ihcall ihrest =>
    obtain ⟨hpaired, hcalled⟩ := hpos.call hstart
    have hvisited : TwinsAdjacent state' := ha.of_plain hstart (by simp)
    have hentered : (state'.logCall node callee).events = state'.events ∧
        (state'.logCall node callee).childThreads = state'.childThreads := by
      rw [ThreadBuildState.logCall]
      split <;> exact ⟨rfl, rfl⟩
    obtain ⟨hevents, hchildren⟩ := hentered
    obtain ⟨hreturned, -⟩ := ihcall ⟨by rw [hevents]; exact hvisited.own, by rw [hchildren]; exact hvisited.below⟩
      (fun event hevent => hcalled event (by rw [← hevents]; exact hevent))
    have hend : (returned.nextEvent .callEnd ir none).isTeamFork = false :=
      not_teamFork_of_type (by simp [ThreadBuildState.nextEvent])
    refine ihrest ⟨adjacent_append hreturned.own ?_, hreturned.below⟩ (.top hpaired (lastEvent_push rfl hend))
    intro event hevent
    rw [List.mem_singleton.mp hevent]
    exact hend
  | @fork node ir rest state fork entry state' childState last hstart hchild _ ihchild ihrest =>
    have hfinish : Traverses state' → Traverses (state'.finishFork ir childState) :=
      fun ht => ⟨ht.1, hchild.parallel ht.2⟩
    have hevents : (state'.finishFork ir childState).events = state'.events := rfl
    have hchildren : state'.childThreads = state.childThreads := (visitStart_emits hstart).childThreads
    obtain ⟨hchain, hpos'⟩ := hpos.forked hstart ha.own hevents hfinish
    obtain ⟨hbuilt, -⟩ := ihchild ⟨.nil, fun t ht => absurd ht List.not_mem_nil⟩
      (fun event hevent => absurd hevent (by simp [ThreadBuildState.child]))
    refine ihrest ⟨hchain, ?_⟩ hpos'
    intro t ht
    change t ∈ threadsBelow (state'.childThreads ++ [childState.trace]) at ht
    rw [threadsBelow_append, threadsBelow_singleton, List.mem_append] at ht
    cases ht with
    | inl hold =>
      rw [hchildren] at hold
      exact ha.below t hold
    | inr hnew =>
      cases List.mem_cons.mp hnew with
      | inl hself =>
        rw [hself]
        exact hbuilt.own
      | inr hm => exact hbuilt.below t hm

lemma ite_ne {condition : Prop} [Decidable condition] {a b c : CallAction} (ha : a ≠ c) (hb : b ≠ c) :
    (if condition then a else b) ≠ c := by
  split
  · exact ha
  · exact hb

lemma recognize_ne (funcName : String) : recognize funcName ≠ .push .openMPFork := by
  rw [recognize]
  repeat' apply ite_ne
  all_goals simp

lemma callAction_ne (call : CallBase) : callAction call ≠ .push .openMPFork := by
  rw [callAction]
  split
  · simp
  · split
    · simp
    · exact ite_ne (by simp) (recognize_ne _)

lemma ForkPaired.append {first rest : List IR} (h : ForkPaired first) (h' : ForkPaired rest) :
    ForkPaired (first ++ rest) := by
  induction h with
  | nil => exact h'
  | plain hne _ ih => exact .plain hne ih
  | pair h1 hm h2 ho hj _ ih => exact .pair h1 hm h2 ho hj ih

lemma forkPaired_accesses {summary : List IR} (h : ∀ ir ∈ summary, ir.type ≠ .openMPFork) : ForkPaired summary := by
  induction summary with
  | nil => exact .nil
  | cons ir rest ih => exact .plain (h ir List.mem_cons_self) (ih fun x hx => h x (List.mem_cons_of_mem _ hx))

lemma forkPaired_pair (region : RegionKind) (fork twin : CallBase) : ForkPaired (forkPair region fork twin) := by
  cases region with
  | parallel => exact .pair rfl rfl rfl rfl rfl (.plain (by simp [RegionKind.joinType]) .nil)
  | teams => exact forkPaired_accesses (by simp [forkPair, RegionKind.forkType, RegionKind.joinType])

lemma forkPaired_access {type : IRType} (h : type ≠ .openMPFork) (inst : Instruction) (pointer : Value)
    (isAtomic isVolatile : Bool) : ForkPaired (summarizeAccess type inst pointer isAtomic isVolatile) := by
  rw [summarizeAccess]
  split
  · exact .nil
  · exact .plain h .nil

lemma summarizeBlock_forkPaired {block : BasicBlock} {summary : List IR} (h : summarizeBlock block = .ok summary) :
    ForkPaired summary := by
  fun_induction summarizeBlock block generalizing summary with
  | case1 =>
    cases h
    exact .nil
  | case2 _ _ _ _ _ ih =>
    obtain ⟨others, hrest, heq⟩ := Library.exists_of_bind h
    cases heq
    exact (forkPaired_access (by simp) _ _ _ _).append (ih hrest)
  | case3 _ _ _ _ _ ih =>
    obtain ⟨others, hrest, heq⟩ := Library.exists_of_bind h
    cases heq
    exact (forkPaired_access (by simp) _ _ _ _).append (ih hrest)
  | case5 inst _ type hpush ih =>
    obtain ⟨others, hrest, heq⟩ := Library.exists_of_bind h
    cases heq
    exact .plain (fun htype => callAction_ne inst (by rw [hpush]; exact congrArg _ htype)) (ih hrest)
  | case7 _ region _ twin _ ihrest ihtwin =>
    obtain ⟨isTwin, -, htwin⟩ := Library.exists_of_bind h
    split at htwin
    · obtain ⟨others, hrest, heq⟩ := Library.exists_of_bind htwin
      cases heq
      exact (forkPaired_pair _ _ _).append (ihrest hrest)
    · exact ihtwin htwin
  | case6 | case8 => cases h
  | case4 _ _ _ ih => exact ih h
  | case9 _ _ _ _ _ _ ih => exact ih h
  | case10 _ _ ih => exact ih h
  | case11 _ _ ih => exact ih h

theorem generateFunctionSummary_forkPaired {blocks : List BasicBlock} {summary : List IR}
    (h : generateFunctionSummary blocks = .ok summary) : ForkPaired summary := by
  obtain ⟨parts, hparts, heq⟩ := Library.exists_of_bind h
  cases heq
  clear h
  induction blocks generalizing parts with
  | nil =>
    cases hparts
    exact .nil
  | cons block rest ih =>
    rw [List.mapM_cons] at hparts
    obtain ⟨part, hpart, hrest⟩ := Library.exists_of_bind hparts
    obtain ⟨others, hothers, heq⟩ := Library.exists_of_bind hrest
    cases heq
    exact (summarizeBlock_forkPaired hpart).append (ih _ hothers)

/-- The spawn sites of all threads, up to the main thread, are forks of the history. -/
structure SitesLogged (state : ThreadBuildState Ctx) : Prop where
  own : ∀ fork ∈ state.thread.spawnSites, fork ∈ forksOf state.log
  below : ∀ t ∈ threadsBelow state.childThreads, ∀ fork ∈ t.thread.spawnSites, fork ∈ forksOf state.log

lemma Extends.forksOf {state last : ThreadBuildState Ctx} (h : Extends state last) {fork : ForkEvent Ctx}
    (hf : fork ∈ OpenRace.forksOf state.log) : fork ∈ OpenRace.forksOf last.log := by
  obtain ⟨entries, hlog⟩ := h
  rw [hlog, forksOf_append]
  exact List.mem_append_left _ hf

lemma SitesLogged.extends {state last : ThreadBuildState Ctx} (h : SitesLogged state) (he : Extends state last)
    (ht : last.thread = state.thread) (hc : last.childThreads = state.childThreads) : SitesLogged last := by
  refine ⟨?_, ?_⟩
  · rw [ht]
    exact fun fork hfork => he.forksOf (h.own fork hfork)
  · rw [hc]
    exact fun t hmem fork hfork => he.forksOf (h.below t hmem fork hfork)

theorem Run.sitesLogged {program : Program Ctx} {task : Task Ctx} {state last : ThreadBuildState Ctx}
    (h : Run program task state last) (hs : SitesLogged state) : SitesLogged last := by
  induction h with
  | recursive => exact hs
  | function _ _ _ ih =>
    have hbody := ih ⟨hs.own, hs.below⟩
    exact ⟨hbody.own, hbody.below⟩
  | done => exact hs
  | next hstart _ ih =>
    have hemit := visitStart_emits hstart
    exact ih (hs.extends (.of_emits hemit) hemit.thread hemit.childThreads)
  | @call node ir _ _ callee state' returned _ hstart _ _ ihcall ihrest =>
    have hemit := visitStart_emits hstart
    have hvisited : SitesLogged state' := hs.extends (.of_emits hemit) hemit.thread hemit.childThreads
    have hchildren : (state'.logCall node callee).childThreads = state'.childThreads := by
      rw [ThreadBuildState.logCall]
      split <;> rfl
    have hreturned := ihcall (hvisited.extends (logCall_extends state' node callee)
      (Frame.of_logCall state' node callee).thread hchildren)
    exact ihrest (hreturned.extends (push_extends returned node .callEnd ir) rfl rfl)
  | @fork node ir _ _ fork entry state' childState _ hstart hchild _ ihchild ihrest =>
    have hemit := visitStart_emits hstart
    have hvisited : SitesLogged state' := hs.extends (.of_emits hemit) hemit.thread hemit.childThreads
    obtain ⟨spawn, hlog, hspawn, -⟩ := visitStart_spawn hstart
    have hfork : fork ∈ forksOf state'.log := by
      rw [hlog, forksOf_append, hspawn]
      exact List.mem_append_right _ List.mem_cons_self
    have hbuilt := ihchild ⟨fun site hsite => (List.mem_cons.mp hsite).elim (fun heq => heq ▸ hfork)
      (hvisited.own site), fun t ht => absurd ht List.not_mem_nil⟩
    have hextends : Extends state' childState := hchild.extends
    refine ihrest ⟨fun site hsite => hextends.forksOf (hvisited.own site hsite), ?_⟩
    intro t ht
    change t ∈ threadsBelow (state'.childThreads ++ [childState.trace]) at ht
    rw [threadsBelow_append, threadsBelow_singleton, List.mem_append] at ht
    cases ht with
    | inl hold => exact fun site hsite => hextends.forksOf (hvisited.below t hold site hsite)
    | inr hnew =>
      cases List.mem_cons.mp hnew with
      | inl hself =>
        rw [hself]
        exact hbuilt.own
      | inr hm => exact hbuilt.below t hm

section Main

variable {program : Program Ctx} {fuel : ℕ} {entry : CallGraphNode Ctx} {final : ThreadBuildState Ctx}

lemma site_event (h : buildMainThread program fuel entry = .ok final) {t : ThreadTrace Ctx}
    (ht : t ∈ final.trace.threads) {fork : ForkEvent Ctx} (hfork : fork ∈ t.thread.spawnSites) :
    ∃ s ∈ final.trace.threads, s.id = fork.pid.tid ∧ ∃ event, s.events[fork.pid.eid]? = some event ∧
      event.type = .fork ∧ event.ir = fork.ir := by
  obtain ⟨hl, hframe, hadds⟩ := buildMainThread_adds h
  have hsites := (run_of_buildTrace h).sitesLogged
    ⟨fun _ hm => absurd hm List.not_mem_nil, fun _ hm => absurd hm List.not_mem_nil⟩
  have hlogged : fork ∈ forksOf final.log := by
    cases ht with
    | head => exact hsites.own fork hfork
    | tail _ hm => exact hsites.below t hm fork hfork
  obtain ⟨event, hevent, rfl⟩ := List.mem_map.mp hlogged
  obtain ⟨hevent, htype⟩ := List.mem_filter.mp hevent
  have hthread : ∃ s ∈ final.trace.threads, s.id = event.thread.id := by
    have hle := hl.known event hevent
    have hid : final.trace.id = 0 := congrArg ThreadRef.id hframe.thread
    by_cases hzero : event.thread.id = 0
    · exact ⟨final.trace, List.mem_cons_self, hid.trans hzero.symm⟩
    · have hcount := hadds.count
      have hmem : event.thread.id ∈ (threadsBelow final.childThreads).map ThreadTrace.id := by
        rw [hadds.ids, List.mem_range'_1]
        change _ ∧ _ < 0 + 1 + _
        change _ = 0 + _ at hcount
        change 0 + 1 ≤ _ ∧ _
        omega
      obtain ⟨s, hs, hsid⟩ := List.mem_map.mp hmem
      exact ⟨s, List.mem_cons_of_mem _ hs, hsid⟩
  obtain ⟨s, hs, hsid⟩ := hthread
  refine ⟨s, hs, hsid, event, ?_, by simpa using htype, rfl⟩
  have hmem : event ∈ s.events := by
    rw [threads_of_log h s hs, List.mem_filter]
    exact ⟨hevent, by simp [hsid]⟩
  obtain ⟨i, hi⟩ := List.mem_iff_getElem?.mp hmem
  have hindexed := flattenThreads_indexed h
  have hflat : s ∈ flattenThreads [final.trace] := by
    rw [buildProgramTrace_threads final fun _ => []]
    exact hs
  rw [← hindexed.eventIds s hflat i event hi] at hi
  exact hi

/-- Two spawn sites that are forks of parallel regions and next to one another are twins. -/
theorem adjacent_sites (hsum : ∀ f summary, program.getFunctionSummary f = .ok summary → ForkPaired summary)
    (h : buildMainThread program fuel entry = .ok final) {t t' : ThreadTrace Ctx}
    (ht : t ∈ final.trace.threads) (ht' : t' ∈ final.trace.threads) {fork fork' : ForkEvent Ctx}
    (hfork : fork ∈ t.thread.spawnSites) (hfork' : fork' ∈ t'.thread.spawnSites)
    (htype : fork.ir.type = .openMPFork) (htype' : fork'.ir.type = .openMPFork)
    (htid : fork.pid.tid = fork'.pid.tid) (heid : fork'.pid.eid = fork.pid.eid + 1) :
    fork.ir.isForkingMaster = true ∧ fork'.ir.isForkingMaster = false := by
  obtain ⟨s, hs, hsid, event, hevent, hft, hir⟩ := site_event h ht hfork
  obtain ⟨s', hs', hsid', event', hevent', hft', hir'⟩ := site_event h ht' hfork'
  have hindexed := flattenThreads_indexed h
  rw [buildProgramTrace_threads final fun _ => []] at hindexed
  have hsame : s = s' := by
    obtain ⟨i, hi⟩ := List.mem_iff_getElem?.mp hs
    obtain ⟨j, hj⟩ := List.mem_iff_getElem?.mp hs'
    have hij : i = j := by
      rw [← hindexed.threadIds i s hi, ← hindexed.threadIds j s' hj, hsid, hsid', htid]
    rw [← hij, hi] at hj
    exact Option.some.inj hj
  subst hsame
  have hadjacent := ((run_of_buildTrace h).twinsAdjacent hsum ⟨.nil, fun _ hm => absurd hm List.not_mem_nil⟩
    (fun _ hm => absurd hm (by simp [ThreadBuildState.main]))).1
  have hchain : s.events.IsChain TwinEvents := by
    cases hs with
    | head => exact hadjacent.own
    | tail _ hm => exact hadjacent.below s hm
  rw [heid] at hevent'
  obtain ⟨hlt, hget⟩ := List.getElem?_eq_some_iff.mp hevent
  obtain ⟨hlt', hget'⟩ := List.getElem?_eq_some_iff.mp hevent'
  have htwin := hchain.getElem fork.pid.eid hlt'
  rw [hget, hget', TwinEvents, hir, hir'] at htwin
  exact htwin (by simp [Event.isTeamFork, hft, hir, htype]) (by simp [Event.isTeamFork, hft', hir', htype'])

end Main

end OpenRace
