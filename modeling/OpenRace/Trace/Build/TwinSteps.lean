import OpenRace.Trace.Build.Erasing

/-! One statement, traversed by both twins of a team. -/

namespace OpenRace

open LLVM

variable {Ctx : Type}

/-- Related contexts have the same callees, and a fork starts the same function everywhere. -/
structure SameCallees (program : Program Ctx) (R : Ctx → Ctx → Prop) : Prop where
  direct : ∀ context context' callsite f, R context context' →
    Option.Rel (fun callee callee' => callee.function = callee'.function ∧
        callee.isExtFunction = callee'.isExtFunction ∧ R callee.context callee'.context)
      (program.getDirectNodeOrNull (program.contextEvolve context callsite) f)
      (program.getDirectNodeOrNull (program.contextEvolve context' callsite) f)
  entries : ∀ fork fork' entry entry', fork.ir = fork'.ir → program.getThreadEntry fork = some entry →
    program.getThreadEntry fork' = some entry' → entry.function = entry'.function

def IR.isSingleMarker (ir : IR) : Bool :=
  ir.type == .openMPSingleStart || ir.type == .openMPSingleEnd

/-- The markers are calls of runtime functions, which have no body. -/
def Program.MarkersExtern (program : Program Ctx) : Prop :=
  ∀ f summary, program.getFunctionSummary f = .ok summary → ∀ ir ∈ summary,
    ir.isMasterMarker || ir.isSingleMarker → ∀ context, ∃ callee,
      program.callee context ir.inst = some callee ∧ callee.isExtFunction = true

lemma SameCallees.callee {program : Program Ctx} {R : Ctx → Ctx → Prop} (h : SameCallees program R)
    {context context' : Ctx} (hr : R context context') (inst : Instruction) :
    Option.Rel (fun callee callee' => callee.function = callee'.function ∧
        callee.isExtFunction = callee'.isExtFunction ∧ R callee.context callee'.context)
      (program.callee context inst) (program.callee context' inst) := by
  cases inst with
  | call call =>
    simp only [Program.callee]
    split
    · exact .none
    · split
      · exact .none
      · split
        · exact .none
        · exact h.direct _ _ _ _ hr
  | alloca | load | store | other => exact .none

inductive TwinNext (R : Ctx → Ctx → Prop) : VisitStep Ctx → VisitStep Ctx → Prop
  | next (state state') : TwinNext R (.next state) (.next state')
  | call {callee callee'} (state state') (hf : callee.function = callee'.function)
      (hr : R callee.context callee'.context) : TwinNext R (.call callee state) (.call callee' state')
  | fork (fork entry state fork' entry' state') :
      TwinNext R (.fork fork entry state) (.fork fork' entry' state')
  | task (fork entry state state') : TwinNext R (.fork fork entry state) (.next state')

inductive TwinOwn (ir : IR) : List (Event Ctx) → List (Event Ctx) → Prop
  | nothing (h : ir.isSingleMarker = false) : TwinOwn ir [] []
  | one {event event'} (hir : event.ir = ir) (hir' : event'.ir = ir) (ht : event.type = event'.type)
      (hf : event.forkEvent = none) (hf' : event'.forkEvent = none) : TwinOwn ir [event] [event']

lemma TwinOwn.pushed (ir : IR) (type : EventType) (state state' : ThreadBuildState Ctx) :
    TwinOwn ir [state.nextEvent type ir none] [state'.nextEvent type ir none] :=
  .one rfl rfl rfl rfl rfl

lemma unmarked_single {ir : IR} (h : ir.type.kind ≠ .call) : ir.isSingleMarker = false := by
  rw [← Bool.not_eq_true]
  intro hm
  rw [IR.isSingleMarker, Bool.or_eq_true, beq_iff_eq, beq_iff_eq] at hm
  rcases hm with hm | hm <;> rw [hm] at h <;> exact h rfl

lemma Dispatched.kind_unique {program : Program Ctx} {node : CallGraphNode Ctx} {ir : IR}
    {state : ThreadBuildState Ctx} {step : VisitStep Ctx} (h : Dispatched program node ir state step) :
    (∃ type, ir.type.kind.plainEvent = some type ∧ step = .next (state.push node type ir)) ∨
    (ir.type.kind = .fork ∧ ∃ entry, program.getThreadEntry (state.nextEvent .fork ir none).asFork = some entry ∧
      (isRecursiveThreadSpawn program entry.function 2 state.thread.spawnSites 1 = true ∧ step = .next state ∨
        isRecursiveThreadSpawn program entry.function 2 state.thread.spawnSites 1 = false ∧
          step = .fork (state.nextEvent .fork ir none).asFork entry
            (forked node ir (state.nextEvent .fork ir none).asFork state))) ∨
    (ir.type.kind = .call ∧ (program.callee node.context ir.inst = none ∧ step = .next state ∨
      ∃ callee, program.callee node.context ir.inst = some callee ∧
        (callee.isExtFunction = true ∧ step = .next (state.push node .externCall ir) ∨
          callee.isExtFunction = false ∧ step = .call callee (state.push node .call ir)))) := by
  cases h with
  | plain type h => exact Or.inl ⟨type, h, rfl⟩
  | recursiveFork h entry he hr => exact Or.inr (Or.inl ⟨h, entry, he, Or.inl ⟨hr, rfl⟩⟩)
  | fork h entry he hr => exact Or.inr (Or.inl ⟨h, entry, he, Or.inr ⟨hr, rfl⟩⟩)
  | noCall h hc => exact Or.inr (Or.inr ⟨h, Or.inl ⟨hc, rfl⟩⟩)
  | externCall h callee hc he => exact Or.inr (Or.inr ⟨h, Or.inr ⟨callee, hc, Or.inl ⟨he, rfl⟩⟩⟩)
  | call h callee hc he => exact Or.inr (Or.inr ⟨h, Or.inr ⟨callee, hc, Or.inr ⟨he, rfl⟩⟩⟩)

section Dispatch

variable {program : Program Ctx} {R : Ctx → Ctx → Prop} {node node' : CallGraphNode Ctx} {ir : IR}
  {state state' : ThreadBuildState Ctx} {step step' : VisitStep Ctx}

lemma twin_fork (hR : SameCallees program R) (hs : ∀ f n count,
      isRecursiveThreadSpawn program f n state.thread.spawnSites count =
        isRecursiveThreadSpawn program f n state'.thread.spawnSites count)
    (hkind : ir.type.kind = .fork) (h : Dispatched program node ir state step)
    (h' : Dispatched program node' ir state' step') :
    ∃ own own', step.state.events = state.events ++ own ∧ step'.state.events = state'.events ++ own' ∧
      TwinOwn ir own own' ∧ TwinNext R step step' := by
  have hsingle : ir.isSingleMarker = false := unmarked_single (by rw [hkind]; simp)
  rcases h.kind_unique with ⟨_, hplain, -⟩ | ⟨-, entry, he, hstep⟩ | ⟨hcall, -⟩
  · simp [hkind, IRKind.plainEvent] at hplain
  · rcases h'.kind_unique with ⟨_, hplain, -⟩ | ⟨-, entry', he', hstep'⟩ | ⟨hcall, -⟩
    · simp [hkind, IRKind.plainEvent] at hplain
    · have hsame := hR.entries (state.nextEvent .fork ir none).asFork
        (state'.nextEvent .fork ir none).asFork entry entry' rfl he he'
      rw [hsame, hs] at hstep
      rcases hstep with ⟨hr, rfl⟩ | ⟨hr, rfl⟩
      · rcases hstep' with ⟨-, rfl⟩ | ⟨hr', -⟩
        · exact ⟨[], [], by simp [VisitStep.state], by simp [VisitStep.state], .nothing hsingle, .next _ _⟩
        · rw [hr] at hr'
          cases hr'
      · rcases hstep' with ⟨hr', -⟩ | ⟨-, rfl⟩
        · rw [hr] at hr'
          cases hr'
        · exact ⟨_, _, rfl, rfl, .pushed ir .fork state state', .fork _ _ _ _ _ _⟩
    · rw [hkind] at hcall
      cases hcall
  · rw [hkind] at hcall
    cases hcall

lemma twin_call (hR : SameCallees program R) (hn : R node.context node'.context)
    (hext : ir.isSingleMarker = true → ∃ callee, program.callee node.context ir.inst = some callee)
    (hkind : ir.type.kind = .call) (h : Dispatched program node ir state step)
    (h' : Dispatched program node' ir state' step') :
    ∃ own own', step.state.events = state.events ++ own ∧ step'.state.events = state'.events ++ own' ∧
      TwinOwn ir own own' ∧ TwinNext R step step' := by
  have hrel := hR.callee hn ir.inst
  rcases h.kind_unique with ⟨_, hplain, -⟩ | ⟨hfork, -⟩ | ⟨-, hstep⟩
  · simp [hkind, IRKind.plainEvent] at hplain
  · rw [hkind] at hfork
    cases hfork
  · rcases h'.kind_unique with ⟨_, hplain, -⟩ | ⟨hfork, -⟩ | ⟨-, hstep'⟩
    · simp [hkind, IRKind.plainEvent] at hplain
    · rw [hkind] at hfork
      cases hfork
    · rcases hstep with ⟨hnone, rfl⟩ | ⟨callee, hc, hstep⟩
      · rcases hstep' with ⟨-, rfl⟩ | ⟨callee', hc', -⟩
        · refine ⟨[], [], by simp [VisitStep.state], by simp [VisitStep.state], .nothing ?_, .next _ _⟩
          rw [← Bool.not_eq_true]
          intro hm
          obtain ⟨callee, hc⟩ := hext hm
          rw [hnone] at hc
          cases hc
        · rw [hnone, hc'] at hrel
          cases hrel
      · rcases hstep' with ⟨hnone, -⟩ | ⟨callee', hc', hstep'⟩
        · rw [hnone, hc] at hrel
          cases hrel
        · rw [hc, hc'] at hrel
          cases hrel with
          | some hrel =>
            obtain ⟨hf, he, hr⟩ := hrel
            rcases hstep with ⟨hx, rfl⟩ | ⟨hx, rfl⟩
            · rcases hstep' with ⟨-, rfl⟩ | ⟨hx', -⟩
              · exact ⟨_, _, rfl, rfl, .pushed ir .externCall state state', .next _ _⟩
              · rw [← he, hx] at hx'
                cases hx'
            · rcases hstep' with ⟨hx', -⟩ | ⟨-, rfl⟩
              · rw [← he, hx] at hx'
                cases hx'
              · exact ⟨_, _, rfl, rfl, .pushed ir .call state state', .call _ _ hf hr⟩

lemma twin_dispatch (hR : SameCallees program R) (hn : R node.context node'.context)
    (hs : ∀ f n count, isRecursiveThreadSpawn program f n state.thread.spawnSites count =
      isRecursiveThreadSpawn program f n state'.thread.spawnSites count)
    (hext : ir.isSingleMarker = true → ∃ callee, program.callee node.context ir.inst = some callee)
    (h : Dispatched program node ir state step) (h' : Dispatched program node' ir state' step') :
    ∃ own own', step.state.events = state.events ++ own ∧ step'.state.events = state'.events ++ own' ∧
      TwinOwn ir own own' ∧ TwinNext R step step' := by
  rcases h.kind_unique with ⟨type, hplain, rfl⟩ | ⟨hkind, -⟩ | ⟨hkind, -⟩
  · rcases h'.kind_unique with ⟨type', hplain', rfl⟩ | ⟨hkind, -⟩ | ⟨hkind, -⟩
    · rw [hplain] at hplain'
      obtain rfl := Option.some.inj hplain'
      exact ⟨_, _, rfl, rfl, .pushed ir type state state', .next _ _⟩
    · simp [hkind, IRKind.plainEvent] at hplain
    · simp [hkind, IRKind.plainEvent] at hplain
  · exact twin_fork hR hs hkind h h'
  · exact twin_call hR hn hext hkind h h'

end Dispatch

end OpenRace
