import Mathlib.Logic.Relation
import OpenRace.IR.Builder

/-! The calls whose called function the summaries of functions read. -/

namespace OpenRace

open LLVM

/-- `CallIR::getCalledFunction`, which looks through casts and aliases. -/
def IR.getCalledFunction (ir : IR) : Option Function :=
  match ir.inst with
  | .call call => resolveTargetFunction call
  | _ => none

/-- Called through a cast or an alias, or not through a function at all. -/
def NullWhereResolved (call : CallBase) : Prop :=
  resolveTargetFunction call ≠ none ∧ call.getCalledFunction = none

instance (call : CallBase) : Decidable (NullWhereResolved call) := inferInstanceAs (Decidable (_ ∧ _))

/-- The calls whose called function is read while a block is summarized, up to the first that has none. -/
def twinReads : BasicBlock → List CallBase
  | [] => []
  | .call inst :: rest =>
    match callAction inst with
    | .unhandled => []
    | .pair region =>
      match rest with
      | .call twin :: afterTwin =>
        match callsNamed region.isForkName twin with
        | .error _ => [twin]
        | .ok true => twin :: twinReads afterTwin
        | .ok false => twin :: twinReads (.call twin :: afterTwin)
      | [] => []
      | rest => twinReads rest
    | _ => twinReads rest
  | _ :: rest => twinReads rest

def summaryReads : List BasicBlock → List CallBase
  | [] => []
  | block :: blocks =>
    match summarizeBlock block with
    | .ok _ => twinReads block ++ summaryReads blocks
    | .error _ => twinReads block

lemma callsNamed_error {isName : String → Bool} {call : CallBase} {error : SummaryError}
    (h : callsNamed isName call = .error error) :
    error = .nullCalledFunction ∧ call.getCalledFunction = none := by
  rw [callsNamed] at h
  cases hf : call.getCalledFunction with
  | none =>
    rw [hf] at h
    exact ⟨(Except.error.inj h).symm, rfl⟩
  | some f =>
    rw [hf] at h
    cases h

lemma callsNamed_ok {isName : String → Bool} {call : CallBase} {named : Bool}
    (h : callsNamed isName call = .ok named) : call.getCalledFunction ≠ none := by
  intro hf
  rw [callsNamed, hf] at h
  cases h

lemma bind_null {summary : Except SummaryError (List IR)} {own : List IR} :
    (do return own ++ (← summary)) = Except.error SummaryError.nullCalledFunction ↔
      summary = .error .nullCalledFunction := by
  cases summary with
  | error error => exact Iff.rfl
  | ok summary => exact iff_of_false (fun h => by cases h) (fun h => by cases h)

inductive SummaryRound : BasicBlock → BasicBlock → Prop
  | plain {inst rest} (h : ∀ call, inst ≠ .call call) : SummaryRound (inst :: rest) rest
  | call {call rest} (h : callAction call ≠ .unhandled) (hp : ∀ region, callAction call ≠ .pair region) :
      SummaryRound (.call call :: rest) rest
  | pair {fork twin rest region} (h : callAction fork = .pair region)
      (ht : callsNamed region.isForkName twin = .ok true) : SummaryRound (.call fork :: .call twin :: rest) rest
  | lone {fork next rest region} (h : callAction fork = .pair region)
      (hn : ∀ twin, next = .call twin → callsNamed region.isForkName twin = .ok false) :
      SummaryRound (.call fork :: next :: rest) (next :: rest)

namespace SummaryRound

lemma lone_call {fork twin : CallBase} {rest : BasicBlock} {region : RegionKind} (h : callAction fork = .pair region)
    (ht : callsNamed region.isForkName twin = .ok false) :
    SummaryRound (.call fork :: .call twin :: rest) (.call twin :: rest) := by
  refine .lone h ?_
  rintro other ⟨⟩
  exact ht

lemma lone_other {fork : CallBase} {rest : BasicBlock} {region : RegionKind} (h : callAction fork = .pair region)
    (hcall : ∀ twin after, rest = .call twin :: after → False) (hne : rest ≠ []) :
    SummaryRound (.call fork :: rest) rest := by
  obtain ⟨next, rest, rfl⟩ := List.exists_cons_of_ne_nil hne
  refine .lone h ?_
  rintro twin rfl
  exact (hcall twin rest rfl).elim

lemma summarizeBlock {block rest : BasicBlock} (h : SummaryRound block rest) :
    ∃ own, OpenRace.summarizeBlock block = (do return own ++ (← OpenRace.summarizeBlock rest)) := by
  cases h with
  | @plain inst rest h =>
    cases inst with
    | alloca id => exact ⟨[], by simp [OpenRace.summarizeBlock]⟩
    | load id pointer isAtomic isVolatile => exact ⟨_, rfl⟩
    | store id pointer isAtomic isVolatile => exact ⟨_, rfl⟩
    | call call => exact absurd rfl (h call)
    | other id => exact ⟨[], by simp [OpenRace.summarizeBlock]⟩
  | @call call rest h hp =>
    rw [OpenRace.summarizeBlock]
    cases haction : callAction call with
    | skip => exact ⟨[], by simp⟩
    | push type => exact ⟨[_], rfl⟩
    | pair region => exact absurd haction (hp region)
    | unhandled => exact absurd haction h
  | @pair fork twin rest region h ht =>
    refine ⟨forkPair region fork twin, ?_⟩
    rw [OpenRace.summarizeBlock, h]
    simp only [ht]
    rfl
  | @lone fork next rest region h hn =>
    refine ⟨[], ?_⟩
    rw [OpenRace.summarizeBlock, h]
    cases next with
    | call twin =>
      simp only [hn twin rfl, List.nil_append, bind_pure]
      rfl
    | _ => simp

lemma null {block rest : BasicBlock} (h : SummaryRound block rest) :
    OpenRace.summarizeBlock block = .error .nullCalledFunction ↔
      OpenRace.summarizeBlock rest = .error .nullCalledFunction := by
  obtain ⟨own, heq⟩ := h.summarizeBlock
  rw [heq]
  exact bind_null

end SummaryRound

lemma summarizeBlock_null (block : BasicBlock) : summarizeBlock block = .error .nullCalledFunction ↔
    ∃ call ∈ twinReads block, call.getCalledFunction = none := by
  fun_induction twinReads block with
  | case1 => simp [summarizeBlock]
  | case2 inst rest haction => simp [summarizeBlock, haction]
  | case3 fork region haction twin rest error herror =>
    obtain ⟨rfl, hnull⟩ := callsNamed_error herror
    refine iff_of_true ?_ ⟨twin, List.mem_singleton_self twin, hnull⟩
    rw [summarizeBlock, haction]
    simp only [herror]
    rfl
  | case4 fork region haction twin rest htwin ih =>
    rw [(SummaryRound.pair haction htwin).null, ih]
    simp [callsNamed_ok htwin]
  | case5 fork region haction twin rest htwin ih =>
    rw [(SummaryRound.lone_call haction htwin).null, ih]
    simp [callsNamed_ok htwin]
  | case6 fork region haction => simp [summarizeBlock, haction]
  | case7 fork region haction rest hcall hne ih =>
    rw [(SummaryRound.lone_other haction hcall hne).null, ih]
  | case8 inst rest hhandled hpair ih => rw [(SummaryRound.call hhandled hpair).null, ih]
  | case9 inst rest hcall ih => rw [(SummaryRound.plain hcall).null, ih]

theorem generateFunctionSummary_null (blocks : List BasicBlock) :
    generateFunctionSummary blocks = .error .nullCalledFunction ↔
      ∃ call ∈ summaryReads blocks, call.getCalledFunction = none := by
  induction blocks with
  | nil => exact iff_of_false (fun h => by cases h) (by simp [summaryReads])
  | cons block blocks ih =>
    have hblock := summarizeBlock_null block
    rw [generateFunctionSummary, List.mapM_cons]
    cases hb : summarizeBlock block with
    | error error =>
      rw [summaryReads, hb, ← hblock, hb]
      exact Iff.rfl
    | ok summary =>
      have hnone : ¬∃ call ∈ twinReads block, call.getCalledFunction = none := by
        rw [← hblock, hb]
        exact fun h => by cases h
      rw [generateFunctionSummary] at ih
      simp only [summaryReads, hb, List.mem_append, or_and_right, exists_or, hnone, false_or, ← ih]
      cases blocks.mapM summarizeBlock with
      | error error => exact Iff.rfl
      | ok summaries => exact iff_of_false (fun h => by cases h) (fun h => by cases h)

-- a call through a cast, directly behind a fork
example : generateFunctionSummary [[
    .call { id := 1, calledOperand := .function { id := 0, name := "__kmpc_fork_call" } },
    .call { id := 2, calledOperand := .bitcast (.function { id := 1, name := "work" }) }]] =
      .error .nullCalledFunction := by decide +kernel

section Reads

lemma SummaryRound.reads {block rest : BasicBlock} (h : SummaryRound block rest) :
    twinReads rest ⊆ twinReads block := by
  intro call hcall
  cases h with
  | @plain inst rest h =>
    cases inst with
    | call other => exact absurd rfl (h other)
    | _ => exact hcall
  | @call other rest h hp =>
    rw [twinReads]
    cases haction : callAction other with
    | skip => exact hcall
    | push type => exact hcall
    | pair region => exact absurd haction (hp region)
    | unhandled => exact absurd haction h
  | @pair fork twin rest region h ht =>
    rw [twinReads, h]
    simp only [ht]
    exact List.mem_cons_of_mem _ hcall
  | @lone fork next rest region h hn =>
    rw [twinReads, h]
    cases next with
    | call twin =>
      simp only [hn twin rfl]
      exact List.mem_cons_of_mem _ hcall
    | _ => exact hcall

lemma mem_reads_twin {fork call : CallBase} {rest : BasicBlock} {region : RegionKind}
    (h : callAction fork = .pair region) : call ∈ twinReads (.call fork :: .call call :: rest) := by
  rw [twinReads, h]
  dsimp only
  cases callsNamed region.isForkName call with
  | error error => exact List.mem_singleton_self call
  | ok named => cases named <;> exact List.mem_cons_self

/-- Somewhere on from here the call stands behind a call that may be half of a pair. -/
def BehindFork (block : BasicBlock) (call : CallBase) : Prop := ∃ fork rest region,
  Relation.ReflTransGen SummaryRound block (.call fork :: .call call :: rest) ∧ callAction fork = .pair region

lemma SummaryRound.behindFork {block rest : BasicBlock} {call : CallBase} (h : SummaryRound block rest)
    (hrest : BehindFork rest call) : BehindFork block call := by
  obtain ⟨fork, after, region, hgets, haction⟩ := hrest
  exact ⟨fork, after, region, .head h hgets, haction⟩

lemma mem_twinReads {block : BasicBlock} {call : CallBase} : call ∈ twinReads block ↔ BehindFork block call := by
  constructor
  · intro hcall
    fun_induction twinReads block with
    | case1 => cases hcall
    | case2 => cases hcall
    | case3 fork region haction twin rest =>
      rw [List.mem_singleton.mp hcall]
      exact ⟨fork, rest, region, .refl, haction⟩
    | case4 fork region haction twin rest htwin ih =>
      rcases List.mem_cons.mp hcall with rfl | hcall
      · exact ⟨fork, rest, region, .refl, haction⟩
      · exact (SummaryRound.pair haction htwin).behindFork (ih hcall)
    | case5 fork region haction twin rest htwin ih =>
      rcases List.mem_cons.mp hcall with rfl | hcall
      · exact ⟨fork, rest, region, .refl, haction⟩
      · exact (SummaryRound.lone_call haction htwin).behindFork (ih hcall)
    | case6 => cases hcall
    | case7 fork region haction rest hnot hne ih =>
      exact (SummaryRound.lone_other haction hnot hne).behindFork (ih hcall)
    | case8 inst rest hhandled hpair ih => exact (SummaryRound.call hhandled hpair).behindFork (ih hcall)
    | case9 inst rest hnot ih => exact (SummaryRound.plain hnot).behindFork (ih hcall)
  · rintro ⟨fork, rest, region, hgets, haction⟩
    induction hgets using Relation.ReflTransGen.head_induction_on with
    | refl => exact mem_reads_twin haction
    | head hpass _ ih => exact hpass.reads ih

def GetsTo (blocks : List BasicBlock) (rest : BasicBlock) : Prop :=
  ∃ before block after, blocks = before ++ block :: after ∧
    (∀ b ∈ before, ∃ summary, summarizeBlock b = .ok summary) ∧ Relation.ReflTransGen SummaryRound block rest

lemma getsTo_cons {block rest : BasicBlock} {blocks : List BasicBlock} : GetsTo (block :: blocks) rest ↔
    Relation.ReflTransGen SummaryRound block rest ∨
      (∃ summary, summarizeBlock block = .ok summary) ∧ GetsTo blocks rest := by
  constructor
  · rintro ⟨before, found, after, heq, hbefore, hgets⟩
    cases before with
    | nil =>
      obtain ⟨rfl, rfl⟩ := List.cons.inj heq
      exact .inl hgets
    | cons first before =>
      obtain ⟨rfl, rfl⟩ := List.cons.inj heq
      exact .inr ⟨hbefore block List.mem_cons_self, before, found, after, rfl,
        fun b hb => hbefore b (List.mem_cons_of_mem _ hb), hgets⟩
  · rintro (hgets | ⟨hok, before, found, after, rfl, hbefore, hgets⟩)
    · exact ⟨[], block, blocks, rfl, fun b hb => absurd hb List.not_mem_nil, hgets⟩
    · refine ⟨block :: before, found, after, rfl, fun b hb => ?_, hgets⟩
      rcases List.mem_cons.mp hb with rfl | hb
      · exact hok
      · exact hbefore b hb

lemma mem_summaryReads {blocks : List BasicBlock} {call : CallBase} : call ∈ summaryReads blocks ↔
    ∃ fork rest region, GetsTo blocks (.call fork :: .call call :: rest) ∧ callAction fork = .pair region := by
  induction blocks with
  | nil => simp [summaryReads, GetsTo]
  | cons block blocks ih =>
    cases hb : summarizeBlock block with
    | error error =>
      rw [summaryReads, hb]
      simp [mem_twinReads, BehindFork, getsTo_cons, hb]
    | ok summary =>
      rw [summaryReads, hb]
      simp [mem_twinReads, BehindFork, getsTo_cons, hb, ih, or_and_right, exists_or]

end Reads

end OpenRace
