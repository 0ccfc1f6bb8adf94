import OpenRace.PreProcessing.DuplicateOpenMPForks

/-! Which forks the pass duplicates such that summaries have their regions. -/

namespace OpenRace

open LLVM LanguageModel

def regionOf : Instruction → Option RegionKind
  | .call inst =>
    match callAction inst with
    | .pair region => some region
    | _ => none
  | _ => none

/-- The calls of a block that a summary takes for forks, with their regions. -/
def forkCalls (block : BasicBlock) : List (RegionKind × CallBase) :=
  block.filterMap fun inst =>
    match inst with
    | .call call => (regionOf inst).map fun region => (region, call)
    | _ => none

structure ForkPair where
  region : RegionKind
  twin : CallBase
  fork : CallBase

def ForkPair.IsOf (bound : ℕ) (fork : RegionKind × CallBase) (pair : ForkPair) : Prop :=
  pair.region = fork.1 ∧ ∃ handle handle' id, bound ≤ handle ∧ bound ≤ handle' ∧ bound ≤ id ∧
    pair.fork = { fork.2 with args := .alloca handle :: fork.2.args.tail } ∧
    pair.twin = { fork.2 with id, args := .alloca handle' :: fork.2.args.tail }

/-- The forks of the block are these pairs, every duplicate directly before its fork. -/
inductive PairedForks : BasicBlock → List ForkPair → Prop
  | nil : PairedForks [] []
  | other {inst block pairs} (h : regionOf inst = none) (hb : PairedForks block pairs) :
      PairedForks (inst :: block) pairs
  | pair {pair block pairs} (ht : regionOf (.call pair.twin) = some pair.region)
      (hf : regionOf (.call pair.fork) = some pair.region) (hd : pair.fork.getCalledFunction.isSome)
      (hb : PairedForks block pairs) : PairedForks (.call pair.twin :: .call pair.fork :: block) (pair :: pairs)

def IRType.ofRegion : IRType → Bool
  | .openMPFork | .openMPForkTeams | .openMPJoin | .openMPJoinTeams => true
  | _ => false

/-- The forks and joins of regions in the summary are those of the pairs: fork, fork, join and join of one pair
and then those of the next. -/
inductive PairedStatements : List IR → List ForkPair → Prop
  | nil : PairedStatements [] []
  | other {ir summary pairs} (h : ir.type.ofRegion = false) (hs : PairedStatements summary pairs) :
      PairedStatements (ir :: summary) pairs
  | pair {pair summary pairs} (hs : PairedStatements summary pairs) :
      PairedStatements (forkPair pair.region pair.twin pair.fork ++ summary) (pair :: pairs)

structure FunctionDuplicated (bound : ℕ) (blocks blocks' : List BasicBlock) (pairs : List (List ForkPair)) :
    Prop where
  paired : List.Forall₂ PairedForks blocks' pairs
  original : List.Forall₂ (fun block pairs => List.Forall₂ (ForkPair.IsOf bound) (forkCalls block) pairs) blocks pairs
  summary : ∀ summary, generateFunctionSummary blocks' = .ok summary → PairedStatements summary pairs.flatten
  summarized : ∀ error, generateFunctionSummary blocks' = .error error → error = .unhandledOpenMPCall

def forkHandles (block : BasicBlock) : List Value := (forkCalls block).filterMap fun fork => fork.2.args.head?

structure Duplicated (module module' : IRModule) : Prop where
  functions : List.Forall₂ (fun blocks blocks' => ∃ pairs,
    FunctionDuplicated (IRModule.bound module) blocks blocks' pairs) module module'
  handles : (module'.flatMap fun blocks => blocks.flatMap forkHandles).Nodup

/-- A call that is duplicated passes a handle and comes after another instruction, which is no fork; and all
forks are direct calls, which are duplicated. -/
def ForkApart (prev : Option Instruction) (inst : Instruction) : Prop :=
  ∀ call, inst = .call call →
    (isForkCall call = true → call.args ≠ [] ∧ ∃ before, prev = some before ∧ regionOf before = none) ∧
      (regionOf inst ≠ none → call.getCalledFunction ≠ none)

def ForksApart : Option Instruction → BasicBlock → Prop
  | _, [] => True
  | prev, inst :: rest => ForkApart prev inst ∧ ForksApart (some inst) rest

section Recognize

/-- The action is right for the name: it adds no fork or join of a region, other than a pair for a fork's name. -/
def CallAction.Suits (funcName : String) : CallAction → Prop
  | .push type => type.ofRegion = false
  | .pair region => region.isForkName funcName = true
  | _ => True

lemma suits_ite {funcName : String} {condition : Prop} [Decidable condition] {a b : CallAction}
    (ha : condition → a.Suits funcName) (hb : b.Suits funcName) :
    (if condition then a else b).Suits funcName := by
  split
  · exact ha ‹_›
  · exact hb

lemma recognize_suits (funcName : String) : (recognize funcName).Suits funcName := by
  rw [recognize]
  repeat' apply suits_ite
  all_goals first
    | exact fun _ => rfl
    | exact fun h => h
    | exact fun _ => trivial
    | rfl

lemma callAction_push {call : CallBase} {type : IRType} (h : callAction call = .push type) :
    type.ofRegion = false := by
  rw [callAction] at h
  split at h
  · cases h
    rfl
  · split at h
    · cases h
    · rename_i f _
      split at h
      · cases h
      · have hsuits := recognize_suits f.name
        rw [h] at hsuits
        exact hsuits

lemma callAction_pair {call : CallBase} {region : RegionKind} (h : callAction call = .pair region) :
    ∃ f, resolveTargetFunction call = some f ∧ region.isForkName f.name = true := by
  rw [callAction] at h
  split at h
  · cases h
  · split at h
    · cases h
    · rename_i f hf
      split at h
      · cases h
      · have hsuits := recognize_suits f.name
        rw [h] at hsuits
        exact ⟨f, hf, hsuits⟩

lemma regionOf_call {call : CallBase} {region : RegionKind} :
    regionOf (.call call) = some region ↔ callAction call = .pair region := by
  rw [regionOf]
  split <;> simp_all

lemma regionOf_call_congr {call call' : CallBase} (h : call.calledOperand = call'.calledOperand) :
    regionOf (.call call) = regionOf (.call call') := by
  rw [regionOf, regionOf, callAction, callAction, CallBase.isIndirectCall, CallBase.isIndirectCall,
    resolveTargetFunction, resolveTargetFunction, h]

lemma direct_fork {call : CallBase} {region : RegionKind} (h : regionOf (.call call) = some region)
    (hd : call.getCalledFunction ≠ none) : ∃ f, call.getCalledFunction = some f ∧ f.hasName = true ∧
      region.isForkName f.name = true := by
  obtain ⟨f, hf, hname⟩ := callAction_pair (regionOf_call.mp h)
  rw [CallBase.getCalledFunction] at hd ⊢
  cases hoperand : call.calledOperand with
  | function g =>
    rw [resolveTargetFunction, hoperand] at hf
    dsimp only at hf
    by_cases hg : g.hasName = true
    · rw [if_pos hg] at hf
      obtain rfl := Option.some.inj hf
      exact ⟨g, rfl, hg, hname⟩
    · rw [if_neg hg] at hf
      cases hf
  | _ =>
    rw [hoperand] at hd
    exact absurd rfl hd

lemma isForkCall_of_region {call : CallBase} {region : RegionKind} (h : regionOf (.call call) = some region)
    (hd : call.getCalledFunction ≠ none) : isForkCall call = true := by
  obtain ⟨f, hf, hg, hname⟩ := direct_fork h hd
  rw [isForkCall, hf]
  cases region with
  | parallel =>
    change OpenMPModel.isFork f.name = true at hname
    simp [hg, hname]
  | teams =>
    change OpenMPModel.isForkTeams f.name = true at hname
    simp [hg, hname]

lemma callsNamed_of_region {call : CallBase} {region : RegionKind} (h : regionOf (.call call) = some region)
    (hd : call.getCalledFunction.isSome) : callsNamed region.isForkName call = .ok true := by
  obtain ⟨f, hf, hg, hname⟩ := direct_fork h (Option.isSome_iff_ne_none.mp hd)
  rw [callsNamed, hf]
  simp [hg, hname]

end Recognize

section Summary

variable {block : BasicBlock} {pairs : List ForkPair}

lemma PairedStatements.append_other {own summary : List IR} (h : ∀ ir ∈ own, ir.type.ofRegion = false)
    (hs : PairedStatements summary pairs) : PairedStatements (own ++ summary) pairs := by
  induction own with
  | nil => exact hs
  | cons ir rest ih => exact .other (h ir List.mem_cons_self) (ih fun ir hm => h ir (List.mem_cons_of_mem _ hm))

lemma PairedStatements.append {summary summary' : List IR} {pairs' : List ForkPair}
    (h : PairedStatements summary pairs) (h' : PairedStatements summary' pairs') :
    PairedStatements (summary ++ summary') (pairs ++ pairs') := by
  induction h with
  | nil => exact h'
  | other hir _ ih => exact .other hir ih
  | pair _ ih =>
    rw [List.append_assoc]
    exact .pair ih

def SummarizedAs (block : BasicBlock) (pairs : List ForkPair) : Prop :=
  match summarizeBlock block with
  | .ok summary => PairedStatements summary pairs
  | .error error => error = .unhandledOpenMPCall

lemma SummarizedAs.bind {block rest : BasicBlock} {own : List IR} {pairs pairs' : List ForkPair}
    (h : SummarizedAs rest pairs) (heq : summarizeBlock block = (do return own ++ (← summarizeBlock rest)))
    (hown : ∀ summary, PairedStatements summary pairs → PairedStatements (own ++ summary) pairs') :
    SummarizedAs block pairs' := by
  rw [SummarizedAs] at h ⊢
  rw [heq]
  cases hrest : summarizeBlock rest with
  | error error =>
    rw [hrest] at h
    exact h
  | ok summary =>
    rw [hrest] at h
    exact hown summary h

lemma summarizeAccess_other {type : IRType} (h : type.ofRegion = false) (inst : Instruction) (pointer : Value)
    (isAtomic isVolatile : Bool) : ∀ ir ∈ summarizeAccess type inst pointer isAtomic isVolatile,
      ir.type.ofRegion = false := by
  intro ir hm
  rw [summarizeAccess] at hm
  split at hm
  · exact absurd hm List.not_mem_nil
  · rw [List.mem_singleton.mp hm]
    exact h

lemma PairedForks.summarized (h : PairedForks block pairs) : SummarizedAs block pairs := by
  induction h with
  | nil => exact .nil
  | @other inst block pairs hinst _ ih =>
    cases inst with
    | alloca id => exact ih
    | other id => exact ih
    | load id pointer isAtomic isVolatile =>
      refine ih.bind rfl fun summary hs => hs.append_other ?_
      exact summarizeAccess_other rfl _ _ _ _
    | store id pointer isAtomic isVolatile =>
      refine ih.bind rfl fun summary hs => hs.append_other ?_
      exact summarizeAccess_other rfl _ _ _ _
    | call call =>
      cases haction : callAction call with
      | skip =>
        rw [SummarizedAs, summarizeBlock, haction]
        exact ih
      | push type =>
        have heq : summarizeBlock (.call call :: block) =
            (do return [⟨type, .call call, .other⟩] ++ (← summarizeBlock block)) := by
          rw [summarizeBlock, haction]
          rfl
        exact ih.bind heq fun summary hs => .other (callAction_push haction) hs
      | pair region =>
        rw [regionOf_call.mpr haction] at hinst
        cases hinst
      | unhandled =>
        rw [SummarizedAs, summarizeBlock, haction]
  | @pair pair block pairs ht hf hd _ ih =>
    refine ih.bind ?_ fun summary hs => .pair hs
    rw [summarizeBlock, regionOf_call.mp ht]
    change (do if ← callsNamed pair.region.isForkName pair.fork then _ else _) = _
    rw [callsNamed_of_region hf hd]
    rfl

lemma summary_paired {blocks : List BasicBlock} {pairs : List (List ForkPair)}
    (h : List.Forall₂ PairedForks blocks pairs) :
    match generateFunctionSummary blocks with
    | .ok summary => PairedStatements summary pairs.flatten
    | .error error => error = .unhandledOpenMPCall := by
  induction h with
  | nil => exact .nil
  | @cons block ps blocks pairs hblock _ ih =>
    have hfirst := hblock.summarized
    rw [SummarizedAs] at hfirst
    rw [generateFunctionSummary] at ih ⊢
    rw [List.mapM_cons]
    cases hb : summarizeBlock block with
    | error error =>
      rw [hb] at hfirst
      exact hfirst
    | ok summary =>
      rw [hb] at hfirst
      cases hrest : blocks.mapM summarizeBlock with
      | error error =>
        rw [hrest] at ih
        exact ih
      | ok summaries =>
        rw [hrest] at ih
        exact hfirst.append ih

end Summary

end OpenRace
