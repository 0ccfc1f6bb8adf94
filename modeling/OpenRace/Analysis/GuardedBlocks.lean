import OpenRace.LLVM.ControlFlow
import OpenRace.Library.Dominance

/-! Comparisons of a call's result with a constant, and the blocks that a branch on them guards. -/

namespace OpenRace

open LLVM Library

inductive GuardError
  | outOfFuel
  /-- `back` of an empty vector. -/
  | emptyWorklist
  | notABranch
  | unknownBlock
deriving DecidableEq

def LLVM.Value.constant : Value → Option ℕ
  | .constantInt value => some value
  | _ => none

/-- The constant that a comparison has on its right, or else on its left. -/
def comparedConst (lhs rhs : Value) : Option ℕ :=
  match rhs.constant with
  | some value => some value
  | none => lhs.constant

mutual

def constCmpEq : CallUser → List (List ℕ × ℕ)
  | .load users => getConstCmpEqInsts users
  | .cmp isEq lhs rhs branches =>
    if isEq then ((comparedConst lhs rhs).map fun value => (branches, value)).toList else []
  | .other => []

/-- The worklist is a stack: the last user comes first, and the users of a load directly after it. -/
def getConstCmpEqInsts : List CallUser → List (List ℕ × ℕ)
  | [] => []
  | user :: rest => getConstCmpEqInsts rest ++ constCmpEq user

end

/-- The locals of `getGuardedBlocks`; the back of the worklist comes first. -/
structure GuardSearch where
  worklist : List ℕ
  guardedBlocks : BlockSet
  visited : BlockSet

def GuardSearch.step (module : CFGModule) (search : GuardSearch) (currentBlock : ℕ) (worklist : List ℕ) :
    GuardSearch :=
  if (module.pred currentBlock).any (· ∉ search.guardedBlocks) then { search with worklist }
  else
    let visited := search.visited.insert currentBlock
    { worklist := ((module.succ currentBlock).filter (· ∉ visited)).reverse ++ worklist
      guardedBlocks := search.guardedBlocks.insert currentBlock
      visited }

/-- A `do while` loop: the worklist is popped before it is asked whether it is empty. -/
def guardBlocks (module : CFGModule) : ℕ → GuardSearch → Except GuardError BlockSet
  | 0, _ => .error .outOfFuel
  | fuel + 1, search =>
    match search.worklist with
    | [] => .error .emptyWorklist
    | currentBlock :: worklist =>
      let search := search.step module currentBlock worklist
      if search.worklist.isEmpty then .ok search.guardedBlocks else guardBlocks module fuel search

def GuardSearch.initial (module : CFGModule) (targetBlock : ℕ) : GuardSearch where
  worklist := (module.succ targetBlock).reverse
  guardedBlocks := OrderedSet.empty.insert targetBlock
  visited := OrderedSet.empty.insert targetBlock

/-- `branchInst` is the branch that ends the block; `branch` chooses its true or its false block. -/
def getGuardedBlocks (module : CFGModule) (fuel : ℕ) (branchInst : ℕ) (branch : Bool) : Except GuardError BlockSet :=
  match (module.block? branchInst).map CFGBlock.terminator with
  | some (.condBr _ trueBlock falseBlock) =>
    let targetBlock := if branch then trueBlock else falseBlock
    guardBlocks module fuel (.initial module targetBlock)
  | _ => .error .notABranch

section Search

variable {module : CFGModule} {target currentBlock : ℕ} {search : GuardSearch} {worklist : List ℕ}

lemma mem_insert_iff {set : BlockSet} {a b : ℕ} : b ∈ set.insert a ↔ b = a ∨ b ∈ set := by
  refine ⟨OrderedSet.of_mem_insert, ?_⟩
  rintro (rfl | hm)
  · obtain ⟨c, hm, hlt, hgt⟩ := OrderedSet.exists_mem_insert set b
    obtain rfl : c = b := by omega
    exact hm
  · exact OrderedSet.mem_insert_of_mem hm

structure Searching (module : CFGModule) (target : ℕ) (search : GuardSearch) : Prop where
  same : ∀ b, b ∈ search.visited ↔ b ∈ search.guardedBlocks
  root : target ∈ search.guardedBlocks
  sound : ∀ b ∈ search.guardedBlocks, Dominance.Enclosed module.Edge target b
  entered : ∀ b ∈ search.worklist, ∃ a, module.Edge a b
  closed : ∀ a ∈ search.guardedBlocks, ∀ b, module.Edge a b → b ∈ search.guardedBlocks ∨ b ∈ search.worklist ∨
    ∃ p, module.Edge p b ∧ p ∉ search.guardedBlocks

lemma Searching.initial (module : CFGModule) (target : ℕ) : Searching module target (.initial module target) := by
  have hmem : ∀ {b : ℕ}, b ∈ (OrderedSet.empty.insert target : BlockSet) → b = target := by
    intro b hb
    exact (mem_insert_iff.mp hb).resolve_right (OrderedSet.not_mem_empty b)
  refine ⟨fun b => Iff.rfl, mem_insert_iff.mpr (Or.inl rfl), ?_, ?_, ?_⟩
  · intro b hb
    rw [hmem hb]
    exact .root
  · intro b hb
    exact ⟨target, List.mem_reverse.mp hb⟩
  · intro a ha b he
    rw [hmem ha] at he
    exact Or.inr (Or.inl (List.mem_reverse.mpr he))

lemma step_dropped (h : ∃ p, module.Edge p currentBlock ∧ p ∉ search.guardedBlocks) :
    search.step module currentBlock worklist = { search with worklist } := by
  obtain ⟨p, he, hp⟩ := h
  rw [GuardSearch.step, if_pos]
  rw [List.any_eq_true]
  exact ⟨p, (module.mem_pred_iff).mpr he, by simpa using hp⟩

lemma step_guarded (h : ∀ p, module.Edge p currentBlock → p ∈ search.guardedBlocks) :
    search.step module currentBlock worklist =
      { worklist := ((module.succ currentBlock).filter (· ∉ search.visited.insert currentBlock)).reverse ++ worklist
        guardedBlocks := search.guardedBlocks.insert currentBlock
        visited := search.visited.insert currentBlock } := by
  rw [GuardSearch.step, if_neg]
  rw [List.any_eq_true]
  rintro ⟨p, hp, hn⟩
  exact absurd (h p ((module.mem_pred_iff).mp hp)) (by simpa using hn)

lemma Searching.step (h : Searching module target search) (hw : search.worklist = currentBlock :: worklist) :
    Searching module target (search.step module currentBlock worklist) := by
  have hentered := h.entered
  have hclosed := h.closed
  rw [hw] at hentered hclosed
  have hrest : ∀ b ∈ worklist, ∃ a, module.Edge a b := fun b hb => hentered b (List.mem_cons_of_mem _ hb)
  by_cases hpred : ∃ p, module.Edge p currentBlock ∧ p ∉ search.guardedBlocks
  · rw [step_dropped hpred]
    refine ⟨h.same, h.root, h.sound, hrest, fun a ha b he => ?_⟩
    rcases hclosed a ha b he with hb | hb | hb
    · exact Or.inl hb
    · rcases List.mem_cons.mp hb with rfl | hb
      · exact Or.inr (Or.inr hpred)
      · exact Or.inr (Or.inl hb)
    · exact Or.inr (Or.inr hb)
  · have hguarded : ∀ p, module.Edge p currentBlock → p ∈ search.guardedBlocks := by
      intro p he
      by_contra hp
      exact hpred ⟨p, he, hp⟩
    rw [step_guarded hguarded]
    refine ⟨fun b => ?_, mem_insert_iff.mpr (Or.inr h.root), fun b hb => ?_, fun b hb => ?_, fun a ha b he => ?_⟩
    · rw [mem_insert_iff, mem_insert_iff, h.same]
    · rcases mem_insert_iff.mp hb with rfl | hb
      · exact .inside (hentered b List.mem_cons_self) fun p he => h.sound p (hguarded p he)
      · exact h.sound b hb
    · rcases List.mem_append.mp hb with hb | hb
      · exact ⟨currentBlock, (List.mem_filter.mp (List.mem_reverse.mp hb)).1⟩
      · exact hrest b hb
    · by_cases hb : b ∈ search.guardedBlocks.insert currentBlock
      · exact Or.inl hb
      · refine Or.inr ?_
        have hvisited : b ∉ search.visited.insert currentBlock := by
          rw [mem_insert_iff, h.same, ← mem_insert_iff]
          exact hb
        rcases mem_insert_iff.mp ha with rfl | ha
        · refine Or.inl (List.mem_append_left _ (List.mem_reverse.mpr (List.mem_filter.mpr ⟨he, ?_⟩)))
          simpa using hvisited
        · rw [mem_insert_iff, not_or] at hb
          rcases hclosed a ha b he with hb' | hb' | ⟨p, hp, hn⟩
          · exact absurd hb' hb.2
          · exact Or.inl (List.mem_append_right _ ((List.mem_cons.mp hb').resolve_left hb.1))
          · by_cases heq : p = currentBlock
            · refine Or.inl (List.mem_append_left _ (List.mem_reverse.mpr (List.mem_filter.mpr ⟨heq ▸ hp, ?_⟩)))
              simpa using hvisited
            · refine Or.inr ⟨p, hp, ?_⟩
              rw [mem_insert_iff, not_or]
              exact ⟨heq, hn⟩

lemma Searching.guarded_iff (h : Searching module target search) (hw : search.worklist = []) {b : ℕ} :
    b ∈ search.guardedBlocks ↔ Dominance.Enclosed module.Edge target b := by
  refine ⟨h.sound b, fun hb => ?_⟩
  induction hb with
  | root => exact h.root
  | @inside b he _ ih =>
    obtain ⟨a, he⟩ := he
    rcases h.closed a (ih a he) b he with hb | hb | ⟨p, hp, hn⟩
    · exact hb
    · rw [hw] at hb
      exact absurd hb List.not_mem_nil
    · exact absurd (ih p hp) hn

lemma guardBlocks_iff {fuel : ℕ} {blocks : BlockSet} (h : Searching module target search)
    (hok : guardBlocks module fuel search = .ok blocks) {b : ℕ} :
    b ∈ blocks ↔ Dominance.Enclosed module.Edge target b := by
  induction fuel generalizing search with
  | zero => cases hok
  | succ fuel ih =>
    rw [guardBlocks] at hok
    cases hw : search.worklist with
    | nil =>
      rw [hw] at hok
      cases hok
    | cons currentBlock worklist =>
      rw [hw] at hok
      dsimp only at hok
      have hstep := h.step hw
      by_cases hempty : (search.step module currentBlock worklist).worklist.isEmpty = true
      · rw [if_pos hempty] at hok
        cases hok
        exact hstep.guarded_iff (List.isEmpty_iff.mp hempty)
      · rw [if_neg hempty] at hok
        exact ih hstep hok

/-- Unvisited blocks, visited entries of the worklist and unvisited ones; each step makes one of them less and the
ones before no more. -/
def GuardSearch.unvisited (module : CFGModule) (search : GuardSearch) : ℕ :=
  ((module.blocks.map CFGBlock.id).filter (· ∉ search.visited)).length

def GuardSearch.met (search : GuardSearch) : ℕ := (search.worklist.filter (· ∈ search.visited)).length

def GuardSearch.fresh (search : GuardSearch) : ℕ := (search.worklist.filter (· ∉ search.visited)).length

lemma fresh_successors (visited : BlockSet) (succs : List ℕ) :
    ((succs.filter (· ∉ visited)).reverse).filter (· ∈ visited) = [] := by
  rw [List.filter_eq_nil_iff]
  intro b hb
  simpa using (List.mem_filter.mp (List.mem_reverse.mp hb)).2

lemma step_decreases (h : Searching module target search) (hw : search.worklist = currentBlock :: worklist) :
    Prod.Lex (· < ·) (Prod.Lex (· < ·) (· < ·))
      ((search.step module currentBlock worklist).unvisited module,
        (search.step module currentBlock worklist).met, (search.step module currentBlock worklist).fresh)
      (search.unvisited module, search.met, search.fresh) := by
  by_cases hpred : ∃ p, module.Edge p currentBlock ∧ p ∉ search.guardedBlocks
  · rw [step_dropped hpred]
    refine .right _ ?_
    rw [GuardSearch.met, GuardSearch.met, GuardSearch.fresh, GuardSearch.fresh, hw]
    by_cases hv : currentBlock ∈ search.visited
    · rw [List.filter_cons_of_pos (by simpa using hv)]
      exact .left _ _ (Nat.lt_succ_self _)
    · rw [List.filter_cons_of_neg (by simpa using hv), List.filter_cons_of_pos (by simpa using hv)]
      exact .right _ (Nat.lt_succ_self _)
  · have hguarded : ∀ p, module.Edge p currentBlock → p ∈ search.guardedBlocks := by
      intro p he
      by_contra hp
      exact hpred ⟨p, he, hp⟩
    rw [step_guarded hguarded]
    by_cases hv : currentBlock ∈ search.visited
    · have hsame : ∀ b, b ∈ search.visited.insert currentBlock ↔ b ∈ search.visited := by
        intro b
        rw [mem_insert_iff]
        exact ⟨fun hb => hb.elim (· ▸ hv) id, Or.inr⟩
      have hunvisited : GuardSearch.unvisited module
          { worklist := ((module.succ currentBlock).filter (· ∉ search.visited.insert currentBlock)).reverse ++ worklist
            guardedBlocks := search.guardedBlocks.insert currentBlock
            visited := search.visited.insert currentBlock } = search.unvisited module := by
        rw [GuardSearch.unvisited, GuardSearch.unvisited]
        refine congrArg List.length (List.filter_congr fun b _ => ?_)
        simp [hsame]
      rw [hunvisited]
      refine .right _ (.left _ _ ?_)
      rw [GuardSearch.met, GuardSearch.met, hw, List.filter_append, fresh_successors, List.nil_append,
        List.filter_cons_of_pos (by simpa using hv), List.length_cons]
      refine Nat.lt_succ_of_le (le_of_eq ?_)
      refine congrArg List.length (List.filter_congr fun b _ => ?_)
      simp [hsame]
    · refine .left _ _ ?_
      obtain ⟨a, he⟩ := h.entered currentBlock (hw ▸ List.mem_cons_self)
      rw [GuardSearch.unvisited, GuardSearch.unvisited]
      have hsub : (module.blocks.map CFGBlock.id).filter (· ∉ search.visited.insert currentBlock) =
          ((module.blocks.map CFGBlock.id).filter (· ∉ search.visited)).filter (· ≠ currentBlock) := by
        rw [List.filter_filter]
        refine List.filter_congr fun b _ => ?_
        simp [mem_insert_iff]
      rw [hsub]
      refine List.length_filter_lt_length_iff_exists.mpr ⟨currentBlock, ?_, by simp⟩
      exact List.mem_filter.mpr ⟨he.mem, by simpa using hv⟩

lemma guardBlocks_ends (h : Searching module target search) (hne : search.worklist ≠ []) :
    ∃ fuel blocks, guardBlocks module fuel search = .ok blocks := by
  have hwf : WellFounded (Prod.Lex (· < ·) (Prod.Lex (· < ·) (· < ·)) : ℕ × ℕ × ℕ → ℕ × ℕ × ℕ → Prop) :=
    WellFounded.prod_lex wellFounded_lt (WellFounded.prod_lex wellFounded_lt wellFounded_lt)
  induction hn : (search.unvisited module, search.met, search.fresh) using hwf.induction generalizing search with
  | _ n ih =>
    cases hw : search.worklist with
    | nil => exact absurd hw hne
    | cons currentBlock worklist =>
      have hlt := step_decreases h hw
      rw [hn] at hlt
      by_cases hempty : (search.step module currentBlock worklist).worklist.isEmpty = true
      · refine ⟨1, (search.step module currentBlock worklist).guardedBlocks, ?_⟩
        rw [guardBlocks, hw]
        exact if_pos hempty
      · obtain ⟨fuel, blocks, hok⟩ := ih _ hlt (h.step hw) (fun hnil => hempty (List.isEmpty_iff.mpr hnil)) rfl
        refine ⟨fuel + 1, blocks, ?_⟩
        rw [guardBlocks, hw]
        exact (if_neg hempty).trans hok

lemma guardBlocks_mono {fuel more : ℕ} {blocks : BlockSet} (hle : fuel ≤ more)
    (hok : guardBlocks module fuel search = .ok blocks) : guardBlocks module more search = .ok blocks := by
  induction fuel generalizing search more with
  | zero => cases hok
  | succ fuel ih =>
    obtain ⟨more, rfl⟩ := Nat.exists_eq_add_of_le' (Nat.one_le_of_lt hle)
    rw [guardBlocks] at hok ⊢
    cases hw : search.worklist with
    | nil =>
      rw [hw] at hok
      cases hok
    | cons currentBlock worklist =>
      rw [hw] at hok
      dsimp only at hok ⊢
      by_cases hempty : (search.step module currentBlock worklist).worklist.isEmpty = true
      · rw [if_pos hempty] at hok ⊢
        exact hok
      · rw [if_neg hempty] at hok ⊢
        exact ih (by omega) hok

end Search

structure LLVM.CFGModule.BranchSide (module : CFGModule) where
  branchInst : ℕ
  block : CFGBlock
  id : ℕ
  trueBlock : ℕ
  falseBlock : ℕ
  branch : Bool
  found : module.block? branchInst = some block
  condBr : block.terminator = .condBr id trueBlock falseBlock

namespace LLVM.CFGModule.BranchSide

variable {module : CFGModule} (side : module.BranchSide)

def targetBlock : ℕ := if side.branch then side.trueBlock else side.falseBlock

def otherBlock : ℕ := if side.branch then side.falseBlock else side.trueBlock

/-- The edges without the chosen one; both edges of a branch may lead to one block. -/
def Detour (a b : ℕ) : Prop := module.Edge a b ∧ (a = side.branchInst → b = side.otherBlock)

instance (a b : ℕ) : Decidable (side.Detour a b) := inferInstanceAs (Decidable (_ ∧ (_ → _)))

variable {side}

lemma mem_getGuardedBlocks_iff {fuel : ℕ} {blocks : BlockSet}
    (hok : getGuardedBlocks module fuel side.branchInst side.branch = .ok blocks) {b : ℕ} :
    b ∈ blocks ↔ Dominance.Enclosed module.Edge side.targetBlock b := by
  rw [getGuardedBlocks, side.found, Option.map_some, side.condBr] at hok
  exact guardBlocks_iff (.initial module side.targetBlock) hok

lemma getGuardedBlocks_ends (hsucc : module.succ side.targetBlock ≠ []) :
    ∃ fuel blocks, ∀ more ≥ fuel, getGuardedBlocks module more side.branchInst side.branch = .ok blocks := by
  have hne : (GuardSearch.initial module side.targetBlock).worklist ≠ [] := by
    rw [GuardSearch.initial]
    simpa using hsucc
  obtain ⟨fuel, blocks, hok⟩ := guardBlocks_ends (.initial module side.targetBlock) hne
  refine ⟨fuel, blocks, fun more hle => ?_⟩
  rw [getGuardedBlocks, side.found, Option.map_some, side.condBr]
  exact guardBlocks_mono hle hok

end LLVM.CFGModule.BranchSide

end OpenRace
