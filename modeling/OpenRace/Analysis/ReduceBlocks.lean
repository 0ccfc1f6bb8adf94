import OpenRace.Analysis.GuardedBlocks
import OpenRace.Library.Failure

/-! The blocks of the code that clang makes for a reduction: a switch, and what it leads to before its default. -/

namespace OpenRace

open LLVM LLVM.CFGModule Library

inductive ReduceError where
  | outOfFuel
  | notASwitch
  | noSuccessors
  | alreadyComputed
deriving DecidableEq, Repr

structure Switch where
  successors : List ℕ
  defaultDest : ℕ
deriving DecidableEq

/-- Control flow with the default destinations of those terminators that are switches. -/
structure SwitchModule where
  module : CFGModule
  defaultDest : Instruction → Option ℕ

def LLVM.CFGModule.getParent (module : CFGModule) (inst : Instruction) : Option CFGBlock :=
  module.blocks.find? (inst ∈ ·.instructions)

def LLVM.CFGBlock.getNextNode (block : CFGBlock) (inst : Instruction) : Option Instruction :=
  (block.instructions.dropWhile (· ≠ inst)).tail.head?

def SwitchModule.nextSwitch (code : SwitchModule) (reduce : Instruction) : Option Switch :=
  match code.module.getParent reduce with
  | none => none
  | some block =>
    if block.getNextNode reduce = some block.terminator.inst then
      (code.defaultDest block.terminator.inst).map (Switch.mk block.terminator.successors)
    else none

/-- The locals of `computeGuardedBlocks`; the back of the worklist comes first. -/
structure ReduceSearch where
  worklist : List ℕ
  visited : BlockSet
  blocks : List ℕ

def ReduceSearch.step (module : CFGModule) (exitBlock : ℕ) (search : ReduceSearch) (block : ℕ) (worklist : List ℕ) :
    Except ReduceError ReduceSearch :=
  let visited := search.visited.insert block
  if block = exitBlock then .ok { search with worklist, visited }
  else if module.succ block = [] then .error .noSuccessors
  else .ok {
    worklist := ((module.succ block).filter (· ∉ visited)).reverse ++ worklist
    visited
    blocks := search.blocks ++ [block] }

def searchBlocks (module : CFGModule) (exitBlock : ℕ) : ℕ → ReduceSearch → Except ReduceError (List ℕ)
  | 0, _ => .error .outOfFuel
  | fuel + 1, search =>
    match search.worklist with
    | [] => .ok search.blocks
    | block :: worklist => do searchBlocks module exitBlock fuel (← search.step module exitBlock block worklist)

def ReduceSearch.initial (switchInst : Switch) : ReduceSearch := ⟨switchInst.successors.reverse, .empty, []⟩

def SwitchModule.guardedBlocks (code : SwitchModule) (fuel : ℕ) (reduce : Instruction) : Except ReduceError (List ℕ) :=
  match code.nextSwitch reduce with
  | none => .error .notASwitch
  | some switchInst => searchBlocks code.module switchInst.defaultDest fuel (.initial switchInst)

/-- Entered from the switch or from such a block, and not the default destination. -/
inductive InReduce (module : CFGModule) (switchInst : Switch) : ℕ → Prop
  | entry {b : ℕ} (hs : b ∈ switchInst.successors) (hne : b ≠ switchInst.defaultDest) : InReduce module switchInst b
  | next {a b : ℕ} (ha : InReduce module switchInst a) (he : module.Edge a b) (hne : b ≠ switchInst.defaultDest) :
      InReduce module switchInst b

/-- No block that is reached without the default destination is an exit of the function. A switch that is post-dominated
by its default destination has none. -/
def Switch.HasNoExit (module : CFGModule) (switchInst : Switch) : Prop :=
  ∀ b, InReduce module switchInst b → module.succ b ≠ []

section Search

variable {module : CFGModule} {switchInst : Switch} {search : ReduceSearch} {block fuel : ℕ} {worklist : List ℕ}

structure ReduceSearch.Kept (module : CFGModule) (switchInst : Switch) (search : ReduceSearch) : Prop where
  same : ∀ b, b ≠ switchInst.defaultDest → (b ∈ search.visited ↔ b ∈ search.blocks)
  sound : ∀ b ∈ search.blocks, InReduce module switchInst b
  entered : ∀ b ∈ search.worklist, b ∈ switchInst.successors ∨ ∃ a, InReduce module switchInst a ∧ module.Edge a b
  started : ∀ b ∈ switchInst.successors, b ∈ search.visited ∨ b ∈ search.worklist
  closed : ∀ a ∈ search.blocks, ∀ b, module.Edge a b → b ∈ search.visited ∨ b ∈ search.worklist

/-- Unvisited blocks, and visited entries of the worklist; each step makes one of them less and the first no more. -/
def ReduceSearch.unvisited (module : CFGModule) (switchInst : Switch) (search : ReduceSearch) : ℕ :=
  ((switchInst.successors ++ module.blocks.map CFGBlock.id).filter (· ∉ search.visited)).length

def ReduceSearch.met (search : ReduceSearch) : ℕ := (search.worklist.filter (· ∈ search.visited)).length

lemma kept_initial : (ReduceSearch.initial switchInst).Kept module switchInst := by
  refine ⟨fun b _ => ?_, by simp [ReduceSearch.initial], fun b hb => ?_, fun b hb => ?_, by simp [ReduceSearch.initial]⟩
  · exact iff_of_false (OrderedSet.not_mem_empty b) List.not_mem_nil
  · exact Or.inl (List.mem_reverse.mp hb)
  · exact Or.inr (List.mem_reverse.mpr hb)

lemma ReduceSearch.Kept.inReduce (h : search.Kept module switchInst) (hw : search.worklist = block :: worklist)
    (hne : block ≠ switchInst.defaultDest) : InReduce module switchInst block := by
  rcases h.entered block (hw ▸ List.mem_cons_self) with hs | ⟨a, ha, he⟩
  · exact .entry hs hne
  · exact .next ha he hne

lemma ReduceSearch.Kept.exit (h : search.Kept module switchInst) (hw : search.worklist = block :: worklist)
    (heq : block = switchInst.defaultDest) :
    ReduceSearch.Kept module switchInst { search with worklist, visited := search.visited.insert block } := by
  have hmoved : ∀ b, b ∈ search.visited ∨ b ∈ search.worklist → b ∈ search.visited.insert block ∨ b ∈ worklist := by
    intro b hb
    rw [hw, List.mem_cons] at hb
    rw [mem_insert_iff]
    tauto
  refine ⟨fun b hne => ?_, h.sound, fun b hb => h.entered b (hw ▸ List.mem_cons_of_mem _ hb),
    fun b hs => hmoved b (h.started b hs), fun a ha b he => hmoved b (h.closed a ha b he)⟩
  rw [← h.same b hne, mem_insert_iff]
  exact or_iff_right (heq ▸ hne)

lemma ReduceSearch.Kept.visit (h : search.Kept module switchInst) (hw : search.worklist = block :: worklist)
    (hne : block ≠ switchInst.defaultDest) : ReduceSearch.Kept module switchInst {
      worklist := ((module.succ block).filter (· ∉ search.visited.insert block)).reverse ++ worklist
      visited := search.visited.insert block
      blocks := search.blocks ++ [block] } := by
  have hmoved : ∀ b, b ∈ search.visited ∨ b ∈ search.worklist → b ∈ search.visited.insert block ∨
      b ∈ ((module.succ block).filter (· ∉ search.visited.insert block)).reverse ++ worklist := by
    intro b hb
    rw [hw, List.mem_cons] at hb
    rw [mem_insert_iff, List.mem_append]
    tauto
  refine ⟨fun b hb => ?_, fun b hb => ?_, fun b hb => ?_, fun b hs => hmoved b (h.started b hs), fun a ha b he => ?_⟩
  · rw [mem_insert_iff, List.mem_append, List.mem_singleton, h.same b hb, or_comm]
  · rcases List.mem_append.mp hb with hb | hb
    · exact h.sound b hb
    · rw [List.mem_singleton.mp hb]
      exact h.inReduce hw hne
  · rcases List.mem_append.mp hb with hb | hb
    · exact Or.inr ⟨block, h.inReduce hw hne, (List.mem_filter.mp (List.mem_reverse.mp hb)).1⟩
    · exact h.entered b (hw ▸ List.mem_cons_of_mem _ hb)
  · rcases List.mem_append.mp ha with ha | ha
    · exact hmoved b (h.closed a ha b he)
    · rw [List.mem_singleton.mp ha] at he
      by_cases hb : b ∈ search.visited.insert block
      · exact Or.inl hb
      · refine Or.inr (List.mem_append_left _ (List.mem_reverse.mpr (List.mem_filter.mpr ⟨he, ?_⟩)))
        simpa using hb

lemma ReduceSearch.Kept.mem_nodes (h : search.Kept module switchInst) (hw : search.worklist = block :: worklist) :
    block ∈ switchInst.successors ++ module.blocks.map CFGBlock.id := by
  rcases h.entered block (hw ▸ List.mem_cons_self) with hs | ⟨a, -, he⟩
  · exact List.mem_append_left _ hs
  · exact List.mem_append_right _ he.mem

lemma decreases_of_pushed (h : search.Kept module switchInst) (hw : search.worklist = block :: worklist)
    {pushed blocks : List ℕ} (hpushed : ∀ b ∈ pushed, b ∉ search.visited.insert block) :
    Prod.Lex (· < ·) (· < ·)
      (ReduceSearch.unvisited module switchInst ⟨pushed ++ worklist, search.visited.insert block, blocks⟩,
        ReduceSearch.met ⟨pushed ++ worklist, search.visited.insert block, blocks⟩)
      (search.unvisited module switchInst, search.met) := by
  by_cases hv : block ∈ search.visited
  · have hsame : ∀ b, b ∈ search.visited.insert block ↔ b ∈ search.visited := by
      intro b
      rw [mem_insert_iff]
      exact ⟨fun hb => hb.elim (· ▸ hv) id, Or.inr⟩
    have hunvisited :
        ReduceSearch.unvisited module switchInst ⟨pushed ++ worklist, search.visited.insert block, blocks⟩ =
        search.unvisited module switchInst := by
      rw [ReduceSearch.unvisited, ReduceSearch.unvisited]
      exact congrArg List.length (List.filter_congr fun b _ => by simp [hsame])
    have hnone : pushed.filter (· ∈ search.visited.insert block) = [] := by
      rw [List.filter_eq_nil_iff]
      intro b hb
      simpa using hpushed b hb
    have hrest : worklist.filter (· ∈ search.visited.insert block) = worklist.filter (· ∈ search.visited) :=
      List.filter_congr fun b _ => by simp [hsame]
    rw [hunvisited]
    apply Prod.Lex.right
    rw [ReduceSearch.met, ReduceSearch.met, hw, List.filter_append, hnone, List.nil_append, hrest,
      List.filter_cons_of_pos (by simpa using hv), List.length_cons]
    exact Nat.lt_succ_self _
  · apply Prod.Lex.left
    rw [ReduceSearch.unvisited, ReduceSearch.unvisited]
    have hsub : (switchInst.successors ++ module.blocks.map CFGBlock.id).filter (· ∉ search.visited.insert block) =
        ((switchInst.successors ++ module.blocks.map CFGBlock.id).filter (· ∉ search.visited)).filter (· ≠ block) := by
      rw [List.filter_filter]
      exact List.filter_congr fun b _ => by simp [mem_insert_iff]
    rw [hsub]
    exact List.length_filter_lt_length_iff_exists.mpr
      ⟨block, List.mem_filter.mpr ⟨h.mem_nodes hw, by simpa using hv⟩, by simp⟩

lemma ReduceSearch.Kept.step (h : search.Kept module switchInst) (hexit : switchInst.HasNoExit module)
    (hw : search.worklist = block :: worklist) :
    ∃ next, search.step module switchInst.defaultDest block worklist = .ok next ∧ next.Kept module switchInst ∧
      Prod.Lex (· < ·) (· < ·) (next.unvisited module switchInst, next.met)
        (search.unvisited module switchInst, search.met) := by
  by_cases heq : block = switchInst.defaultDest
  · have hpushed : ∀ b ∈ ([] : List ℕ), b ∉ search.visited.insert block := by simp
    exact ⟨_, if_pos heq, h.exit hw heq, decreases_of_pushed h hw hpushed⟩
  · have hsucc := hexit block (h.inReduce hw heq)
    refine ⟨_, (if_neg heq).trans (if_neg hsucc), h.visit hw heq, decreases_of_pushed h hw fun b hb => ?_⟩
    simpa using (List.mem_filter.mp (List.mem_reverse.mp hb)).2

lemma ReduceSearch.Kept.mem_iff (h : search.Kept module switchInst) (hw : search.worklist = []) (b : ℕ) :
    b ∈ search.blocks ↔ InReduce module switchInst b := by
  refine ⟨h.sound b, fun hb => ?_⟩
  induction hb with
  | @entry b hs hne =>
    have hvisited := h.started b hs
    rw [hw, or_iff_left List.not_mem_nil] at hvisited
    exact (h.same b hne).mp hvisited
  | @next a b _ he hne ih =>
    have hvisited := h.closed a ih b he
    rw [hw, or_iff_left List.not_mem_nil] at hvisited
    exact (h.same b hne).mp hvisited

lemma searchBlocks_ends (h : search.Kept module switchInst) (hexit : switchInst.HasNoExit module) :
    ∃ fuel blocks, searchBlocks module switchInst.defaultDest fuel search = .ok blocks ∧
      ∀ b, b ∈ blocks ↔ InReduce module switchInst b := by
  have hwf : WellFounded (Prod.Lex (· < ·) (· < ·) : ℕ × ℕ → ℕ × ℕ → Prop) :=
    WellFounded.prod_lex wellFounded_lt wellFounded_lt
  induction hn : (search.unvisited module switchInst, search.met) using hwf.induction generalizing search with
  | _ n ih =>
    cases hw : search.worklist with
    | nil =>
      refine ⟨1, search.blocks, ?_, h.mem_iff hw⟩
      rw [searchBlocks, hw]
    | cons block worklist =>
      obtain ⟨next, hstep, hnext, hlt⟩ := h.step hexit hw
      rw [hn] at hlt
      obtain ⟨fuel, blocks, hok, hmem⟩ := ih _ hlt hnext rfl
      refine ⟨fuel + 1, blocks, ?_, hmem⟩
      rw [searchBlocks, hw]
      dsimp only
      rw [hstep]
      exact hok

lemma searchBlocks_mono {exitBlock more : ℕ} {blocks : List ℕ} (hle : fuel ≤ more)
    (hok : searchBlocks module exitBlock fuel search = .ok blocks) :
    searchBlocks module exitBlock more search = .ok blocks := by
  induction fuel generalizing search more with
  | zero => cases hok
  | succ fuel ih =>
    obtain ⟨more, rfl⟩ := Nat.exists_eq_add_of_le' (Nat.one_le_of_lt hle)
    rw [searchBlocks] at hok ⊢
    cases hw : search.worklist with
    | nil =>
      rw [hw] at hok
      exact hok
    | cons block worklist =>
      rw [hw] at hok
      dsimp only at hok ⊢
      obtain ⟨next, hstep, hrest⟩ := exists_of_bind hok
      rw [hstep]
      exact ih (Nat.le_of_add_le_add_right hle) hrest

end Search

namespace SwitchModule

variable {code : SwitchModule} {reduce : Instruction}

/-- The call is followed by a switch that the function is left behind only through the default destination. -/
def Followed (code : SwitchModule) (reduce : Instruction) : Prop :=
  ∃ switchInst, code.nextSwitch reduce = some switchInst ∧ switchInst.HasNoExit code.module

def Reduces (code : SwitchModule) (reduce : Instruction) (block : ℕ) : Prop :=
  ∃ switchInst, code.nextSwitch reduce = some switchInst ∧ InReduce code.module switchInst block

lemma guardedBlocks_mono {fuel more : ℕ} {blocks : List ℕ} (hle : fuel ≤ more)
    (hok : code.guardedBlocks fuel reduce = .ok blocks) : code.guardedBlocks more reduce = .ok blocks := by
  rw [guardedBlocks] at hok ⊢
  cases hnext : code.nextSwitch reduce with
  | none =>
    rw [hnext] at hok
    cases hok
  | some switchInst =>
    rw [hnext] at hok
    exact searchBlocks_mono hle hok

lemma guardedBlocks_ends (h : code.Followed reduce) : ∃ fuel blocks,
    (∀ more ≥ fuel, code.guardedBlocks more reduce = .ok blocks) ∧ ∀ b, b ∈ blocks ↔ code.Reduces reduce b := by
  obtain ⟨switchInst, hnext, hexit⟩ := h
  obtain ⟨fuel, blocks, hok, hmem⟩ := searchBlocks_ends kept_initial hexit
  refine ⟨fuel, blocks, fun more hle => ?_, fun b => ?_⟩
  · apply guardedBlocks_mono hle
    rw [guardedBlocks, hnext]
    exact hok
  · rw [hmem, Reduces]
    simp [hnext]

end SwitchModule

end OpenRace
