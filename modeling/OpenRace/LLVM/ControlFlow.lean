import OpenRace.LLVM.Instructions
import OpenRace.Library.OrderedSet
import OpenRace.Library.OrderedMap
import Mathlib.Data.List.Nodup

/-! Control flow of functions: blocks with their terminators, and the users of calls. -/

namespace OpenRace.LLVM

open Library

/-- The instruction that ends a block, with the blocks it goes to. -/
inductive Terminator
  | ret (id : ℕ)
  | br (id dest : ℕ)
  | condBr (id trueBlock falseBlock : ℕ)
  | other (inst : Instruction) (dests : List ℕ)
deriving DecidableEq

namespace Terminator

def inst : Terminator → Instruction
  | ret id => .other id
  | br id _ => .other id
  | condBr id _ _ => .other id
  | other inst _ => inst

def isConditional : Terminator → Bool
  | condBr _ _ _ => true
  | _ => false

def successors : Terminator → List ℕ
  | ret _ => []
  | br _ dest => [dest]
  | condBr _ trueBlock falseBlock => [trueBlock, falseBlock]
  | other _ dests => dests

def isReturnOrBranch : Terminator → Bool
  | other _ _ => false
  | _ => true

end Terminator

structure CFGBlock where
  id : ℕ
  phis : List ℕ := []
  body : List Instruction
  terminator : Terminator
  /-- What a pass has put behind the terminator, where the verifier would reject it. -/
  behind : List Instruction := []
deriving DecidableEq

def CFGBlock.instructions (block : CFGBlock) : BasicBlock :=
  block.phis.map .other ++ (block.body ++ block.terminator.inst :: block.behind)

structure CFGFunction where
  function : Function
  /-- The entry block is the first one; a declaration has none. -/
  blocks : List CFGBlock
deriving DecidableEq

/-- Users of a call's result, the most recent first; those of a load of it hang below the load. -/
inductive CallUser
  | load (users : List CallUser)
  | cmp (isEq : Bool) (lhs rhs : Value) (branches : List ℕ)
  | other

mutual

def CallUser.branches : CallUser → List ℕ
  | .load users => branchesOf users
  | .cmp _ _ _ blocks => blocks
  | .other => []

def CallUser.branchesOf : List CallUser → List ℕ
  | [] => []
  | user :: rest => user.branches ++ branchesOf rest

end

structure CFGModule where
  functions : List CFGFunction
  users : List (ℕ × List CallUser)
  nextId : ℕ
  distinct : ((functions.flatMap CFGFunction.blocks).map CFGBlock.id).Nodup
  closed : ∀ block ∈ functions.flatMap CFGFunction.blocks, ∀ dest ∈ block.terminator.successors,
    dest ∈ (functions.flatMap CFGFunction.blocks).map CFGBlock.id
  /-- No block goes back to the entry of its function. -/
  entered : ∀ f ∈ functions, ∀ entry, f.blocks.head?.map CFGBlock.id = some entry →
    ∀ block ∈ functions.flatMap CFGFunction.blocks, entry ∉ block.terminator.successors
  conditional : ∀ use ∈ users, ∀ branch ∈ CallUser.branchesOf use.2, ∃ block ∈ functions.flatMap CFGFunction.blocks,
    block.id = branch ∧ block.terminator.isConditional = true

namespace CFGModule

def usersOf (module : CFGModule) (id : ℕ) : List CallUser := (module.users.lookup id).getD []

def blocks (module : CFGModule) : List CFGBlock := module.functions.flatMap CFGFunction.blocks

def block? (module : CFGModule) (id : ℕ) : Option CFGBlock := module.blocks.find? (·.id = id)

def succ (module : CFGModule) (id : ℕ) : List ℕ :=
  match module.block? id with
  | some block => block.terminator.successors
  | none => []

def pred (module : CFGModule) (id : ℕ) : List ℕ :=
  (module.blocks.filter (id ∈ ·.terminator.successors)).map CFGBlock.id

def Edge (module : CFGModule) (a b : ℕ) : Prop := b ∈ module.succ a

instance (module : CFGModule) (a b : ℕ) : Decidable (module.Edge a b) :=
  inferInstanceAs (Decidable (b ∈ module.succ a))

variable (module : CFGModule)

lemma block?_eq_some {id : ℕ} {block : CFGBlock} :
    module.block? id = some block ↔ block ∈ module.blocks ∧ block.id = id := by
  constructor
  · intro h
    exact ⟨List.mem_of_find?_eq_some h, by simpa using List.find?_some h⟩
  · rintro ⟨hmem, hid⟩
    cases hfound : module.block? id with
    | none =>
      have hne := List.find?_eq_none.mp hfound block hmem
      simp [hid] at hne
    | some other =>
      have hother : other.id = id := by simpa using List.find?_some hfound
      rw [List.inj_on_of_nodup_map module.distinct (List.mem_of_find?_eq_some hfound) hmem (hother.trans hid.symm)]

lemma mem_pred_iff {a b : ℕ} : a ∈ module.pred b ↔ module.Edge a b := by
  rw [pred, List.mem_map, Edge, succ]
  constructor
  · rintro ⟨block, hblock, rfl⟩
    obtain ⟨hmem, hdest⟩ := List.mem_filter.mp hblock
    rw [module.block?_eq_some.mpr ⟨hmem, rfl⟩]
    simpa using hdest
  · intro h
    cases hfound : module.block? a with
    | none => simp [hfound] at h
    | some block =>
      rw [hfound] at h
      obtain ⟨hmem, hid⟩ := module.block?_eq_some.mp hfound
      exact ⟨block, List.mem_filter.mpr ⟨hmem, by simpa using h⟩, hid⟩

lemma Edge.mem {a b : ℕ} (h : module.Edge a b) : b ∈ module.blocks.map CFGBlock.id := by
  rw [Edge, succ] at h
  cases hfound : module.block? a with
  | none => simp [hfound] at h
  | some block =>
    rw [hfound] at h
    exact module.closed block (module.block?_eq_some.mp hfound).1 b h

/-- A block is changed in its instructions, not in its number or in where it goes. -/
def mapBlock (id : ℕ) (change : CFGBlock → CFGBlock)
    (hc : ∀ block, (change block).id = block.id ∧ (change block).terminator = block.terminator) : CFGModule :=
  have hblocks : (module.functions.map fun f =>
        { f with blocks := f.blocks.map fun block => if block.id = id then change block else block }).flatMap
        CFGFunction.blocks = module.blocks.map fun block => if block.id = id then change block else block := by
    rw [List.flatMap_map, blocks, List.map_flatMap]
  have hids : (module.blocks.map fun block => if block.id = id then change block else block).map CFGBlock.id =
      module.blocks.map CFGBlock.id := by
    rw [List.map_map]
    refine List.map_congr_left fun block _ => ?_
    rw [Function.comp]
    split
    · exact (hc block).1
    · rfl
  { module with
    functions := module.functions.map fun f =>
      { f with blocks := f.blocks.map fun block => if block.id = id then change block else block }
    distinct := by
      rw [hblocks, hids]
      exact module.distinct
    closed := by
      rw [hblocks, hids]
      intro block hblock dest hdest
      obtain ⟨old, hold, rfl⟩ := List.mem_map.mp hblock
      refine module.closed old hold dest ?_
      split at hdest
      · rwa [(hc old).2] at hdest
      · exact hdest
    entered := by
      rw [hblocks]
      intro f hf entry hentry block hblock
      obtain ⟨old, hold, rfl⟩ := List.mem_map.mp hf
      obtain ⟨oldBlock, holdBlock, rfl⟩ := List.mem_map.mp hblock
      have hhead : old.blocks.head?.map CFGBlock.id = some entry := by
        rw [← hentry, List.head?_map, Option.map_map]
        refine Option.map_congr fun b _ => ?_
        rw [Function.comp]
        split
        · exact (hc b).1.symm
        · rfl
      have hnone := module.entered old hold entry hhead oldBlock holdBlock
      split
      · rwa [(hc oldBlock).2]
      · exact hnone
    conditional := by
      rw [hblocks]
      intro use huse branch hbranch
      obtain ⟨old, hold, hid, hcond⟩ := module.conditional use huse branch hbranch
      refine ⟨_, List.mem_map_of_mem hold, ?_⟩
      split
      · rw [(hc old).1, (hc old).2]
        exact ⟨hid, hcond⟩
      · exact ⟨hid, hcond⟩ }

def addDeclaration (f : LLVM.Function) : CFGModule :=
  have hblocks : (module.functions ++ [CFGFunction.mk f []]).flatMap CFGFunction.blocks = module.blocks := by
    rw [List.flatMap_append]
    exact List.append_nil _
  { module with
    functions := module.functions ++ [CFGFunction.mk f []]
    nextId := module.nextId + 1
    distinct := by
      rw [hblocks]
      exact module.distinct
    closed := by
      rw [hblocks]
      exact module.closed
    entered := by
      rw [hblocks]
      intro f' hf' entry hentry
      cases List.mem_append.mp hf' with
      | inl hold => exact module.entered f' hold entry hentry
      | inr hnew =>
        rw [List.mem_singleton.mp hnew] at hentry
        cases hentry
    conditional := by
      rw [hblocks]
      exact module.conditional }

end CFGModule

/-- Blocks in the order of their addresses, for which their numbers stand. -/
abbrev BlockSet := OrderedSet ℕ (· < ·)

instance (set : BlockSet) (id : ℕ) : Decidable (id ∈ set) := inferInstanceAs (Decidable (id ∈ set.elems))

end OpenRace.LLVM
