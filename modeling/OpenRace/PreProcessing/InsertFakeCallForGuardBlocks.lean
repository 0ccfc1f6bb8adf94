import OpenRace.Analysis.GuardedBlocks
import OpenRace.LanguageModel.OpenMP
import OpenRace.Library.Failure

/-! The pass that marks the blocks guarded by a test of the thread's number. -/

namespace OpenRace

open LLVM LanguageModel Library

structure GuardBlockState where
  /-- By the number of the call; a call that is known keeps its first blocks. -/
  existGuards : OrderedMap ℕ BlockSet := .empty
  block2TID : OrderedMap ℕ ℕ := .empty
  visited : List ℕ := []

namespace GuardBlockState

def addGuarded (state : GuardBlockState) (call tid : ℕ) (guarded : BlockSet) : GuardBlockState :=
  { state with
    block2TID := guarded.elems.foldl (fun block2TID block => block2TID.insert block tid) state.block2TID
    existGuards := state.existGuards.modify call fun known => known.getD guarded }

def addBranch (module : CFGModule) (fuel call tid : ℕ) (state : GuardBlockState) (branch : ℕ) :
    Except GuardError GuardBlockState := do
  return state.addGuarded call tid (← getGuardedBlocks module fuel branch true)

def computeGuardedBlocks (module : CFGModule) (fuel : ℕ) (state : GuardBlockState) (call : ℕ) :
    Except GuardError GuardBlockState :=
  if call ∈ state.visited then .ok state
  else do
    let state ← (getConstCmpEqInsts (module.usersOf call)).foldlM
      (fun state (branches, tid) => branches.foldlM (addBranch module fuel call tid) state) state
    return { state with visited := call :: state.visited }

end GuardBlockState

def isGetThreadNumCall (call : CallBase) : Bool :=
  match call.getCalledFunction with
  | none => false
  | some f => f.hasName && OpenMPModel.isGetThreadNum f.name

def getThreadNumCall : Instruction → Option ℕ
  | .call call => if isGetThreadNumCall call then some call.id else none
  | _ => none

def LLVM.CFGModule.getThreadNumCalls (module : CFGModule) : List ℕ :=
  module.blocks.flatMap fun block => block.instructions.filterMap getThreadNumCall

/-- The number is passed as an integer of 32 bits. -/
def guardCall (fn : Function) (tid id : ℕ) : Instruction :=
  .call { id, calledOperand := .function fn, args := [.constantInt (tid % UInt32.size)] }

/-- In front of the first instruction that is no phi. -/
def insertStart (startcall : Instruction) (block : CFGBlock) : CFGBlock :=
  { block with body := startcall :: block.body }

/-- Behind the last instruction that is neither return nor branch. -/
def insertEnd (endcall : Instruction) (block : CFGBlock) : CFGBlock :=
  if block.behind.isEmpty && block.terminator.isReturnOrBranch then { block with body := block.body ++ [endcall] }
  else { block with behind := block.behind ++ [endcall] }

def markBlock (guardStartFn guardEndFn : Function) (tid id : ℕ) (block : CFGBlock) : CFGBlock :=
  insertEnd (guardCall guardEndFn tid (id + 1)) (insertStart (guardCall guardStartFn tid id) block)

lemma markBlock_keeps (guardStartFn guardEndFn : Function) (tid id : ℕ) (block : CFGBlock) :
    (markBlock guardStartFn guardEndFn tid id block).id = block.id ∧
      (markBlock guardStartFn guardEndFn tid id block).terminator = block.terminator := by
  rw [markBlock, insertEnd]
  split <;> exact ⟨rfl, rfl⟩

def insertFakeCallAt (guardStartFn guardEndFn : Function) (block2TID : OrderedMap ℕ ℕ) (module : CFGModule)
    (guardedBlock : ℕ) : Except GuardError CFGModule :=
  match block2TID.find? guardedBlock with
  | none => .error .unknownBlock
  | some tid => .ok { module.mapBlock guardedBlock (markBlock guardStartFn guardEndFn tid module.nextId)
      (markBlock_keeps guardStartFn guardEndFn tid module.nextId) with nextId := module.nextId + 2 }

def insertFakeCall (guardStartFn guardEndFn : Function) (block2TID : OrderedMap ℕ ℕ) (module : CFGModule)
    (guardedBlocks : BlockSet) : Except GuardError CFGModule :=
  guardedBlocks.elems.foldlM (insertFakeCallAt guardStartFn guardEndFn block2TID) module

def LLVM.CFGModule.guardStartFn (module : CFGModule) : Function :=
  ⟨module.nextId, "omp_get_thread_num_guard_start", false, false⟩

def LLVM.CFGModule.guardEndFn (module : CFGModule) : Function :=
  ⟨module.nextId + 1, "omp_get_thread_num_guard_end", false, false⟩

def insertFakeCallForGuardBlocks (fuel : ℕ) (module : CFGModule) : Except GuardError CFGModule := do
  let state ← module.getThreadNumCalls.foldlM (GuardBlockState.computeGuardedBlocks module fuel) {}
  if state.existGuards.entries.isEmpty then return module
  else
    let declared := (module.addDeclaration module.guardStartFn).addDeclaration module.guardEndFn
    (state.existGuards.entries.map Prod.snd).foldlM
      (insertFakeCall module.guardStartFn module.guardEndFn state.block2TID) declared

def LLVM.CFGModule.graph (module : CFGModule) : List (ℕ × Terminator) :=
  module.blocks.map fun block => (block.id, block.terminator)

section Graph

variable {guardStartFn guardEndFn : Function} {block2TID : OrderedMap ℕ ℕ} {module module' : CFGModule}

lemma graph_mapBlock {id : ℕ} {change : CFGBlock → CFGBlock}
    (hc : ∀ block, (change block).id = block.id ∧ (change block).terminator = block.terminator) :
    (module.mapBlock id change hc).graph = module.graph := by
  have hblocks : (module.mapBlock id change hc).blocks =
      module.blocks.map fun block => if block.id = id then change block else block := by
    rw [CFGModule.blocks, CFGModule.mapBlock, List.flatMap_map, CFGModule.blocks, List.map_flatMap]
  rw [CFGModule.graph, hblocks, List.map_map, CFGModule.graph]
  apply List.map_congr_left
  intro block _
  rw [Function.comp]
  split
  · rw [(hc block).1, (hc block).2]
  · rfl

lemma graph_addDeclaration (f : Function) : (module.addDeclaration f).graph = module.graph := by
  simp [CFGModule.graph, CFGModule.blocks, CFGModule.addDeclaration]

lemma insertFakeCallAt_ok {guardedBlock tid : ℕ} (h : block2TID.find? guardedBlock = some tid) :
    ∃ module', insertFakeCallAt guardStartFn guardEndFn block2TID module guardedBlock = .ok module' := by
  rw [insertFakeCallAt, h]
  exact ⟨_, rfl⟩

lemma graph_insertFakeCallAt {guardedBlock : ℕ}
    (hok : insertFakeCallAt guardStartFn guardEndFn block2TID module guardedBlock = .ok module') :
    module'.graph = module.graph := by
  rw [insertFakeCallAt] at hok
  split at hok
  · cases hok
  · rename_i tid _
    cases hok
    exact graph_mapBlock (markBlock_keeps guardStartFn guardEndFn tid module.nextId)

lemma graph_insertFakeCall {guardedBlocks : BlockSet}
    (hok : insertFakeCall guardStartFn guardEndFn block2TID module guardedBlocks = .ok module') :
    module'.graph = module.graph := by
  refine foldlM_keep (P := fun after => after.graph = module.graph) ?_ rfl hok
  intro before guardedBlock after hbefore hinsert
  exact (graph_insertFakeCallAt hinsert).trans hbefore

end Graph

/-- Calls are put into blocks, and no block comes to go elsewhere. -/
theorem insertFakeCallForGuardBlocks_graph {fuel : ℕ} {module module' : CFGModule}
    (hok : insertFakeCallForGuardBlocks fuel module = .ok module') : module'.graph = module.graph := by
  obtain ⟨state, -, hok⟩ := exists_of_bind hok
  split at hok
  · cases hok
    rfl
  · refine foldlM_keep (P := fun after => after.graph = module.graph) ?_ ?_ hok
    · intro before guardedBlocks after hbefore hinsert
      exact (graph_insertFakeCall hinsert).trans hbefore
    · rw [graph_addDeclaration, graph_addDeclaration]

namespace GuardBlockState

def Known (state : GuardBlockState) : Prop :=
  ∀ entry ∈ state.existGuards.entries, ∀ block ∈ entry.2, (state.block2TID.find? block).isSome

lemma known_empty : Known {} := by
  intro entry hentry
  exact absurd hentry List.not_mem_nil

section FindInserted

variable {guarded : List ℕ} {block2TID : OrderedMap ℕ ℕ} {block tid : ℕ}

lemma find?_inserted (h : (block2TID.find? block).isSome ∨ block ∈ guarded) :
    ((guarded.foldl (fun block2TID block => block2TID.insert block tid) block2TID).find? block).isSome := by
  induction guarded generalizing block2TID with
  | nil => exact h.resolve_right List.not_mem_nil
  | cons first guarded ih =>
    rw [List.foldl_cons]
    apply ih
    by_cases heq : block = first
    · subst heq
      exact Or.inl (by simp)
    · rw [OrderedMap.find?_insert_ne _ heq]
      exact h.imp_right fun hmem => (List.mem_cons.mp hmem).resolve_left heq

end FindInserted

variable {module : CFGModule} {fuel call tid : ℕ} {state state' : GuardBlockState}

lemma Known.addGuarded (h : state.Known) (guarded : BlockSet) : (state.addGuarded call tid guarded).Known := by
  rintro ⟨other, blocks⟩ hentry block hblock
  apply find?_inserted
  rw [GuardBlockState.addGuarded, OrderedMap.mem_entries_iff] at hentry
  by_cases heq : other = call
  · subst heq
    rw [OrderedMap.find?_modify] at hentry
    cases hentry
    cases hknown : state.existGuards.find? other with
    | none =>
      rw [hknown] at hblock
      exact Or.inr hblock
    | some known =>
      rw [hknown] at hblock
      exact Or.inl (h _ (OrderedMap.mem_entries_iff _ |>.mpr hknown) block hblock)
  · rw [OrderedMap.find?_modify_ne _ heq] at hentry
    exact Or.inl (h _ (OrderedMap.mem_entries_iff _ |>.mpr hentry) block hblock)

lemma Known.addBranch (h : state.Known) {branch : ℕ} (hok : state.addBranch module fuel call tid branch = .ok state') :
    state'.Known := by
  obtain ⟨guarded, -, hok⟩ := exists_of_bind hok
  cases hok
  exact h.addGuarded guarded

lemma Known.computeGuardedBlocks (h : state.Known)
    (hok : GuardBlockState.computeGuardedBlocks module fuel state call = .ok state') : state'.Known := by
  rw [GuardBlockState.computeGuardedBlocks] at hok
  split at hok
  · cases hok
    exact h
  · obtain ⟨looked, hlook, hok⟩ := exists_of_bind hok
    cases hok
    have hlooked : looked.Known := by
      refine foldlM_keep (P := Known) ?_ h hlook
      rintro before ⟨branches, tid⟩ after hbefore hbranches
      exact foldlM_keep (fun before branch after hbefore hadd => hbefore.addBranch hadd) hbefore hbranches
    exact hlooked

end GuardBlockState

section Inserted

variable {module : CFGModule} {fuel : ℕ}

lemma insertFakeCall_ok {guardStartFn guardEndFn : Function} {block2TID : OrderedMap ℕ ℕ} {guardedBlocks : BlockSet}
    (h : ∀ block ∈ guardedBlocks, (block2TID.find? block).isSome) :
    ∃ module', insertFakeCall guardStartFn guardEndFn block2TID module guardedBlocks = .ok module' := by
  apply foldlM_ok
  intro block hblock module
  obtain ⟨tid, htid⟩ := Option.isSome_iff_exists.mp (h block hblock)
  exact insertFakeCallAt_ok htid

/-- Every guarded block has its number, so the calls are put in once the searches have come back. -/
lemma insertFakeCallForGuardBlocks_ok_iff :
    (∃ module', insertFakeCallForGuardBlocks fuel module = .ok module') ↔
      ∃ state, module.getThreadNumCalls.foldlM (GuardBlockState.computeGuardedBlocks module fuel) {} = .ok state := by
  constructor
  · rintro ⟨module', hok⟩
    obtain ⟨state, hstate, -⟩ := exists_of_bind hok
    exact ⟨state, hstate⟩
  · rintro ⟨state, hstate⟩
    have hknown : state.Known :=
      foldlM_keep (fun _ _ _ h hcompute => h.computeGuardedBlocks hcompute) GuardBlockState.known_empty hstate
    rw [insertFakeCallForGuardBlocks, hstate]
    by_cases hempty : state.existGuards.entries.isEmpty = true
    · exact ⟨module, if_pos hempty⟩
    · have hinserted : ∀ declared, ∃ module', (state.existGuards.entries.map Prod.snd).foldlM
          (insertFakeCall module.guardStartFn module.guardEndFn state.block2TID) declared = .ok module' := by
        intro declared
        apply foldlM_ok
        intro guardedBlocks hblocks module
        obtain ⟨entry, hentry, rfl⟩ := List.mem_map.mp hblocks
        exact insertFakeCall_ok (hknown entry hentry)
      obtain ⟨module', hmodule'⟩ :=
        hinserted ((module.addDeclaration module.guardStartFn).addDeclaration module.guardEndFn)
      exact ⟨module', (if_neg hempty).trans hmodule'⟩

end Inserted

end OpenRace
