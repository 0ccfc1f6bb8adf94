import OpenRace.Analysis.GuardedBlocks

/-! Guarded blocks and the edge of the branch that they are guarded by. -/

namespace OpenRace

open LLVM LLVM.CFGModule Library

variable {module : CFGModule}

lemma not_edge_entry {f : CFGFunction} (hf : f ∈ module.functions) {entry : ℕ}
    (hentry : f.blocks.head?.map CFGBlock.id = some entry) (pred : ℕ) : ¬ module.Edge pred entry := by
  rw [Edge, succ]
  intro h
  cases hfound : module.block? pred with
  | none => simp [hfound] at h
  | some block =>
    rw [hfound] at h
    exact module.entered f hf entry hentry block (module.block?_eq_some.mp hfound).1 h

/-- Guarded blocks are entered along the chosen edge only, if no other edge leads to its target from a block that is
reached without it. -/
theorem guarded_along_edge_iff (side : module.BranchSide) {f : CFGFunction} (hf : f ∈ module.functions)
    {entry : ℕ} (hentry : f.blocks.head?.map CFGBlock.id = some entry) {fuel : ℕ}
    {blocks : BlockSet} (hok : getGuardedBlocks module fuel side.branchInst side.branch = .ok blocks) :
    (∀ block ∈ blocks, ¬ Dominance.Reaches side.Detour entry block) ↔
      ∀ a, Dominance.Reaches side.Detour entry a → ¬ side.Detour a side.targetBlock := by
  have hsub : ∀ a b, side.Detour a b → module.Edge a b := fun a b h => h.1
  constructor
  · intro h a ha hd
    exact h side.targetBlock (BranchSide.mem_getGuardedBlocks_iff hok |>.mpr .root) (ha.tail hd)
  · intro h block hblock hr
    have henclosed := (BranchSide.mem_getGuardedBlocks_iff hok).mp hblock
    have htarget := henclosed.reached hsub (not_edge_entry hf hentry) hr
    cases htarget with
    | refl =>
      -- the branch itself leads to the target, which is no entry
      have hedge : module.Edge side.branchInst side.targetBlock := by
        rw [Edge, succ, side.found]
        dsimp only
        rw [side.condBr, Terminator.successors, BranchSide.targetBlock]
        cases side.branch <;> simp
      exact not_edge_entry hf hentry _ hedge
    | tail ha hd => exact h _ ha hd

namespace SharedTarget

/-- The body of `f`, whose blocks end as given; a branch of block 0 is on `omp_get_thread_num() == 0`. -/
def functions (zero one two : Terminator) : List CFGFunction :=
  [⟨⟨100, "omp_get_thread_num", false, false⟩, []⟩, ⟨⟨101, "f", false, false⟩,
    [⟨0, [], [.call ⟨1, .function ⟨100, "omp_get_thread_num", false, false⟩, [], none⟩], zero, []⟩,
      ⟨10, [], [], one, []⟩, ⟨20, [], [.other 11], two, []⟩, ⟨30, [], [], .ret 12, []⟩]⟩]

/-- `if (omp_get_thread_num() == 0 || x) { .. }`: the tests share the block 20. -/
def shared : CFGModule where
  functions := functions (.condBr 2 20 10) (.condBr 3 20 30) (.br 4 30)
  users := [(1, [.cmp true (.call 1) (.constantInt 0) [0]])]
  nextId := 200
  distinct := by decide
  closed := by decide
  entered := by decide
  conditional := by decide

def sharedSide : shared.BranchSide := ⟨0, _, 2, 20, 10, true, rfl, rfl⟩

/-- Block 20 counts as guarded, but it is also entered from the second test. -/
theorem shared_guarded : ¬ ∀ (module : CFGModule) (side : module.BranchSide) (fuel : ℕ) (blocks : BlockSet),
    getGuardedBlocks module fuel side.branchInst side.branch = .ok blocks → ∀ f ∈ module.functions, ∀ entry,
      f.blocks.head?.map CFGBlock.id = some entry → ∀ block ∈ blocks,
        ¬ Dominance.Reaches side.Detour entry block := by
  intro h
  have hok : getGuardedBlocks shared 3 0 true = .ok ⟨[20], by decide⟩ := rfl
  refine h shared sharedSide 3 _ hok _ (List.mem_cons_of_mem _ List.mem_cons_self) 0 rfl 20 List.mem_cons_self ?_
  have hfirst : sharedSide.Detour 0 10 := by decide
  have hsecond : sharedSide.Detour 10 20 := by decide
  exact (Relation.ReflTransGen.single hfirst).tail hsecond

def falseSide : shared.BranchSide := ⟨0, _, 2, 20, 10, false, rfl, rfl⟩

theorem second_test_guarded : ¬ Dominance.Reaches falseSide.Detour 0 10 := by
  have hok : getGuardedBlocks shared 3 falseSide.branchInst falseSide.branch = .ok ⟨[10], by decide⟩ := rfl
  refine (guarded_along_edge_iff falseSide (List.mem_cons_of_mem _ List.mem_cons_self) rfl hok).mpr ?_ 10
    List.mem_cons_self
  intro a _ hd
  have hpred : a ∈ shared.pred 10 := shared.mem_pred_iff.mpr hd.1
  obtain rfl : a = 0 := List.mem_singleton.mp hpred
  exact absurd hd (by decide)

end SharedTarget

/-- Of the blocks that the chosen edge dominates, those that no loop or dead block leads to are guarded. -/
theorem guarded_dominated_iff (side : module.BranchSide) (hsucc : module.succ side.targetBlock ≠ []) :
    ∃ fuel blocks, (∀ more ≥ fuel, getGuardedBlocks module more side.branchInst side.branch = .ok blocks) ∧
      ∀ f ∈ module.functions, ∀ entry, f.blocks.head?.map CFGBlock.id = some entry → ∀ block,
        Dominance.Dominated module.Edge side.Detour entry block →
          (block ∈ blocks ↔ ¬ Dominance.Exposed module.Edge side.targetBlock block) := by
  obtain ⟨fuel, blocks, hok⟩ := BranchSide.getGuardedBlocks_ends hsucc
  refine ⟨fuel, blocks, hok, fun f _ entry _ block _ => ?_⟩
  rw [BranchSide.mem_getGuardedBlocks_iff (hok fuel le_rfl)]
  have hnodes : ∀ a b, module.Edge a b → a ∈ {id | id ∈ module.blocks.map CFGBlock.id} := by
    intro a b h
    obtain ⟨block, hblock, hid⟩ := List.mem_map.mp (module.mem_pred_iff.mpr h)
    exact List.mem_map.mpr ⟨block, (List.mem_filter.mp hblock).1, hid⟩
  exact Dominance.enclosed_iff_not_exposed (List.finite_toSet _) hnodes

namespace LoopInside

open SharedTarget

/-- `if (omp_get_thread_num() == 0) do { .. } while (x);` -/
def looping : CFGModule where
  functions := functions (.condBr 2 10 30) (.br 3 20) (.condBr 4 20 30)
  users := [(1, [.cmp true (.call 1) (.constantInt 0) [0]])]
  nextId := 200
  distinct := by decide
  closed := by decide
  entered := by decide
  conditional := by decide

def side : looping.BranchSide := ⟨0, _, 2, 10, 30, true, rfl, rfl⟩

lemma detour_reaches {block : ℕ} (h : Dominance.Reaches side.Detour 0 block) : block = 0 ∨ block = 30 := by
  induction h with
  | refl => exact Or.inl rfl
  | tail _ hd ih =>
    rcases ih with rfl | rfl
    · exact Or.inr (hd.2 rfl)
    · exact absurd hd.1 List.not_mem_nil

lemma loop_dominated : Dominance.Dominated looping.Edge side.Detour 0 20 := by
  have hfirst : looping.Edge 0 10 := by decide
  have hsecond : looping.Edge 10 20 := by decide
  refine ⟨(Relation.ReflTransGen.single hfirst).tail hsecond, fun h => ?_⟩
  have hblock := detour_reaches h
  omega

/-- The loop runs for thread 0 only, but is not guarded. -/
theorem loop_unguarded : ¬ ∀ (module : CFGModule) (side : module.BranchSide) (fuel : ℕ) (blocks : BlockSet),
    getGuardedBlocks module fuel side.branchInst side.branch = .ok blocks → ∀ f ∈ module.functions, ∀ entry,
      f.blocks.head?.map CFGBlock.id = some entry → ∀ block,
        Dominance.Dominated module.Edge side.Detour entry block → block ∈ blocks := by
  intro h
  have hok : getGuardedBlocks looping 3 side.branchInst side.branch = .ok ⟨[10], by decide⟩ := rfl
  have hmem := h looping side 3 _ hok _ (List.mem_cons_of_mem _ List.mem_cons_self) 0 rfl 20 loop_dominated
  exact absurd (List.mem_singleton.mp hmem) (by decide)

theorem looping_guarded : ∃ fuel blocks, (∀ more ≥ fuel, getGuardedBlocks looping more 0 true = .ok blocks) ∧
    ∀ f ∈ looping.functions, ∀ entry, f.blocks.head?.map CFGBlock.id = some entry → ∀ block,
      Dominance.Dominated looping.Edge side.Detour entry block →
        (block ∈ blocks ↔ ¬ Dominance.Exposed looping.Edge 10 block) :=
  guarded_dominated_iff side (by decide)

end LoopInside

end OpenRace
