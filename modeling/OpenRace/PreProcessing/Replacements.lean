import OpenRace.PreProcessing.OMPConstantProp

/-! What the constant propagation has replaced, and why. -/

namespace OpenRace

open LLVM

namespace PropState

variable {m : ModuleIR} {lib : ConstantFolding}

def KeepsStores (m : ModuleIR) (st : PropState) : Prop :=
  ∀ id size value pointer, .store id size value pointer ∈ m.instructions → id ∉ st.erased

def Justified (m : ModuleIR) (lib : ConstantFolding) (replaced : Replacements) (id : ℕ) (c : Constant) : Prop :=
  ∃ (st : PropState) (inst : Inst), st.KeepsStores m ∧ st.replaced ⊆ replaced ∧ inst ∈ m.instructions ∧ inst.id = id ∧
    ∃ found, st.constantFor m lib inst = some found ∧ convert lib inst.resultType found = some c

structure Sound (m : ModuleIR) (lib : ConstantFolding) (st : PropState) : Prop where
  keepsStores : st.KeepsStores m
  justified : ∀ id c, (id, c) ∈ st.replaced → Justified m lib st.replaced id c

lemma Justified.mono {replaced more : Replacements} {id : ℕ} {c : Constant} (h : Justified m lib replaced id c)
    (hsub : replaced ⊆ more) : Justified m lib more id c := by
  obtain ⟨st, inst, hkeeps, hst, hrest⟩ := h
  exact ⟨st, inst, hkeeps, fun entry hentry => hsub (hst hentry), hrest⟩

lemma Sound.of_eq {st st' : PropState} (h : st.Sound m lib) (hreplaced : st'.replaced = st.replaced)
    (herased : st'.erased = st.erased) : st'.Sound m lib := by
  constructor
  · rw [KeepsStores, herased]
    exact h.keepsStores
  · rw [hreplaced]
    exact h.justified

lemma addUsers_eq (st : PropState) (users : List Inst) :
    (st.addUsers users).replaced = st.replaced ∧ (st.addUsers users).erased = st.erased := by
  unfold addUsers
  induction users generalizing st with
  | nil => exact ⟨rfl, rfl⟩
  | cons user rest ih =>
    rw [List.foldl_cons]
    obtain ⟨hreplaced, herased⟩ := ih (if st.workList.contains user.id then st else
      { st with workList := user.id :: st.workList, newWorkListVec := st.newWorkListVec ++ [user.id] })
    rw [hreplaced, herased]
    split_ifs <;> exact ⟨rfl, rfl⟩

lemma Sound.addUsers {st : PropState} (h : st.Sound m lib) (users : List Inst) : (st.addUsers users).Sound m lib :=
  h.of_eq (addUsers_eq st users).1 (addUsers_eq st users).2

lemma Sound.replace {st : PropState} (h : st.Sound m lib) {id : ℕ} {c : Option Constant}
    (hjustified : ∀ c', c = some c' → Justified m lib st.replaced id c') : (st.replace id c).Sound m lib := by
  cases c with
  | none => exact h
  | some c =>
    refine ⟨h.keepsStores, fun id' c' hentry => ?_⟩
    have hsub : st.replaced ⊆ (id, c) :: st.replaced := List.subset_cons_self _ _
    rcases List.mem_cons.1 hentry with heq | hentry
    · cases heq
      exact (hjustified c rfl).mono hsub
    · exact (h.justified id' c' hentry).mono hsub

lemma Sound.eraseDead {st : PropState} (h : st.Sound m lib) {inst : Inst} (hinst : inst ∈ m.instructions)
    (hstore : ∀ id size value pointer, inst ≠ .store id size value pointer) :
    (st.eraseDead m lib inst).Sound m lib := by
  unfold PropState.eraseDead
  split_ifs
  · refine ⟨fun id size value pointer hmem herased => ?_, h.justified⟩
    rcases List.mem_cons.1 herased with heq | herased
    · exact hstore id size value pointer (m.unique inst hinst _ hmem heq.symm)
    · exact h.keepsStores id size value pointer hmem herased
  · exact h

lemma constantFor_ne_store {st : PropState} {inst : Inst} {c : Constant} (h : st.constantFor m lib inst = some c) :
    ∀ id size value pointer, inst ≠ .store id size value pointer := by
  rintro id size value pointer rfl
  cases h

lemma Sound.visit {st : PropState} (h : st.Sound m lib) {inst : Inst} (hinst : inst ∈ m.instructions) :
    (st.visit m lib inst).Sound m lib := by
  unfold PropState.visit
  dsimp only
  have hst : Sound m lib { st with workList := st.workList.filter (· != inst.id) } := h.of_eq rfl rfl
  generalize { st with workList := st.workList.filter (· != inst.id) } = st' at hst ⊢
  split_ifs
  · exact hst
  cases hfound : st'.constantFor m lib inst with
  | none => exact hst
  | some found =>
    have husers := hst.addUsers (st'.users m inst.id)
    refine Sound.eraseDead (Sound.replace husers fun c hc => ⟨st', inst, hst.keepsStores, ?_, hinst, rfl, found, hfound,
      hc⟩) hinst (constantFor_ne_store hfound)
    rw [(addUsers_eq st' _).1]
    exact List.Subset.refl _

lemma Sound.visitAll {st : PropState} (h : st.Sound m lib) {worklist : List Inst}
    (hworklist : worklist ⊆ m.instructions) : (st.visitAll m lib worklist).Sound m lib := by
  unfold PropState.visitAll
  induction worklist generalizing st with
  | nil => exact h
  | cons inst rest ih =>
    rw [List.foldl_cons]
    exact ih (h.visit (hworklist List.mem_cons_self)) fun inst' hinst' => hworklist (List.mem_cons_of_mem _ hinst')

lemma Sound.propagate {st : PropState} (h : st.Sound m lib) (fuel : ℕ) {worklist : List Inst}
    (hworklist : worklist ⊆ m.instructions) : (propagate m lib fuel st worklist).Sound m lib := by
  induction fuel generalizing st worklist with
  | zero => exact h
  | succ fuel ih =>
    unfold PropState.propagate
    split_ifs
    · exact h
    · apply ih
      · have hst : Sound m lib { st with newWorkListVec := [] } := h.of_eq rfl rfl
        exact hst.visitAll hworklist
      · intro inst hinst
        obtain ⟨id, -, hfind⟩ := List.mem_filterMap.1 hinst
        exact List.mem_of_find?_eq_some hfind

end PropState

lemma intraConstantProp_sound (m : ModuleIR) (lib : ConstantFolding) (fuel : ℕ) {f : List Inst}
    (hf : f ∈ m.functions) : (intraConstantProp m lib fuel f).Sound m lib := by
  apply PropState.Sound.propagate
  · refine ⟨fun id size value pointer _ herased => ?_, fun id c hentry => ?_⟩
    · cases herased
    · cases hentry
  · intro inst hinst
    exact List.mem_flatten.2 ⟨f, hf, hinst⟩

end OpenRace
