import OpenRace.PreProcessing.PassChanges

/-! Steps of the pass in a module of functions. -/

namespace OpenRace

open LLVM

namespace LLVM.FunctionModule

variable {m : FunctionModule}

lemma mem_ir {inst : Inst} :
    inst ∈ m.ir.instructions ↔ ∃ (i : ℕ) (f : FunctionIR), m.functions[i]? = some f ∧ inst ∈ f.insts := mem_insts

lemma mem_function {inst : Inst} (h : inst ∈ m.ir.instructions) :
    ∃ f, m.functions[m.instFunction inst.id]? = some f ∧ inst ∈ f.insts := by
  obtain ⟨i, f, hf, hinst⟩ := mem_ir.mp h
  rw [m.insts_function hf inst hinst]
  exact ⟨f, hf, hinst⟩

lemma operand_in {inst : Inst} (h : inst ∈ m.ir.instructions) {operand : Operand}
    (hoperand : operand ∈ inst.operands) :
    operand.In m.instFunction m.argFunction (m.instFunction inst.id) := by
  obtain ⟨i, f, hf, hinst⟩ := mem_ir.mp h
  rw [m.insts_function hf inst hinst]
  exact m.inScope hf inst hinst operand hoperand

lemma scopedResults (m : FunctionModule) : PropState.Scoped m.ir m.instFunction := by
  intro inst hinst operand hoperand id hid
  have hin := operand_in hinst hoperand
  cases operand with
  | constant c => cases hid
  | argument id' => cases hid
  | result id' =>
    cases hid
    exact hin
  | castResult id' operand =>
    cases hid
    exact hin.1

end LLVM.FunctionModule

namespace PassState

variable {lib : ConstantFolding} {s s' s'' : PassState} {i j : ℕ}

def Tidy (s : PassState) : Prop := ∀ id ∈ s.erased, s.instUsers id = []

def SettledIn (lib : ConstantFolding) (s : PassState) (i : ℕ) : Prop :=
  PropState.Settled s.module.ir lib s.module.instFunction i s.prop

def head (f : FunctionIR) : FunctionIR := { f with insts := [] }

structure ChangesIn (i : ℕ) (s s' : PassState) : Prop where
  globals : s'.module.globals = s.module.globals
  bodies : ∀ j ≠ i, s'.module.functions[j]? = s.module.functions[j]?
  heads : s'.module.functions.map head = s.module.functions.map head
  home : s'.module.instFunction = s.module.instFunction
  argHome : s'.module.argFunction = s.module.argFunction
  replaced : ∀ id, s.module.instFunction id ≠ i → s'.replaced.get id = s.replaced.get id
  erased : s.erased ⊆ s'.erased
  overwritten : ∀ id, s.prop.hasGlobalOverwritten s.module.ir id = true →
    s'.prop.hasGlobalOverwritten s'.module.ir id = true
  unused : ∀ id, s.instUsers id = [] → s'.instUsers id = []

lemma ChangesIn.refl (i : ℕ) (s : PassState) : ChangesIn i s s :=
  ⟨rfl, fun _ _ => rfl, rfl, rfl, rfl, fun _ _ => rfl, List.Subset.refl _, fun _ h => h, fun _ h => h⟩

lemma ChangesIn.trans (h : ChangesIn i s s') (h' : ChangesIn i s' s'') : ChangesIn i s s'' where
  globals := h'.globals.trans h.globals
  bodies := fun j hj => (h'.bodies j hj).trans (h.bodies j hj)
  heads := h'.heads.trans h.heads
  home := h'.home.trans h.home
  argHome := h'.argHome.trans h.argHome
  replaced := fun id hid => (h'.replaced id (h.home ▸ hid)).trans (h.replaced id hid)
  erased := List.Subset.trans h.erased h'.erased
  overwritten := fun id hover => h'.overwritten id (h.overwritten id hover)
  unused := fun id hnil => h'.unused id (h.unused id hnil)

lemma ChangesIn.subst_eq (h : ChangesIn i s s') (hj : j ≠ i) {operand : Operand}
    (hin : operand.In s.module.instFunction s.module.argFunction j) :
    s'.replaced.subst operand = s.replaced.subst operand := by
  induction operand with
  | constant c => rfl
  | argument id => rfl
  | result id =>
    have hid : s.module.instFunction id ≠ i := fun hi => hj ((show s.module.instFunction id = j from hin) ▸ hi)
    unfold Replacements.subst
    rw [h.replaced id hid]
  | castResult id operand ih =>
    have hid : s.module.instFunction id ≠ i := fun hi => hj (hin.1 ▸ hi)
    unfold Replacements.subst
    rw [h.replaced id hid, ih hin.2]

lemma ChangesIn.settledIn (h : ChangesIn i s s') (hj : j ≠ i) (hsettled : s.SettledIn lib j) :
    s'.SettledIn lib j := by
  intro inst hinst hhome hleft hused c hfound
  have hmem : inst ∈ s.module.ir.instructions := by
    obtain ⟨f, hf, hbody⟩ := FunctionModule.mem_function hinst
    rw [hhome, h.bodies j hj] at hf
    exact FunctionModule.mem_ir.mpr ⟨j, f, hf, hbody⟩
  rw [h.home] at hhome
  refine hsettled inst hmem hhome (fun hgone => hleft (h.erased hgone)) (fun hnil => hused (h.unused _ hnil)) c ?_
  have hsubst (operand : Operand) (hoperand : operand ∈ inst.operands) :
      s'.prop.replaced.subst operand = s.prop.replaced.subst operand :=
    h.subst_eq hj (hhome ▸ FunctionModule.operand_in hmem hoperand)
  cases inst with
  | load id type pointer =>
    rw [PropState.constantFor, hsubst pointer List.mem_cons_self] at hfound
    obtain ⟨gid, hgid, hload⟩ := Option.bind_eq_some_iff.mp hfound
    have hbefore := PropState.loadedConstant_mono h.globals (h.overwritten gid) hload
    exact Option.bind_eq_some_iff.mpr ⟨gid, hgid, hbefore⟩
  | store id size value pointer => cases hfound
  | cast id type operand =>
    rw [PropState.constantFor, hsubst operand List.mem_cons_self] at hfound
    exact hfound
  | operation id type opcode operands =>
    have hmap : operands.map s'.prop.replaced.subst = operands.map s.prop.replaced.subst := List.map_congr_left hsubst
    rw [PropState.constantFor, hmap] at hfound
    exact hfound

lemma Tidy.of_changes (h : s.Tidy) (hchange : ChangesIn i s s') (herased : ∀ id ∈ s'.erased, id ∈ s.erased ∨
    s'.instUsers id = []) : s'.Tidy := by
  intro id hid
  rcases herased _ hid with hold | hnil
  · exact hchange.unused id (h id hold)
  · exact hnil

lemma mem_bodyOf {f : FunctionIR} {inst : Inst} : inst ∈ s.bodyOf f ↔ inst ∈ f.insts ∧ inst.id ∉ s.erased := by
  simp [bodyOf]

lemma visiting_start {f : FunctionIR} (hf : s.module.functions[i]? = some f) (htidy : s.Tidy) :
    PropState.Visiting s.module.ir lib s.module.instFunction i
      (s.started f).cleared (s.bodyOf f) where
  listed := fun _ hid => .inl hid
  known := by
    intro id hid
    obtain ⟨inst, hinst, rfl⟩ := List.mem_map.mp hid
    exact ⟨inst, FunctionModule.mem_ir.mpr ⟨i, f, hf, (mem_bodyOf.mp hinst).1⟩, rfl⟩
  pending := by
    intro inst hinst hhome hpending
    obtain ⟨f', hf', hbody⟩ := FunctionModule.mem_function hinst
    rw [hhome, hf] at hf'
    cases hf'
    exact List.mem_map.mpr ⟨inst, mem_bodyOf.mpr ⟨hbody, hpending.left⟩, rfl⟩
  unused := htidy

lemma body_home {f : FunctionIR} (hf : s.module.functions[i]? = some f) :
    ∀ inst ∈ s.bodyOf f, inst ∈ s.module.ir.instructions ∧ s.module.instFunction inst.id = i := by
  intro inst hinst
  have hbody := (mem_bodyOf.mp hinst).1
  exact ⟨FunctionModule.mem_ir.mpr ⟨i, f, hf, hbody⟩, s.module.insts_function hf inst hbody⟩

lemma settledIn_none (hf : s.module.functions[i]? = none) : s.SettledIn lib i := by
  intro inst hinst hhome
  obtain ⟨f, hf', -⟩ := FunctionModule.mem_function hinst
  rw [hhome, hf] at hf'
  cases hf'

lemma changesIn_of_within {st : PropState} (h : PropState.Within s.module.ir s.module.instFunction i s.prop st) :
    ChangesIn i s { s with replaced := st.replaced, erased := st.erased } where
  globals := rfl
  bodies := fun _ _ => rfl
  heads := rfl
  home := rfl
  argHome := rfl
  replaced := h.others
  erased := h.erased
  overwritten := h.overwritten
  unused := fun _ hnil => PropState.users_nil_mono h.extends_ h.erased hnil

lemma intraConstantProp_spec {lib : PassLibrary} {fuel : ℕ} (htidy : s.Tidy) {made : Bool}
    (h : s.intraConstantProp lib fuel i = some (s', made)) :
    ChangesIn i s s' ∧ s'.Tidy ∧ s'.SettledIn lib.toConstantFolding i := by
  unfold PassState.intraConstantProp at h
  split at h
  · next hnone =>
    cases h
    exact ⟨.refl i s, htidy, settledIn_none hnone⟩
  · next f hf =>
    dsimp only at h
    split at h
    · next hempty =>
      cases h
      rw [PropState.propagateChanged_fst] at hempty ⊢
      have hscope := s.module.scopedResults
      have hbody := body_home hf
      have hstart : PropState.Within s.module.ir s.module.instFunction i s.prop (s.started f) := .of_eq rfl rfl
      have hwithin := hstart.trans (@PropState.propagate_within _ lib.toConstantFolding _ _ _ hscope fuel _ hbody)
      have hdone := PropState.Visiting.propagate fuel (visiting_start hf htidy) (fun inst hinst => (hbody inst hinst).1)
        (List.isEmpty_iff.mp hempty)
      refine ⟨changesIn_of_within hwithin, hdone.unused, ?_⟩
      apply PropState.settled_of_not_pending hscope hdone.unused
      intro inst hinst hhome hpending
      have hlisted := hdone.pending inst hinst hhome (hpending.of_eq rfl rfl)
      rw [PropState.cleared, List.isEmpty_iff.mp hempty] at hlisted
      cases hlisted
    · cases h

lemma SettledIn.intraConstantProp {lib : PassLibrary} {fuel : ℕ} (h : s.SettledIn lib.toConstantFolding i)
    (htidy : s.Tidy) (hfuel : 2 ≤ fuel) : ∃ made, s.intraConstantProp lib fuel i = some (s, made) := by
  unfold PassState.intraConstantProp
  split
  · exact ⟨false, rfl⟩
  · next f hf =>
    have hstart : PropState.Settled s.module.ir lib.toConstantFolding s.module.instFunction i (s.started f) :=
      PropState.Settled.of_eq h rfl rfl
    obtain ⟨hreplaced, herased, hwork⟩ := hstart.propagate htidy hfuel (body_home hf) fun _ hid => hid
    dsimp only
    rw [PropState.propagateChanged_fst, hwork, hreplaced, herased]
    exact ⟨_, rfl⟩

end PassState

end OpenRace
