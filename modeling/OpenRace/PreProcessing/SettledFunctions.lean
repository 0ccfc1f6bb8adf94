import OpenRace.PreProcessing.RunConstantProp
import OpenRace.PreProcessing.Replacements

/-! Functions in which no instruction has a constant any more. -/

namespace OpenRace

open LLVM

namespace Replacements

lemma subst_inst (replaced : Replacements) (operand : Operand) (id : ℕ) :
    (replaced.subst operand).inst = some id ↔ operand.inst = some id ∧ replaced.get id = none := by
  cases operand with
  | constant c => simp [subst, Operand.inst]
  | argument id' => simp [subst, Operand.inst]
  | result id' =>
    unfold subst
    split
    · next c hget =>
      refine iff_of_false nofun ?_
      rintro ⟨⟨⟩, hnone⟩
      rw [hget] at hnone
      cases hnone
    · next hnone =>
      constructor
      · rintro ⟨⟩
        exact ⟨rfl, hnone⟩
      · exact fun h => h.1
  | castResult id' operand =>
    unfold subst
    split
    · next c hget =>
      refine iff_of_false nofun ?_
      rintro ⟨⟨⟩, hnone⟩
      rw [hget] at hnone
      cases hnone
    · next hnone =>
      constructor
      · rintro ⟨⟩
        exact ⟨rfl, hnone⟩
      · exact fun h => h.1

lemma constantOf_subst_inst {replaced : Replacements} {operand : Operand} {id : ℕ} (hid : operand.inst = some id) :
    constantOf (replaced.subst operand) = replaced.get id := by
  cases operand with
  | constant c => cases hid
  | argument id' => cases hid
  | result id' =>
    cases hid
    unfold subst
    split <;> next hget => rw [hget]; rfl
  | castResult id' operand =>
    cases hid
    unfold subst
    split <;> next hget => rw [hget]; rfl

lemma get_cons (replaced : Replacements) (id id' : ℕ) (c : Constant) :
    get ((id, c) :: replaced) id' = if id' = id then some c else replaced.get id' := by
  unfold get
  rw [List.lookup_cons]
  split
  · next h => rw [if_pos (by simpa using h)]
  · next h => rw [if_neg (by simpa using h)]

def Extends (replaced replaced' : Replacements) : Prop :=
  ∀ id c, replaced.get id = some c → replaced'.get id = some c

lemma Extends.refl (replaced : Replacements) : Extends replaced replaced := fun _ _ h => h

lemma extends_cons {replaced : Replacements} {id : ℕ} (hnone : replaced.get id = none) (c : Constant) :
    Extends replaced ((id, c) :: replaced) := by
  intro id' c' h
  rw [get_cons, if_neg ?_]
  · exact h
  · rintro rfl
    rw [hnone] at h
    cases h

lemma Extends.subst_constant {replaced replaced' : Replacements} (h : Extends replaced replaced') {operand : Operand}
    {c : Constant} (hc : replaced.subst operand = .constant c) : replaced'.subst operand = .constant c := by
  cases operand with
  | constant c' => exact hc
  | argument id => exact hc
  | result id =>
    unfold subst at hc ⊢
    split at hc
    · next c' hget =>
      rw [h id c' hget]
      exact hc
    · cases hc
  | castResult id operand =>
    unfold subst at hc ⊢
    split at hc
    · next c' hget =>
      rw [h id c' hget]
      exact hc
    · cases hc

end Replacements

namespace PropState

variable {m : ModuleIR} {lib : ConstantFolding} {st st' : PropState}

lemma mem_instructions {inst : Inst} : inst ∈ st.instructions m ↔ inst ∈ m.instructions ∧ inst.id ∉ st.erased := by
  simp [instructions]

lemma mem_users {inst : Inst} {id : ℕ} : inst ∈ st.users m id ↔ inst ∈ m.instructions ∧ inst.id ∉ st.erased ∧
    st.replaced.get id = none ∧ ∃ operand ∈ inst.operands, operand.inst = some id := by
  simp only [users, List.mem_filter, mem_instructions, operands, List.any_map, List.any_eq_true, Function.comp_apply,
    beq_iff_eq, Replacements.subst_inst]
  constructor
  · rintro ⟨⟨hinst, hleft⟩, operand, hoperand, hid, hnone⟩
    exact ⟨hinst, hleft, hnone, operand, hoperand, hid⟩
  · rintro ⟨hinst, hleft, hnone, operand, hoperand, hid⟩
    exact ⟨⟨hinst, hleft⟩, operand, hoperand, hid, hnone⟩

lemma users_nil_mono (hreplaced : Replacements.Extends st.replaced st'.replaced) (herased : st.erased ⊆ st'.erased)
    {id : ℕ} (h : st.users m id = []) : st'.users m id = [] := by
  refine List.eq_nil_iff_forall_not_mem.mpr fun inst hinst => ?_
  obtain ⟨hmem, hleft, hnone, hoperand⟩ := mem_users.mp hinst
  have hbefore : st.replaced.get id = none := by
    cases hget : st.replaced.get id with
    | none => rfl
    | some c =>
      rw [hreplaced id c hget] at hnone
      cases hnone
  have huser : inst ∈ st.users m id := mem_users.mpr ⟨hmem, fun he => hleft (herased he), hbefore, hoperand⟩
  rw [h] at huser
  cases huser

lemma hasGlobalOverwritten_mono (hreplaced : Replacements.Extends st.replaced st'.replaced)
    (hstores : ∀ inst ∈ m.instructions, isStore inst = true → inst.id ∉ st.erased → inst.id ∉ st'.erased) {id : ℕ}
    (h : st.hasGlobalOverwritten m id = true) : st'.hasGlobalOverwritten m id = true := by
  unfold hasGlobalOverwritten at h ⊢
  obtain ⟨inst, hinst, huser⟩ := List.any_eq_true.mp h
  obtain ⟨hmem, hleft⟩ := mem_instructions.mp hinst
  cases inst with
  | store number size value pointer =>
    refine List.any_eq_true.mpr ⟨_, mem_instructions.mpr ⟨hmem, hstores _ hmem rfl hleft⟩, ?_⟩
    unfold isStoreUser at huser ⊢
    obtain ⟨operand, hoperand, hglobal⟩ := List.any_eq_true.mp huser
    refine List.any_eq_true.mpr ⟨operand, hoperand, ?_⟩
    split at hglobal
    · next id' type hsubst =>
      rw [hreplaced.subst_constant hsubst]
      exact hglobal
    · cases hglobal
  | load _ _ _ => cases huser
  | cast _ _ _ => cases huser
  | operation _ _ _ _ => cases huser

lemma loadedConstant_mono {m' : ModuleIR} (hglobals : m'.globals = m.globals) {id : ℕ}
    (hover : st.hasGlobalOverwritten m id = true → st'.hasGlobalOverwritten m' id = true) {c : Constant}
    (h : st'.loadedConstant m' id = some c) : st.loadedConstant m id = some c := by
  unfold loadedConstant ModuleIR.getGlobal at h ⊢
  rw [hglobals] at h
  generalize m.globals.find? (fun gv => gv.id == id) = found at h ⊢
  cases found with
  | none => cases h
  | some gv =>
    dsimp only at h ⊢
    split at h
    · next hcond =>
      rw [if_pos ?_]
      · exact h
      · simp only [Bool.and_eq_true, Bool.or_eq_true, Bool.not_eq_true'] at hcond ⊢
        refine ⟨hcond.1, hcond.2.imp_right fun hnot => ?_⟩
        by_contra hyes
        rw [hover (by simpa using hyes)] at hnot
        cases hnot
    · cases h

end PropState

end OpenRace
