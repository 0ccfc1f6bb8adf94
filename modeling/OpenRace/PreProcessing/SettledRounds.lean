import OpenRace.PreProcessing.IntraRounds

/-! A function that is settled stays as it is. -/

namespace OpenRace

open LLVM

namespace PropState

variable {m : ModuleIR} {lib : ConstantFolding} {home : ℕ → ℕ} {i : ℕ} {st st' : PropState}

lemma Settled.of_eq (h : Settled m lib home i st) (hreplaced : st'.replaced = st.replaced)
    (herased : st'.erased = st.erased) : Settled m lib home i st' := by
  intro inst hinst hhome hleft hused c hfound
  rw [users_congr hreplaced herased] at hused
  rw [constantFor_congr hreplaced herased] at hfound
  exact h inst hinst hhome (herased ▸ hleft) hused c hfound

lemma constantFor_user {inst user : Inst} {c : Constant} (hinst : inst ∈ m.instructions)
    (huser : user ∈ st.users m inst.id) (hfound : st.constantFor m lib inst = some c)
    (hconvert : convert lib inst.resultType c = none) : st.constantFor m lib user = none := by
  obtain ⟨hmem, -, hnone, operand, hoperand, hid⟩ := mem_users.mp huser
  have hconstant : constantOf (st.replaced.subst operand) = none := by
    rw [Replacements.constantOf_subst_inst hid, hnone]
  cases user with
  | load id type pointer =>
    obtain rfl := List.mem_singleton.mp hoperand
    have hsubst : globalOf (st.replaced.subst operand) = none := by
      cases operand with
      | constant _ => cases hid
      | argument _ => cases hid
      | result id' =>
        cases hid
        simp only [Replacements.subst, hnone]
        rfl
      | castResult id' inner =>
        cases hid
        -- the result of a cast would be a constant
        obtain ⟨⟨castType, hcast⟩, -⟩ := m.coherent _ hmem _ hoperand
        rw [← m.unique _ hcast inst hinst rfl] at hfound hconvert
        obtain ⟨c', -, hc⟩ := Option.bind_eq_some_iff.mp hfound
        cases hc
        have hsome : convert lib (some castType) (.pointerCast c' castType) = some (.pointerCast c' castType) :=
          if_pos rfl
        exact absurd (hsome.symm.trans hconvert) (Option.some_ne_none _)
    rw [constantFor, hsubst]
    rfl
  | store id size value pointer => rfl
  | cast id type operand' =>
    obtain rfl := List.mem_singleton.mp hoperand
    rw [constantFor, hconstant]
    rfl
  | operation id type opcode operands =>
    cases hconsts : (operands.map st.replaced.subst).mapM constantOf with
    | none =>
      rw [constantFor, hconsts]
      rfl
    | some consts =>
      obtain ⟨c', hc'⟩ := constant_of_mapM hconsts _ (List.mem_map.mpr ⟨operand, hoperand, rfl⟩)
      rw [hc'] at hconstant
      cases hconstant

/-- Still to be visited in a settled function: what the round comes to, and instructions without constants. -/
structure Calm (m : ModuleIR) (lib : ConstantFolding) (st : PropState) (rest : List Inst) : Prop where
  listed : ∀ id ∈ st.workList, id ∈ rest.map Inst.id ∨ id ∈ st.newWorkListVec
  idle : ∀ id ∈ st.newWorkListVec, ∃ inst ∈ m.instructions, inst.id = id ∧ st.constantFor m lib inst = none

lemma mem_new_addUsers {users : List Inst} {id : ℕ} (h : id ∈ (st.addUsers users).newWorkListVec) :
    id ∈ st.newWorkListVec ∨ ∃ user ∈ users, user.id = id := by
  induction users generalizing st with
  | nil => exact .inl h
  | cons user rest ih =>
    rw [addUsers_cons] at h
    rcases ih h with h | ⟨other, hother, rfl⟩
    · unfold addUser at h
      split at h
      · exact .inl h
      · rcases List.mem_append.mp h with h | h
        · exact .inl h
        · exact .inr ⟨user, List.mem_cons_self, (List.mem_singleton.mp h).symm⟩
    · exact .inr ⟨other, List.mem_cons_of_mem _ hother, rfl⟩

lemma Calm.visit {inst : Inst} {rest : List Inst} (h : Calm m lib st (inst :: rest))
    (hsettled : Settled m lib home i st)
    (hunused : ∀ id ∈ st.erased, st.users m id = []) (hinst : inst ∈ m.instructions) (hhome : home inst.id = i) :
    Calm m lib (st.visit m lib inst) rest ∧ (st.visit m lib inst).replaced = st.replaced ∧
      (st.visit m lib inst).erased = st.erased := by
  rcases visit_cases m lib st inst with ⟨heq, -⟩ | ⟨hused, c, hfound, ⟨hconvert, heq⟩ | ⟨c', hconvert, heq⟩⟩
  · rw [heq]
    refine ⟨⟨unlisted_listed h.listed, fun id hid => ?_⟩, rfl, rfl⟩
    obtain ⟨other, hother, hid, hnone⟩ := h.idle id hid
    exact ⟨other, hother, hid, (constantFor_congr rfl rfl other).trans hnone⟩
  · obtain ⟨hreplaced, herased⟩ := addUsers_eq (st.unlisted inst) (st.users m inst.id)
    rw [heq]
    refine ⟨⟨listed_addUsers h.listed _, fun id hid => ?_⟩, hreplaced, herased⟩
    rcases mem_new_addUsers hid with hid | ⟨user, huser, rfl⟩
    · obtain ⟨other, hother, hid, hnone⟩ := h.idle id hid
      exact ⟨other, hother, hid, (constantFor_congr hreplaced herased other).trans hnone⟩
    · refine ⟨user, (mem_users.mp huser).1, rfl, ?_⟩
      exact (constantFor_congr hreplaced herased user).trans (constantFor_user hinst huser hfound hconvert)
  · have hleft : inst.id ∉ st.erased := fun hgone => hused (hunused _ hgone)
    rw [hsettled inst hinst hhome hleft hused c hfound] at hconvert
    cases hconvert

lemma Calm.visitAll {worklist : List Inst} (h : Calm m lib st worklist) (hsettled : Settled m lib home i st)
    (hunused : ∀ id ∈ st.erased, st.users m id = [])
    (hworklist : ∀ inst ∈ worklist, inst ∈ m.instructions ∧ home inst.id = i) :
    Calm m lib (st.visitAll m lib worklist) [] ∧ (st.visitAll m lib worklist).replaced = st.replaced ∧
      (st.visitAll m lib worklist).erased = st.erased := by
  unfold PropState.visitAll
  induction worklist generalizing st with
  | nil => exact ⟨h, rfl, rfl⟩
  | cons inst rest ih =>
    obtain ⟨hinst, hhome⟩ := hworklist inst List.mem_cons_self
    obtain ⟨hcalm, hreplaced, herased⟩ := h.visit hsettled hunused hinst hhome
    have hstill : ∀ id ∈ (st.visit m lib inst).erased, (st.visit m lib inst).users m id = [] := by
      intro id hid
      rw [users_congr hreplaced herased]
      exact hunused id (herased ▸ hid)
    obtain ⟨hcalm', hreplaced', herased'⟩ := ih hcalm (hsettled.of_eq hreplaced herased) hstill
      fun other hother => hworklist other (List.mem_cons_of_mem _ hother)
    exact ⟨hcalm', hreplaced'.trans hreplaced, herased'.trans herased⟩

lemma visitAll_idle {worklist : List Inst} (h : ∀ inst ∈ worklist, st.constantFor m lib inst = none) :
    (st.visitAll m lib worklist).replaced = st.replaced ∧ (st.visitAll m lib worklist).erased = st.erased ∧
      ∀ id ∈ (st.visitAll m lib worklist).workList, id ∈ st.workList ∧ id ∉ worklist.map Inst.id := by
  unfold PropState.visitAll
  induction worklist generalizing st with
  | nil => exact ⟨rfl, rfl, fun id hid => ⟨hid, List.not_mem_nil⟩⟩
  | cons inst rest ih =>
    have hvisit : st.visit m lib inst = st.unlisted inst := by
      rcases visit_cases m lib st inst with ⟨heq, -⟩ | ⟨-, c, hfound, -⟩
      · exact heq
      · rw [h inst List.mem_cons_self] at hfound
        cases hfound
    rw [List.foldl_cons, hvisit]
    obtain ⟨hreplaced, herased, hwork⟩ := @ih (st.unlisted inst) fun other hother =>
      (constantFor_congr rfl rfl other).trans (h other (List.mem_cons_of_mem _ hother))
    refine ⟨hreplaced, herased, fun id hid => ?_⟩
    obtain ⟨hlisted, hnot⟩ := hwork id hid
    obtain ⟨hlisted, hne⟩ := mem_unlisted.mp hlisted
    refine ⟨hlisted, fun hmem => ?_⟩
    rcases List.mem_cons.mp hmem with heq | hmem
    · exact hne heq
    · exact hnot hmem

lemma propagate_done (fuel : ℕ) {worklist : List Inst} (h : st.workList = []) :
    propagate m lib fuel st worklist = st := by
  cases fuel with
  | zero => rfl
  | succ fuel =>
    unfold propagate
    rw [h]
    rfl

lemma Calm.propagate_idle (h : Calm m lib st []) (fuel : ℕ) :
    let st' := propagate m lib (fuel + 1) st
      (st.newWorkListVec.filterMap fun id => m.instructions.find? (·.id == id))
    st'.replaced = st.replaced ∧ st'.erased = st.erased ∧ st'.workList = [] := by
  dsimp only
  by_cases hdone : st.workList = []
  · rw [propagate_done _ hdone]
    exact ⟨rfl, rfl, hdone⟩
  have hmore : ¬ st.workList.isEmpty = true := fun hempty => hdone (List.isEmpty_iff.mp hempty)
  obtain ⟨hreplaced, herased, hwork⟩ := @visitAll_idle m lib st.cleared
    (st.newWorkListVec.filterMap fun id => m.instructions.find? (·.id == id)) (by
      intro inst hinst
      obtain ⟨id, hid, hfind⟩ := List.mem_filterMap.mp hinst
      obtain ⟨other, hother, rfl, hnone⟩ := h.idle id hid
      have hsame : inst.id = other.id := by simpa using List.find?_some hfind
      rw [m.unique inst (List.mem_of_find?_eq_some hfind) other hother hsame]
      exact (constantFor_congr rfl rfl other).trans hnone)
  have hempty : (PropState.visitAll m lib st.cleared
      (st.newWorkListVec.filterMap fun id => m.instructions.find? (·.id == id))).workList = [] := by
    refine List.eq_nil_iff_forall_not_mem.mpr fun id hid => ?_
    obtain ⟨hlisted, hnot⟩ := hwork id hid
    rcases h.listed id hlisted with hnone | hnew
    · cases hnone
    · obtain ⟨other, hother, rfl, -⟩ := h.idle id hnew
      obtain ⟨inst, hfind, hsame⟩ := find?_of_known ⟨other, hother, rfl⟩
      exact hnot (List.mem_map.mpr ⟨inst, List.mem_filterMap.mpr ⟨_, hnew, hfind⟩, hsame⟩)
  unfold propagate
  rw [if_neg hmore]
  change (propagate m lib fuel (PropState.visitAll m lib st.cleared _) _).replaced = _ ∧
    (propagate m lib fuel (PropState.visitAll m lib st.cleared _) _).erased = _ ∧
    (propagate m lib fuel (PropState.visitAll m lib st.cleared _) _).workList = _
  rw [propagate_done _ hempty]
  exact ⟨hreplaced, herased, hempty⟩

lemma Settled.propagate (h : Settled m lib home i st) (hunused : ∀ id ∈ st.erased, st.users m id = []) {fuel : ℕ}
    (hfuel : 2 ≤ fuel) {worklist : List Inst}
    (hworklist : ∀ inst ∈ worklist, inst ∈ m.instructions ∧ home inst.id = i)
    (hlisted : ∀ id ∈ st.workList, id ∈ worklist.map Inst.id) :
    (propagate m lib fuel st worklist).replaced = st.replaced ∧
      (propagate m lib fuel st worklist).erased = st.erased ∧ (propagate m lib fuel st worklist).workList = [] := by
  obtain ⟨fuel, rfl⟩ := Nat.exists_eq_add_of_le' hfuel
  by_cases hdone : st.workList = []
  · rw [propagate_done _ hdone]
    exact ⟨rfl, rfl, hdone⟩
  have hcalm : Calm m lib st.cleared worklist :=
    ⟨fun id hid => .inl (hlisted id hid), fun _ hid => absurd hid List.not_mem_nil⟩
  obtain ⟨hround, hreplaced, herased⟩ := hcalm.visitAll (h.of_eq rfl rfl) hunused hworklist
  have hmore : ¬ st.workList.isEmpty = true := fun hempty => hdone (List.isEmpty_iff.mp hempty)
  unfold PropState.propagate
  rw [if_neg hmore]
  obtain ⟨hreplaced', herased', hwork⟩ := hround.propagate_idle fuel
  exact ⟨hreplaced'.trans hreplaced, herased'.trans herased, hwork⟩

end PropState

end OpenRace
