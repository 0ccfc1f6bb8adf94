import OpenRace.PreProcessing.SettledFunctions

/-! The rounds of the constant propagation in a function: what is left to visit. -/

namespace OpenRace

open LLVM

namespace PropState

variable {m : ModuleIR} {lib : ConstantFolding} {st st' : PropState}

structure Pending (m : ModuleIR) (lib : ConstantFolding) (st : PropState) (inst : Inst) : Prop where
  left : inst.id ∉ st.erased
  used : st.users m inst.id ≠ []
  direct : ∀ operand ∈ inst.operands, ∃ c, st.replaced.subst operand = .constant c
  converts : ∃ c c', st.constantFor m lib inst = some c ∧ convert lib inst.resultType c = some c'

lemma users_congr (hreplaced : st'.replaced = st.replaced) (herased : st'.erased = st.erased) (id : ℕ) :
    st'.users m id = st.users m id := by
  unfold users instructions operands
  rw [hreplaced, herased]

lemma constantFor_congr (hreplaced : st'.replaced = st.replaced) (herased : st'.erased = st.erased) (inst : Inst) :
    st'.constantFor m lib inst = st.constantFor m lib inst := by
  have hloaded (id : ℕ) : st'.loadedConstant m id = st.loadedConstant m id := by
    unfold loadedConstant hasGlobalOverwritten instructions isStoreUser
    rw [hreplaced, herased]
  cases inst with
  | load id type pointer =>
    simp only [constantFor, hreplaced, hloaded]
  | store id size value pointer => rfl
  | cast id type operand => simp only [constantFor, hreplaced]
  | operation id type opcode operands => simp only [constantFor, hreplaced]

lemma Pending.of_eq {inst : Inst} (h : Pending m lib st inst) (hreplaced : st'.replaced = st.replaced)
    (herased : st'.erased = st.erased) : Pending m lib st' inst where
  left := herased ▸ h.left
  used := (users_congr hreplaced herased inst.id) ▸ h.used
  direct := hreplaced ▸ h.direct
  converts := (constantFor_congr hreplaced herased inst) ▸ h.converts

lemma constantFor_mono {inst : Inst} (hreplaced : Replacements.Extends st.replaced st'.replaced)
    (hover : ∀ id, st.hasGlobalOverwritten m id = true → st'.hasGlobalOverwritten m id = true)
    (hdirect : ∀ operand ∈ inst.operands, ∃ c, st.replaced.subst operand = .constant c) {c : Constant}
    (h : st'.constantFor m lib inst = some c) : st.constantFor m lib inst = some c := by
  have hsame (operand : Operand) (hoperand : operand ∈ inst.operands) :
      st'.replaced.subst operand = st.replaced.subst operand := by
    obtain ⟨c', hc'⟩ := hdirect operand hoperand
    rw [hc', hreplaced.subst_constant hc']
  cases inst with
  | load id type pointer =>
    rw [constantFor, hsame pointer List.mem_cons_self] at h
    rw [constantFor]
    obtain ⟨gid, hgid, hload⟩ := Option.bind_eq_some_iff.mp h
    exact Option.bind_eq_some_iff.mpr ⟨gid, hgid, loadedConstant_mono rfl (hover gid) hload⟩
  | store id size value pointer => cases h
  | cast id type operand =>
    rw [constantFor, hsame operand List.mem_cons_self] at h
    exact h
  | operation id type opcode operands =>
    have hmap : operands.map st'.replaced.subst = operands.map st.replaced.subst := List.map_congr_left hsame
    rw [constantFor, hmap] at h
    exact h

section AddUsers

variable (st)

def addUser (st : PropState) (user : Inst) : PropState :=
  if st.workList.contains user.id then st
  else { st with workList := user.id :: st.workList, newWorkListVec := st.newWorkListVec ++ [user.id] }

lemma addUsers_cons (user : Inst) (users : List Inst) :
    st.addUsers (user :: users) = (st.addUser user).addUsers users := rfl

lemma mem_addUser {user : Inst} {id : ℕ} : id ∈ (st.addUser user).workList ↔ id = user.id ∨ id ∈ st.workList := by
  unfold addUser
  split
  · next h =>
    refine ⟨.inr, ?_⟩
    rintro (rfl | h')
    · simpa using h
    · exact h'
  · exact List.mem_cons

lemma mem_addUsers {users : List Inst} {id : ℕ} :
    id ∈ (st.addUsers users).workList ↔ id ∈ st.workList ∨ ∃ user ∈ users, user.id = id := by
  induction users generalizing st with
  | nil => simp [addUsers]
  | cons user rest ih =>
    rw [addUsers_cons, ih, mem_addUser]
    simp only [List.mem_cons, exists_eq_or_imp]
    rw [@eq_comm _ id]
    tauto

lemma addUser_listed {user : Inst} {id : ℕ} (h : id ∈ (st.addUser user).workList) :
    id ∈ st.workList ∨ id ∈ (st.addUser user).newWorkListVec := by
  unfold addUser at h ⊢
  split at h
  · exact .inl h
  · next hnew =>
    rw [if_neg hnew]
    rcases List.mem_cons.mp h with rfl | h
    · exact .inr (List.mem_append_right _ List.mem_cons_self)
    · exact .inl h

lemma addUsers_new_subset (users : List Inst) : st.newWorkListVec ⊆ (st.addUsers users).newWorkListVec := by
  induction users generalizing st with
  | nil => exact fun _ h => h
  | cons user rest ih =>
    refine List.Subset.trans ?_ (ih (st.addUser user))
    unfold addUser
    split
    · exact fun _ h => h
    · exact List.subset_append_left _ _

lemma addUsers_listed {users : List Inst} {id : ℕ} (h : id ∈ (st.addUsers users).workList) :
    id ∈ st.workList ∨ id ∈ (st.addUsers users).newWorkListVec := by
  induction users generalizing st with
  | nil => exact .inl h
  | cons user rest ih =>
    rw [addUsers_cons] at h ⊢
    rcases ih (st.addUser user) h with h | h
    · exact (st.addUser_listed h).imp_right fun hnew => addUsers_new_subset _ _ hnew
    · exact .inr h

end AddUsers

def Scoped (m : ModuleIR) (home : ℕ → ℕ) : Prop :=
  ∀ inst ∈ m.instructions, ∀ operand ∈ inst.operands, ∀ id, operand.inst = some id → home id = home inst.id

/-- In the course of a round: the instructions of the function that have constants are still to be visited. -/
structure Visiting (m : ModuleIR) (lib : ConstantFolding) (home : ℕ → ℕ) (i : ℕ) (st : PropState) (rest : List Inst) :
    Prop where
  listed : ∀ id ∈ st.workList, id ∈ rest.map Inst.id ∨ id ∈ st.newWorkListVec
  known : ∀ id ∈ st.workList, ∃ inst ∈ m.instructions, inst.id = id
  pending : ∀ inst ∈ m.instructions, home inst.id = i → Pending m lib st inst → inst.id ∈ st.workList
  unused : ∀ id ∈ st.erased, st.users m id = []

/-- What a visit leaves: nothing but a constant for the instruction, which may be erased then. -/
structure Visited (m : ModuleIR) (inst : Inst) (st st' : PropState) : Prop where
  replaced : st'.replaced = st.replaced ∨ ∃ c, st.replaced.get inst.id = none ∧ st'.replaced = (inst.id, c) :: st.replaced
  erased : st'.erased = st.erased ∨ st'.erased = inst.id :: st.erased ∧ isStore inst = false

lemma Visited.extends {inst : Inst} (h : Visited m inst st st') : Replacements.Extends st.replaced st'.replaced := by
  rcases h.replaced with heq | ⟨c, hnone, heq⟩
  · rw [heq]
    exact .refl _
  · rw [heq]
    exact Replacements.extends_cons hnone c

lemma Visited.erased_subset {inst : Inst} (h : Visited m inst st st') : st.erased ⊆ st'.erased := by
  rcases h.erased with heq | ⟨heq, -⟩
  · rw [heq]
    exact List.Subset.refl _
  · rw [heq]
    exact List.subset_cons_self _ _

lemma Visited.overwritten {inst : Inst} (hinst : inst ∈ m.instructions) (h : Visited m inst st st') (id : ℕ)
    (hover : st.hasGlobalOverwritten m id = true) : st'.hasGlobalOverwritten m id = true := by
  refine hasGlobalOverwritten_mono h.extends ?_ hover
  intro store hstore hkind hleft hgone
  rcases h.erased with heq | ⟨heq, hnot⟩
  · exact hleft (heq ▸ hgone)
  · rw [heq] at hgone
    rcases List.mem_cons.mp hgone with hid | hgone
    · rw [m.unique store hstore inst hinst hid, hnot] at hkind
      cases hkind
    · exact hleft hgone

lemma eraseDead_eq (inst : Inst) : (st.eraseDead m lib inst).replaced = st.replaced ∧
    (st.eraseDead m lib inst).workList = st.workList ∧ (st.eraseDead m lib inst).newWorkListVec = st.newWorkListVec ∧
    ((st.eraseDead m lib inst).erased = st.erased ∨
      (st.eraseDead m lib inst).erased = inst.id :: st.erased ∧ st.users m inst.id = []) := by
  unfold eraseDead
  split
  · next h =>
    rw [Bool.and_eq_true] at h
    exact ⟨rfl, rfl, rfl, .inr ⟨rfl, List.isEmpty_iff.mp h.1⟩⟩
  · exact ⟨rfl, rfl, rfl, .inl rfl⟩

def unlisted (st : PropState) (inst : Inst) : PropState :=
  { st with workList := st.workList.filter (· != inst.id) }

lemma mem_unlisted {inst : Inst} {id : ℕ} : id ∈ (st.unlisted inst).workList ↔ id ∈ st.workList ∧ id ≠ inst.id := by
  simp [unlisted]

lemma visit_unused {inst : Inst} (h : st.users m inst.id = []) : st.visit m lib inst = st.unlisted inst := by
  have hnil : ((st.unlisted inst).users m inst.id).isEmpty = true := List.isEmpty_iff.mpr h
  exact if_pos hnil

lemma visit_none {inst : Inst} (h : st.constantFor m lib inst = none) : st.visit m lib inst = st.unlisted inst := by
  have hnone : (st.unlisted inst).constantFor m lib inst = none := (constantFor_congr rfl rfl inst).trans h
  rw [unlisted] at hnone
  rw [visit]
  split
  · rfl
  · rw [hnone]
    rfl

lemma visit_some {inst : Inst} {c : Constant} (hused : st.users m inst.id ≠ [])
    (h : st.constantFor m lib inst = some c) : st.visit m lib inst =
      (((st.unlisted inst).addUsers (st.users m inst.id)).replace inst.id (convert lib inst.resultType c)).eraseDead
        m lib inst := by
  have hsome : (st.unlisted inst).constantFor m lib inst = some c := (constantFor_congr rfl rfl inst).trans h
  have hmore : ¬ ((st.unlisted inst).users m inst.id).isEmpty = true := fun hnil => hused (List.isEmpty_iff.mp hnil)
  rw [unlisted] at hsome hmore
  rw [visit, if_neg hmore, hsome]
  rfl

lemma visit_cases (m : ModuleIR) (lib : ConstantFolding) (st : PropState) (inst : Inst) :
    (st.visit m lib inst = st.unlisted inst ∧ (st.users m inst.id = [] ∨ st.constantFor m lib inst = none)) ∨
    st.users m inst.id ≠ [] ∧ ∃ c, st.constantFor m lib inst = some c ∧
      (convert lib inst.resultType c = none ∧
          st.visit m lib inst = (st.unlisted inst).addUsers (st.users m inst.id) ∨
        ∃ c', convert lib inst.resultType c = some c' ∧ st.visit m lib inst =
          (((st.unlisted inst).addUsers (st.users m inst.id)).replace inst.id (some c')).eraseDead m lib inst) := by
  by_cases hused : st.users m inst.id = []
  · exact .inl ⟨visit_unused hused, .inl hused⟩
  cases hfound : st.constantFor m lib inst with
  | none => exact .inl ⟨visit_none hfound, .inr rfl⟩
  | some c =>
    have hvisit := visit_some hused hfound
    refine .inr ⟨hused, c, rfl, ?_⟩
    cases hconvert : convert lib inst.resultType c with
    | some c' =>
      rw [hconvert] at hvisit
      exact .inr ⟨c', rfl, hvisit⟩
    | none =>
      rw [hconvert] at hvisit
      refine .inl ⟨rfl, hvisit.trans (if_neg ?_)⟩
      have hsame : ((st.unlisted inst).addUsers (st.users m inst.id)).users m inst.id = st.users m inst.id :=
        users_congr (addUsers_eq _ _).1 (addUsers_eq _ _).2 inst.id
      rw [replace, hsame, Bool.and_eq_true]
      exact fun hdead => hused (List.isEmpty_iff.mp hdead.1)

lemma visit_visited (inst : Inst) : Visited m inst st (st.visit m lib inst) := by
  rcases visit_cases m lib st inst with ⟨heq, -⟩ | ⟨hused, c, hfound, ⟨-, heq⟩ | ⟨c', -, heq⟩⟩
  · rw [heq]
    exact ⟨.inl rfl, .inl rfl⟩
  · obtain ⟨hreplaced, herased⟩ := addUsers_eq (st.unlisted inst) (st.users m inst.id)
    rw [heq]
    exact ⟨.inl hreplaced, .inl herased⟩
  · obtain ⟨hreplaced, herased⟩ := addUsers_eq (st.unlisted inst) (st.users m inst.id)
    rw [heq]
    obtain ⟨user, huser⟩ := List.exists_mem_of_ne_nil _ hused
    obtain ⟨-, -, hnone, -⟩ := mem_users.mp huser
    obtain ⟨hsame, -, -, hdead⟩ :=
      @eraseDead_eq m lib (((st.unlisted inst).addUsers (st.users m inst.id)).replace inst.id (some c')) inst
    constructor
    · refine .inr ⟨c', hnone, hsame.trans ?_⟩
      exact congrArg (List.cons (inst.id, c')) hreplaced
    · rcases hdead with hdead | ⟨hdead, -⟩
      · exact .inl (hdead.trans herased)
      · refine .inr ⟨hdead.trans (congrArg (List.cons inst.id) herased), ?_⟩
        cases inst with
        | store id size value pointer => cases hfound
        | load _ _ _ => rfl
        | cast _ _ _ => rfl
        | operation _ _ _ _ => rfl

lemma Pending.before {inst other : Inst} (h : Visited m inst st st') (hinst : inst ∈ m.instructions)
    (hother : other ∈ m.instructions) (hpending : Pending m lib st' other) :
    Pending m lib st other ∨ other ∈ st.users m inst.id ∧ ∃ c, st'.replaced = (inst.id, c) :: st.replaced := by
  have hleft : other.id ∉ st.erased := fun hgone => hpending.left (h.erased_subset hgone)
  by_cases hdirect : ∀ operand ∈ other.operands, ∃ c, st.replaced.subst operand = .constant c
  · left
    refine ⟨hleft, fun hnil => hpending.used (users_nil_mono h.extends h.erased_subset hnil), hdirect, ?_⟩
    obtain ⟨c, c', hfound, hconvert⟩ := hpending.converts
    exact ⟨c, c', constantFor_mono h.extends (h.overwritten hinst) hdirect hfound, hconvert⟩
  · right
    push Not at hdirect
    obtain ⟨operand, hoperand, hnot⟩ := hdirect
    obtain ⟨c, hc⟩ := hpending.direct operand hoperand
    rcases h.replaced with heq | ⟨c', hnone, heq⟩
    · rw [heq] at hc
      exact absurd hc (hnot c)
    · refine ⟨mem_users.mpr ⟨hother, hleft, hnone, operand, hoperand, ?_⟩, c', heq⟩
      cases hid : operand.inst with
      | none =>
        cases operand with
        | constant c' => exact absurd rfl (hnot c')
        | argument id => cases hc
        | result id => cases hid
        | castResult id operand => cases hid
      | some id =>
        by_contra hne
        have hsame : st'.replaced.get id = st.replaced.get id := by
          rw [heq, Replacements.get_cons, if_neg]
          rintro rfl
          exact hne rfl
        have hget := @Replacements.constantOf_subst_inst st'.replaced operand id hid
        rw [hc, hsame] at hget
        have hbefore := @Replacements.constantOf_subst_inst st.replaced operand id hid
        rw [← hget] at hbefore
        cases hsubst : st.replaced.subst operand with
        | constant c'' => exact hnot c'' hsubst
        | argument _ =>
          rw [hsubst] at hbefore
          cases hbefore
        | result _ =>
          rw [hsubst] at hbefore
          cases hbefore
        | castResult _ _ =>
          rw [hsubst] at hbefore
          cases hbefore

lemma users_replaced {inst : Inst} {c : Constant} (h : st'.replaced = (inst.id, c) :: st.replaced) :
    st'.users m inst.id = [] := by
  refine List.eq_nil_iff_forall_not_mem.mpr fun user huser => ?_
  obtain ⟨-, -, hnone, -⟩ := mem_users.mp huser
  rw [h, Replacements.get_cons, if_pos rfl] at hnone
  cases hnone

section Listed

variable {inst : Inst} {rest : List Inst}
  (h : ∀ id ∈ st.workList, id ∈ (inst :: rest).map Inst.id ∨ id ∈ st.newWorkListVec)

include h

lemma unlisted_listed : ∀ id ∈ (st.unlisted inst).workList, id ∈ rest.map Inst.id ∨ id ∈ st.newWorkListVec := by
  intro id hid
  obtain ⟨hid, hne⟩ := mem_unlisted.mp hid
  rcases h id hid with hlisted | hnew
  · rcases List.mem_cons.mp hlisted with heq | hlisted
    · exact absurd heq hne
    · exact .inl hlisted
  · exact .inr hnew

lemma listed_addUsers (users : List Inst) : ∀ id ∈ ((st.unlisted inst).addUsers users).workList,
    id ∈ rest.map Inst.id ∨ id ∈ ((st.unlisted inst).addUsers users).newWorkListVec := by
  intro id hid
  rcases addUsers_listed _ hid with hid | hnew
  · exact (unlisted_listed h id hid).imp_right fun hnew => addUsers_new_subset _ _ hnew
  · exact .inr hnew

end Listed

lemma Visiting.visit {home : ℕ → ℕ} {i : ℕ} {inst : Inst} {rest : List Inst}
    (h : Visiting m lib home i st (inst :: rest)) (hinst : inst ∈ m.instructions) :
    Visiting m lib home i (st.visit m lib inst) rest := by
  have hunlisted := unlisted_listed h.listed
  have hlisted := listed_addUsers h.listed (st.users m inst.id)
  have hknown : ∀ id ∈ ((st.unlisted inst).addUsers (st.users m inst.id)).workList, ∃ other ∈ m.instructions,
      other.id = id := by
    intro id hid
    rcases (mem_addUsers _).mp hid with hid | ⟨user, huser, rfl⟩
    · exact h.known id (mem_unlisted.mp hid).1
    · exact ⟨user, (mem_users.mp huser).1, rfl⟩
  -- an instruction with a constant is not the visited one, unless the visit has replaced it
  have hkept : ∀ other ∈ m.instructions, home other.id = i → Pending m lib st other → ¬ Pending m lib st inst →
      other.id ∈ (st.unlisted inst).workList := by
    intro other hother hhome hpending hnot
    refine mem_unlisted.mpr ⟨h.pending other hother hhome hpending, fun hid => hnot ?_⟩
    rwa [← m.unique other hother inst hinst hid]
  rcases visit_cases m lib st inst with ⟨heq, hnone⟩ | ⟨hused, c, hfound, ⟨hconvert, heq⟩ | ⟨c', hconvert, heq⟩⟩
  · rw [heq]
    refine ⟨hunlisted, fun id hid => h.known id (mem_unlisted.mp hid).1, fun other hother hhome hpending => ?_,
      h.unused⟩
    refine hkept other hother hhome (hpending.of_eq rfl rfl) fun hinstPending => ?_
    rcases hnone with hnil | hnone
    · exact hinstPending.used hnil
    · obtain ⟨c, c', hfound, -⟩ := hinstPending.converts
      rw [hnone] at hfound
      cases hfound
  · obtain ⟨hreplaced, herased⟩ := addUsers_eq (st.unlisted inst) (st.users m inst.id)
    rw [heq]
    refine ⟨hlisted, hknown, fun other hother hhome hpending => ?_, fun id hid => ?_⟩
    · refine (mem_addUsers _).mpr (.inl (hkept other hother hhome ?_ fun hinstPending => ?_))
      · exact hpending.of_eq hreplaced.symm herased.symm
      · obtain ⟨d, d', hd, hd'⟩ := hinstPending.converts
        rw [hfound] at hd
        cases hd
        rw [hconvert] at hd'
        cases hd'
    · rw [users_congr hreplaced herased]
      exact h.unused id (herased ▸ hid)
  · have hvisited := @visit_visited m lib st inst
    obtain ⟨hreplaced, -⟩ := addUsers_eq (st.unlisted inst) (st.users m inst.id)
    obtain ⟨hsame, hwork, hnew, -⟩ :=
      @eraseDead_eq m lib (((st.unlisted inst).addUsers (st.users m inst.id)).replace inst.id (some c')) inst
    have hcons : (st.visit m lib inst).replaced = (inst.id, c') :: st.replaced := by
      rw [heq, hsame]
      exact congrArg (List.cons (inst.id, c')) hreplaced
    refine ⟨?_, ?_, fun other hother hhome hpending => ?_, fun id hid => ?_⟩
    · rw [heq, hwork, hnew]
      exact hlisted
    · rw [heq, hwork]
      exact hknown
    · rw [heq, hwork]
      refine (mem_addUsers _).mpr ?_
      rcases hpending.before hvisited hinst hother with hbefore | ⟨huser, -⟩
      · left
        refine mem_unlisted.mpr ⟨h.pending other hother hhome hbefore, fun hid => hpending.used ?_⟩
        rw [hid]
        exact users_replaced hcons
      · exact .inr ⟨other, huser, rfl⟩
    · rcases hvisited.erased with hold | ⟨hold, -⟩
      · exact users_nil_mono hvisited.extends hvisited.erased_subset (h.unused id (hold ▸ hid))
      · rw [hold] at hid
        rcases List.mem_cons.mp hid with rfl | hid
        · exact users_replaced hcons
        · exact users_nil_mono hvisited.extends hvisited.erased_subset (h.unused id hid)

lemma Visiting.visitAll {home : ℕ → ℕ} {i : ℕ} {worklist : List Inst} (h : Visiting m lib home i st worklist)
    (hworklist : worklist ⊆ m.instructions) : Visiting m lib home i (st.visitAll m lib worklist) [] := by
  unfold PropState.visitAll
  induction worklist generalizing st with
  | nil => exact h
  | cons inst rest ih =>
    exact ih (h.visit (hworklist List.mem_cons_self)) fun other hother => hworklist (List.mem_cons_of_mem _ hother)

lemma nextRound_subset (m : ModuleIR) (ids : List ℕ) :
    (ids.filterMap fun id => m.instructions.find? (·.id == id)) ⊆ m.instructions := by
  intro inst hinst
  obtain ⟨id, -, hfind⟩ := List.mem_filterMap.mp hinst
  exact List.mem_of_find?_eq_some hfind

def cleared (st : PropState) : PropState := { st with newWorkListVec := [] }

lemma find?_of_known {id : ℕ} (h : ∃ inst ∈ m.instructions, inst.id = id) :
    ∃ inst, m.instructions.find? (·.id == id) = some inst ∧ inst.id = id := by
  obtain ⟨inst, hinst, rfl⟩ := h
  cases hfind : m.instructions.find? (·.id == inst.id) with
  | none => exact absurd (List.find?_eq_none.mp hfind inst hinst) (by simp)
  | some other => exact ⟨other, rfl, by simpa using List.find?_some hfind⟩

lemma Visiting.propagate {home : ℕ → ℕ} {i : ℕ} (fuel : ℕ) {worklist : List Inst}
    (h : Visiting m lib home i st.cleared worklist) (hworklist : worklist ⊆ m.instructions)
    (hempty : (propagate m lib fuel st worklist).workList = []) :
    Visiting m lib home i (propagate m lib fuel st worklist).cleared [] := by
  induction fuel generalizing st worklist with
  | zero =>
    rw [PropState.propagate] at hempty ⊢
    refine ⟨fun id hid => ?_, h.known, h.pending, h.unused⟩
    rw [cleared, hempty] at hid
    cases hid
  | succ fuel ih =>
    unfold PropState.propagate at hempty ⊢
    split at hempty
    · next hdone =>
      rw [if_pos hdone]
      refine ⟨fun id hid => ?_, h.known, h.pending, h.unused⟩
      rw [cleared, List.isEmpty_iff.mp hdone] at hid
      cases hid
    · next hmore =>
      rw [if_neg hmore]
      have hround : Visiting m lib home i (PropState.visitAll m lib st.cleared worklist) [] := h.visitAll hworklist
      refine ih ⟨fun id hid => ?_, hround.known, fun other hother hhome hpending =>
        hround.pending other hother hhome (hpending.of_eq rfl rfl), hround.unused⟩ (nextRound_subset m _) hempty
      obtain ⟨inst, hfind, rfl⟩ := find?_of_known (hround.known id hid)
      rcases hround.listed _ hid with hnone | hnew
      · cases hnone
      · exact .inl (List.mem_map.mpr ⟨inst, List.mem_filterMap.mpr ⟨inst.id, hnew, hfind⟩, rfl⟩)

def Settled (m : ModuleIR) (lib : ConstantFolding) (home : ℕ → ℕ) (i : ℕ) (st : PropState) : Prop :=
  ∀ inst ∈ m.instructions, home inst.id = i → inst.id ∉ st.erased → st.users m inst.id ≠ [] →
    ∀ c, st.constantFor m lib inst = some c → convert lib inst.resultType c = none

lemma exists_pending_cast {home : ℕ → ℕ} (hscope : Scoped m home) (hunused : ∀ id ∈ st.erased, st.users m id = [])
    {operand : Operand} {gid : ℕ} (hcoherent : operand.Coherent m.instructions)
    (hglobal : globalOf (st.replaced.subst operand) = some gid) : ∀ owner ∈ m.instructions, owner.id ∉ st.erased →
    operand ∈ owner.operands → (∃ c, st.replaced.subst operand = .constant c) ∨
      ∃ inst ∈ m.instructions, home inst.id = home owner.id ∧ Pending m lib st inst := by
  induction operand with
  | constant c => exact fun _ _ _ _ => .inl ⟨c, rfl⟩
  | argument id => cases hglobal
  | result id =>
    intro owner howner hleft hoperand
    cases hsubst : st.replaced.subst (.result id) with
    | constant c => exact .inl ⟨c, rfl⟩
    | argument _ => rw [hsubst] at hglobal; cases hglobal
    | result _ => rw [hsubst] at hglobal; cases hglobal
    | castResult _ _ =>
      unfold Replacements.subst at hsubst
      split at hsubst <;> cases hsubst
  | castResult id operand ih =>
    intro owner howner hleft hoperand
    obtain ⟨⟨type, hcast⟩, hinner⟩ := hcoherent
    cases hget : st.replaced.get id with
    | some c =>
      left
      exact ⟨c, by simp only [Replacements.subst, hget]⟩
    | none =>
      right
      have hsubst : st.replaced.subst (.castResult id operand) = .castResult id (st.replaced.subst operand) := by
        simp only [Replacements.subst, hget]
      have huser : owner ∈ st.users m id := mem_users.mpr ⟨howner, hleft, hget, _, hoperand, rfl⟩
      have hcastLeft : id ∉ st.erased := by
        intro hgone
        rw [hunused id hgone] at huser
        cases huser
      have hhome : home id = home owner.id := hscope owner howner _ hoperand id rfl
      rw [hsubst] at hglobal
      rcases ih hinner hglobal _ hcast hcastLeft List.mem_cons_self with ⟨c, hc⟩ | ⟨inst, hinst, hsame, hpending⟩
      · refine ⟨_, hcast, hhome, hcastLeft, List.ne_nil_of_mem huser, ?_, .pointerCast c type,
          .pointerCast c type, ?_, ?_⟩
        · intro operand' hoperand'
          obtain rfl := List.mem_singleton.mp hoperand'
          exact ⟨c, hc⟩
        · simp only [constantFor, hc, constantOf]
          rfl
        · exact if_pos rfl
      · exact ⟨inst, hinst, hsame.trans hhome, hpending⟩

lemma constantOf_eq_some {operand : Operand} {c : Constant} (h : constantOf operand = some c) :
    operand = .constant c := by
  cases operand with
  | constant c' =>
    cases h
    rfl
  | argument id => cases h
  | result id => cases h
  | castResult id operand => cases h

lemma constant_of_mapM {operands : List Operand} {consts : List Constant}
    (h : operands.mapM constantOf = some consts) :
    ∀ operand ∈ operands, ∃ c, operand = .constant c := by
  induction operands generalizing consts with
  | nil => exact fun _ hnone => absurd hnone List.not_mem_nil
  | cons operand rest ih =>
    rw [List.mapM_cons] at h
    obtain ⟨c, hc, h⟩ := Option.bind_eq_some_iff.mp h
    obtain ⟨others, hothers, -⟩ := Option.bind_eq_some_iff.mp h
    intro operand' hoperand
    rcases List.mem_cons.mp hoperand with rfl | hoperand
    · exact ⟨c, constantOf_eq_some hc⟩
    · exact ih hothers operand' hoperand

lemma settled_of_not_pending {home : ℕ → ℕ} {i : ℕ} (hscope : Scoped m home)
    (hunused : ∀ id ∈ st.erased, st.users m id = [])
    (hnot : ∀ inst ∈ m.instructions, home inst.id = i → ¬ Pending m lib st inst) : Settled m lib home i st := by
  intro inst hinst hhome hleft hused c hfound
  by_contra hconvert
  obtain ⟨c', hc'⟩ := Option.ne_none_iff_exists'.mp hconvert
  have hconverts : ∃ c c', st.constantFor m lib inst = some c ∧ convert lib inst.resultType c = some c' :=
    ⟨c, c', hfound, hc'⟩
  cases inst with
  | load id type pointer =>
    obtain ⟨gid, hgid, -⟩ := Option.bind_eq_some_iff.mp hfound
    rcases exists_pending_cast hscope hunused (m.coherent _ hinst pointer List.mem_cons_self) hgid _ hinst hleft
      List.mem_cons_self with ⟨c, hc⟩ | ⟨other, hother, hsame, hpending⟩
    · refine hnot _ hinst hhome ⟨hleft, hused, fun operand hoperand => ?_, hconverts⟩
      obtain rfl := List.mem_singleton.mp hoperand
      exact ⟨c, hc⟩
    · exact hnot other hother (hsame.trans hhome) hpending
  | store id size value pointer => cases hfound
  | cast id type operand =>
    refine hnot _ hinst hhome ⟨hleft, hused, fun operand' hoperand => ?_, hconverts⟩
    obtain rfl := List.mem_singleton.mp hoperand
    obtain ⟨c, hc, -⟩ := Option.bind_eq_some_iff.mp hfound
    exact ⟨c, constantOf_eq_some hc⟩
  | operation id type opcode operands =>
    refine hnot _ hinst hhome ⟨hleft, hused, fun operand hoperand => ?_, hconverts⟩
    obtain ⟨consts, hconsts, -⟩ := Option.bind_eq_some_iff.mp hfound
    exact constant_of_mapM hconsts _ (List.mem_map.mpr ⟨operand, hoperand, rfl⟩)

end PropState

end OpenRace
