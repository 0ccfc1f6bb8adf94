import OpenRace.PreProcessing.PassSteps

/-! What the propagation into a function's arguments changes. -/

namespace OpenRace

open LLVM

namespace LLVM

lemma Operand.replaceArgument_inst {arg id : ℕ} {c : Constant} {operand : Operand}
    (h : (operand.replaceArgument arg c).inst = some id) : operand.inst = some id := by
  cases operand with
  | constant _ => cases h
  | result _ => exact h
  | castResult _ _ => exact h
  | argument id' =>
    rw [Operand.replaceArgument] at h
    split at h <;> cases h

lemma FunctionModule.ir_replaceArgument (m : FunctionModule) (arg : ℕ) (c : Constant) :
    (m.replaceArgument arg c).ir.instructions = m.ir.instructions.map (Inst.replaceArgument arg c) :=
  FunctionModule.insts_replaceArgument m.functions arg c

end LLVM

lemma Replacements.subst_replaceArgument {replaced : Replacements} {operand : Operand} {c c' : Constant} {arg : ℕ}
    (h : replaced.subst operand = .constant c') : replaced.subst (operand.replaceArgument arg c) = .constant c' := by
  cases operand with
  | constant _ => exact h
  | result _ => exact h
  | argument _ => cases h
  | castResult id operand =>
    rw [Replacements.subst] at h
    rw [Operand.replaceArgument, Replacements.subst]
    cases hget : replaced.get id with
    | none =>
      rw [hget] at h
      cases h
    | some c'' =>
      rw [hget] at h
      exact h

namespace PassState

variable {lib : PassLibrary} {s s' s'' : PassState} {i : ℕ}

lemma replaceArgument_changes {arg : ℕ} (c : Constant) (harg : s.module.argFunction arg = i) :
    ChangesIn i s { s with module := s.module.replaceArgument arg c } where
  globals := rfl
  bodies := by
    intro j hj
    have hmap : (s.module.replaceArgument arg c).functions[j]? =
        s.module.functions[j]?.map (FunctionIR.replaceArgument arg c) := List.getElem?_map
    dsimp only
    rw [hmap]
    cases hf : s.module.functions[j]? with
    | none => rfl
    | some f =>
      apply congrArg some
      have hinst (inst : Inst) (hinst : inst ∈ f.insts) : inst.replaceArgument arg c = inst := by
        apply Inst.replaceArgument_eq
        intro operand hoperand
        apply Operand.replaceArgument_eq (s.module.inScope hf inst hinst operand hoperand)
        rw [harg]
        exact hj.symm
      have hsame : f.insts.map (Inst.replaceArgument arg c) = f.insts :=
        (List.map_congr_left hinst).trans (List.map_id' f.insts)
      rw [FunctionIR.replaceArgument, hsame]
  heads := List.map_map
  home := rfl
  argHome := rfl
  replaced := fun _ _ => rfl
  erased := List.Subset.refl _
  overwritten := by
    intro id hover
    obtain ⟨inst, hinst, huser⟩ := List.any_eq_true.mp hover
    obtain ⟨hmem, hleft⟩ := PropState.mem_instructions.mp hinst
    apply List.any_eq_true.mpr
    refine ⟨inst.replaceArgument arg c, PropState.mem_instructions.mpr ⟨?_, ?_⟩, ?_⟩
    · dsimp only
      rw [FunctionModule.ir_replaceArgument]
      exact List.mem_map.mpr ⟨inst, hmem, rfl⟩
    · rw [Inst.replaceArgument_id]
      exact hleft
    · cases inst with
      | store number size value pointer =>
        rw [PropState.isStoreUser] at huser
        rw [Inst.replaceArgument, PropState.isStoreUser]
        obtain ⟨operand, hoperand, hglobal⟩ := List.any_eq_true.mp huser
        apply List.any_eq_true.mpr
        refine ⟨operand.replaceArgument arg c, ?_, ?_⟩
        · exact List.mem_map.mpr ⟨operand, hoperand, rfl⟩
        · split at hglobal
          · next id' type hsubst =>
            have hkept : s.replaced.subst (operand.replaceArgument arg c) = .constant (.global id' type) :=
              Replacements.subst_replaceArgument hsubst
            dsimp only [prop]
            rw [hkept]
            exact hglobal
          · cases hglobal
      | load _ _ _ => cases huser
      | cast _ _ _ => cases huser
      | operation _ _ _ _ => cases huser
  unused := by
    intro id hnil
    apply List.eq_nil_iff_forall_not_mem.mpr
    intro user huser
    obtain ⟨hmem, hleft, hnone, operand, hoperand, hid⟩ := PropState.mem_users.mp huser
    dsimp only at hmem
    rw [FunctionModule.ir_replaceArgument] at hmem
    obtain ⟨old, hold, rfl⟩ := List.mem_map.mp hmem
    rw [Inst.replaceArgument_operands] at hoperand
    obtain ⟨before, hbefore, rfl⟩ := List.mem_map.mp hoperand
    rw [Inst.replaceArgument_id] at hleft
    have holdUser : old ∈ s.instUsers id :=
      PropState.mem_users.mpr ⟨hold, hleft, hnone, before, hbefore, Operand.replaceArgument_inst hid⟩
    rw [hnil] at holdUser
    cases holdUser

structure Made (i : ℕ) (state state' : PassState × Bool) : Prop where
  changes : ChangesIn i state.1 state'.1
  tidy : state.1.Tidy → state'.1.Tidy
  still : state'.2 = false → state.2 = false ∧ state'.1 = state.1

lemma Made.refl (i : ℕ) (state : PassState × Bool) : Made i state state := ⟨.refl i _, id, fun h => ⟨h, rfl⟩⟩

lemma Made.trans {state state' state'' : PassState × Bool} (h : Made i state state') (h' : Made i state' state'') :
    Made i state state'' where
  changes := h.changes.trans h'.changes
  tidy := fun htidy => h'.tidy (h.tidy htidy)
  still := by
    intro hno
    obtain ⟨hno', hsame'⟩ := h'.still hno
    obtain ⟨hno, hsame⟩ := h.still hno'
    exact ⟨hno, hsame'.trans hsame⟩

lemma replaceArgument_made {f : FunctionIR} {state : PassState × Bool} {slot : Argument × ArgumentConstant}
    (harg : state.1.module.argFunction slot.1.id = i) : Made i state (OpenRace.replaceArgument lib f state slot) := by
  obtain ⟨st, made⟩ := state
  obtain ⟨arg, argumentConstant⟩ := slot
  rw [OpenRace.replaceArgument]
  split
  · exact .refl i _
  · have hchange := @replaceArgument_changes st i arg.id (argumentConstant.constant.getD (lib.getUndef arg.type)) harg
    refine ⟨hchange, fun htidy => ?_, nofun⟩
    exact htidy.of_changes hchange fun id hid => .inl hid

lemma replaceArguments_made {f : FunctionIR} (slots : List (Argument × ArgumentConstant)) {state : PassState × Bool}
    (hargs : ∀ slot ∈ slots, state.1.module.argFunction slot.1.id = i) :
    Made i state (slots.foldl (OpenRace.replaceArgument lib f) state) := by
  induction slots generalizing state with
  | nil => exact .refl i state
  | cons slot rest ih =>
    have hmade : Made i state (OpenRace.replaceArgument lib f state slot) :=
      replaceArgument_made (hargs slot List.mem_cons_self)
    apply hmade.trans
    apply ih
    intro other hother
    rw [hmade.changes.argHome]
    exact hargs other (List.mem_cons_of_mem _ hother)

lemma replaceLoad_spec {c : Constant} {load : Inst} (hload : load ∈ s.module.ir.instructions)
    (hhome : s.module.instFunction load.id = i) (hkind : isLoad load = true) :
    ChangesIn i s (replaceLoad lib c s load) ∧ (s.Tidy → (replaceLoad lib c s load).Tidy) ∧
      (replaceLoad lib c s load).module = s.module := by
  let s₁ : PassState := if (s.instUsers load.id).isEmpty then s else { s with replaced := (load.id, c) :: s.replaced }
  have hreplaced : s₁.replaced = s.replaced ∨
      ∃ c, s.replaced.get load.id = none ∧ s₁.replaced = (load.id, c) :: s.replaced := by
    simp only [s₁]
    split
    · exact .inl rfl
    · next hused =>
      obtain ⟨user, huser⟩ := List.exists_mem_of_ne_nil _ fun hnil => hused (List.isEmpty_iff.mpr hnil)
      exact .inr ⟨c, (PropState.mem_users.mp huser).2.2.1, rfl⟩
  have hfirst : s₁.module = s.module ∧ s₁.erased = s.erased := by
    simp only [s₁]
    split <;> exact ⟨rfl, rfl⟩
  have hsteps : replaceLoad lib c s load = if (s₁.instUsers load.id).isEmpty && lib.isRemovable load then
      { s₁ with erased := load.id :: s₁.erased } else s₁ := rfl
  have hvisited : PropState.Visited s.module.ir load s.prop (replaceLoad lib c s load).prop := by
    rw [hsteps]
    constructor
    · split <;> exact hreplaced
    · have hstore : isStore load = false := by
        cases load with
        | load _ _ _ => rfl
        | store _ _ _ _ => cases hkind
        | cast _ _ _ => rfl
        | operation _ _ _ _ => rfl
      split
      · exact .inr ⟨congrArg (List.cons load.id) hfirst.2, hstore⟩
      · exact .inl hfirst.2
  have hmodule : (replaceLoad lib c s load).module = s.module := by
    rw [hsteps]
    split <;> exact hfirst.1
  have hchange : ChangesIn i s (replaceLoad lib c s load) := by
    have hwithin := changesIn_of_within (hvisited.within hload hhome)
    have hsame : (⟨s.module, (replaceLoad lib c s load).replaced, (replaceLoad lib c s load).erased⟩ : PassState) =
        replaceLoad lib c s load := by rw [← hmodule]
    rw [← hsame]
    exact hwithin
  refine ⟨hchange, fun htidy => htidy.of_changes hchange fun id hid => ?_, hmodule⟩
  rw [hsteps] at hid ⊢
  split at hid
  · next hdead =>
    rw [if_pos hdead]
    rw [Bool.and_eq_true] at hdead
    rcases List.mem_cons.mp hid with rfl | hid
    · right
      have hnil : s₁.prop.users s₁.module.ir load.id = [] := List.isEmpty_iff.mp hdead.1
      exact @PropState.users_nil_mono _ s₁.prop (prop ⟨s₁.module, s₁.replaced, load.id :: s₁.erased⟩) (.refl _)
        (List.subset_cons_self _ _) _ hnil
    · exact .inl (hfirst.2 ▸ hid)
  · exact .inl (hfirst.2 ▸ hid)

lemma replaceLoads_spec {c : Constant} (loads : List Inst) :
    ∀ {s : PassState}, (∀ load ∈ loads, load ∈ s.module.ir.instructions ∧ s.module.instFunction load.id = i ∧
      isLoad load = true) → ChangesIn i s (loads.foldl (replaceLoad lib c) s) ∧
      (s.Tidy → (loads.foldl (replaceLoad lib c) s).Tidy) := by
  induction loads with
  | nil => exact fun _ => ⟨.refl i _, id⟩
  | cons load rest ih =>
    intro s hloads
    obtain ⟨hload, hhome, hkind⟩ := hloads load List.mem_cons_self
    obtain ⟨hchange, htidy, hmodule⟩ := @replaceLoad_spec lib s i c load hload hhome hkind
    obtain ⟨hchange', htidy'⟩ := @ih (replaceLoad lib c s load) fun other hother => by
      rw [hmodule]
      exact hloads other (List.mem_cons_of_mem _ hother)
    exact ⟨hchange.trans hchange', fun h => htidy' (htidy h)⟩

lemma loadsFrom_spec {arg : Argument} (harg : s.module.argFunction arg.id = i) {load : Inst}
    (hload : load ∈ loadsFrom s arg) :
    load ∈ s.module.ir.instructions ∧ s.module.instFunction load.id = i ∧ isLoad load = true := by
  rw [loadsFrom] at hload
  split at hload
  · cases hload
  · obtain ⟨huser, hkind⟩ := List.mem_filter.mp hload
    obtain ⟨inst, hinst, hmem⟩ := List.mem_flatMap.mp huser
    obtain ⟨operand, hoperand, rfl⟩ := List.mem_map.mp hmem
    obtain ⟨hoperand, hsame⟩ := List.mem_filter.mp hoperand
    obtain ⟨before, hbefore, rfl⟩ := List.mem_map.mp hoperand
    have hmem := (PropState.mem_instructions.mp hinst).1
    refine ⟨hmem, ?_, hkind⟩
    have hin := FunctionModule.operand_in hmem hbefore
    cases before with
    | constant c => cases hsame
    | argument id =>
      have heq : Operand.argument arg.id = .argument id := beq_iff_eq.mp hsame
      cases heq
      exact hin.symm.trans harg
    | result id =>
      rw [Replacements.subst] at hsame
      split at hsame <;> cases hsame
    | castResult id operand =>
      rw [Replacements.subst] at hsame
      split at hsame <;> cases hsame

lemma propagatePointee_made {arg : Argument} (position : ℕ) (uses : List FunctionUse) :
    ∀ {state state' : PassState × Bool}, state.1.module.argFunction arg.id = i →
      propagatePointee lib i arg position uses state = some state' → Made i state state' := by
  induction uses with
  | nil =>
    intro state state' _ h
    cases h
    exact .refl i _
  | cons use rest ih =>
    rintro ⟨s, made⟩ state' harg h
    cases use with
    | blockAddress => exact ih harg h
    | unknown => cases h
    | callSite site =>
      rw [propagatePointee] at h
      obtain ⟨value, -, h⟩ := Option.bind_eq_some_iff.mp h
      cases hfound : findUniqueDominatedStoreDef lib s i (s.replaced.subst value) site.inst with
      | none =>
        rw [hfound] at h
        cases h
        exact .refl i _
      | some si =>
        rw [hfound] at h
        dsimp only at h
        cases hvalue : (getValueOperand si).bind fun operand => constantOf (s.replaced.subst operand) with
        | none =>
          rw [hvalue] at h
          exact ih harg h
        | some defVal =>
          rw [hvalue] at h
          dsimp only at h
          obtain ⟨hchange, htidy⟩ :=
            @replaceLoads_spec lib i defVal (loadsFrom s arg) s fun load hload => loadsFrom_spec harg hload
          have hmade : Made i (s, made) ((loadsFrom s arg).foldl (replaceLoad lib defVal) s,
              made || !(loadsFrom s arg).isEmpty) := by
            refine ⟨hchange, htidy, fun hno => ?_⟩
            obtain ⟨hno, hempty⟩ := Bool.or_eq_false_iff.mp hno
            have hnil : loadsFrom s arg = [] := by simpa using hempty
            refine ⟨hno, ?_⟩
            dsimp only
            rw [hnil]
            rfl
          apply hmade.trans
          apply ih _ h
          rw [hchange.argHome]
          exact harg

lemma propagatePointees_made (args : List (Argument × ℕ)) :
    ∀ {state state' : PassState × Bool}, (∀ arg ∈ args, state.1.module.argFunction arg.1.id = i) →
      args.foldlM (propagatePointees lib i) state = some state' → Made i state state' := by
  induction args with
  | nil =>
    intro state state' _ h
    cases h
    exact .refl i _
  | cons arg rest ih =>
    intro state state' hargs h
    rw [List.foldlM_cons] at h
    obtain ⟨state₁, hfirst, hrest⟩ := Option.bind_eq_some_iff.mp h
    have hmade : Made i state state₁ := by
      rw [propagatePointees] at hfirst
      split at hfirst
      · exact propagatePointee_made _ _ (hargs arg List.mem_cons_self) hfirst
      · cases hfirst
        exact .refl i _
    apply hmade.trans
    apply ih _ hrest
    intro other hother
    rw [hmade.changes.argHome]
    exact hargs other (List.mem_cons_of_mem _ hother)

lemma propagateConstantsIntoArguments_made {made : Bool}
    (h : propagateConstantsIntoArguments lib s i = some (s', made)) : Made i (s, false) (s', made) := by
  rw [propagateConstantsIntoArguments] at h
  split at h
  · cases h
    exact .refl i _
  · next f hf =>
    have harg := s.module.args_function hf
    split at h
    · cases h
      exact .refl i _
    · split at h
      · cases h
        exact .refl i _
      · next slots hslots =>
        have hmade : Made i (s, false) ((f.args.zip slots).foldl (OpenRace.replaceArgument lib f) (s, false)) := by
          apply replaceArguments_made
          intro slot hslot
          exact harg slot.1 (List.of_mem_zip hslot).1
        dsimp only at h
        split at h
        · apply hmade.trans
          apply propagatePointees_made _ _ h
          intro arg hmem
          rw [hmade.changes.argHome]
          apply harg
          obtain ⟨position, hposition, heq⟩ := List.mem_iff_getElem.mp (List.mem_of_mem_drop hmem)
          rw [← heq]
          simp
        · rw [← Option.some.inj h]
          exact hmade

end PassState

end OpenRace
