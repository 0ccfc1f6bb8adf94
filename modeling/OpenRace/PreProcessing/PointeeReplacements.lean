import OpenRace.PreProcessing.PassCourse

/-! Where the constants for the loads through the arguments of outlined functions come from. -/

namespace OpenRace

open LLVM

structure Pointee where
  load : ℕ
  type : Ty
  function : ℕ
  argument : Argument
  store : ℕ
  constant : Constant

structure FoundAt (lib : PassLibrary) (s : PassState) (p : Pointee) : Prop where
  outlined : ∃ f, s.module.functions[p.function]? = some f ∧ LanguageModel.OpenMPModel.isOutlined f.name = true ∧
    p.argument ∈ f.args.drop 2
  store : ∃ site operand size value pointer, findUniqueDominatedStoreDef lib s p.function (s.replaced.subst operand)
    site = some (.store p.store size value pointer) ∧ constantOf (s.replaced.subst value) = some p.constant
  load : .load p.load p.type (.argument p.argument.id) ∈ loadsFrom s p.argument

structure Propagating (lib : PassLibrary) (i : ℕ) (s₀ s : PassState) : Prop where
  changes : s₀.ChangesIn i s
  comes : ComesFrom s₀.module s.module
  found : ∀ id c, (id, c) ∈ s.replaced → (id, c) ∈ s₀.replaced ∨ ∃ s₁ p, s₀.ChangesIn i s₁ ∧
    ComesFrom s₀.module s₁.module ∧ FoundAt lib s₁ p ∧ p.function = i ∧ p.load = id ∧ p.constant = c

namespace PassState

variable {lib : PassLibrary} {i : ℕ} {s₀ s s' : PassState}

lemma replaceLoad_module (c : Constant) (load : Inst) : (replaceLoad lib c s load).module = s.module := by
  simp only [replaceLoad]
  split_ifs <;> rfl

lemma replaceLoads_module (c : Constant) (loads : List Inst) :
    ∀ {s : PassState}, (loads.foldl (replaceLoad lib c) s).module = s.module := by
  induction loads with
  | nil => exact rfl
  | cons load rest ih =>
    intro s
    rw [List.foldl_cons, ih, replaceLoad_module]

lemma replaceLoad_new {c : Constant} {load : Inst} {id : ℕ} {d : Constant}
    (h : (id, d) ∈ (replaceLoad lib c s load).replaced) : (id, d) ∈ s.replaced ∨ id = load.id ∧ d = c := by
  have hentry : (replaceLoad lib c s load).replaced = s.replaced ∨
      (replaceLoad lib c s load).replaced = (load.id, c) :: s.replaced := by
    simp only [replaceLoad]
    split_ifs <;> simp
  rcases hentry with heq | heq
  · exact .inl (heq ▸ h)
  · rw [heq] at h
    rcases List.mem_cons.mp h with hnew | hold
    · exact .inr (Prod.mk.inj hnew)
    · exact .inl hold

lemma replaceLoads_new {c : Constant} (loads : List Inst) : ∀ {s : PassState} {id : ℕ} {d : Constant},
    (id, d) ∈ (loads.foldl (replaceLoad lib c) s).replaced → (id, d) ∈ s.replaced ∨
      (∃ load ∈ loads, id = load.id) ∧ d = c := by
  induction loads with
  | nil => exact fun h => .inl h
  | cons load rest ih =>
    intro s id d h
    rcases ih h with hbefore | ⟨⟨other, hother, hid⟩, hd⟩
    · rcases replaceLoad_new hbefore with hold | ⟨hid, hd⟩
      · exact .inl hold
      · exact .inr ⟨⟨load, List.mem_cons_self, hid⟩, hd⟩
    · exact .inr ⟨⟨other, List.mem_cons_of_mem _ hother, hid⟩, hd⟩

lemma loadsFrom_pointer {arg : Argument} {load : Inst} (h : load ∈ loadsFrom s arg) :
    ∃ id type, load = .load id type (.argument arg.id) := by
  rw [loadsFrom] at h
  split at h
  · cases h
  · obtain ⟨huser, hkind⟩ := List.mem_filter.mp h
    obtain ⟨inst, -, hmem⟩ := List.mem_flatMap.mp huser
    obtain ⟨operand, hoperand, rfl⟩ := List.mem_map.mp hmem
    obtain ⟨hoperand, hsame⟩ := List.mem_filter.mp hoperand
    cases inst with
    | load id type pointer =>
      obtain ⟨before, hbefore, rfl⟩ := List.mem_map.mp hoperand
      rw [List.mem_singleton.mp hbefore] at hsame
      refine ⟨id, type, ?_⟩
      cases pointer with
      | argument number =>
        have heq : Operand.argument arg.id = .argument number := beq_iff_eq.mp hsame
        rw [heq]
      | constant c => cases hsame
      | result number =>
        rw [Replacements.subst] at hsame
        split at hsame <;> cases hsame
      | castResult number operand =>
        rw [Replacements.subst] at hsame
        split at hsame <;> cases hsame
    | store _ _ _ _ => cases hkind
    | cast _ _ _ => cases hkind
    | operation _ _ _ _ => cases hkind

lemma findUniqueDominatedStoreDef_store {tree site : ℕ} {value : Operand} {si : Inst}
    (h : findUniqueDominatedStoreDef lib s tree value site = some si) :
    si ∈ s.module.ir.instructions ∧ isStore si = true := by
  rw [findUniqueDominatedStoreDef] at h
  cases hstores : (s.users value).filter fun user => isStore user && lib.dominates s tree user.id site with
  | nil =>
    rw [hstores] at h
    cases h
  | cons first rest =>
    have hmem : first ∈ (s.users value).filter fun user => isStore user && lib.dominates s tree user.id site := by
      rw [hstores]
      exact List.mem_cons_self
    rw [hstores] at h
    cases rest with
    | cons _ _ => cases h
    | nil =>
      cases h
      obtain ⟨huser, hkind⟩ := List.mem_filter.mp hmem
      obtain ⟨inst, hinst, hmem⟩ := List.mem_flatMap.mp huser
      obtain ⟨-, -, rfl⟩ := List.mem_map.mp hmem
      exact ⟨(PropState.mem_instructions.mp hinst).1, (Bool.and_eq_true_iff.mp hkind).1⟩

lemma replaceArguments_replaced {f : FunctionIR} (slots : List (Argument × ArgumentConstant)) :
    ∀ {state : PassState × Bool},
      (slots.foldl (OpenRace.replaceArgument lib f) state).1.replaced = state.1.replaced := by
  induction slots with
  | nil => exact rfl
  | cons slot rest ih =>
    intro state
    have hfirst : (OpenRace.replaceArgument lib f state slot).1.replaced = state.1.replaced := by
      rw [OpenRace.replaceArgument]
      split <;> rfl
    rw [List.foldl_cons, ih, hfirst]

lemma propagatePointee_propagating {f : FunctionIR} {arg : Argument} {position : ℕ}
    (hf : s₀.module.functions[i]? = some f) (houtlined : LanguageModel.OpenMPModel.isOutlined f.name = true)
    (harg : arg ∈ f.args.drop 2) (uses : List FunctionUse) : ∀ {state state' : PassState × Bool},
      Propagating lib i s₀ state.1 → propagatePointee lib i arg position uses state = some state' →
        Propagating lib i s₀ state'.1 := by
  induction uses with
  | nil =>
    intro state state' hstate h
    cases h
    exact hstate
  | cons use rest ih =>
    rintro ⟨s, made⟩ state' hstate h
    cases use with
    | blockAddress => exact ih hstate h
    | unknown => cases h
    | callSite site =>
      rw [propagatePointee] at h
      obtain ⟨operand, -, h⟩ := Option.bind_eq_some_iff.mp h
      cases hfound : findUniqueDominatedStoreDef lib s i (s.replaced.subst operand) site.inst with
      | none =>
        rw [hfound] at h
        cases h
        exact hstate
      | some si =>
        rw [hfound] at h
        dsimp only at h
        cases hvalue : (getValueOperand si).bind fun operand => constantOf (s.replaced.subst operand) with
        | none =>
          rw [hvalue] at h
          exact ih hstate h
        | some defVal =>
          rw [hvalue] at h
          dsimp only at h
          refine ih ?_ h
          have hhome : s.module.argFunction arg.id = i := by
            rw [hstate.changes.argHome]
            exact s₀.module.args_function hf arg (List.mem_of_mem_drop harg)
          have hloads := @replaceLoads_spec lib i defVal (loadsFrom s arg) s
            fun load hload => loadsFrom_spec hhome hload
          refine ⟨hstate.changes.trans hloads.1, ?_, ?_⟩
          · dsimp only
            rw [replaceLoads_module]
            exact hstate.comes
          intro id c hentry
          rcases replaceLoads_new _ hentry with hbefore | ⟨⟨load, hload, rfl⟩, rfl⟩
          · exact hstate.found id c hbefore
          · right
            obtain ⟨number, type, hpointer⟩ := loadsFrom_pointer hload
            have hstore := (findUniqueDominatedStoreDef_store hfound).2
            cases si with
            | load _ _ _ => cases hstore
            | cast _ _ _ => cases hstore
            | operation _ _ _ _ => cases hstore
            | store store size value pointer =>
              refine ⟨s, ⟨load.id, type, i, arg, store, c⟩, hstate.changes, hstate.comes, ⟨?_, ?_, ?_⟩, rfl, rfl, rfl⟩
              · have hhead := congrArg (·[i]?) hstate.comes.heads
                simp only [List.getElem?_map, hf] at hhead
                obtain ⟨g, hg, hsame⟩ := Option.map_eq_some_iff.mp hhead
                have hname : (head g).name = (head f).name := congrArg _ hsame
                have hargs : (head g).args = (head f).args := congrArg _ hsame
                refine ⟨g, hg, ?_, ?_⟩
                · rw [show g.name = f.name from hname]
                  exact houtlined
                · rw [show g.args = f.args from hargs]
                  exact harg
              · exact ⟨site.inst, operand, size, value, pointer, hfound, hvalue⟩
              · rw [hpointer] at hload ⊢
                exact hload

lemma propagateConstantsIntoArguments_found {made : Bool}
    (h : propagateConstantsIntoArguments lib s i = some (s', made)) : Propagating lib i s s' := by
  have hstart : Propagating lib i s s := ⟨.refl i s, .refl _, fun id c hentry => .inl hentry⟩
  rw [propagateConstantsIntoArguments] at h
  split at h
  · cases h
    exact hstart
  · next f hf =>
    split at h
    · cases h
      exact hstart
    · split at h
      · cases h
        exact hstart
      · next slots hslots =>
        have hhome (slot : Argument × ArgumentConstant) (hslot : slot ∈ f.args.zip slots) :
            s.module.argFunction slot.1.id = i := s.module.args_function hf slot.1 (List.of_mem_zip hslot).1
        have hreplaced :
            Propagating lib i s ((f.args.zip slots).foldl (OpenRace.replaceArgument lib f) (s, false)).1 := by
          refine ⟨(@replaceArguments_made lib i f _ (s, false) hhome).changes,
            @ComesFrom.replaceArguments lib f _ (s, false), ?_⟩
          intro id c hentry
          rw [replaceArguments_replaced] at hentry
          exact .inl hentry
        dsimp only at h
        split at h
        · next houtlined =>
          have hargs (arg : Argument × ℕ) (harg : arg ∈ f.args.zipIdx.drop 2) : arg.1 ∈ f.args.drop 2 := by
            have hmap : (f.args.zipIdx.drop 2).map Prod.fst = f.args.drop 2 := by
              rw [List.map_drop, List.zipIdx_map_fst]
            rw [← hmap]
            exact List.mem_map.mpr ⟨arg, harg, rfl⟩
          refine @foldlM_keeps _ _ (fun state => Propagating lib i s state.1) _ _ ?_ _ _ hreplaced h
          intro arg harg state state' hstate hstep
          rw [propagatePointees] at hstep
          split at hstep
          · exact propagatePointee_propagating hf houtlined (hargs arg harg) _ hstate hstep
          · cases hstep
            exact hstate
        · rw [Option.some.inj h] at hreplaced
          exact hreplaced

end PassState

end OpenRace
