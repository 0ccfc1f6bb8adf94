import OpenRace.PreProcessing.SettledRounds

/-! What a step of the pass in one function leaves to the others. -/

namespace OpenRace

open LLVM

namespace PropState

variable {m : ModuleIR} {lib : ConstantFolding} {home : ℕ → ℕ} {i : ℕ} {st st' st'' : PropState}

structure Within (m : ModuleIR) (home : ℕ → ℕ) (i : ℕ) (st st' : PropState) : Prop where
  extends_ : Replacements.Extends st.replaced st'.replaced
  others : ∀ id, home id ≠ i → st'.replaced.get id = st.replaced.get id
  erased : st.erased ⊆ st'.erased
  erasedOthers : ∀ id ∈ st'.erased, home id ≠ i → id ∈ st.erased
  overwritten : ∀ id, st.hasGlobalOverwritten m id = true → st'.hasGlobalOverwritten m id = true

lemma Within.of_eq (hreplaced : st'.replaced = st.replaced) (herased : st'.erased = st.erased) :
    Within m home i st st' where
  extends_ := hreplaced ▸ .refl _
  others := fun _ _ => by rw [hreplaced]
  erased := herased ▸ List.Subset.refl _
  erasedOthers := fun _ hid _ => herased ▸ hid
  overwritten := fun id hover => by
    refine hasGlobalOverwritten_mono (hreplaced ▸ .refl _) (fun _ _ _ hleft => ?_) hover
    rwa [herased]

lemma Within.trans (h : Within m home i st st') (h' : Within m home i st' st'') : Within m home i st st'' where
  extends_ := fun id c hget => h'.extends_ id c (h.extends_ id c hget)
  others := fun id hid => (h'.others id hid).trans (h.others id hid)
  erased := List.Subset.trans h.erased h'.erased
  erasedOthers := fun id hgone hid => h.erasedOthers id (h'.erasedOthers id hgone hid) hid
  overwritten := fun id hover => h'.overwritten id (h.overwritten id hover)

lemma Visited.within {inst : Inst} (h : Visited m inst st st') (hinst : inst ∈ m.instructions)
    (hhome : home inst.id = i) :
    Within m home i st st' where
  extends_ := h.extends
  others := by
    intro id hid
    rcases h.replaced with heq | ⟨c, -, heq⟩
    · rw [heq]
    · rw [heq, Replacements.get_cons, if_neg]
      rintro rfl
      exact hid hhome
  erased := h.erased_subset
  erasedOthers := by
    intro id hgone hid
    rcases h.erased with heq | ⟨heq, -⟩
    · exact heq ▸ hgone
    · rw [heq] at hgone
      rcases List.mem_cons.mp hgone with rfl | hgone
      · exact absurd hhome hid
      · exact hgone
  overwritten := h.overwritten hinst

lemma visit_new (hscope : Scoped m home) {inst : Inst} (hhome : home inst.id = i)
    (hnew : ∀ id ∈ st.newWorkListVec, home id = i) : ∀ id ∈ (st.visit m lib inst).newWorkListVec, home id = i := by
  have hadded : ∀ id ∈ ((st.unlisted inst).addUsers (st.users m inst.id)).newWorkListVec, home id = i := by
    intro id hid
    rcases mem_new_addUsers hid with hid | ⟨user, huser, rfl⟩
    · exact hnew id hid
    · obtain ⟨hmem, -, -, operand, hoperand, hoperandId⟩ := mem_users.mp huser
      rw [← hscope user hmem operand hoperand _ hoperandId, hhome]
  rcases visit_cases m lib st inst with ⟨heq, -⟩ | ⟨-, c, -, ⟨-, heq⟩ | ⟨c', -, heq⟩⟩
  · rw [heq]
    exact hnew
  · rw [heq]
    exact hadded
  · obtain ⟨-, -, hsame, -⟩ :=
      @eraseDead_eq m lib (((st.unlisted inst).addUsers (st.users m inst.id)).replace inst.id (some c')) inst
    rw [heq, hsame]
    exact hadded

lemma visitAll_within (hscope : Scoped m home) {worklist : List Inst}
    (hworklist : ∀ inst ∈ worklist, inst ∈ m.instructions ∧ home inst.id = i)
    (hnew : ∀ id ∈ st.newWorkListVec, home id = i) : Within m home i st (st.visitAll m lib worklist) ∧
      ∀ id ∈ (st.visitAll m lib worklist).newWorkListVec, home id = i := by
  unfold PropState.visitAll
  induction worklist generalizing st with
  | nil => exact ⟨.of_eq rfl rfl, hnew⟩
  | cons inst rest ih =>
    obtain ⟨hinst, hhome⟩ := hworklist inst List.mem_cons_self
    obtain ⟨hwithin, hnew'⟩ := ih (fun other hother => hworklist other (List.mem_cons_of_mem _ hother))
      (@visit_new _ lib _ _ _ hscope _ hhome hnew)
    exact ⟨((visit_visited inst).within hinst hhome).trans hwithin, hnew'⟩

lemma propagate_within (hscope : Scoped m home) (fuel : ℕ) {worklist : List Inst}
    (hworklist : ∀ inst ∈ worklist, inst ∈ m.instructions ∧ home inst.id = i) :
    Within m home i st (propagate m lib fuel st worklist) := by
  induction fuel generalizing st worklist with
  | zero => exact .of_eq rfl rfl
  | succ fuel ih =>
    unfold PropState.propagate
    split
    · exact .of_eq rfl rfl
    · obtain ⟨hround, hnew⟩ :=
        @visitAll_within m lib home i st.cleared hscope worklist hworklist fun _ hid => absurd hid List.not_mem_nil
      have hclear : Within m home i st st.cleared := .of_eq rfl rfl
      have hnext : ∀ inst ∈ (st.cleared.visitAll m lib worklist).newWorkListVec.filterMap fun id =>
          m.instructions.find? (·.id == id), inst ∈ m.instructions ∧ home inst.id = i := by
        intro inst hinst
        obtain ⟨id, hid, hfind⟩ := List.mem_filterMap.mp hinst
        have hsame : inst.id = id := by simpa using List.find?_some hfind
        exact ⟨List.mem_of_find?_eq_some hfind, hsame ▸ hnew id hid⟩
      exact hclear.trans (hround.trans (ih hnext))

lemma propagateChanged_fst (fuel : ℕ) (changed : Bool) (worklist : List Inst) :
    (propagateChanged m lib fuel (st, changed) worklist).1 = propagate m lib fuel st worklist := by
  have hvisits (worklist : List Inst) : ∀ state : PropState × Bool,
      (worklist.foldl (visitChanged m lib) state).1 = state.1.visitAll m lib worklist := by
    induction worklist with
    | nil => exact fun _ => rfl
    | cons inst rest ih => exact fun state => ih (visitChanged m lib state inst)
  induction fuel generalizing st changed worklist with
  | zero => rfl
  | succ fuel ih =>
    unfold propagateChanged propagate
    split
    · rfl
    · rw [← hvisits worklist ({ st with newWorkListVec := [] }, changed)]
      exact ih _ _

end PropState

end OpenRace
