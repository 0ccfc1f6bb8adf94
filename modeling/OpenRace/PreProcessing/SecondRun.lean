import OpenRace.PreProcessing.ArgumentSteps

/-! When a second run of the constant propagation finds nothing to do. -/

namespace OpenRace

open LLVM

namespace PassState

variable {lib : PassLibrary} {fuel : ℕ} {s s' : PassState} {i : ℕ}

structure Later (s s' : PassState) : Prop where
  heads : s'.module.functions.map head = s.module.functions.map head
  tidy : s.Tidy → s'.Tidy

lemma Later.refl (s : PassState) : Later s s := ⟨rfl, id⟩

lemma Later.trans {s'' : PassState} (h : Later s s') (h' : Later s' s'') : Later s s'' :=
  ⟨h'.heads.trans h.heads, fun htidy => h'.tidy (h.tidy htidy)⟩

lemma scanFunctions_spec (functions : List ℕ) : ∀ {state state' : PassState × UserEdges}, state.1.Tidy →
    functions.foldlM (scanFunction lib fuel) state = some state' → Later state.1 state'.1 ∧
      (∀ j, state.1.SettledIn lib.toConstantFolding j → state'.1.SettledIn lib.toConstantFolding j) ∧
      ∀ j ∈ functions, state'.1.SettledIn lib.toConstantFolding j := by
  induction functions with
  | nil =>
    intro state state' _ h
    cases h
    exact ⟨.refl _, fun _ h => h, fun j hj => absurd hj List.not_mem_nil⟩
  | cons i rest ih =>
    intro state state' htidy h
    rw [List.foldlM_cons] at h
    obtain ⟨state₁, hfirst, hrest⟩ := Option.bind_eq_some_iff.mp h
    rw [scanFunction] at hfirst
    obtain ⟨⟨s₁, made⟩, hintra, hscan⟩ := Option.bind_eq_some_iff.mp hfirst
    obtain ⟨hchange, htidy₁, hsettled⟩ := intraConstantProp_spec htidy hintra
    have hstate : state₁.1 = s₁ := by
      dsimp only at hscan
      cases hf : s₁.module.functions[i]? with
      | none =>
        rw [hf] at hscan
        cases hscan
        rfl
      | some f =>
        rw [hf] at hscan
        cases hscan
        rfl
    rw [← hstate] at hchange htidy₁ hsettled
    obtain ⟨hlater, hkept, hall⟩ := ih htidy₁ hrest
    have hfirstKept (j : ℕ) (hj : state.1.SettledIn lib.toConstantFolding j) :
        state₁.1.SettledIn lib.toConstantFolding j := by
      by_cases hij : j = i
      · rw [hij]
        exact hsettled
      · exact hchange.settledIn hij hj
    refine ⟨Later.trans ⟨hchange.heads, fun _ => htidy₁⟩ hlater, fun j hj => hkept j (hfirstKept j hj), ?_⟩
    intro j hj
    rcases List.mem_cons.mp hj with rfl | hj
    · exact hkept _ hsettled
    · exact hall j hj

def DoneWith (lib : PassLibrary) (s : PassState) (i : ℕ) : Prop :=
  (s.module.functions[i]?).any FunctionIR.isDeclaration = true ∨
    propagateConstantsIntoArguments lib s i = some (s, false)

structure RoundSpec (lib : PassLibrary) (functions : List ℕ) (state state' : RoundState) : Prop where
  later : Later state.st state'.st
  changed : state.changedFunction ⊆ state'.changedFunction
  kept : ∀ j ∉ state'.changedFunction, state.st.SettledIn lib.toConstantFolding j →
    state'.st.SettledIn lib.toConstantFolding j
  still : state'.argPropagated = false → state.argPropagated = false ∧ state'.st = state.st ∧
    ∀ i ∈ functions, DoneWith lib state.st i

lemma propagateInto_spec {state state' : RoundState} (h : propagateInto lib state i = some state') :
    RoundSpec lib [i] state state' := by
  rw [propagateInto] at h
  split at h
  · next hdeclared =>
    cases h
    refine ⟨.refl _, List.Subset.refl _, fun _ _ h => h, fun hno => ⟨hno, rfl, fun j hj => ?_⟩⟩
    rw [List.mem_singleton.mp hj]
    exact .inl hdeclared
  · obtain ⟨⟨s₁, made⟩, hargs, hstate⟩ := Option.bind_eq_some_iff.mp h
    cases hstate
    have hmade := propagateConstantsIntoArguments_made hargs
    refine ⟨⟨hmade.changes.heads, hmade.tidy⟩, ?_, ?_, ?_⟩
    · dsimp only
      split
      · exact fun j hj => List.mem_insert_of_mem hj
      · exact List.Subset.refl _
    · intro j hj hsettled
      by_cases hij : j = i
      · cases made with
        | true => exact absurd (hij ▸ List.mem_insert_self) hj
        | false =>
          have hsame : s₁ = state.st := (hmade.still rfl).2
          dsimp only
          rw [hsame]
          exact hsettled
      · exact hmade.changes.settledIn hij hsettled
    · intro hno
      obtain ⟨hbefore, hmadeNo⟩ := Bool.or_eq_false_iff.mp hno
      have hsame : s₁ = state.st := (hmade.still hmadeNo).2
      refine ⟨hbefore, hsame, fun j hj => ?_⟩
      rw [List.mem_singleton.mp hj]
      right
      rw [hargs, hsame, hmadeNo]

lemma round_spec (functions : List ℕ) : ∀ {state state' : RoundState},
    functions.foldlM (propagateInto lib) state = some state' → RoundSpec lib functions state state' := by
  induction functions with
  | nil =>
    intro state state' h
    cases h
    exact ⟨.refl _, List.Subset.refl _, fun _ _ h => h, fun h => ⟨h, rfl, fun j hj => absurd hj List.not_mem_nil⟩⟩
  | cons i rest ih =>
    intro state state' h
    rw [List.foldlM_cons] at h
    obtain ⟨state₁, hfirst, hrest⟩ := Option.bind_eq_some_iff.mp h
    have hone := propagateInto_spec hfirst
    have hmore := ih hrest
    refine ⟨hone.later.trans hmore.later, List.Subset.trans hone.changed hmore.changed, ?_, ?_⟩
    · intro j hj hsettled
      exact hmore.kept j hj (hone.kept j (fun hj₁ => hj (hmore.changed hj₁)) hsettled)
    · intro hno
      obtain ⟨hno₁, hsame₁, hdone₁⟩ := hmore.still hno
      obtain ⟨hno₀, hsame₀, hdone₀⟩ := hone.still hno₁
      refine ⟨hno₀, hsame₁.trans hsame₀, fun j hj => ?_⟩
      rcases List.mem_cons.mp hj with rfl | hj
      · exact hdone₀ _ List.mem_cons_self
      · rw [← hsame₀]
        exact hdone₁ j hj

lemma argumentRounds_spec (rounds : ℕ) : ∀ {s s' : PassState} {work changed changed' : List ℕ},
    argumentRounds lib rounds s work changed = some (s', changed') → Later s s' ∧ changed ⊆ changed' ∧
      (∀ j ∉ changed', s.SettledIn lib.toConstantFolding j → s'.SettledIn lib.toConstantFolding j) ∧
      ∀ i ∈ work, DoneWith lib s' i := by
  induction rounds with
  | zero =>
    intro s s' work changed changed' h
    cases h
  | succ rounds ih =>
    intro s s' work changed changed' h
    rw [argumentRounds] at h
    obtain ⟨state, hround, h⟩ := Option.bind_eq_some_iff.mp h
    have hspec := round_spec _ hround
    split at h
    · obtain ⟨hlater, hsub, hkept, hdone⟩ := ih h
      refine ⟨hspec.later.trans hlater, List.Subset.trans hspec.changed hsub, fun j hj hsettled => ?_, hdone⟩
      exact hkept j hj (hspec.kept j (fun hj' => hj (hsub hj')) hsettled)
    · next hno =>
      cases h
      obtain ⟨-, hsame, hdone⟩ := hspec.still (by simpa using hno)
      refine ⟨hspec.later, hspec.changed, hspec.kept, fun j hj => ?_⟩
      rw [hsame]
      exact hdone j (lib.mem_order.mpr hj)

lemma propagateInside_settled {edges : UserEdges} (hfuel : 2 ≤ fuel) (htidy : s.Tidy) (functions : List ℕ) :
    ∀ {functionChanged : Bool} {work : List ℕ}, (∀ i ∈ functions, s.SettledIn lib.toConstantFolding i) →
    ∃ functionChanged' work', functions.foldlM (propagateInside lib fuel edges) ⟨s, functionChanged, work⟩ =
      some ⟨s, functionChanged', work'⟩ := by
  induction functions with
  | nil => exact fun _ => ⟨_, _, rfl⟩
  | cons i rest ih =>
    intro functionChanged work hsettled
    obtain ⟨made, hmade⟩ := (hsettled i List.mem_cons_self).intraConstantProp htidy hfuel
    rw [List.foldlM_cons, propagateInside, hmade]
    exact ih fun j hj => hsettled j (List.mem_cons_of_mem _ hj)

lemma order_nil (lib : PassLibrary) : lib.order [] = [] :=
  List.eq_nil_iff_forall_not_mem.mpr fun _ hi => absurd (lib.mem_order.mp hi) List.not_mem_nil

lemma whileFunctionsChange_settled {edges : UserEdges} (hfuel : 2 ≤ fuel) (htidy : s.Tidy) {changed : List ℕ}
    (hsettled : ∀ i ∈ changed, s.SettledIn lib.toConstantFolding i) {rounds : ℕ} {s₀ out : PassState} {work : List ℕ}
    (hrounds : argumentRounds lib fuel s₀ work [] = some (s, changed))
    (h : whileFunctionsChange lib fuel edges rounds s₀ true work = some out) : out = s := by
  cases rounds with
  | zero => cases h
  | succ rounds =>
    rw [whileFunctionsChange, if_pos rfl, hrounds] at h
    obtain ⟨functionChanged, work', hinside⟩ :=
      @propagateInside_settled lib fuel s edges hfuel htidy (lib.order changed)
      false [] fun i hi => hsettled i (lib.mem_order.mp hi)
    change (List.foldlM (propagateInside lib fuel edges) ⟨s, false, []⟩ (lib.order changed) >>= _) = _ at h
    rw [hinside] at h
    change (if functionChanged = true then whileFunctionsChange lib fuel edges rounds s false work' else some s) = _ at h
    split at h
    · cases rounds with
      | zero => cases h
      | succ rounds =>
        rw [whileFunctionsChange, if_neg Bool.false_ne_true] at h
        change (List.foldlM (propagateInside lib fuel edges) ⟨s, false, []⟩ (lib.order []) >>= _) = _ at h
        rw [order_nil] at h
        exact (Option.some.inj h).symm
    · exact (Option.some.inj h).symm

end PassState

end OpenRace
