import OpenRace.PointerAnalysis.Program.CallGraphRuns

/-! The call graph after its construction and any sequence of resolved calls. -/

namespace OpenRace.CtxModule

variable {Ctx Fn Inst Val : Type} [DecidableEq Ctx] [DecidableEq Fn] [DecidableEq Inst]

def analyze (P : Program Ctx Fn Inst Val) (maxIndirectTarget fuel : ℕ) (resolutions : List (Resolution Ctx Fn Inst)) :
    Except Failure (State Ctx Fn Inst Val) := do
  let st ← buildInitCallGraph P fuel
  resolutions.foldlM (fun st r => resolve P st maxIndirectTarget fuel r) st

variable (P : Program Ctx Fn Inst Val)

def Program.ToExpand (targets : List Fn) (c : Ctx) (f : Fn) : Prop :=
  c = P.initialCtx ∧ f = P.entry ∨ P.hasBody f = true ∧ ∃ g, P.Called targets g ∧ P.Redirects g f .expandBody

structure Built (targets : List Fn) (st : State Ctx Fn Inst Val) : Prop where
  unique : ∀ n m c f isExt isExt', st.IsFun n c f isExt → st.IsFun m c f isExt' → n = m
  once : st.visited.Nodup
  expanded : ∀ n c f isExt, st.IsFun n c f isExt → (n ∈ st.visited ↔ P.ToExpand targets c f)
  linked : ∀ n c f isExt, st.IsFun n c f isExt → P.ToExpand targets c f → ∀ cs ∈ P.calls f, Linked P st n c cs

/-- Called functions whose calls lead to one function agree on whether its body is to be expanded. -/
def Program.Uniform (targets : List Fn) : Prop :=
  ∀ f f' g option option', P.Called targets f → P.Called targets f' → P.hasBody g = true → P.Redirects f g option →
    P.Redirects f' g option' → option = .expandBody → option' = .expandBody

/-- No other target of the call is called in place of the same function. -/
def Apart (maxIndirectTarget : ℕ) (st : State Ctx Fn Inst Val) (r : Resolution Ctx Fn Inst) : Prop :=
  ∀ node, st.ctxFunPtrMap.lookup (r.context, r.callSite) = some node →
    ¬ (r.applyLimit = true ∧ maxIndirectTarget ≤ (st.targets.filter (·.1 = node)).length) →
    ∀ t, (node, t) ∈ st.targets → t ≠ r.target →
      ∀ g option option', P.Redirects t g option → ¬ P.Redirects r.target g option'

variable {P} {targets : List Fn} {st : State Ctx Fn Inst Val}

lemma Inv.expanded_iff (h : Inv P targets st []) (hP : P.Uniform targets) {n : ℕ} {c : Ctx} {f : Fn}
    {ext : Bool} (hf : st.IsFun n c f ext) : n ∈ st.visited ↔ P.ToExpand targets c f := by
  have hvisited : n ∈ st.visited ↔ ext = false := by
    have hexp := h.expanding n
    rw [List.append_nil] at hexp
    rw [hexp]
    constructor
    · rintro ⟨c', f', hf'⟩
      exact (hf.inj hf').2.2
    · rintro rfl
      exact ⟨c, f, hf⟩
  rw [hvisited]
  constructor
  · rintro rfl
    rcases h.made n c f false hf with rfl | ⟨g, option, hg, hto, hoption⟩
    · obtain ⟨rfl, rfl, -⟩ := hf.inj h.entry
      exact .inl ⟨rfl, rfl⟩
    · obtain ⟨rfl, hbody⟩ := hoption.mp rfl
      exact .inr ⟨hbody, g, hg, hto⟩
  · rintro (⟨rfl, rfl⟩ | ⟨hbody, g, hg, hto⟩)
    · obtain rfl := h.unique hf h.entry
      exact (hf.inj h.entry).2.2
    · rcases h.made n c f ext hf with rfl | ⟨g', option, hg', hto', hoption⟩
      · exact (hf.inj h.entry).2.2
      · exact hoption.mpr ⟨hP g g' f _ option hg hg' hbody hto hto' rfl, hbody⟩

lemma Inv.built (h : Inv P targets st []) (hP : P.Uniform targets) : Built P targets st where
  unique := fun _ _ _ _ _ _ hn hm => h.unique hn hm
  once := by
    have hnodup := h.nodup
    rwa [List.append_nil] at hnodup
  expanded := fun _ _ _ _ hf => h.expanded_iff hP hf
  linked := fun n c f ext hf hexp cs hcs => h.linked n ((h.expanded_iff hP hf).mpr hexp) c f ext hf cs hcs

variable [Fintype Ctx] [Fintype Fn] {maxIndirectTarget fuel : ℕ}

lemma Inv.resolve (h : Inv P targets st []) (r : Resolution Ctx Fn Inst) (htarget : r.target ∈ targets)
    (hr : Apart P maxIndirectTarget st r) (hfuel : Fintype.card (Ctx × Fn) < fuel) :
    ∃ st', CtxModule.resolve P st maxIndirectTarget fuel r = .ok st' ∧ Inv P targets st' [] := by
  unfold CtxModule.resolve
  split
  · exact ⟨st, rfl, h⟩
  · next node hnode =>
    split
    · exact ⟨st, rfl, h⟩
    · next hlimit =>
      split
      · exact ⟨st, rfl, h⟩
      · next hknown =>
        have hp := (h.funPtrMap _ _ node).mp hnode
        have hnew : ∀ g option, P.Redirects r.target g option → ∀ m ext, (node, m) ∈ st.resolvedNode →
            ¬ st.IsFun m (P.contextEvolve r.context r.callSite) g ext := by
          intro g option hg m ext hm hf
          obtain ⟨t, g', option', c, i, ext', ht, hg', hp', hf'⟩ := h.resolved node m hm
          obtain ⟨rfl, rfl⟩ := hp.inj hp'
          obtain ⟨-, rfl, -⟩ := hf'.inj hf
          refine hr node hnode (by simpa using hlimit) t ht ?_ g' option' option hg' hg
          rintro rfl
          exact hknown ht
        obtain ⟨st', hok, hinv, -⟩ :=
          (h.addTarget node r.target).resolveCallTo (.resolved htarget) hp List.mem_cons_self hnew hfuel
        exact ⟨st', hok, hinv⟩

omit [Fintype Ctx] [Fintype Fn] in
lemma analyze_append (rs : List (Resolution Ctx Fn Inst)) (r : Resolution Ctx Fn Inst) :
    analyze P maxIndirectTarget fuel (rs ++ [r]) =
      analyze P maxIndirectTarget fuel rs >>= fun st => resolve P st maxIndirectTarget fuel r := by
  simp [analyze]

lemma analyze_inv (hfuel : Fintype.card (Ctx × Fn) < fuel) (rs : List (Resolution Ctx Fn Inst)) :
    (∀ r ∈ rs, r.target ∈ targets) → (∀ pre r, pre ++ [r] <+: rs → ∀ st, analyze P maxIndirectTarget fuel pre = .ok st →
      Apart P maxIndirectTarget st r) →
    ∃ st, analyze P maxIndirectTarget fuel rs = .ok st ∧ Inv P targets st [] := by
  induction rs using List.reverseRecOn with
  | nil =>
    intro _ _
    obtain ⟨st, hok, hinv, -⟩ := (entryState_inv P targets).expand fuel (hfuel.trans_le (Nat.le_add_right _ _))
    refine ⟨st, ?_, hinv⟩
    unfold analyze buildInitCallGraph
    rw [hok]
    rfl
  | append_singleton rs r ih =>
    intro htargets hapart
    obtain ⟨st, hok, hinv⟩ := ih (fun r' hr' => htargets r' (List.mem_append_left _ hr'))
      fun pre r' hpre => hapart pre r' (hpre.trans (List.prefix_append _ _))
    have htarget : r.target ∈ targets := htargets r (by simp)
    obtain ⟨st', hok', hinv'⟩ := hinv.resolve r htarget (hapart rs r (List.prefix_refl _) st hok) hfuel
    refine ⟨st', ?_, hinv'⟩
    rw [analyze_append, hok]
    exact hok'

/-- The graph stands after any sequence of resolutions that are each apart from the targets known by then. -/
theorem analyze_built (P : Program Ctx Fn Inst Val) (hfuel : Fintype.card (Ctx × Fn) < fuel)
    (rs : List (Resolution Ctx Fn Inst)) (hP : P.Uniform (rs.map Resolution.target))
    (hapart : ∀ pre r, pre ++ [r] <+: rs → ∀ st, analyze P maxIndirectTarget fuel pre = .ok st →
      Apart P maxIndirectTarget st r) :
    ∃ st, analyze P maxIndirectTarget fuel rs = .ok st ∧ Built P (rs.map Resolution.target) st := by
  obtain ⟨st, hok, hinv⟩ := analyze_inv hfuel rs (fun r hr => List.mem_map_of_mem hr) hapart
  exact ⟨st, hok, hinv.built hP⟩

/-- The entry calls a function pointer; calls of the next two functions are calls of the last one. -/
def merged : Program Unit (Fin 4) Unit Empty where
  calls f := if f = 0 then [⟨(), .indirect⟩] else []
  distinct := by
    intro f g cs cs' hf hg _
    split at hf
    · split at hg
      · next hf0 hg0 => rw [hf0, hg0]
      · cases hg
    · cases hf
  hasBody _ := true
  entry := 0
  entry_hasBody := rfl
  initialCtx := ()
  contextEvolve _ _ := ()
  intercept f := ⟨.function (if f = 0 then 0 else 3), .expandBody⟩

def mergedResolution (target : Fin 4) : Resolution Unit (Fin 4) Unit := ⟨(), (), target, false⟩

lemma merged_uniform (targets : List (Fin 4)) : merged.Uniform targets := by
  rintro f f' g option option' - - - - ⟨hg', -⟩ -
  exact (congrArg InterceptResult.option hg').symm

theorem analyze_built_one : ∃ st, analyze merged 5 5 [mergedResolution 1] = .ok st ∧ Built merged [1] st := by
  refine analyze_built merged (by decide) [mergedResolution 1] (merged_uniform [1]) ?_
  intro pre r hpre st hst
  obtain rfl : pre = [] := by
    have hlength := hpre.length_le
    rw [List.length_append] at hlength
    exact List.length_eq_zero_iff.mp (by simpa using hlength)
  cases hst
  exact fun node _ _ t ht => absurd ht List.not_mem_nil

/-- The second target leads to the node that the first one led to. -/
theorem merged_aborts : merged.Uniform [1, 2] ∧
    analyze merged 5 5 [mergedResolution 1, mergedResolution 2] = .error .assertion ∧
    ∀ fuel st, analyze merged 5 fuel [mergedResolution 1, mergedResolution 2] ≠ .ok st := by
  refine ⟨merged_uniform [1, 2], rfl, ?_⟩
  intro fuel st
  rcases fuel with _ | _ | fuel
  · exact nofun
  · exact nofun
  · exact nofun

end OpenRace.CtxModule
