import OpenRace.PointerAnalysis.Program.CallGraphInvariant
import Mathlib.Data.Fintype.Prod

/-! Building a call graph and resolving its indirect calls. -/

namespace OpenRace.CtxModule

variable {Ctx Fn Inst Val : Type} [DecidableEq Ctx] [DecidableEq Fn] [DecidableEq Inst]
variable {P : Program Ctx Fn Inst Val} {targets : List Fn} {st : State Ctx Fn Inst Val}

omit [DecidableEq Ctx] [DecidableEq Fn] in
lemma createEdge_visited (st : State Ctx Fn Inst Val) (s d : ℕ) (i : Inst) :
    (st.createEdge s d i).visited = st.visited := by
  rw [createEdge_eq]

lemma Inv.visitCallSite {n : ℕ} {queue : List ℕ} (h : Inv P targets st (n :: queue)) {c : Ctx} {f : Fn} {ext : Bool}
    (hn : st.IsFun n c f ext) {cs : CallSite Fn Inst} (hcs : cs ∈ P.calls f) :
    let r := visitCallSite P n c (st, queue) cs
    Inv P targets r.1 (n :: r.2) ∧ st.Extends r.1 ∧ Linked P r.1 n c cs ∧ r.1.visited = st.visited := by
  have hcaller : CallerOf P st n c cs.inst := ⟨f, ext, hn, cs, hcs, rfl⟩
  obtain ⟨c', f', hexpanded⟩ := (h.expanding n).mp (List.mem_append_right _ List.mem_cons_self)
  obtain ⟨rfl, rfl, rfl⟩ := hn.inj hexpanded
  unfold CtxModule.visitCallSite Linked
  dsimp only
  cases hcallee : cs.callee with
  | indirect =>
    obtain ⟨hinv, he, hedge, hp⟩ := h.callIndirect none hcaller
    have hvisited := (st.getOrCreateInDirectCallNode_eq c cs.inst none).1
    exact ⟨hinv, he, ⟨_, hedge, hp⟩, (createEdge_visited _ _ _ _).trans hvisited⟩
  | inlineAsm => exact ⟨h, .refl st, trivial, rfl⟩
  | direct g =>
    have hcalled := h.calls_called hn hcs hcallee
    rcases h.callDirect hcalled hcaller with
      ⟨heq, hignore⟩ | ⟨st', node, isNew, heq, -, hinv, he, hedge, hreach, hvisited, -⟩
    · dsimp only
      rw [heq]
      exact ⟨h, .refl st, .inl hignore, rfl⟩
    · dsimp only
      rw [heq]
      refine ⟨?_, he, .inr ⟨node, hedge, ?_⟩, (createEdge_visited _ _ _ _).trans hvisited⟩
      · cases isNew with
        | false => exact hinv
        | true => exact hinv
      · cases hto : (P.intercept g).redirectTo with
        | function g' => rwa [hto] at hreach
        | pointer value => rwa [hto] at hreach

lemma Inv.visitCallSites {n : ℕ} {c : Ctx} {f : Fn} {ext : Bool} (sites : List (CallSite Fn Inst)) :
    ∀ {st : State Ctx Fn Inst Val} {queue : List ℕ}, Inv P targets st (n :: queue) → st.IsFun n c f ext →
    sites ⊆ P.calls f →
    let r := sites.foldl (CtxModule.visitCallSite P n c) (st, queue)
    Inv P targets r.1 (n :: r.2) ∧ st.Extends r.1 ∧ (∀ cs ∈ sites, Linked P r.1 n c cs) ∧ r.1.visited = st.visited := by
  induction sites with
  | nil => exact fun h _ _ => ⟨h, .refl _, fun cs hcs => absurd hcs List.not_mem_nil, rfl⟩
  | cons cs rest ih =>
    intro st queue h hn hsub
    obtain ⟨hinv, he, hlinked, hvisited⟩ := h.visitCallSite hn (hsub List.mem_cons_self)
    obtain ⟨hinv', he', hlinked', hvisited'⟩ :=
      ih hinv (he.isFun hn) fun cs' hcs' => hsub (List.mem_cons_of_mem _ hcs')
    refine ⟨hinv', he.trans he', fun cs' hcs' => ?_, hvisited'.trans hvisited⟩
    rcases List.mem_cons.mp hcs' with rfl | hcs'
    · exact hlinked.mono he'
    · exact hlinked' cs' hcs'

lemma Inv.visitCallNode {n : ℕ} {queue : List ℕ} (h : Inv P targets st (n :: queue)) :
    let r := visitCallNode P st n queue
    Inv P targets r.1 r.2 ∧ st.Extends r.1 ∧ r.1.visited = st.visited ++ [n] := by
  obtain ⟨c, f, hn⟩ := (h.expanding n).mp (List.mem_append_right _ List.mem_cons_self)
  obtain ⟨hinv, he, hlinked, hvisited⟩ := Inv.visitCallSites (P.calls f) h hn (List.Subset.refl _)
  have hnode : st.nodes[n]? = some ⟨c, .func f false⟩ := hn
  unfold CtxModule.visitCallNode
  rw [hnode]
  dsimp only
  have hmoved (queue' : List ℕ) : st.visited ++ n :: queue' = st.visited ++ [n] ++ queue' := by simp
  refine ⟨?_, ⟨he.nodes, he.edges⟩, by rw [hvisited]⟩
  exact {
    funMap := hinv.funMap
    funPtrMap := hinv.funPtrMap
    entry := hinv.entry
    made := hinv.made
    nodup := by
      have hnodup := hinv.nodup
      dsimp only
      rwa [hvisited, hmoved, ← hvisited] at hnodup
    expanding := by
      have hexp := hinv.expanding
      dsimp only
      rwa [hvisited, hmoved, ← hvisited] at hexp
    linked := by
      intro m hm c' f' ext hf cs hcs
      rcases List.mem_append.mp hm with hm | hm
      · exact hinv.linked m hm c' f' ext hf cs hcs
      · obtain rfl := List.mem_singleton.mp hm
        obtain ⟨rfl, rfl, -⟩ := (he.isFun hn).inj hf
        exact hlinked cs hcs
    edgesNodup := hinv.edgesNodup
    edgesWithin := hinv.edgesWithin
    called := hinv.called
    caller := hinv.caller
    resolved := hinv.resolved }

section

variable [Fintype Ctx] [Fintype Fn]

lemma Inv.visited_le {pending : List ℕ} (h : Inv P targets st pending) :
    (st.visited ++ pending).length ≤ Fintype.card (Ctx × Fn) := by
  have hnode (n : ℕ) : ∃ key : Ctx × Fn, n ∈ st.visited ++ pending → st.IsFun n key.1 key.2 false := by
    by_cases hn : n ∈ st.visited ++ pending
    · obtain ⟨c, f, hf⟩ := (h.expanding n).mp hn
      exact ⟨(c, f), fun _ => hf⟩
    · exact ⟨(P.initialCtx, P.entry), fun hn' => absurd hn' hn⟩
  choose key hkey using hnode
  have hinj : ∀ n ∈ st.visited ++ pending, ∀ m ∈ st.visited ++ pending, key n = key m → n = m := by
    intro n hn m hm heq
    exact h.unique (hkey n hn) (heq ▸ hkey m hm)
  have hnodup : ((st.visited ++ pending).map key).Nodup := List.Nodup.map_on hinj h.nodup
  simpa using hnodup.length_le_card

lemma Inv.expand (fuel : ℕ) : ∀ {st : State Ctx Fn Inst Val} {queue : List ℕ}, Inv P targets st queue →
    Fintype.card (Ctx × Fn) < fuel + st.visited.length →
    ∃ st', CtxModule.expand P fuel st queue = .ok st' ∧ Inv P targets st' [] ∧ st.Extends st' := by
  induction fuel with
  | zero =>
    intro st queue h hfuel
    have hle := h.visited_le
    rw [List.length_append] at hle
    omega
  | succ fuel ih =>
    intro st queue h hfuel
    cases queue with
    | nil => exact ⟨st, by rw [CtxModule.expand], h, .refl st⟩
    | cons n queue =>
      obtain ⟨hinv, he, hvisited⟩ := h.visitCallNode
      obtain ⟨st', heq, hinv', he'⟩ := ih hinv (by rw [hvisited, List.length_append, List.length_singleton]; omega)
      exact ⟨st', by rw [CtxModule.expand]; exact heq, hinv', he.trans he'⟩

end

lemma entryState_inv (P : Program Ctx Fn Inst Val) (targets : List Fn) : Inv P targets (entryState P) [0] := by
  have hnode (n : ℕ) (node : CallNode Ctx Fn Inst Val) :
      (entryState P).nodes[n]? = some node ↔ n = 0 ∧ ⟨P.initialCtx, .func P.entry false⟩ = node := by
    cases n <;> simp [entryState]
  have hfun (n : ℕ) (c : Ctx) (f : Fn) (ext : Bool) : (entryState P).IsFun n c f ext ↔
      n = 0 ∧ P.initialCtx = c ∧ P.entry = f ∧ false = ext := by simp [State.IsFun, hnode]
  have hptr (n : ℕ) (c : Ctx) (i : Inst) : ¬ (entryState P).IsFunPtr n c i := by simp [State.IsFunPtr, hnode]
  exact {
    funMap := by
      intro c f n
      have hmap : (entryState P).ctxFunMap.lookup (c, f) =
          if (c, f) = (P.initialCtx, P.entry) then some 0 else none := lookup_cons_eq _ _ _ _
      rw [hmap]
      constructor
      · intro h
        split at h
        · next heq =>
          obtain ⟨rfl, rfl⟩ := Prod.mk.inj heq
          exact ⟨false, (hfun _ _ _ _).mpr ⟨(Option.some.inj h).symm, rfl, rfl, rfl⟩⟩
        · cases h
      · rintro ⟨ext, hf⟩
        obtain ⟨rfl, rfl, rfl, rfl⟩ := (hfun _ _ _ _).mp hf
        exact if_pos rfl
    funPtrMap := by
      intro c i n
      constructor
      · intro h
        cases h
      · exact fun h => absurd h (hptr n c i)
    entry := (hfun _ _ _ _).mpr ⟨rfl, rfl, rfl, rfl⟩
    made := fun n c f ext hf => .inl ((hfun n c f ext).mp hf).1
    nodup := List.nodup_singleton 0
    expanding := by
      intro n
      constructor
      · intro hn
        exact ⟨P.initialCtx, P.entry, (hfun _ _ _ _).mpr ⟨List.mem_singleton.mp hn, rfl, rfl, rfl⟩⟩
      · rintro ⟨c, f, hf⟩
        exact List.mem_singleton.mpr ((hfun _ _ _ _).mp hf).1
    linked := fun n hn => absurd hn List.not_mem_nil
    edgesNodup := List.nodup_nil
    edgesWithin := fun s i d hedge => absurd hedge List.not_mem_nil
    called := fun d c i hp => absurd hp (hptr d c i)
    caller := fun s i d hedge => absurd hedge List.not_mem_nil
    resolved := fun n m hr => absurd hr List.not_mem_nil }

lemma Inv.pred_eq {pending : List ℕ} (h : Inv P targets st pending) {d : ℕ} {c : Ctx} {i : Inst}
    (hd : st.IsFunPtr d c i) :
    ∃ s, st.edges.filter (fun edge => edge.2.2 = d) = [(s, i, d)] ∧ CallerOf P st s c i := by
  obtain ⟨s, hs⟩ := h.called d c i hd
  refine ⟨s, ?_, (h.caller s i d hs c i hd).2⟩
  have hnodup : (st.edges.filter fun edge => edge.2.2 = d).Nodup := h.edgesNodup.filter _
  refine List.perm_singleton.mp ((List.perm_ext_iff_of_nodup hnodup (List.nodup_singleton _)).mpr ?_)
  rintro ⟨s', i', d'⟩
  rw [List.mem_singleton, List.mem_filter, decide_eq_true_iff]
  constructor
  · rintro ⟨hedge, rfl⟩
    obtain ⟨rfl, hcaller⟩ := h.caller s' i' _ hedge c i hd
    rw [CallerOf.unique h hcaller (h.caller s i' _ hs c i' hd).2]
  · rintro ⟨⟩
    exact ⟨hs, rfl⟩

lemma Inv.addTarget {pending : List ℕ} (h : Inv P targets st pending) (n : ℕ) (target : Fn) :
    Inv P targets { st with targets := (n, target) :: st.targets } pending :=
  { h with
    resolved := by
      intro n' m hr
      obtain ⟨t, g, option, c, i, ext, ht, hred, hp, hf⟩ := h.resolved n' m hr
      exact ⟨t, g, option, c, i, ext, List.mem_cons_of_mem _ ht, hred, hp, hf⟩ }

lemma Inv.addResolved {pending : List ℕ} (h : Inv P targets st pending) {n m : ℕ} {target g : Fn}
    {option : InterceptOption}
    {c : Ctx} {i : Inst} {ext : Bool} (ht : (n, target) ∈ st.targets) (hred : P.Redirects target g option)
    (hp : st.IsFunPtr n c i) (hf : st.IsFun m (P.contextEvolve c i) g ext) :
    Inv P targets { st with resolvedNode := (n, m) :: st.resolvedNode } pending :=
  { h with
    resolved := by
      intro n' m' hr
      rcases List.mem_cons.mp hr with heq | hr
      · obtain ⟨rfl, rfl⟩ := Prod.mk.inj heq
        exact ⟨target, g, option, c, i, ext, ht, hred, hp, hf⟩
      · exact h.resolved n' m' hr }

omit [DecidableEq Ctx] [DecidableEq Fn] in
lemma createEdge_targets (st : State Ctx Fn Inst Val) (s d : ℕ) (i : Inst) :
    (st.createEdge s d i).targets = st.targets ∧ (st.createEdge s d i).resolvedNode = st.resolvedNode := by
  rw [createEdge_eq]
  exact ⟨rfl, rfl⟩

lemma Inv.resolveCallTo [Fintype Ctx] [Fintype Fn] (h : Inv P targets st []) {n : ℕ} {c : Ctx} {i : Inst} {target : Fn}
    {fuel : ℕ} (hcalled : P.Called targets target) (hp : st.IsFunPtr n c i) (ht : (n, target) ∈ st.targets)
    (hnew : ∀ g option, P.Redirects target g option → ∀ m ext, (n, m) ∈ st.resolvedNode →
      ¬ st.IsFun m (P.contextEvolve c i) g ext) (hfuel : Fintype.card (Ctx × Fn) < fuel) :
    ∃ st', CtxModule.resolveCallTo P st fuel n target = .ok st' ∧ Inv P targets st' [] ∧ st.Extends st' := by
  obtain ⟨s, hpred, hcaller⟩ := h.pred_eq hp
  obtain ⟨f, fext, hs, hcs⟩ := id hcaller
  have hnode : st.nodes[s]? = some ⟨c, .func f fext⟩ := hs
  unfold CtxModule.resolveCallTo
  rw [hpred]
  dsimp only
  rw [hnode]
  dsimp only
  rcases h.callDirect hcalled hcaller with ⟨heq, -⟩ |
    ⟨st', callee, isNew, heq, hkept, hinv, he, -, hreach, -, htargets, hresolved⟩
  · rw [heq]
    exact ⟨st, rfl, h, .refl st⟩
  · rw [heq]
    dsimp only
    obtain ⟨htargets', hresolved'⟩ := createEdge_targets st' s callee i
    rw [htargets] at htargets'
    rw [hresolved] at hresolved'
    generalize st'.createEdge s callee i = st'' at *
    cases hto : (P.intercept target).redirectTo with
    | pointer value =>
      rw [hto] at hreach
      have hptr : st''.IsFunPtr callee c i := hreach
      have hold : isNew = false := by
        cases isNew with
        | false => rfl
        | true =>
          obtain ⟨c', f', hf⟩ := (hinv.expanding callee).mp (List.mem_append_right _ (by simp))
          exact absurd hptr hf.not_isFunPtr
      obtain ⟨v, hv⟩ := hptr
      subst hold
      exact ⟨st'', by rw [hv]; rfl, hinv, he⟩
    | function g =>
      rw [hto] at hreach
      obtain ⟨ext, hf⟩ := hreach
      have hred : P.Redirects target g (P.intercept target).option := ⟨by rw [← hto], hkept⟩
      have hcallee : st''.nodes[callee]? = some ⟨P.contextEvolve c i, .func g ext⟩ := hf
      have hadd := hinv.addResolved (htargets' ▸ ht) hred (he.isFunPtr hp) hf
      have hfresh : (n, callee) ∉ st''.resolvedNode := by
        intro hr
        rw [hresolved'] at hr
        obtain ⟨t, g', option, c', j, ext', -, -, hp', hf'⟩ := h.resolved n callee hr
        obtain ⟨rfl, rfl⟩ := hp.inj hp'
        obtain ⟨-, rfl, -⟩ := (he.isFun hf').inj hf
        exact hnew g' _ hred callee ext' hr hf'
      rw [hcallee]
      simp only [Option.any_some, CallNode.isIndirectCall, Bool.false_eq_true, if_false, if_neg hfresh]
      have hkeep : st.Extends { st'' with resolvedNode := (n, callee) :: st''.resolvedNode } := ⟨he.nodes, he.edges⟩
      cases isNew with
      | false => exact ⟨_, rfl, hadd, hkeep⟩
      | true =>
        obtain ⟨st3, hok, hinv', he'⟩ := hadd.expand fuel (hfuel.trans_le (Nat.le_add_right _ _))
        exact ⟨st3, hok, hinv', hkeep.trans he'⟩

end OpenRace.CtxModule
