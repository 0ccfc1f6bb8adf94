import OpenRace.PointerAnalysis.Program.CtxModule
import Mathlib.Data.Fintype.Card
import Mathlib.Tactic.Common

/-! What every state of the call graph construction keeps. -/

namespace OpenRace.CtxModule

variable {Ctx Fn Inst Val : Type}

namespace State

def IsFun (st : State Ctx Fn Inst Val) (node : ℕ) (context : Ctx) (function : Fn) (isExt : Bool) : Prop :=
  st.nodes[node]? = some ⟨context, .func function isExt⟩

def IsFunPtr (st : State Ctx Fn Inst Val) (node : ℕ) (context : Ctx) (inst : Inst) : Prop :=
  ∃ value, st.nodes[node]? = some ⟨context, .funPtr inst value⟩

structure Extends (st st' : State Ctx Fn Inst Val) : Prop where
  nodes : st.nodes <+: st'.nodes
  edges : st.edges ⊆ st'.edges

lemma Extends.refl (st : State Ctx Fn Inst Val) : Extends st st := ⟨List.prefix_refl _, List.Subset.refl _⟩

lemma Extends.trans {st st' st'' : State Ctx Fn Inst Val} (h : Extends st st') (h' : Extends st' st'') :
    Extends st st'' :=
  ⟨h.nodes.trans h'.nodes, List.Subset.trans h.edges h'.edges⟩

lemma Extends.getElem? {st st' : State Ctx Fn Inst Val} (h : Extends st st') {n : ℕ}
    {node : CallNode Ctx Fn Inst Val} (hn : st.nodes[n]? = some node) : st'.nodes[n]? = some node := by
  obtain ⟨more, hmore⟩ := h.nodes
  rw [← hmore, List.getElem?_append_left (List.getElem?_eq_some_iff.mp hn).choose, hn]

lemma Extends.isFun {st st' : State Ctx Fn Inst Val} (h : Extends st st') {n : ℕ} {c : Ctx} {f : Fn} {ext : Bool}
    (hn : st.IsFun n c f ext) : st'.IsFun n c f ext := h.getElem? hn

lemma Extends.isFunPtr {st st' : State Ctx Fn Inst Val} (h : Extends st st') {n : ℕ} {c : Ctx} {i : Inst}
    (hn : st.IsFunPtr n c i) : st'.IsFunPtr n c i := by
  obtain ⟨value, hn⟩ := hn
  exact ⟨value, h.getElem? hn⟩

lemma IsFun.not_isFunPtr {st : State Ctx Fn Inst Val} {n : ℕ} {c c' : Ctx} {f : Fn} {ext : Bool} {i : Inst}
    (h : st.IsFun n c f ext) : ¬ st.IsFunPtr n c' i := by
  rintro ⟨value, h'⟩
  cases Option.some.inj (h.symm.trans h')

lemma IsFun.inj {st : State Ctx Fn Inst Val} {n : ℕ} {c c' : Ctx} {f f' : Fn} {ext ext' : Bool}
    (h : st.IsFun n c f ext) (h' : st.IsFun n c' f' ext') : c = c' ∧ f = f' ∧ ext = ext' := by
  cases Option.some.inj (h.symm.trans h')
  exact ⟨rfl, rfl, rfl⟩

lemma IsFunPtr.inj {st : State Ctx Fn Inst Val} {n : ℕ} {c c' : Ctx} {i i' : Inst}
    (h : st.IsFunPtr n c i) (h' : st.IsFunPtr n c' i') : c = c' ∧ i = i' := by
  obtain ⟨value, h⟩ := h
  obtain ⟨value', h'⟩ := h'
  cases Option.some.inj (h.symm.trans h')
  exact ⟨rfl, rfl⟩

end State

namespace State

variable (st : State Ctx Fn Inst Val)

lemma getElem?_append_singleton {α : Type} (l : List α) (a x : α) (n : ℕ) :
    (l ++ [a])[n]? = some x ↔ l[n]? = some x ∨ n = l.length ∧ a = x := by
  rcases Nat.lt_trichotomy n l.length with hlt | rfl | hgt
  · rw [List.getElem?_append_left hlt]
    simp [Nat.ne_of_lt hlt]
  · simp
  · rw [List.getElem?_eq_none (by simp; omega), List.getElem?_eq_none (by omega)]
    simp [Nat.ne_of_gt hgt]

lemma createCallNode_extends (c : Ctx) (f : Fn) (ext : Bool) : st.Extends (st.createCallNode c f ext) :=
  ⟨List.prefix_append _ _, List.Subset.refl _⟩

lemma createIndCallNode_extends (c : Ctx) (i : Inst) (value : Option Val) :
    st.Extends (st.createIndCallNode c i value) :=
  ⟨List.prefix_append _ _, List.Subset.refl _⟩

lemma createCallNode_isFun (c : Ctx) (f : Fn) (ext : Bool) (n : ℕ) (c' : Ctx) (f' : Fn) (ext' : Bool) :
    (st.createCallNode c f ext).IsFun n c' f' ext' ↔
      st.IsFun n c' f' ext' ∨ n = st.nodes.length ∧ c = c' ∧ f = f' ∧ ext = ext' := by
  simp [IsFun, createCallNode, getElem?_append_singleton]

lemma createCallNode_isFunPtr (c : Ctx) (f : Fn) (ext : Bool) (n : ℕ) (c' : Ctx) (i : Inst) :
    (st.createCallNode c f ext).IsFunPtr n c' i ↔ st.IsFunPtr n c' i := by
  simp [IsFunPtr, createCallNode, getElem?_append_singleton]

lemma createIndCallNode_isFun (c : Ctx) (i : Inst) (value : Option Val) (n : ℕ) (c' : Ctx) (f : Fn) (ext : Bool) :
    (st.createIndCallNode c i value).IsFun n c' f ext ↔ st.IsFun n c' f ext := by
  simp [IsFun, createIndCallNode, getElem?_append_singleton]

lemma createIndCallNode_isFunPtr (c : Ctx) (i : Inst) (value : Option Val) (n : ℕ) (c' : Ctx) (j : Inst) :
    (st.createIndCallNode c i value).IsFunPtr n c' j ↔
      st.IsFunPtr n c' j ∨ n = st.nodes.length ∧ c = c' ∧ i = j := by
  simp only [IsFunPtr, createIndCallNode, getElem?_append_singleton]
  constructor
  · rintro ⟨v, hold | ⟨rfl, hnode⟩⟩
    · exact .inl ⟨v, hold⟩
    · cases hnode
      exact .inr ⟨rfl, rfl, rfl⟩
  · rintro (⟨v, hold⟩ | ⟨rfl, rfl, rfl⟩)
    · exact ⟨v, .inl hold⟩
    · exact ⟨value, .inr ⟨rfl, rfl⟩⟩

variable [DecidableEq Inst]

lemma mem_createEdge (s d s' d' : ℕ) (i i' : Inst) :
    (s', i', d') ∈ (st.createEdge s d i).edges ↔ (s', i', d') ∈ st.edges ∨ s' = s ∧ i' = i ∧ d' = d := by
  unfold createEdge
  split
  · next hmem =>
    constructor
    · exact .inl
    · rintro (h | ⟨rfl, rfl, rfl⟩)
      · exact h
      · exact hmem
  · simp

lemma createEdge_extends (s d : ℕ) (i : Inst) : st.Extends (st.createEdge s d i) := by
  refine ⟨?_, fun ⟨s', i', d'⟩ h => (st.mem_createEdge s d s' d' i i').mpr (.inl h)⟩
  unfold createEdge
  split <;> exact List.prefix_refl _

lemma createEdge_nodup (s d : ℕ) (i : Inst) (h : st.edges.Nodup) : (st.createEdge s d i).edges.Nodup := by
  unfold createEdge
  split
  · exact h
  · next hmem =>
    refine List.nodup_append.mpr ⟨h, List.nodup_singleton _, fun edge hedge edge' hedge' heq => hmem ?_⟩
    rw [← List.mem_singleton.mp hedge', ← heq]
    exact hedge

end State

lemma createEdge_eq [DecidableEq Inst] (st : State Ctx Fn Inst Val) (s d : ℕ) (i : Inst) :
    st.createEdge s d i = { st with edges := (st.createEdge s d i).edges } := by
  unfold State.createEdge
  split <;> rfl

variable (P : Program Ctx Fn Inst Val)

def Program.Redirects (f g : Fn) (option : InterceptOption) : Prop :=
  P.intercept f = ⟨.function g, option⟩ ∧ option ≠ .ignoreFun

/-- The functions that are asked for as the entry is expanded and calls are resolved to the targets. -/
inductive Program.Called (targets : List Fn) : Fn → Prop
  | resolved {f : Fn} (hf : f ∈ targets) : Called targets f
  | byEntry {f : Fn} {cs : CallSite Fn Inst} (hcs : cs ∈ P.calls P.entry) (hcallee : cs.callee = .direct f) :
      Called targets f
  | byExpanded {f g h : Fn} {cs : CallSite Fn Inst} (hg : Called targets g) (hto : P.Redirects g h .expandBody)
      (hbody : P.hasBody h = true) (hcs : cs ∈ P.calls h) (hcallee : cs.callee = .direct f) : Called targets f

def Linked (st : State Ctx Fn Inst Val) (node : ℕ) (context : Ctx) (cs : CallSite Fn Inst) : Prop :=
  match cs.callee with
  | .direct function =>
    (P.intercept function).option = .ignoreFun ∨
      ∃ target, (node, cs.inst, target) ∈ st.edges ∧
        match (P.intercept function).redirectTo with
        | .function g => ∃ isExt, st.IsFun target (P.contextEvolve context cs.inst) g isExt
        | .pointer _ => st.IsFunPtr target context cs.inst
  | .indirect => ∃ target, (node, cs.inst, target) ∈ st.edges ∧ st.IsFunPtr target context cs.inst
  | .inlineAsm => True

lemma Linked.mono {P : Program Ctx Fn Inst Val} {st st' : State Ctx Fn Inst Val} (he : st.Extends st') {node : ℕ}
    {context : Ctx} {cs : CallSite Fn Inst} (h : Linked P st node context cs) : Linked P st' node context cs := by
  unfold Linked at h ⊢
  split at h
  · refine h.imp_right ?_
    rintro ⟨target, hedge, htarget⟩
    refine ⟨target, he.edges hedge, ?_⟩
    split at htarget
    · exact htarget.imp fun _ hf => he.isFun hf
    · exact he.isFunPtr htarget
  · exact h.imp fun _ ⟨hedge, htarget⟩ => ⟨he.edges hedge, he.isFunPtr htarget⟩
  · trivial

def CallerOf (st : State Ctx Fn Inst Val) (node : ℕ) (context : Ctx) (inst : Inst) : Prop :=
  ∃ f isExt, st.IsFun node context f isExt ∧ ∃ cs ∈ P.calls f, cs.inst = inst

lemma CallerOf.mono {P : Program Ctx Fn Inst Val} {st st' : State Ctx Fn Inst Val} (he : st.Extends st')
    {n : ℕ} {c : Ctx} {i : Inst} (h : CallerOf P st n c i) : CallerOf P st' n c i := by
  obtain ⟨f, ext, hf, hcs⟩ := h
  exact ⟨f, ext, he.isFun hf, hcs⟩

variable [DecidableEq Ctx] [DecidableEq Fn] [DecidableEq Inst]

/-- `pending` are the nodes still to be expanded. -/
structure Inv (targets : List Fn) (st : State Ctx Fn Inst Val) (pending : List ℕ) : Prop where
  funMap : ∀ c f n, st.ctxFunMap.lookup (c, f) = some n ↔ ∃ isExt, st.IsFun n c f isExt
  funPtrMap : ∀ c i n, st.ctxFunPtrMap.lookup (c, i) = some n ↔ st.IsFunPtr n c i
  entry : st.IsFun 0 P.initialCtx P.entry false
  made : ∀ n c f isExt, st.IsFun n c f isExt → n = 0 ∨
    ∃ g option, P.Called targets g ∧ P.Redirects g f option ∧
      (isExt = false ↔ option = .expandBody ∧ P.hasBody f = true)
  nodup : (st.visited ++ pending).Nodup
  expanding : ∀ n, n ∈ st.visited ++ pending ↔ ∃ c f, st.IsFun n c f false
  linked : ∀ n ∈ st.visited, ∀ c f isExt, st.IsFun n c f isExt → ∀ cs ∈ P.calls f, Linked P st n c cs
  edgesNodup : st.edges.Nodup
  edgesWithin : ∀ s i d, (s, i, d) ∈ st.edges → d < st.nodes.length
  called : ∀ d c i, st.IsFunPtr d c i → ∃ s, (s, i, d) ∈ st.edges
  caller : ∀ s i d, (s, i, d) ∈ st.edges → ∀ c j, st.IsFunPtr d c j → i = j ∧ CallerOf P st s c i
  resolved : ∀ n m, (n, m) ∈ st.resolvedNode → ∃ t g option c i isExt, (n, t) ∈ st.targets ∧ P.Redirects t g option ∧
    st.IsFunPtr n c i ∧ st.IsFun m (P.contextEvolve c i) g isExt

variable {P} {targets : List Fn} {st : State Ctx Fn Inst Val} {pending : List ℕ}

lemma Inv.unique (h : Inv P targets st pending) {n m : ℕ} {c : Ctx} {f : Fn} {ext ext' : Bool} (hn : st.IsFun n c f ext)
    (hm : st.IsFun m c f ext') : n = m := by
  have hln := (h.funMap c f n).mpr ⟨ext, hn⟩
  have hlm := (h.funMap c f m).mpr ⟨ext', hm⟩
  exact Option.some.inj (hln.symm.trans hlm)

lemma CallerOf.unique (h : Inv P targets st pending) {n m : ℕ} {c : Ctx} {i : Inst} (hn : CallerOf P st n c i)
    (hm : CallerOf P st m c i) : n = m := by
  obtain ⟨f, ext, hf, cs, hcs, rfl⟩ := hn
  obtain ⟨g, ext', hg, cs', hcs', heq⟩ := hm
  obtain rfl : f = g := P.distinct hcs hcs' heq.symm
  exact h.unique hf hg

lemma Inv.calls_called (h : Inv P targets st pending) {n : ℕ} {c : Ctx} {f g : Fn} {cs : CallSite Fn Inst}
    (hn : st.IsFun n c f false) (hcs : cs ∈ P.calls f) (hcallee : cs.callee = .direct g) : P.Called targets g := by
  rcases h.made n c f false hn with rfl | ⟨g', option, hg', hto, hoption⟩
  · obtain ⟨-, rfl, -⟩ := hn.inj h.entry
    exact .byEntry hcs hcallee
  · obtain ⟨rfl, hbody⟩ := hoption.mp rfl
    exact .byExpanded hg' hto hbody hcs hcallee

lemma Inv.createEdge (h : Inv P targets st pending) {s d : ℕ} {i : Inst} (hd : d < st.nodes.length)
    (hcaller : ∀ c j, st.IsFunPtr d c j → i = j ∧ CallerOf P st s c i) :
    Inv P targets (st.createEdge s d i) pending := by
  have he := st.createEdge_extends s d i
  have hnodup := st.createEdge_nodup s d i h.edgesNodup
  have hmem := st.mem_createEdge s d
  rw [createEdge_eq] at he hnodup ⊢
  exact {
    funMap := h.funMap
    funPtrMap := h.funPtrMap
    entry := h.entry
    made := h.made
    nodup := h.nodup
    expanding := h.expanding
    linked := fun n hn c f ext hf cs hcs => (h.linked n hn c f ext hf cs hcs).mono he
    edgesNodup := hnodup
    edgesWithin := by
      intro s' i' d' hedge
      rcases (hmem s' d' i i').mp hedge with hold | ⟨rfl, rfl, rfl⟩
      · exact h.edgesWithin s' i' d' hold
      · exact hd
    called := fun d' c j hp => (h.called d' c j hp).imp fun s' hs => he.edges hs
    caller := by
      intro s' i' d' hedge c j hp
      rcases (hmem s' d' i i').mp hedge with hold | ⟨rfl, rfl, rfl⟩
      · exact h.caller s' i' d' hold c j hp
      · exact hcaller c j hp
    resolved := h.resolved }

lemma lookup_cons_eq {K V : Type} [BEq K] [LawfulBEq K] [DecidableEq K] (key key' : K) (value : V)
    (map : List (K × V)) :
    ((key, value) :: map).lookup key' = if key' = key then some value else map.lookup key' := by
  rw [List.lookup_cons]
  split
  · next h => rw [if_pos (by simpa using h)]
  · next h => rw [if_neg (by simpa using h)]

lemma Inv.lt_length (h : Inv P targets st pending) {n : ℕ} (hn : n ∈ st.visited ++ pending) : n < st.nodes.length := by
  obtain ⟨c, f, hf⟩ := (h.expanding n).mp hn
  exact (List.getElem?_eq_some_iff.mp hf).choose

lemma Inv.addFun (h : Inv P targets st pending) {c : Ctx} {f g : Fn} {option : InterceptOption}
    (hnew : st.ctxFunMap.lookup (c, f) = none) (hcalled : P.Called targets g) (hg : P.Redirects g f option)
    {expanded : Bool}
    (hexpanded : expanded = (decide (option = .expandBody) && P.hasBody f)) :
    Inv P targets (st.createCallNode c f !expanded) (if expanded then pending ++ [st.nodes.length] else pending) := by
  have he := st.createCallNode_extends c f !expanded
  have hptr := st.createCallNode_isFunPtr c f !expanded
  have hfun := st.createCallNode_isFun c f !expanded
  have hpending (n : ℕ) : n ∈ st.visited ++ (if expanded then pending ++ [st.nodes.length] else pending) ↔
      n ∈ st.visited ++ pending ∨ n = st.nodes.length ∧ expanded = true := by
    cases expanded <;> simp [or_assoc]
  exact {
    funMap := by
      intro c' f' n
      have hold := h.funMap c' f' n
      have hmap : (st.createCallNode c f !expanded).ctxFunMap.lookup (c', f') =
          if (c', f') = (c, f) then some st.nodes.length else st.ctxFunMap.lookup (c', f') := lookup_cons_eq _ _ _ _
      rw [hmap]
      split
      · next heq =>
        obtain ⟨rfl, rfl⟩ := Prod.mk.inj heq
        rw [hnew] at hold
        constructor
        · intro hlen
          exact ⟨!expanded, (hfun n _ _ _).mpr (.inr ⟨(Option.some.inj hlen).symm, rfl, rfl, rfl⟩)⟩
        · rintro ⟨ext, hf⟩
          rcases (hfun n _ _ ext).mp hf with hf | ⟨rfl, -⟩
          · exact absurd (hold.mpr ⟨ext, hf⟩) nofun
          · rfl
      · next hne =>
        rw [hold]
        refine exists_congr fun ext => ?_
        refine ((hfun n c' f' ext).trans (or_iff_left ?_)).symm
        rintro ⟨-, rfl, rfl, -⟩
        exact hne rfl
    funPtrMap := fun c' i n => (h.funPtrMap c' i n).trans (hptr n c' i).symm
    entry := he.isFun h.entry
    made := by
      intro n c' f' ext hf
      rcases (hfun n c' f' ext).mp hf with hf | ⟨-, rfl, rfl, rfl⟩
      · exact h.made n c' f' ext hf
      · exact .inr ⟨g, option, hcalled, hg, by simp [hexpanded]⟩
    nodup := by
      cases expanded with
      | false => exact h.nodup
      | true =>
        rw [if_pos rfl, ← List.append_assoc]
        refine List.nodup_append.mpr ⟨h.nodup, List.nodup_singleton _, fun n hn m hm heq => ?_⟩
        have hlt := h.lt_length hn
        rw [heq, List.mem_singleton.mp hm] at hlt
        exact Nat.lt_irrefl _ hlt
    expanding := by
      intro n
      refine (hpending n).trans ((or_congr_left (h.expanding n)).trans ?_)
      constructor
      · rintro (⟨c', f', hf⟩ | ⟨rfl, rfl⟩)
        · exact ⟨c', f', he.isFun hf⟩
        · exact ⟨c, f, (hfun _ c f false).mpr (.inr ⟨rfl, rfl, rfl, rfl⟩)⟩
      · rintro ⟨c', f', hf⟩
        rcases (hfun n c' f' false).mp hf with hf | ⟨rfl, -, -, hexp⟩
        · exact .inl ⟨c', f', hf⟩
        · exact .inr ⟨rfl, by simpa using hexp⟩
    linked := by
      intro n hn c' f' ext hf cs hcs
      have hlt := h.lt_length (List.mem_append_left _ hn)
      rcases (hfun n c' f' ext).mp hf with hf | ⟨rfl, -⟩
      · exact (h.linked n hn c' f' ext hf cs hcs).mono he
      · exact absurd hlt (Nat.lt_irrefl _)
    edgesNodup := h.edgesNodup
    edgesWithin := fun s i d hedge => (h.edgesWithin s i d hedge).trans_le he.nodes.length_le
    called := fun d c' i hp => h.called d c' i ((hptr d c' i).mp hp)
    caller := by
      intro s i d hedge c' j hp
      obtain ⟨rfl, hcaller⟩ := h.caller s i d hedge c' j ((hptr d c' j).mp hp)
      exact ⟨rfl, hcaller.mono he⟩
    resolved := by
      intro n m hr
      obtain ⟨t, g', option', c', i, ext, ht, hred, hp, hf⟩ := h.resolved n m hr
      exact ⟨t, g', option', c', i, ext, ht, hred, he.isFunPtr hp, he.isFun hf⟩ }

lemma Inv.addFunPtr (h : Inv P targets st pending) {s : ℕ} {c : Ctx} {i : Inst} (value : Option Val)
    (hnew : st.ctxFunPtrMap.lookup (c, i) = none) (hs : CallerOf P st s c i) :
    Inv P targets ((st.createIndCallNode c i value).createEdge s st.nodes.length i) pending := by
  have he := (st.createIndCallNode_extends c i value).trans
    ((st.createIndCallNode c i value).createEdge_extends s st.nodes.length i)
  have hnodup := (st.createIndCallNode c i value).createEdge_nodup s st.nodes.length i h.edgesNodup
  have hmem (s' d' : ℕ) (i' : Inst) := (st.createIndCallNode c i value).mem_createEdge s st.nodes.length s' d' i i'
  have hfun := st.createIndCallNode_isFun c i value
  have hptr := st.createIndCallNode_isFunPtr c i value
  have hsize : st.nodes.length < (st.createIndCallNode c i value).nodes.length := by
    simp [State.createIndCallNode]
  rw [createEdge_eq] at he hnodup ⊢
  exact {
    funMap := fun c' f n => (h.funMap c' f n).trans (exists_congr fun ext => (hfun n c' f ext).symm)
    funPtrMap := by
      intro c' j n
      have hold := h.funPtrMap c' j n
      have hmap : (st.createIndCallNode c i value).ctxFunPtrMap.lookup (c', j) =
          if (c', j) = (c, i) then some st.nodes.length else st.ctxFunPtrMap.lookup (c', j) := lookup_cons_eq _ _ _ _
      refine Iff.trans ?_ (hptr n c' j).symm
      rw [hmap]
      split
      · next heq =>
        obtain ⟨rfl, rfl⟩ := Prod.mk.inj heq
        rw [hnew] at hold
        constructor
        · intro hlen
          exact .inr ⟨(Option.some.inj hlen).symm, rfl, rfl⟩
        · rintro (hp | ⟨rfl, -⟩)
          · exact absurd (hold.mpr hp) nofun
          · rfl
      · next hne =>
        rw [hold]
        refine (or_iff_left ?_).symm
        rintro ⟨-, rfl, rfl⟩
        exact hne rfl
    entry := he.isFun h.entry
    made := fun n c' f ext hf => h.made n c' f ext ((hfun n c' f ext).mp hf)
    nodup := h.nodup
    expanding := fun n => (h.expanding n).trans
      (exists_congr fun c' => exists_congr fun f => (hfun n c' f false).symm)
    linked := fun n hn c' f ext hf cs hcs =>
      (h.linked n hn c' f ext ((hfun n c' f ext).mp hf) cs hcs).mono he
    edgesNodup := hnodup
    edgesWithin := by
      intro s' i' d' hedge
      rcases (hmem s' d' i').mp hedge with hold | ⟨-, -, rfl⟩
      · exact (h.edgesWithin s' i' d' hold).trans hsize
      · exact hsize
    called := by
      intro d c' j hp
      rcases (hptr d c' j).mp hp with hp | ⟨rfl, -, rfl⟩
      · exact (h.called d c' j hp).imp fun s' hs' => he.edges hs'
      · exact ⟨s, (hmem s _ _).mpr (.inr ⟨rfl, rfl, rfl⟩)⟩
    caller := by
      intro s' i' d' hedge c' j hp
      rcases (hmem s' d' i').mp hedge with hold | ⟨rfl, rfl, rfl⟩
      · rcases (hptr d' c' j).mp hp with hp | ⟨rfl, -, -⟩
        · obtain ⟨rfl, hcaller⟩ := h.caller s' i' d' hold c' j hp
          exact ⟨rfl, hcaller.mono he⟩
        · exact absurd (h.edgesWithin s' i' _ hold) (Nat.lt_irrefl _)
      · rcases (hptr _ c' j).mp hp with ⟨v, hp⟩ | ⟨-, rfl, rfl⟩
        · exact absurd (List.getElem?_eq_some_iff.mp hp).choose (Nat.lt_irrefl _)
        · exact ⟨rfl, hs.mono he⟩
    resolved := by
      intro n m hr
      obtain ⟨t, g, option, c', j, ext, ht, hred, hp, hf⟩ := h.resolved n m hr
      exact ⟨t, g, option, c', j, ext, ht, hred, he.isFunPtr hp, he.isFun hf⟩ }

omit [DecidableEq Fn] in
lemma State.getOrCreateInDirectCallNode_eq (st : State Ctx Fn Inst Val) (c : Ctx) (i : Inst) (value : Option Val) :
    (st.getOrCreateInDirectCallNode c i value).1.visited = st.visited ∧
      (st.getOrCreateInDirectCallNode c i value).1.targets = st.targets ∧
      (st.getOrCreateInDirectCallNode c i value).1.resolvedNode = st.resolvedNode := by
  unfold State.getOrCreateInDirectCallNode
  split <;> exact ⟨rfl, rfl, rfl⟩

lemma Inv.callIndirect (h : Inv P targets st pending) {s : ℕ} {c : Ctx} {i : Inst} (value : Option Val)
    (hs : CallerOf P st s c i) :
    let r := st.getOrCreateInDirectCallNode c i value
    Inv P targets (r.1.createEdge s r.2 i) pending ∧ st.Extends (r.1.createEdge s r.2 i) ∧
      (s, i, r.2) ∈ (r.1.createEdge s r.2 i).edges ∧ (r.1.createEdge s r.2 i).IsFunPtr r.2 c i := by
  unfold State.getOrCreateInDirectCallNode
  split
  · next node hnode =>
    have hp := (h.funPtrMap c i node).mp hnode
    have he := st.createEdge_extends s node i
    refine ⟨h.createEdge ?_ ?_, he, (st.mem_createEdge _ _ _ _ _ _).mpr (.inr ⟨rfl, rfl, rfl⟩), he.isFunPtr hp⟩
    · exact (List.getElem?_eq_some_iff.mp hp.choose_spec).choose
    · intro c' j hp'
      obtain ⟨rfl, rfl⟩ := hp.inj hp'
      exact ⟨rfl, hs⟩
  · next hnode =>
    have he := (st.createIndCallNode c i value).createEdge_extends s st.nodes.length i
    refine ⟨h.addFunPtr value hnode hs, (st.createIndCallNode_extends c i value).trans he, ?_, he.isFunPtr ?_⟩
    · exact (State.mem_createEdge _ _ _ _ _ _ _).mpr (.inr ⟨rfl, rfl, rfl⟩)
    · exact (st.createIndCallNode_isFunPtr _ _ _ _ _ _).mpr (.inr ⟨rfl, rfl, rfl⟩)

variable (P) in
def Reaches (st : State Ctx Fn Inst Val) (node : ℕ) (c : Ctx) (i : Inst) : RedirectTo Fn Val → Prop
  | .function g => ∃ isExt, st.IsFun node (P.contextEvolve c i) g isExt
  | .pointer _ => st.IsFunPtr node c i

lemma Inv.callDirect (h : Inv P targets st pending) {s : ℕ} {c : Ctx} {i : Inst} {f : Fn}
    (hcalled : P.Called targets f) (hs : CallerOf P st s c i) :
    (getOrCreateCallNode P st (P.contextEvolve c i) c f i = (st, none) ∧ (P.intercept f).option = .ignoreFun) ∨
    ∃ st' node isNew, getOrCreateCallNode P st (P.contextEvolve c i) c f i = (st', some (node, isNew)) ∧
      (P.intercept f).option ≠ .ignoreFun ∧
      Inv P targets (st'.createEdge s node i) (if isNew then pending ++ [node] else pending) ∧
      st.Extends (st'.createEdge s node i) ∧ (s, i, node) ∈ (st'.createEdge s node i).edges ∧
      Reaches P (st'.createEdge s node i) node c i (P.intercept f).redirectTo ∧
      st'.visited = st.visited ∧ st'.targets = st.targets ∧ st'.resolvedNode = st.resolvedNode := by
  unfold getOrCreateCallNode
  dsimp only
  split
  · next hignore => exact .inl ⟨rfl, hignore⟩
  · next hkept =>
    right
    split
    · next g hg =>
      have hred : P.Redirects f g (P.intercept f).option := ⟨by rw [← hg], hkept⟩
      split
      · next node hnode =>
        obtain ⟨ext, hf⟩ := (h.funMap _ g node).mp hnode
        have he := st.createEdge_extends s node i
        refine ⟨st, node, false, rfl, hkept, h.createEdge ?_ ?_, he,
          (st.mem_createEdge _ _ _ _ _ _).mpr (.inr ⟨rfl, rfl, rfl⟩), ?_, rfl, rfl, rfl⟩
        · exact (List.getElem?_eq_some_iff.mp hf).choose
        · exact fun c' j hp => absurd hp hf.not_isFunPtr
        · rw [hg]
          exact ⟨ext, he.isFun hf⟩
      · next hnode =>
        have hadd := h.addFun hnode hcalled hred rfl
        generalize (decide ((P.intercept f).option = .expandBody) && P.hasBody g) = expanded at hadd ⊢
        have hf : (st.createCallNode (P.contextEvolve c i) g !expanded).IsFun st.nodes.length
            (P.contextEvolve c i) g !expanded :=
          (st.createCallNode_isFun _ _ _ _ _ _ _).mpr (.inr ⟨rfl, rfl, rfl, rfl⟩)
        have he := (st.createCallNode (P.contextEvolve c i) g !expanded).createEdge_extends s st.nodes.length i
        refine ⟨_, st.nodes.length, expanded, rfl, hkept, hadd.createEdge ?_ ?_,
          (st.createCallNode_extends _ _ _).trans he,
          (State.mem_createEdge _ _ _ _ _ _ _).mpr (.inr ⟨rfl, rfl, rfl⟩), ?_, rfl, rfl, rfl⟩
        · exact (List.getElem?_eq_some_iff.mp hf).choose
        · exact fun c' j hp => absurd hp hf.not_isFunPtr
        · rw [hg]
          exact ⟨_, he.isFun hf⟩
    · next value hvalue =>
      obtain ⟨hinv, he, hedge, hp⟩ := h.callIndirect (some value) hs
      obtain ⟨hvisited, htargets, hresolved⟩ := st.getOrCreateInDirectCallNode_eq c i (some value)
      refine ⟨_, _, false, rfl, hkept, hinv, he, hedge, ?_, hvisited, htargets, hresolved⟩
      rw [hvalue]
      exact hp

end OpenRace.CtxModule
