import OpenRace.PointerAnalysis.Context.KOrigin

/-! Hybrid contexts: one object for each pair of component contexts. -/

namespace OpenRace

open Library.Interning

variable {I : Type}

structure HybridCtx (A B : CtxTrait I) where
  ctx : A.Ctx × B.Ctx

namespace HybridCtx

variable {A B : CtxTrait I}

def equal (ctx other : HybridCtx A B) : Option Bool := some (decide (ctx.ctx = other.ctx))

def hash (hashCombine : A.Ctx × B.Ctx → UInt64) (ctx : HybridCtx A B) : UInt64 := hashCombine ctx.ctx

def initCtx : HybridCtx A B := ⟨(A.initCtx, B.initCtx)⟩

def globCtx : HybridCtx A B := ⟨(A.globCtx, B.globCtx)⟩

abbrev Store (A B : CtxTrait I) := A.Store × B.Store × List (HybridCtx A B)

abbrev deref (store : Store A B) (ctx : CtxPtr) : Option (HybridCtx A B) := ctx.deref initCtx globCtx store.2.2

def contextEvolve (hashCombine : A.Ctx × B.Ctx → UInt64) (store : Store A B) (prevCtx : CtxPtr) (site : I) :
    Option (CtxPtr × Store A B) := do
  let prev ← deref store prevCtx
  let (a, storeA) ← A.contextEvolve store.1 prev.ctx.1 site
  let (b, storeB) ← B.contextEvolve store.2.1 prev.ctx.2 site
  let (address, ctxSet) ← emplace (hash hashCombine) equal store.2.2 ⟨(a, b)⟩
  return (.interned address, storeA, storeB, ctxSet)

variable (A B) in
def trait (hashCombine : A.Ctx × B.Ctx → UInt64) : CtxTrait I where
  Ctx := CtxPtr
  sameCtx := inferInstance
  Store := Store A B
  start := (A.start, B.start, [])
  initCtx := .initCtx
  globCtx := .globCtx
  contextEvolve := contextEvolve hashCombine

/-- A hybrid context is to tell apart what one of its components does. -/
def sites (SA : Sites A) (SB : Sites B) (hashCombine : A.Ctx × B.Ctx → UInt64) : Sites (trait A B hashCombine) where
  History := SA.History × SB.History
  nothing := (SA.nothing, SB.nothing)
  record := fun store prevCtx site history =>
    match deref store prevCtx with
    | some prev => (SA.record store.1 prev.ctx.1 site history.1, SB.record store.2.1 prev.ctx.2 site history.2)
    | none => history

lemma canonical (hashCombine : A.Ctx × B.Ctx → UInt64) :
    Canonical (hash hashCombine) (@equal I A B) HybridCtx.ctx where
  equal_eq := fun _ _ => rfl
  hash_congr := fun _ _ h => congrArg hashCombine h

variable {hashCombine : A.Ctx × B.Ctx → UInt64}

lemma deref_of_prefix {store store' : Store A B} (hpre : store.2.2 <+: store'.2.2) {ctx : CtxPtr}
    {object : HybridCtx A B} (h : deref store ctx = some object) : deref store' ctx = some object := by
  cases ctx with
  | initCtx => exact h
  | globCtx => exact h
  | interned address => exact getElem?_of_prefix hpre h

lemma contextEvolve_eq_some {store store' : Store A B} {prevCtx ctx : CtxPtr} {site : I}
    (h : contextEvolve hashCombine store prevCtx site = some (ctx, store')) :
    ∃ prev a b address, deref store prevCtx = some prev ∧
      A.contextEvolve store.1 prev.ctx.1 site = some (a, store'.1) ∧
      B.contextEvolve store.2.1 prev.ctx.2 site = some (b, store'.2.1) ∧
      ctx = .interned address ∧ store.2.2 <+: store'.2.2 ∧
      (Distinct HybridCtx.ctx store.2.2 → Distinct HybridCtx.ctx store'.2.2) ∧
      deref store' ctx = some ⟨(a, b)⟩ := by
  simp only [contextEvolve, Option.bind_eq_bind, Option.bind_eq_some_iff, Prod.exists] at h
  obtain ⟨prev, hprev, a, storeA, ha, b, storeB, hb, address, ctxSet, hem, hres⟩ := h
  obtain ⟨rfl, rfl⟩ := Prod.mk.inj (Option.some.inj hres)
  obtain ⟨address', ctxSet', heq, hpre, hdis, -, object, hobj, hctx⟩ :=
    (canonical hashCombine).emplace_eq store.2.2 ⟨(a, b)⟩
  obtain ⟨rfl, rfl⟩ := Prod.mk.inj (Option.some.inj (hem.symm.trans heq))
  refine ⟨prev, a, b, address, hprev, ha, hb, rfl, hpre, hdis, ?_⟩
  cases object
  cases hctx
  exact hobj

variable {SA : Sites A} {SB : Sites B}

structure Paired (store : Store A B) (obtainedA : List (Obtained SA)) (obtainedB : List (Obtained SB))
    (e : Obtained (sites SA SB hashCombine)) : Prop where
  interned : e.ctx = e.root ∨ ∃ address, e.ctx = .interned address
  components : ∃ object rootObject, deref store e.ctx = some object ∧ deref store e.root = some rootObject ∧
    ⟨rootObject.ctx.1, e.history.1, object.ctx.1⟩ ∈ obtainedA ∧
    ⟨rootObject.ctx.2, e.history.2, object.ctx.2⟩ ∈ obtainedB

lemma Paired.mono {store store' : Store A B} (hpre : store.2.2 <+: store'.2.2)
    {obtainedA obtainedA' : List (Obtained SA)} (hA : obtainedA ⊆ obtainedA')
    {obtainedB obtainedB' : List (Obtained SB)} (hB : obtainedB ⊆ obtainedB')
    {e : Obtained (sites SA SB hashCombine)} (h : Paired store obtainedA obtainedB e) :
    Paired store' obtainedA' obtainedB' e where
  interned := h.interned
  components := by
    obtain ⟨object, rootObject, hobj, hroot, ha, hb⟩ := h.components
    exact ⟨object, rootObject, deref_of_prefix hpre hobj, deref_of_prefix hpre hroot, hA ha, hB hb⟩

lemma evolved_components {store : (trait A B hashCombine).Store}
    {obtained : List (Obtained (sites SA SB hashCombine))}
    (h : Evolved (sites SA SB hashCombine) store obtained) :
    Distinct HybridCtx.ctx store.2.2 ∧ ∃ obtainedA obtainedB, Evolved SA store.1 obtainedA ∧
      Evolved SB store.2.1 obtainedB ∧ ∀ e ∈ obtained, Paired store obtainedA obtainedB e := by
  induction h with
  | start =>
    refine ⟨List.Pairwise.nil, _, _, .start, .start, ?_⟩
    simp only [List.mem_cons, List.not_mem_nil, or_false, forall_eq_or_imp, forall_eq]
    exact ⟨⟨.inl rfl, initCtx, initCtx, rfl, rfl, List.mem_cons_self, List.mem_cons_self⟩,
      ⟨.inl rfl, globCtx, globCtx, rfl, rfl, List.mem_cons_of_mem _ List.mem_cons_self,
        List.mem_cons_of_mem _ List.mem_cons_self⟩⟩
  | @evolve store store' obtained e site ctx _ he hev ih =>
    obtain ⟨hd, obtainedA, obtainedB, hrunA, hrunB, hpaired⟩ := ih
    obtain ⟨prev, a, b, address, hprev, ha, hb, hctx, hpre, hdis, hnew⟩ := contextEvolve_eq_some hev
    obtain ⟨object, rootObject, hobj, hroot, hmemA, hmemB⟩ := (hpaired e he).components
    obtain rfl : prev = object := Option.some.inj (hprev.symm.trans hobj)
    refine ⟨hdis hd, _, _, .evolve hrunA hmemA ha, .evolve hrunB hmemB hb, fun f hf => ?_⟩
    rcases List.mem_cons.mp hf with rfl | hf
    · have hrec : (sites SA SB hashCombine).record store e.ctx site e.history =
          (SA.record store.1 prev.ctx.1 site e.history.1, SB.record store.2.1 prev.ctx.2 site e.history.2) := by
        simp only [sites]
        rw [hprev]
      refine ⟨.inr ⟨address, hctx⟩, ⟨(a, b)⟩, rootObject, hnew, deref_of_prefix hpre hroot, ?_, ?_⟩
      · simp only [hrec]
        exact List.mem_cons_self
      · simp only [hrec]
        exact List.mem_cons_self
    · exact (hpaired f hf).mono hpre (List.subset_cons_self _ _) (List.subset_cons_self _ _)

variable {κA κB : Type} {keyA : SA.History → κA} {keyB : SB.History → κB}

lemma ctx_eq_iff (hA : Keyed SA keyA) (hB : Keyed SB keyB) {store : Store A B}
    {obtained : List (Obtained (sites SA SB hashCombine))} (h : Evolved (sites SA SB hashCombine) store obtained)
    {e f : Obtained (sites SA SB hashCombine)} (he : e ∈ obtained) (hf : f ∈ obtained)
    (hre : e.root = CtxPtr.initCtx) (hrf : f.root = CtxPtr.initCtx) (hne : e.ctx ≠ CtxPtr.initCtx)
    (hnf : f.ctx ≠ CtxPtr.initCtx) :
    e.ctx = f.ctx ↔ keyA e.history.1 = keyA f.history.1 ∧ keyB e.history.2 = keyB f.history.2 := by
  obtain ⟨hd, obtainedA, obtainedB, hrunA, hrunB, hpaired⟩ := evolved_components h
  obtain ⟨hinte, object, rootObject, hobj, hroot, hmemA, hmemB⟩ := hpaired e he
  obtain ⟨hintf, object', rootObject', hobj', hroot', hmemA', hmemB'⟩ := hpaired f hf
  rw [hre] at hroot hinte
  rw [hrf] at hroot' hintf
  obtain rfl : initCtx = rootObject := Option.some.inj hroot
  obtain rfl : initCtx = rootObject' := Option.some.inj hroot'
  obtain ⟨address, haddr⟩ := hinte.resolve_left hne
  obtain ⟨address', haddr'⟩ := hintf.resolve_left hnf
  have hkeyA := hA.ctx_eq_iff hrunA _ hmemA _ hmemA' rfl rfl
  have hkeyB := hB.ctx_eq_iff hrunB _ hmemB _ hmemB' rfl rfl
  rw [haddr] at hobj ⊢
  rw [haddr'] at hobj' ⊢
  calc CtxPtr.interned address = .interned address' ↔ address = address' := by simp
    _ ↔ object.ctx = object'.ctx := hd.address_eq_iff hobj hobj'
    _ ↔ object.ctx.1 = object'.ctx.1 ∧ object.ctx.2 = object'.ctx.2 := Prod.ext_iff
    _ ↔ keyA e.history.1 = keyA f.history.1 ∧ keyB e.history.2 = keyB f.history.2 := and_congr hkeyA hkeyB

lemma evolves (hA : Keyed SA keyA) (hB : Keyed SB keyB) {store : Store A B}
    {obtained : List (Obtained (sites SA SB hashCombine))} (h : Evolved (sites SA SB hashCombine) store obtained)
    {e : Obtained (sites SA SB hashCombine)} (he : e ∈ obtained) (site : I) :
    (contextEvolve hashCombine store e.ctx site).isSome := by
  obtain ⟨-, obtainedA, obtainedB, hrunA, hrunB, hpaired⟩ := evolved_components h
  obtain ⟨object, rootObject, hobj, hroot, hmemA, hmemB⟩ := (hpaired e he).components
  obtain ⟨⟨a, storeA⟩, ha⟩ := Option.isSome_iff_exists.mp (hA.evolves hrunA _ hmemA site)
  obtain ⟨⟨b, storeB⟩, hb⟩ := Option.isSome_iff_exists.mp (hB.evolves hrunB _ hmemB site)
  obtain ⟨address, ctxSet, hem, -⟩ :=
    (canonical hashCombine).emplace_eq store.2.2 ⟨(a, b)⟩
  simp [contextEvolve, hobj, ha, hb, hem]

end HybridCtx

/-- Contexts are one object exactly when the last sites they are to tell apart agree, and iterating over one,
empty slots skipped, gives these sites from the oldest to the newest. -/
theorem contexts_keyed [DecidableEq I] (K K' : ℕ+) (hashRange : List (Option I) → UInt64)
    (callback : CtxPtr → KOrigin I K → I → Bool) (hashCombine : CtxPtr × CtxPtr → UInt64) :
    (∀ ctxSet obtained, Evolved (KCallSite.sites K' hashRange) ctxSet obtained →
      ∀ e ∈ obtained, ∀ f ∈ obtained, e.root = .initCtx → f.root = .initCtx →
        (e.ctx = f.ctx ↔ e.history.rtake K' = f.history.rtake K') ∧
        (∃ object slots, KCallSite.deref ctxSet e.ctx = some object ∧ object.ctxBuffer.slots = some slots ∧
          slots.reduceOption = e.history.rtake K') ∧
        ∀ site, ((KCallSite.trait K' hashRange).contextEvolve ctxSet e.ctx site).isSome) ∧
    (∀ ctxSet obtained, Evolved (KOrigin.sites K hashRange callback) ctxSet obtained →
      ∀ e ∈ obtained, ∀ f ∈ obtained, e.root = .initCtx → f.root = .initCtx →
        (e.ctx = f.ctx ↔ e.history.rtake K = f.history.rtake K) ∧
        (∃ object slots, KCallSite.deref ctxSet e.ctx = some object ∧ object.ctxBuffer.slots = some slots ∧
          slots.reduceOption = e.history.rtake K) ∧
        ∀ site, ((KOrigin.trait K hashRange callback).contextEvolve ctxSet e.ctx site).isSome) ∧
    (∀ store obtained,
      Evolved (HybridCtx.sites (KOrigin.sites K hashRange callback) (KCallSite.sites K' hashRange) hashCombine)
        store obtained →
      ∀ e ∈ obtained, ∀ f ∈ obtained, e.root = .initCtx → f.root = .initCtx →
        (e.ctx ≠ .initCtx → f.ctx ≠ .initCtx →
          (e.ctx = f.ctx ↔
            e.history.1.rtake K = f.history.1.rtake K ∧ e.history.2.rtake K' = f.history.2.rtake K')) ∧
        ∀ site, (HybridCtx.contextEvolve hashCombine store e.ctx site).isSome) := by
  refine ⟨?_, ?_, ?_⟩
  · intro ctxSet obtained h e he f hf hre hrf
    have hkept := (KCallSite.evolved_kept h).2 e he
    exact ⟨KCallSite.keyed.ctx_eq_iff h e he f hf hre hrf, hkept.iterate, KCallSite.keyed.evolves h e he⟩
  · intro ctxSet obtained h e he f hf hre hrf
    have hkept := (KOrigin.evolved_kept h).2 e he
    exact ⟨KOrigin.keyed.ctx_eq_iff h e he f hf hre hrf, hkept.iterate, KOrigin.keyed.evolves h e he⟩
  · intro store obtained h e he f hf hre hrf
    exact ⟨HybridCtx.ctx_eq_iff KOrigin.keyed KCallSite.keyed h he hf hre hrf,
      HybridCtx.evolves KOrigin.keyed KCallSite.keyed h he⟩

end OpenRace
