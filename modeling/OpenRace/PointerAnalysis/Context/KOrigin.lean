import OpenRace.Library.Interning
import OpenRace.PointerAnalysis.Context.CtxTrait
import OpenRace.PointerAnalysis.Context.PtrRingBuffer

/-! Call-site and origin contexts: the last sites kept in a ring buffer, one object for each content. -/

namespace OpenRace

open Library Library.Interning

variable {I : Type}

structure KCallSite (I : Type) (K : ℕ+) where
  ctxBuffer : PtrRingBuffer I K

namespace KCallSite

variable {K : ℕ+}

def empty : KCallSite I K := ⟨PtrRingBuffer.empty⟩

def evolved (prevCtx : KCallSite I K) (site : I) : KCallSite I K := ⟨(prevCtx.ctxBuffer.push site).2⟩

/-- Hashing goes over the slots as iteration meets them. -/
def hash (hashRange : List (Option I) → UInt64) (ctx : KCallSite I K) : UInt64 :=
  hashRange (ctx.ctxBuffer.slots.getD [])

def elements (ctx : KCallSite I K) : List (Option I) := ctx.ctxBuffer.elements

abbrev deref (ctxSet : List (KCallSite I K)) (ctx : CtxPtr) : Option (KCallSite I K) :=
  ctx.deref empty empty ctxSet

variable [DecidableEq I] (hashRange : List (Option I) → UInt64)

def equal (ctx other : KCallSite I K) : Option Bool := ctx.ctxBuffer.equal other.ctxBuffer

def emplace (ctxSet : List (KCallSite I K)) (ctx : KCallSite I K) : Option (CtxPtr × List (KCallSite I K)) :=
  (Interning.emplace (hash hashRange) equal ctxSet ctx).map fun r => (.interned r.1, r.2)

def contextEvolve (ctxSet : List (KCallSite I K)) (prevCtx : CtxPtr) (site : I) :
    Option (CtxPtr × List (KCallSite I K)) := do
  let prev ← deref ctxSet prevCtx
  emplace hashRange ctxSet (prev.evolved site)

variable (K) in
def trait : CtxTrait I where
  Ctx := CtxPtr
  sameCtx := inferInstance
  Store := List (KCallSite I K)
  start := []
  initCtx := .initCtx
  globCtx := .globCtx
  contextEvolve := contextEvolve hashRange

variable (K) in
def sites : Sites (trait K hashRange) where
  History := List I
  nothing := []
  record := fun _ _ site history => history ++ [site]

end KCallSite

/-- Origins of one call site each, the only length that is supported. -/
abbrev KOrigin (I : Type) (K : ℕ+) := KCallSite I K

namespace KOrigin

variable {K : ℕ+} [DecidableEq I] (hashRange : List (Option I) → UInt64)
  (callback : CtxPtr → KOrigin I K → I → Bool)

def contextEvolve (ctxSet : List (KOrigin I K)) (prevCtx : CtxPtr) (site : I) :
    Option (CtxPtr × List (KOrigin I K)) := do
  let prev ← KCallSite.deref ctxSet prevCtx
  if callback prevCtx prev site then
    KCallSite.emplace hashRange ctxSet (prev.evolved site)
  else
    return (prevCtx, ctxSet)

variable (K) in
def trait : CtxTrait I where
  Ctx := CtxPtr
  sameCtx := inferInstance
  Store := List (KOrigin I K)
  start := []
  initCtx := .initCtx
  globCtx := .globCtx
  contextEvolve := contextEvolve hashRange callback

variable (K) in
def sites : Sites (trait K hashRange callback) where
  History := List I
  nothing := []
  record := fun ctxSet prevCtx site history =>
    if (KCallSite.deref ctxSet prevCtx).any fun prev => callback prevCtx prev site then history ++ [site]
    else history

end KOrigin

namespace KCallSite

variable {K : ℕ+}

structure Kept (ctxSet : List (KCallSite I K)) (root : CtxPtr) (history : List I) (ctx : CtxPtr) : Prop where
  static : root = .initCtx ∨ root = .globCtx
  holds : ∃ object, deref ctxSet ctx = some object ∧ object.ctxBuffer.Holds history
  unevolved : history = [] → ctx = root
  interned : history ≠ [] → ∃ address, ctx = .interned address

lemma deref_of_prefix {ctxSet ctxSet' : List (KCallSite I K)} (hpre : ctxSet <+: ctxSet') {ctx : CtxPtr}
    {object : KCallSite I K} (h : deref ctxSet ctx = some object) : deref ctxSet' ctx = some object := by
  cases ctx with
  | initCtx => exact h
  | globCtx => exact h
  | interned address => exact getElem?_of_prefix hpre h

lemma Kept.of_prefix {ctxSet ctxSet' : List (KCallSite I K)} (hpre : ctxSet <+: ctxSet') {root ctx : CtxPtr}
    {history : List I} (h : Kept ctxSet root history ctx) : Kept ctxSet' root history ctx where
  static := h.static
  holds := by
    obtain ⟨object, hobj, hh⟩ := h.holds
    exact ⟨object, deref_of_prefix hpre hobj, hh⟩
  unevolved := h.unevolved
  interned := h.interned

lemma kept_static {root : CtxPtr} (hr : root = .initCtx ∨ root = .globCtx) (ctxSet : List (KCallSite I K)) :
    Kept ctxSet root [] root where
  static := hr
  holds := ⟨empty, by rcases hr with rfl | rfl <;> rfl, PtrRingBuffer.holds_empty⟩
  unevolved := fun _ => rfl
  interned := fun h => absurd rfl h

lemma holds_congr {object other : KCallSite I K} (h : object.elements = other.elements) {history : List I}
    (hh : other.ctxBuffer.Holds history) : object.ctxBuffer.Holds history := h.trans hh

lemma Kept.push {ctxSet ctxSet' : List (KCallSite I K)} {root ctx : CtxPtr} {history : List I}
    (h : Kept ctxSet root history ctx) {prev : KCallSite I K} (hprev : deref ctxSet ctx = some prev) {site : I}
    {address : ℕ} {object : KCallSite I K} (hobj : deref ctxSet' (.interned address) = some object)
    (hel : object.elements = (prev.evolved site).elements) :
    Kept ctxSet' root (history ++ [site]) (.interned address) where
  static := h.static
  holds := by
    obtain ⟨prev', hprev', hh⟩ := h.holds
    obtain rfl : prev = prev' := Option.some.inj (hprev.symm.trans hprev')
    exact ⟨object, hobj, holds_congr hel (hh.push site)⟩
  unevolved := fun hnil => absurd hnil (by simp)
  interned := fun _ => ⟨address, rfl⟩

lemma rtake_eq_nil {history : List I} (h : history.rtake K = []) : history = [] := by
  have hlen := congrArg List.length h
  rw [List.rtake, List.length_drop, List.length_nil] at hlen
  have hpos := K.pos
  exact List.length_eq_zero_iff.mp (by omega)

lemma Kept.ctx_eq_iff {ctxSet : List (KCallSite I K)} (hd : Distinct elements ctxSet) {root ctx ctx' : CtxPtr}
    {history history' : List I} (h : Kept ctxSet root history ctx) (h' : Kept ctxSet root history' ctx') :
    ctx = ctx' ↔ history.rtake K = history'.rtake K := by
  obtain ⟨object, hobj, hh⟩ := h.holds
  obtain ⟨object', hobj', hh'⟩ := h'.holds
  constructor
  · rintro rfl
    obtain rfl : object = object' := Option.some.inj (hobj.symm.trans hobj')
    exact (hh.elements_eq_iff hh').mp rfl
  · intro heq
    by_cases hnil : history = []
    · subst hnil
      have hnil' : history' = [] := rtake_eq_nil (heq.symm.trans (by simp))
      rw [h.unevolved rfl, h'.unevolved hnil']
    · have hnil' : history' ≠ [] := by
        rintro rfl
        exact hnil (rtake_eq_nil (heq.trans (by simp)))
      obtain ⟨address, rfl⟩ := h.interned hnil
      obtain ⟨address', rfl⟩ := h'.interned hnil'
      rw [(hd.address_eq_iff hobj hobj').mpr ((hh.elements_eq_iff hh').mpr heq)]

lemma Kept.iterate {ctxSet : List (KCallSite I K)} {root ctx : CtxPtr} {history : List I}
    (h : Kept ctxSet root history ctx) :
    ∃ object slots, deref ctxSet ctx = some object ∧ object.ctxBuffer.slots = some slots ∧
      slots.reduceOption = history.rtake K := by
  obtain ⟨object, hobj, hh⟩ := h.holds
  exact ⟨object, object.elements, hobj, object.ctxBuffer.slots_eq, hh.reduceOption_elements⟩

variable [DecidableEq I] (hashRange : List (Option I) → UInt64)

lemma canonical : Canonical (hash hashRange) (@equal I K _) elements where
  equal_eq := fun ctx other => PtrRingBuffer.equal_eq ctx.ctxBuffer other.ctxBuffer
  hash_congr := fun ctx other h => by
    rw [hash, hash, PtrRingBuffer.slots_eq, PtrRingBuffer.slots_eq]
    exact congrArg hashRange h

lemma emplace_eq (ctxSet : List (KCallSite I K)) (new : KCallSite I K) :
    ∃ address ctxSet', emplace hashRange ctxSet new = some (.interned address, ctxSet') ∧
      ctxSet <+: ctxSet' ∧ (Distinct elements ctxSet → Distinct elements ctxSet') ∧
      ∃ object, deref ctxSet' (.interned address) = some object ∧ object.elements = new.elements := by
  obtain ⟨address, ctxSet', heq, hpre, hdis, -, object, hobj, hel⟩ :=
    (canonical hashRange).emplace_eq ctxSet new
  exact ⟨address, ctxSet', by rw [emplace, heq]; rfl, hpre, hdis, object, hobj, hel⟩

lemma contextEvolve_eq {ctxSet : List (KCallSite I K)} {root ctx : CtxPtr} {history : List I}
    (hd : Distinct elements ctxSet) (h : Kept ctxSet root history ctx) (site : I) :
    ∃ ctx' ctxSet', contextEvolve hashRange ctxSet ctx site = some (ctx', ctxSet') ∧
      Distinct elements ctxSet' ∧ ctxSet <+: ctxSet' ∧ Kept ctxSet' root (history ++ [site]) ctx' := by
  obtain ⟨prev, hprev, -⟩ := h.holds
  obtain ⟨address, ctxSet', heq, hpre, hdis, object, hobj, hel⟩ :=
    emplace_eq hashRange ctxSet (prev.evolved site)
  refine ⟨.interned address, ctxSet', ?_, hdis hd, hpre, h.push hprev hobj hel⟩
  rw [contextEvolve, hprev]
  exact heq

variable {hashRange}

lemma evolved_kept {ctxSet : List (KCallSite I K)} {obtained : List (Obtained (sites K hashRange))}
    (h : Evolved (sites K hashRange) ctxSet obtained) :
    Distinct elements ctxSet ∧ ∀ e ∈ obtained, Kept ctxSet e.root e.history e.ctx := by
  refine h.invariant (Distinct elements) (fun ctxSet e => Kept ctxSet e.root e.history e.ctx)
    List.Pairwise.nil (kept_static (.inl rfl) _) (kept_static (.inr rfl) _) ?_
  intro ctxSet ctxSet' e site ctx hd hk hev
  obtain ⟨ctx', grown, heq, hd', hpre, hk'⟩ := contextEvolve_eq hashRange hd hk site
  obtain ⟨rfl, rfl⟩ := Prod.mk.inj (Option.some.inj (heq.symm.trans hev))
  exact ⟨hd', hk', fun f hf => hf.of_prefix hpre⟩

lemma keyed : Keyed (sites K hashRange) fun history : List I => history.rtake K where
  ctx_eq_iff := by
    intro ctxSet obtained h e he f hf hre hrf
    obtain ⟨hd, hk⟩ := evolved_kept h
    exact (hk e he).ctx_eq_iff hd (hre.trans hrf.symm ▸ hk f hf)
  evolves := by
    intro ctxSet obtained h e he site
    obtain ⟨hd, hk⟩ := evolved_kept h
    obtain ⟨ctx', grown, heq, -⟩ := contextEvolve_eq hashRange hd (hk e he) site
    exact Option.isSome_of_eq_some heq

end KCallSite

namespace KOrigin

variable {K : ℕ+} [DecidableEq I] (hashRange : List (Option I) → UInt64)
  (callback : CtxPtr → KOrigin I K → I → Bool)

open KCallSite (Kept elements)

lemma contextEvolve_eq {ctxSet : List (KOrigin I K)} {root ctx : CtxPtr} {history : List I}
    (hd : Distinct elements ctxSet) (h : Kept ctxSet root history ctx) (site : I) :
    ∃ ctx' ctxSet', contextEvolve hashRange callback ctxSet ctx site = some (ctx', ctxSet') ∧
      Distinct elements ctxSet' ∧ ctxSet <+: ctxSet' ∧
      Kept ctxSet' root ((sites K hashRange callback).record ctxSet ctx site history) ctx' := by
  obtain ⟨prev, hprev, -⟩ := h.holds
  have hdef : contextEvolve hashRange callback ctxSet ctx site =
      if callback ctx prev site then KCallSite.contextEvolve hashRange ctxSet ctx site else some (ctx, ctxSet) := by
    rw [contextEvolve, KCallSite.contextEvolve, hprev]
    rfl
  have hrec : (sites K hashRange callback).record ctxSet ctx site history =
      if callback ctx prev site then history ++ [site] else history := by
    simp [sites, hprev]
  rw [hdef, hrec]
  by_cases hc : callback ctx prev site
  · simp only [hc, if_true]
    exact KCallSite.contextEvolve_eq hashRange hd h site
  · simp only [hc, Bool.false_eq_true, if_false]
    exact ⟨ctx, ctxSet, rfl, hd, List.prefix_refl _, h⟩

variable {hashRange callback}

lemma evolved_kept {ctxSet : List (KOrigin I K)} {obtained : List (Obtained (sites K hashRange callback))}
    (h : Evolved (sites K hashRange callback) ctxSet obtained) :
    Distinct elements ctxSet ∧ ∀ e ∈ obtained, Kept ctxSet e.root e.history e.ctx := by
  refine h.invariant (Distinct elements) (fun ctxSet e => Kept ctxSet e.root e.history e.ctx)
    List.Pairwise.nil (KCallSite.kept_static (.inl rfl) _) (KCallSite.kept_static (.inr rfl) _) ?_
  intro ctxSet ctxSet' e site ctx hd hk hev
  obtain ⟨ctx', grown, heq, hd', hpre, hk'⟩ :=
    contextEvolve_eq hashRange callback hd hk site
  obtain ⟨rfl, rfl⟩ := Prod.mk.inj (Option.some.inj (heq.symm.trans hev))
  exact ⟨hd', hk', fun f hf => hf.of_prefix hpre⟩

lemma keyed : Keyed (sites K hashRange callback) fun history : List I => history.rtake K where
  ctx_eq_iff := by
    intro ctxSet obtained h e he f hf hre hrf
    obtain ⟨hd, hk⟩ := evolved_kept h
    exact (hk e he).ctx_eq_iff hd (hre.trans hrf.symm ▸ hk f hf)
  evolves := by
    intro ctxSet obtained h e he site
    obtain ⟨hd, hk⟩ := evolved_kept h
    obtain ⟨ctx', grown, heq, -⟩ :=
      contextEvolve_eq hashRange callback hd (hk e he) site
    exact Option.isSome_of_eq_some heq

end KOrigin

end OpenRace
