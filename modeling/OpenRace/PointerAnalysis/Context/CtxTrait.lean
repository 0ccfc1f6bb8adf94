import Mathlib.Data.Option.Basic
import Mathlib.Tactic.Common

/-! Context abstractions, and what is obtained by evolving their contexts in any order. -/

namespace OpenRace

/-- Addresses of context objects: the two static ones and those that a hash set owns. -/
inductive CtxPtr
  | initCtx
  | globCtx
  | interned (address : ℕ)
deriving DecidableEq

/-- The two static objects of a context type have the same content only when they are built alike. -/
def CtxPtr.deref {α : Type} (initial global : α) (ctxSet : List α) : CtxPtr → Option α
  | initCtx => some initial
  | globCtx => some global
  | interned address => ctxSet[address]?

/-- `Store` is what the static hash sets hold. -/
structure CtxTrait (I : Type) where
  Ctx : Type
  sameCtx : DecidableEq Ctx
  Store : Type
  start : Store
  initCtx : Ctx
  globCtx : Ctx
  contextEvolve : Store → Ctx → I → Option (Ctx × Store)

attribute [instance] CtxTrait.sameCtx

variable {I : Type}

/-- Which of the sites on the way to a context its abstraction is to tell apart. -/
structure Sites (T : CtxTrait I) where
  History : Type
  nothing : History
  record : T.Store → T.Ctx → I → History → History

structure Obtained {T : CtxTrait I} (S : Sites T) where
  root : T.Ctx
  history : S.History
  ctx : T.Ctx

/-- Contexts obtained by evolving the static ones and one another, interleaved in any way. -/
inductive Evolved {T : CtxTrait I} (S : Sites T) : T.Store → List (Obtained S) → Prop
  | start : Evolved S T.start [⟨T.initCtx, S.nothing, T.initCtx⟩, ⟨T.globCtx, S.nothing, T.globCtx⟩]
  | evolve {store store' : T.Store} {obtained : List (Obtained S)} {e : Obtained S} {site : I} {ctx : T.Ctx} :
      Evolved S store obtained → e ∈ obtained → T.contextEvolve store e.ctx site = some (ctx, store') →
      Evolved S store' (⟨e.root, S.record store e.ctx site e.history, ctx⟩ :: obtained)

lemma Evolved.invariant {T : CtxTrait I} {S : Sites T} (inv : T.Store → Prop) (kept : T.Store → Obtained S → Prop)
    (hstart : inv T.start) (hinit : kept T.start ⟨T.initCtx, S.nothing, T.initCtx⟩)
    (hglob : kept T.start ⟨T.globCtx, S.nothing, T.globCtx⟩)
    (hstep : ∀ {store store' e site ctx}, inv store → kept store e →
      T.contextEvolve store e.ctx site = some (ctx, store') →
      inv store' ∧ kept store' ⟨e.root, S.record store e.ctx site e.history, ctx⟩ ∧
        ∀ f, kept store f → kept store' f)
    {store : T.Store} {obtained : List (Obtained S)} (h : Evolved S store obtained) :
    inv store ∧ ∀ e ∈ obtained, kept store e := by
  induction h with
  | start => simpa using ⟨hstart, hinit, hglob⟩
  | @evolve store store' obtained e site ctx _ he hev ih =>
    obtain ⟨hi, hk⟩ := ih
    obtain ⟨hi', hnew, hold⟩ := hstep hi (hk e he) hev
    refine ⟨hi', fun f hf => ?_⟩
    rcases List.mem_cons.mp hf with rfl | hf
    · exact hnew
    · exact hold f (hk f hf)

structure Keyed {T : CtxTrait I} (S : Sites T) {κ : Type} (key : S.History → κ) : Prop where
  ctx_eq_iff : ∀ {store obtained}, Evolved S store obtained → ∀ e ∈ obtained, ∀ f ∈ obtained,
    e.root = T.initCtx → f.root = T.initCtx → (e.ctx = f.ctx ↔ key e.history = key f.history)
  evolves : ∀ {store obtained}, Evolved S store obtained → ∀ e ∈ obtained, ∀ site,
    (T.contextEvolve store e.ctx site).isSome

end OpenRace
