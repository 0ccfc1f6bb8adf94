import Mathlib.Logic.Relation
import Mathlib.Data.Fintype.Order
import Mathlib.Data.Set.Finite.Basic
import Mathlib.Tactic.Common

/-! Nodes of a graph that are reached through one edge only, or entered through one node only. -/

namespace OpenRace.Library.Dominance

open Relation

variable {α : Type*} (edge : α → α → Prop)

abbrev Reaches : α → α → Prop := ReflTransGen edge

/-- No path reaches the node by the other edges, the `detour`. -/
structure Dominated (detour : α → α → Prop) (entry node : α) : Prop where
  reached : Reaches edge entry node
  dominated : ¬ Reaches detour entry node

/-- The least set with `root` and with every node that is entered, and from this set only. -/
inductive Enclosed (root : α) : α → Prop
  | root : Enclosed root root
  | inside {node} (he : ∃ pred, edge pred node) (h : ∀ pred, edge pred node → Enclosed root pred) :
      Enclosed root node

def Off (root : α) : α → α → Prop := fun a b => edge a b ∧ a ≠ root ∧ b ≠ root

/-- The node is behind a loop, or behind a node without predecessors, and not only behind the root. -/
def Exposed (root node : α) : Prop :=
  ∃ a, (TransGen (Off edge root) a a ∨ a ≠ root ∧ ∀ pred, ¬ edge pred a) ∧ ReflTransGen (Off edge root) a node

variable {edge} {detour : α → α → Prop} {entry root : α}

lemma Dominated.pred {node pred : α} (h : Dominated edge detour entry node) (hd : detour pred node)
    (hr : Reaches edge entry pred) : Dominated edge detour entry pred :=
  ⟨hr, fun hw => h.dominated (hw.tail hd)⟩

lemma Dominated.entered {node : α} (h : Dominated edge detour entry node) : ∃ pred, edge pred node := by
  obtain ⟨hreached, hdominated⟩ := h
  cases hreached with
  | refl => exact absurd .refl hdominated
  | tail _ he => exact ⟨_, he⟩

/-- Where control only goes forward behind an edge, the nodes behind it are enclosed by its target. -/
theorem Dominated.enclosed (order : α → ℕ) (hdetour : ∀ a b, edge a b → b ≠ root → detour a b)
    (hreach : ∀ a b, Dominated edge detour entry b → b ≠ root → edge a b → Reaches edge entry a)
    (horder : ∀ a b, Dominated edge detour entry a → Dominated edge detour entry b → b ≠ root → edge a b →
      order a < order b) {node : α} (h : Dominated edge detour entry node) : Enclosed edge root node := by
  induction hn : order node using Nat.strong_induction_on generalizing node with
  | h n ih =>
    by_cases heq : node = root
    · rw [heq]
      exact .root
    · refine .inside h.entered fun pred he => ?_
      have hpred := h.pred (hdetour pred node he heq) (hreach pred node h heq he)
      exact ih (order pred) (hn ▸ horder pred node hpred h heq he) hpred rfl

lemma Enclosed.back {a b : α} (h : Enclosed edge root b) (hr : ReflTransGen (Off edge root) a b) :
    Enclosed edge root a := by
  induction hr with
  | refl => exact h
  | tail _ he ih =>
    cases h with
    | root => exact absurd rfl he.2.2
    | inside _ hall => exact ih (hall _ he.1)

lemma Enclosed.reached {node : α} (h : Enclosed edge root node) (hsub : ∀ a b, detour a b → edge a b)
    (hentry : ∀ pred, ¬ edge pred entry) (hn : Reaches detour entry node) : Reaches detour entry root := by
  induction h with
  | root => exact hn
  | inside he _ ih =>
    cases hn with
    | refl =>
      obtain ⟨pred, he⟩ := he
      exact absurd he (hentry pred)
    | tail hr hd => exact ih _ (hsub _ _ hd) hr

lemma Enclosed.not_exposed {node : α} (h : Enclosed edge root node) : ¬ Exposed edge root node := by
  rintro ⟨a, hloop | ⟨hne, hnone⟩, hr⟩
  · -- the loop would have to be entered from within itself
    have ha := h.back hr
    have hacc : ∀ b, Enclosed edge root b → ¬ TransGen (Off edge root) b b := by
      intro b hb
      induction hb with
      | root =>
        intro hb
        obtain ⟨c, _, he⟩ := TransGen.tail'_iff.mp hb
        exact he.2.2 rfl
      | inside _ hall ih =>
        intro hb
        obtain ⟨c, hr, he⟩ := TransGen.tail'_iff.mp hb
        exact ih c he.1 (TransGen.head' he hr)
    exact hacc a ha hloop
  · cases h.back hr with
    | root => exact hne rfl
    | inside he _ =>
      obtain ⟨pred, he⟩ := he
      exact hnone pred he

/-- In a finite graph nothing but loops and nodes without predecessors keeps a node from being enclosed. -/
theorem enclosed_iff_not_exposed {nodes : Set α} (hfin : nodes.Finite) (hnodes : ∀ a b, edge a b → a ∈ nodes)
    {node : α} : Enclosed edge root node ↔ ¬ Exposed edge root node := by
  refine ⟨Enclosed.not_exposed, fun hexp => ?_⟩
  -- the predecessors of an unexposed node make up a well-founded order
  let Before : α → α → Prop := fun a b => a ∈ nodes ∧ TransGen (Off edge root) a b ∧ ¬ Exposed edge root b
  have hback : ∀ {a b}, ReflTransGen (Off edge root) a b → ¬ Exposed edge root b → ¬ Exposed edge root a := by
    rintro a b hr hb ⟨c, hc, hca⟩
    exact hb ⟨c, hc, hca.trans hr⟩
  have htrans : IsTrans α Before := ⟨by
    rintro a b c ⟨ha, hab, -⟩ ⟨-, hbc, hc⟩
    exact ⟨ha, hab.trans hbc, hc⟩⟩
  have hirrefl : Std.Irrefl Before := ⟨by
    rintro a ⟨-, hloop, hun⟩
    exact hun ⟨a, Or.inl hloop, .refl⟩⟩
  have hwf : WellFounded (fun a b : nodes => Before a b) := by
    have := hfin.to_subtype
    have : IsTrans nodes (fun a b => Before a b) := ⟨fun a b c => htrans.trans a b c⟩
    have : Std.Irrefl (fun a b : nodes => Before a b) := ⟨fun a => hirrefl.irrefl a⟩
    exact Finite.wellFounded_of_trans_of_irrefl _
  have hinside : ∀ {b}, ¬ Exposed edge root b → b ≠ root →
      (∀ pred, edge pred b → pred ≠ root → Enclosed edge root pred) → Enclosed edge root b := by
    intro b hb hne hpreds
    refine .inside ?_ fun pred he => ?_
    · by_contra hnone
      exact hb ⟨b, Or.inr ⟨hne, fun pred he => hnone ⟨pred, he⟩⟩, .refl⟩
    · by_cases heq : pred = root
      · rw [heq]
        exact .root
      · exact hpreds pred he heq
  have hall : ∀ a : nodes, ¬ Exposed edge root a.1 → Enclosed edge root a.1 := by
    intro a
    induction a using hwf.induction with
    | _ a ih =>
      intro hun
      by_cases heq : a.1 = root
      · rw [heq]
        exact .root
      · refine hinside hun heq fun pred he hne => ?_
        have hoff : Off edge root pred a.1 := ⟨he, hne, heq⟩
        exact ih ⟨pred, hnodes _ _ he⟩ ⟨hnodes _ _ he, .single hoff, hun⟩ (hback (.single hoff) hun)
  by_cases heq : node = root
  · rw [heq]
    exact .root
  · exact hinside hexp heq fun pred he hne =>
      hall ⟨pred, hnodes _ _ he⟩ (hback (.single ⟨he, hne, heq⟩) hexp)

end OpenRace.Library.Dominance
