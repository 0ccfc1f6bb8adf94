import OpenRace.Library.SortedSearch

/-! Reachability in a family of chains joined by cross edges, decided on the endpoints of the
cross edges alone. -/

namespace OpenRace.Library.CrossedChains

open SortedSearch Relation

variable {α ι : Type*} [LinearOrder α] (chain : α → ι) (cross : α → α → Prop)
  (points : ι → List α)

def Along (a b : α) : Prop := chain a = chain b ∧ a ≤ b

def Full : α → α → Prop := ReflTransGen (fun a b => Along chain a b ∨ cross a b)

def Hop (a b : α) : Prop := cross a b ∨ upperBound (points (chain a)) a = some b

structure Landmarks : Prop where
  ascending : ∀ i, Ascending (points i)
  on_chain : ∀ i, ∀ a ∈ points i, chain a = i
  source : ∀ a b, cross a b → a ∈ points (chain a)
  target : ∀ a b, cross a b → b ∈ points (chain b)

variable {chain cross points}

lemma Along.trans {a b c : α} (h : Along chain a b) (h' : Along chain b c) : Along chain a c :=
  ⟨h.1.trans h'.1, h.2.trans h'.2⟩

lemma Along.full {a b : α} (h : Along chain a b) : Full chain cross a b := .single (Or.inl h)

lemma Full.trans {a b c : α} (h : Full chain cross a b) (h' : Full chain cross b c) :
    Full chain cross a c :=
  ReflTransGen.trans h h'

lemma Hop.full (hl : Landmarks chain cross points) {a b : α} (h : Hop chain cross points a b) :
    Full chain cross a b := by
  rcases h with h | h
  · exact .single (Or.inr h)
  · obtain ⟨hb, hab, _⟩ := upperBound_some (hl.ascending _) h
    exact Along.full ⟨(hl.on_chain _ b hb).symm, hab.le⟩

lemma hops_along (hl : Landmarks chain cross points) {a b : α} (hb : b ∈ points (chain b))
    (h : Along chain a b) : ReflTransGen (Hop chain cross points) a b := by
  have hr := upperBound_reaches (hl.ascending _) hb a h.2
  have hc : chain a = chain b := h.1
  clear h
  induction hr using ReflTransGen.head_induction_on with
  | refl => exact .refl
  | head hu _ ih =>
    have hm := (upperBound_some (hl.ascending _) hu).1
    exact .head (Or.inr (hc ▸ hu)) (ih (hl.on_chain _ _ hm))

lemma full_cases (hl : Landmarks chain cross points) {a b : α} (h : Full chain cross a b) :
    Along chain a b ∨ ∃ s ∈ points (chain s), ∃ t ∈ points (chain t),
      Along chain a s ∧ ReflTransGen (Hop chain cross points) s t ∧ Along chain t b := by
  induction h with
  | refl => exact Or.inl ⟨rfl, le_rfl⟩
  | @tail b c _ hs ih =>
    rcases hs with hs | hs
    · rcases ih with ih | ⟨s, hsm, t, htm, has, hst, htb⟩
      · exact Or.inl (ih.trans hs)
      · exact Or.inr ⟨s, hsm, t, htm, has, hst, htb.trans hs⟩
    · have hb := hl.source b c hs
      have hc := hl.target b c hs
      rcases ih with ih | ⟨s, hsm, t, htm, has, hst, htb⟩
      · exact Or.inr ⟨b, hb, c, hc, ih, .single (Or.inl hs), ⟨rfl, le_rfl⟩⟩
      · exact Or.inr ⟨s, hsm, c, hc, has,
          (hst.trans (hops_along hl hb htb)).tail (Or.inl hs), ⟨rfl, le_rfl⟩⟩

/-- Between different chains it is enough to search from the first landmark after the source to
the last landmark before the target. -/
theorem full_iff (hl : Landmarks chain cross points) {a b : α} (hab : chain a ≠ chain b) :
    Full chain cross a b ↔ ∃ s t, lowerBound (points (chain a)) a = some s ∧
      lastAtMost (points (chain b)) b = some t ∧ ReflTransGen (Hop chain cross points) s t := by
  constructor
  · intro h
    rcases full_cases hl h with h | ⟨s, hs, t, ht, has, hst, htb⟩
    · exact absurd h.1 hab
    · have hsa : s ∈ points (chain a) := has.1 ▸ hs
      have htb' : t ∈ points (chain b) := htb.1 ▸ ht
      cases hlow : lowerBound (points (chain a)) a with
      | none => exact absurd has.2 (not_le.mpr (lowerBound_none hlow s hsa))
      | some s₀ =>
        cases hlast : lastAtMost (points (chain b)) b with
        | none => exact absurd htb.2 (not_le.mpr (lastAtMost_none hlast t htb'))
        | some t₀ =>
          obtain ⟨hs₀, _, hfirst⟩ := lowerBound_some (hl.ascending _) hlow
          obtain ⟨ht₀, _, hlatest⟩ := lastAtMost_some (hl.ascending _) hlast
          have hcs := hl.on_chain _ s₀ hs₀
          have hct := hl.on_chain _ t₀ ht₀
          refine ⟨s₀, t₀, rfl, rfl, ?_⟩
          have hstart := hops_along hl hs ⟨hcs.trans has.1, hfirst s hsa has.2⟩
          have hend := hops_along hl (hct ▸ ht₀ : t₀ ∈ points (chain t₀))
            ⟨htb.1.trans hct.symm, hlatest t htb' htb.2⟩
          exact (hstart.trans hst).trans hend
  · rintro ⟨s, t, hs, ht, hst⟩
    obtain ⟨hsm, has, -⟩ := lowerBound_some (hl.ascending _) hs
    obtain ⟨htm, htb, -⟩ := lastAtMost_some (hl.ascending _) ht
    have hstart : Full chain cross a s := Along.full ⟨(hl.on_chain _ s hsm).symm, has⟩
    have hend : Full chain cross t b := Along.full ⟨hl.on_chain _ t htm, htb⟩
    refine (hstart.trans ?_).trans hend
    clear hs ht hsm has htm htb hstart hend
    induction hst with
    | refl => exact .refl
    | tail _ hh ih => exact ih.trans (Hop.full hl hh)

end OpenRace.Library.CrossedChains
