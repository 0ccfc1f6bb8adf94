import OpenRace.Library.ComponentSearch

/-! The components that a search gives one after the other. -/

namespace OpenRace

namespace ComponentSearch

variable {α : Type*} {children : α → List α} {done : α → Prop} {seen : α → α → Prop} {number : α → ℕ}
  {path : List (Frame α)}

section Emit

variable {f : Frame α} {above rest : List α}

lemma Invariant.mem_top (h : Invariant children done seen number (above ++ f.node :: rest) (f :: path)) {a : α}
    (ha : a ∈ above ++ f.node :: rest) : a ∈ above ++ [f.node] ↔ number f.node ≤ number a := by
  obtain ⟨-, hrest, habove⟩ := List.pairwise_append.mp h.sorted
  have hbelow := (List.pairwise_cons.mp hrest).1
  rw [List.mem_append, List.mem_singleton]
  constructor
  · rintro (hm | rfl)
    · exact (habove a hm f.node List.mem_cons_self).le
    · exact le_rfl
  · intro hle
    rcases List.mem_append.mp ha with hm | hm
    · exact .inl hm
    · rcases List.mem_cons.mp hm with rfl | hm
      · exact .inr rfl
      · exact absurd (hbelow a hm) (Nat.not_lt_of_le hle)

lemma Invariant.eq_top {stack : List α} (h : Invariant children done seen number stack (f :: path)) {g : Frame α}
    (hg : g ∈ f :: path) (hle : number f.node ≤ number g.node) : g = f := by
  rcases List.mem_cons.mp hg with rfl | hg
  · rfl
  · exact absurd ((List.pairwise_cons.mp h.ordered).1 g hg) (Nat.not_lt_of_le hle)

section Root

variable (h : Invariant children done seen number (above ++ f.node :: rest) (f :: path)) (hnext : f.next = [])
  (hlow : f.low = number f.node)

include h hnext hlow

lemma Invariant.edge_top {a b : α} (ha : a ∈ above ++ [f.node]) (hedge : Edge children a b) :
    done b ∨ b ∈ above ++ [f.node] := by
  have hf : f ∈ f :: path := List.mem_cons_self
  have ha' : a ∈ above ++ f.node :: rest := by
    rcases List.mem_append.mp ha with hm | hm
    · exact List.mem_append_left _ hm
    · rw [List.mem_singleton.mp hm]
      exact h.nodes f hf
  have hle := (h.mem_top ha').mp ha
  have hseen : seen a b := by
    by_cases heq : f.node = a
    · rcases h.looked f hf b (heq ▸ hedge) with hs | hm
      · exact heq ▸ hs
      · rw [hnext] at hm
        exact absurd hm List.not_mem_nil
    · refine h.left a ha' (fun g hg hga => ?_) b hedge
      have htop := h.eq_top hg (hga ▸ hle)
      exact heq (htop ▸ hga)
  rcases h.known a b hseen with hd | hb
  · exact .inl hd
  · obtain ⟨g, hg, hfg, hgb⟩ := h.low_bound f hf a ha' hle b hb hseen
    rw [h.eq_top hg hfg, hlow] at hgb
    exact .inr ((h.mem_top hb).mpr hgb)

lemma Invariant.reach_top {a b : α} (ha : a ∈ above ++ [f.node]) (hr : Reach children a b) :
    done b ∨ b ∈ above ++ [f.node] := by
  induction hr with
  | refl => exact .inr ha
  | tail _ hedge ih =>
    rcases ih with hd | hm
    · exact .inl (h.closed _ _ hd hedge)
    · exact h.edge_top hnext hlow hm hedge

lemma Invariant.component {a b : α} (ha : a ∈ above ++ [f.node]) :
    b ∈ above ++ [f.node] ↔ Reach children a b ∧ Reach children b a := by
  have hf : f ∈ f :: path := List.mem_cons_self
  have hstack : ∀ {c}, c ∈ above ++ [f.node] → c ∈ above ++ f.node :: rest := by
    intro c hc
    rcases List.mem_append.mp hc with hm | hm
    · exact List.mem_append_left _ hm
    · rw [List.mem_singleton.mp hm]
      exact h.nodes f hf
  have hfrom : ∀ {c}, c ∈ above ++ [f.node] → Reach children f.node c :=
    fun hc => h.down f hf _ (hstack hc) ((h.mem_top (hstack hc)).mp hc)
  have hto : ∀ {c}, c ∈ above ++ [f.node] → Reach children c f.node := by
    intro c hc
    obtain ⟨g, hg, -, hr⟩ := h.up c (hstack hc)
    rcases h.reach_top hnext hlow hc hr with hd | hm
    · exact absurd hd (h.fresh _ (h.nodes g hg))
    · rw [h.eq_top hg ((h.mem_top (h.nodes g hg)).mp hm)] at hr
      exact hr
  constructor
  · exact fun hb => ⟨(hto ha).trans (hfrom hb), (hto hb).trans (hfrom ha)⟩
  · rintro ⟨hab, hba⟩
    rcases h.reach_top hnext hlow ha hab with hd | hm
    · have hclosed : ∀ {c d}, done c → Reach children c d → done d := by
        intro c d hc hr
        induction hr with
        | refl => exact hc
        | tail _ hedge ih => exact h.closed _ _ ih hedge
      exact absurd (hclosed hd hba) (h.fresh a (hstack ha))
    · exact hm

lemma Invariant.emit : Invariant children (fun a => done a ∨ a ∈ above ++ [f.node]) seen number rest path := by
  obtain ⟨-, hrest, -⟩ := List.pairwise_append.mp h.sorted
  obtain ⟨hbelow, hsorted⟩ := List.pairwise_cons.mp hrest
  obtain ⟨hpath, hordered⟩ := List.pairwise_cons.mp h.ordered
  have hold : ∀ {a}, a ∈ rest → a ∈ above ++ f.node :: rest :=
    fun ha => List.mem_append_right _ (List.mem_cons_of_mem _ ha)
  have hin : ∀ {a}, a ∈ above ++ f.node :: rest → number a < number f.node → a ∈ rest := by
    intro a ha hlt
    rcases List.mem_append.mp ha with hm | hm
    · exact absurd hlt (Nat.not_lt_of_le ((h.mem_top ha).mp (List.mem_append_left _ hm)))
    · rcases List.mem_cons.mp hm with rfl | hm
      · exact absurd hlt (Nat.lt_irrefl _)
      · exact hm
  have hknown : ∀ {a}, (done a ∨ a ∈ above ++ f.node :: rest) → (done a ∨ a ∈ above ++ [f.node]) ∨ a ∈ rest := by
    rintro a (hd | ha)
    · exact .inl (.inl hd)
    · by_cases hm : a ∈ above ++ [f.node]
      · exact .inl (.inr hm)
      · exact .inr (hin ha (Nat.lt_of_not_le fun hle => hm ((h.mem_top ha).mpr hle)))
  have hframe : ∀ {g}, g ∈ path → g ∈ f :: path := List.mem_cons_of_mem f
  refine ⟨hsorted, ?_, ?_, hordered, ?_, ?_, ?_, ?_, ?_, ?_, ?_, ?_, ?_, ?_, ?_⟩
  · rintro a ha (hd | hm)
    · exact h.fresh a (hold ha) hd
    · exact absurd (hbelow a ha) (Nat.not_lt_of_le ((h.mem_top (hold ha)).mp hm))
  · rintro a b (hd | hm) hedge
    · exact .inl (h.closed a b hd hedge)
    · exact h.edge_top hnext hlow hm hedge
  · intro g hg
    exact hin (h.nodes g (hframe hg)) (hpath g hg)
  · intro a ha
    obtain ⟨g, hg, hga, hr⟩ := h.up a (hold ha)
    rcases List.mem_cons.mp hg with rfl | hg
    · exact absurd (hbelow a ha) (Nat.not_lt_of_le hga)
    · exact ⟨g, hg, hga, hr⟩
  · intro g hg a ha hga
    exact h.down g (hframe hg) a (hold ha) hga
  · intro g hg
    exact h.low_le g (hframe hg)
  · intro g hg
    obtain ⟨a, ha, hnum, hr⟩ := h.low_on g (hframe hg)
    have hle := h.low_le g (hframe hg)
    have hlt := hpath g hg
    exact ⟨a, hin ha (by omega), hnum, hr⟩
  · intro g hg b hb
    exact h.next g (hframe hg) b hb
  · intro g hg b hb
    exact h.looked g (hframe hg) b hb
  · intro a ha hout b hb
    refine h.left a (hold ha) (fun g hg hga => ?_) b hb
    rcases List.mem_cons.mp hg with rfl | hg
    · exact absurd (hbelow a ha) (hga ▸ Nat.lt_irrefl _)
    · exact hout g hg hga
  · intro a b hs
    exact hknown (h.seen_on a b hs)
  · intro a b hs
    exact hknown (h.known a b hs)
  · intro g hg a ha hga b hb hs
    obtain ⟨k, hk, hgk, hkb⟩ := h.low_bound g (hframe hg) a (hold ha) hga b (hold hb) hs
    rcases List.mem_cons.mp hk with rfl | hk
    · rw [hlow] at hkb
      exact absurd (hbelow b hb) (Nat.not_lt_of_le hkb)
    · exact ⟨k, hk, hgk, hkb⟩

end Root

end Emit

section Emitted

variable (children)

/-- Components in the order in which they are given: none leads to one that comes later. -/
structure Components (done : α → Prop) (emitted : List (List α)) : Prop where
  done_iff : ∀ a, done a ↔ ∃ component ∈ emitted, a ∈ component
  closed : ∀ a b, done a → Edge children a b → done b
  strong : ∀ component ∈ emitted, component ≠ [] ∧ component.Nodup ∧
    ∀ a ∈ component, ∀ b, b ∈ component ↔ Reach children a b ∧ Reach children b a
  apart : emitted.Pairwise fun first second => ∀ a ∈ first, ∀ b ∈ second, ¬Reach children a b

variable {children}

lemma Components.empty : Components children (fun _ => False) [] where
  done_iff _ := by simp
  closed _ _ h := h.elim
  strong _ h := absurd h List.not_mem_nil
  apart := .nil

lemma Components.reach {emitted : List (List α)} (h : Components children done emitted) {a b : α} (ha : done a)
    (hr : Reach children a b) : done b := by
  induction hr with
  | refl => exact ha
  | tail _ hedge ih => exact h.closed _ _ ih hedge

lemma Components.emit {emitted : List (List α)} {f : Frame α} {above rest : List α}
    (hc : Components children done emitted)
    (h : Invariant children done seen number (above ++ f.node :: rest) (f :: path)) (hnext : f.next = [])
    (hlow : f.low = number f.node) :
    Components children (fun a => done a ∨ a ∈ above ++ [f.node]) (emitted ++ [above ++ [f.node]]) where
  done_iff a := by
    rw [hc.done_iff]
    simp only [List.mem_append, List.mem_singleton]
    constructor
    · rintro (⟨component, hm, ha⟩ | ha)
      · exact ⟨component, .inl hm, ha⟩
      · exact ⟨above ++ [f.node], .inr rfl, by simpa using ha⟩
    · rintro ⟨component, hm | rfl, ha⟩
      · exact .inl ⟨component, hm, ha⟩
      · exact .inr (by simpa using ha)
  closed := (h.emit hnext hlow).closed
  strong component hm := by
    rcases List.mem_append.mp hm with hm | hm
    · exact hc.strong component hm
    · rw [List.mem_singleton.mp hm]
      have hnodup : (above ++ f.node :: rest).Nodup := h.sorted.imp fun hlt heq => by
        rw [heq] at hlt
        exact Nat.lt_irrefl _ hlt
      refine ⟨by simp, ?_, fun a ha b => h.component hnext hlow ha⟩
      exact hnodup.sublist ((List.Sublist.refl above).append ((List.nil_sublist rest).cons_cons f.node))
  apart := by
    refine List.pairwise_append.mpr ⟨hc.apart, List.pairwise_singleton _ _, ?_⟩
    intro component hm other ho a ha b hb hr
    rw [List.mem_singleton.mp ho] at hb
    have hd : done b := hc.reach ((hc.done_iff a).mpr ⟨component, hm, ha⟩) hr
    have hstack : b ∈ above ++ f.node :: rest := by
      rcases List.mem_append.mp hb with hm | hm
      · exact List.mem_append_left _ hm
      · exact List.mem_append_right _ (List.mem_singleton.mp hm ▸ List.mem_cons_self)
    exact h.fresh b hstack hd

end Emitted

end ComponentSearch

end OpenRace
