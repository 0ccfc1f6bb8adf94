import Mathlib.Algebra.Order.Group.Nat
import Mathlib.Data.List.Pairwise
import Mathlib.Logic.Function.Basic
import Mathlib.Logic.Relation

/-! Strongly connected components from a depth-first search with visit numbers. -/

namespace OpenRace

namespace ComponentSearch

variable {α : Type*} (children : α → List α)

def Edge (a b : α) : Prop := b ∈ children a

abbrev Reach : α → α → Prop := Relation.ReflTransGen (Edge children)

/-- A node on the path of the search, with the children still to be looked at. -/
structure Frame (α : Type*) where
  node : α
  next : List α
  low : ℕ

/-- The invariant: `done` nodes have left the stack, and the edges `seen` from the others have been looked at. -/
structure Invariant (done : α → Prop) (seen : α → α → Prop) (number : α → ℕ) (stack : List α)
    (path : List (Frame α)) : Prop where
  sorted : stack.Pairwise fun a b => number b < number a
  fresh : ∀ a ∈ stack, ¬done a
  closed : ∀ a b, done a → Edge children a b → done b
  ordered : path.Pairwise fun f g => number g.node < number f.node
  nodes : ∀ f ∈ path, f.node ∈ stack
  up : ∀ a ∈ stack, ∃ f ∈ path, number f.node ≤ number a ∧ Reach children a f.node
  down : ∀ f ∈ path, ∀ a ∈ stack, number f.node ≤ number a → Reach children f.node a
  low_le : ∀ f ∈ path, f.low ≤ number f.node
  low_on : ∀ f ∈ path, ∃ a ∈ stack, number a = f.low ∧ Reach children f.node a
  next : ∀ f ∈ path, ∀ b ∈ f.next, Edge children f.node b
  looked : ∀ f ∈ path, ∀ b, Edge children f.node b → seen f.node b ∨ b ∈ f.next
  left : ∀ a ∈ stack, (∀ f ∈ path, f.node ≠ a) → ∀ b, Edge children a b → seen a b
  seen_on : ∀ a b, seen a b → done a ∨ a ∈ stack
  known : ∀ a b, seen a b → done b ∨ b ∈ stack
  low_bound : ∀ f ∈ path, ∀ a ∈ stack, number f.node ≤ number a → ∀ b ∈ stack, seen a b →
    ∃ g ∈ path, number f.node ≤ number g.node ∧ g.low ≤ number b

variable {children} {done : α → Prop} {seen : α → α → Prop} {number : α → ℕ} {stack : List α}
  {path : List (Frame α)}

lemma Invariant.empty (closed : ∀ a b, done a → Edge children a b → done b) :
    Invariant children done (fun _ _ => False) number [] [] where
  sorted := .nil
  fresh _ h := absurd h List.not_mem_nil
  closed := closed
  ordered := .nil
  nodes _ h := absurd h List.not_mem_nil
  up _ h := absurd h List.not_mem_nil
  down _ h := absurd h List.not_mem_nil
  low_le _ h := absurd h List.not_mem_nil
  low_on _ h := absurd h List.not_mem_nil
  next _ h := absurd h List.not_mem_nil
  looked _ h := absurd h List.not_mem_nil
  left _ h := absurd h List.not_mem_nil
  seen_on _ _ hs := hs.elim
  known _ _ hs := hs.elim
  low_bound _ h := absurd h List.not_mem_nil

lemma Invariant.congr {number' : α → ℕ} (h : Invariant children done seen number stack path)
    (hn : ∀ a ∈ stack, number' a = number a) : Invariant children done seen number' stack path where
  sorted := h.sorted.imp_of_mem fun ha hb hlt => by rwa [hn _ ha, hn _ hb]
  fresh := h.fresh
  closed := h.closed
  ordered := h.ordered.imp_of_mem fun hf hg hlt => by rwa [hn _ (h.nodes _ hf), hn _ (h.nodes _ hg)]
  nodes := h.nodes
  up a ha := by
    obtain ⟨f, hf, hle, hr⟩ := h.up a ha
    exact ⟨f, hf, by rwa [hn _ (h.nodes f hf), hn a ha], hr⟩
  down f hf a ha hle := h.down f hf a ha (by rwa [hn _ (h.nodes f hf), hn a ha] at hle)
  low_le f hf := by
    rw [hn _ (h.nodes f hf)]
    exact h.low_le f hf
  low_on f hf := by
    obtain ⟨a, ha, heq, hr⟩ := h.low_on f hf
    exact ⟨a, ha, by rwa [hn a ha], hr⟩
  next := h.next
  looked := h.looked
  left := h.left
  seen_on := h.seen_on
  known := h.known
  low_bound f hf a ha hle b hb hs := by
    rw [hn _ (h.nodes f hf), hn a ha] at hle
    obtain ⟨g, hg, hle', hlow⟩ := h.low_bound f hf a ha hle b hb hs
    exact ⟨g, hg, by rwa [hn _ (h.nodes f hf), hn _ (h.nodes g hg)], by rwa [hn b hb]⟩

lemma Invariant.start {root : α} (h : Invariant children done seen number [] []) (hroot : ¬done root) :
    Invariant children done (fun _ _ => False) number [root] [⟨root, children root, number root⟩] where
  sorted := List.pairwise_singleton _ _
  fresh a ha := by
    rw [List.mem_singleton.mp ha]
    exact hroot
  closed := h.closed
  ordered := List.pairwise_singleton _ _
  nodes f hf := by
    rw [List.mem_singleton.mp hf]
    exact List.mem_singleton_self root
  up a ha := by
    rw [List.mem_singleton.mp ha]
    exact ⟨_, List.mem_singleton_self _, le_rfl, .refl⟩
  down f hf a ha _ := by
    rw [List.mem_singleton.mp hf, List.mem_singleton.mp ha]
  low_le f hf := by rw [List.mem_singleton.mp hf]
  low_on f hf := by
    rw [List.mem_singleton.mp hf]
    exact ⟨root, List.mem_singleton_self root, rfl, .refl⟩
  next f hf b hb := by
    rw [List.mem_singleton.mp hf] at hb ⊢
    exact hb
  looked f hf b hb := by
    rw [List.mem_singleton.mp hf] at hb ⊢
    exact .inr hb
  left a ha hout := by
    rw [List.mem_singleton.mp ha] at hout
    exact absurd rfl (hout _ (List.mem_singleton_self _))
  seen_on _ _ hs := hs.elim
  known _ _ hs := hs.elim
  low_bound _ _ _ _ _ _ _ hs := hs.elim

section Revise

variable {f : Frame α} {seen' : α → α → Prop} (above : List (Frame α)) (f' : Frame α)

lemma Invariant.revise (h : Invariant children done seen number stack (above ++ f :: path))
    (hnode : f'.node = f.node) (hnext : ∀ b ∈ f'.next, b ∈ f.next) (hlow : f'.low ≤ f.low)
    (hon : ∃ a ∈ stack, number a = f'.low ∧ Reach children f.node a) (hseen : ∀ a b, seen a b → seen' a b)
    (hlooked : ∀ b, Edge children f.node b → seen' f.node b ∨ b ∈ f'.next)
    (hnew : ∀ a b, seen' a b → seen a b ∨
      a = f.node ∧ (done b ∨ b ∈ stack) ∧ (b ∈ stack → f'.low ≤ number b)) :
    Invariant children done seen' number stack (above ++ f' :: path) := by
  have hf : f ∈ above ++ f :: path := List.mem_append_right _ List.mem_cons_self
  have hf' : f' ∈ above ++ f' :: path := List.mem_append_right _ List.mem_cons_self
  have hold : ∀ {g}, g ∈ above ++ f' :: path → g = f' ∨ g ∈ above ++ f :: path := by
    intro g hg
    rw [List.mem_append, List.mem_cons] at hg
    rcases hg with hg | rfl | hg
    · exact .inr (List.mem_append_left _ hg)
    · exact .inl rfl
    · exact .inr (List.mem_append_right _ (List.mem_cons_of_mem _ hg))
  have hback : ∀ {g}, g ∈ above ++ f :: path → ∃ g' ∈ above ++ f' :: path, g'.node = g.node ∧ g'.low ≤ g.low := by
    intro g hg
    by_cases hgf : g = f
    · subst hgf
      exact ⟨f', hf', hnode, hlow⟩
    · refine ⟨g, ?_, rfl, le_rfl⟩
      rw [List.mem_append, List.mem_cons] at hg ⊢
      exact hg.imp_right fun hg => .inr (hg.resolve_left hgf)
  refine ⟨h.sorted, h.fresh, h.closed, ?_, ?_, ?_, ?_, ?_, ?_, ?_, ?_, ?_, ?_, ?_, ?_⟩
  · have hmap : (above ++ f' :: path).map Frame.node = (above ++ f :: path).map Frame.node := by simp [hnode]
    have hordered := (List.pairwise_map (f := Frame.node) (R := fun a b => number b < number a)).mpr h.ordered
    exact List.pairwise_map.mp (hmap ▸ hordered)
  · intro g hg
    rcases hold hg with rfl | hg
    · exact hnode ▸ h.nodes f hf
    · exact h.nodes g hg
  · intro a ha
    obtain ⟨g, hg, hga, hr⟩ := h.up a ha
    obtain ⟨g', hg', heq, -⟩ := hback hg
    exact ⟨g', hg', heq ▸ hga, heq ▸ hr⟩
  · intro g hg
    rcases hold hg with rfl | hg
    · exact hnode ▸ h.down f hf
    · exact h.down g hg
  · intro g hg
    rcases hold hg with rfl | hg
    · exact hnode ▸ hlow.trans (h.low_le f hf)
    · exact h.low_le g hg
  · intro g hg
    rcases hold hg with rfl | hg
    · exact hnode ▸ hon
    · exact h.low_on g hg
  · intro g hg b hb
    rcases hold hg with rfl | hg
    · exact hnode ▸ h.next f hf b (hnext b hb)
    · exact h.next g hg b hb
  · intro g hg b hb
    rcases hold hg with rfl | hg
    · exact hnode ▸ hlooked b (hnode ▸ hb)
    · exact (h.looked g hg b hb).imp_left (hseen g.node b)
  · intro a ha hout b hb
    refine hseen a b (h.left a ha (fun g hg => ?_) b hb)
    obtain ⟨g', hg', heq, -⟩ := hback hg
    exact heq ▸ hout g' hg'
  · intro a b hs
    rcases hnew a b hs with hs | ⟨rfl, -⟩
    · exact h.seen_on a b hs
    · exact .inr (h.nodes f hf)
  · intro a b hs
    rcases hnew a b hs with hs | ⟨-, hknown, -⟩
    · exact h.known a b hs
    · exact hknown
  · intro g hg a ha hga b hb hs
    rcases hnew a b hs with hs | ⟨rfl, -, hbound⟩
    · have hold' : ∃ g' ∈ above ++ f :: path, g'.node = g.node := by
        rcases hold hg with rfl | hg
        · exact ⟨f, hf, hnode.symm⟩
        · exact ⟨g, hg, rfl⟩
      obtain ⟨g', hg', hsame⟩ := hold'
      obtain ⟨k, hk, hgk, hkb⟩ := h.low_bound g' hg' a ha (hsame ▸ hga) b hb hs
      obtain ⟨k', hk', heq, hle⟩ := hback hk
      exact ⟨k', hk', by rwa [heq, ← hsame], hle.trans hkb⟩
    · exact ⟨f', hf', hnode ▸ hga, hbound hb⟩

end Revise

section Step

variable {f : Frame α} {child : α} {more : List α}

lemma Invariant.le_top (h : Invariant children done seen number stack (f :: path)) {g : Frame α}
    (hg : g ∈ f :: path) : number g.node ≤ number f.node := by
  rcases List.mem_cons.mp hg with rfl | hg
  · exact le_rfl
  · exact ((List.pairwise_cons.mp h.ordered).1 g hg).le

lemma Invariant.looked_child (h : Invariant children done seen number stack (f :: path))
    (hnext : f.next = child :: more) {b : α} (hedge : Edge children f.node b) :
    (seen f.node b ∨ (f.node = f.node ∧ b = child)) ∨ b ∈ more := by
  rcases h.looked f List.mem_cons_self b hedge with hs | hm
  · exact .inl (.inl hs)
  · rw [hnext] at hm
    rcases List.mem_cons.mp hm with rfl | hm
    · exact .inl (.inr ⟨rfl, rfl⟩)
    · exact .inr hm

lemma Invariant.look (h : Invariant children done seen number stack (f :: path)) (hnext : f.next = child :: more)
    (hknown : done child ∨ child ∈ stack) {low : ℕ} (hle : low ≤ f.low)
    (hlow : low = f.low ∨ (child ∈ stack ∧ low = number child)) (hchild : child ∈ stack → low ≤ number child) :
    Invariant children done (fun a b => seen a b ∨ (a = f.node ∧ b = child)) number stack
      (⟨f.node, more, low⟩ :: path) := by
  have hf : f ∈ f :: path := List.mem_cons_self
  have hedge : Edge children f.node child := h.next f hf child (hnext ▸ List.mem_cons_self)
  refine Invariant.revise [] ⟨f.node, more, low⟩ h rfl ?_ hle ?_ (fun _ _ => .inl)
    (fun _ => h.looked_child hnext) ?_
  · intro b hb
    exact hnext ▸ List.mem_cons_of_mem _ hb
  · rcases hlow with rfl | ⟨hm, rfl⟩
    · exact h.low_on f hf
    · exact ⟨child, hm, rfl, .single hedge⟩
  · rintro a b (hs | ⟨rfl, rfl⟩)
    · exact .inl hs
    · exact .inr ⟨rfl, hknown, hchild⟩

lemma Invariant.push (h : Invariant children done seen number stack (f :: path)) (hedge : Edge children f.node child)
    (hnew : ¬done child) (hout : child ∉ stack) (hn : ∀ a ∈ stack, number a < number child) :
    Invariant children done seen number (child :: stack) (⟨child, children child, number child⟩ :: f :: path) := by
  have hunseen : ¬(done child ∨ child ∈ stack) := not_or.mpr ⟨hnew, hout⟩
  refine ⟨List.pairwise_cons.mpr ⟨hn, h.sorted⟩, ?_, h.closed, ?_, ?_, ?_, ?_, ?_, ?_, ?_, ?_, ?_, ?_, ?_, ?_⟩
  · intro a ha
    rcases List.mem_cons.mp ha with rfl | ha
    · exact hnew
    · exact h.fresh a ha
  · exact List.pairwise_cons.mpr ⟨fun g hg => hn g.node (h.nodes g hg), h.ordered⟩
  · intro g hg
    rcases List.mem_cons.mp hg with rfl | hg
    · exact List.mem_cons_self
    · exact List.mem_cons_of_mem _ (h.nodes g hg)
  · intro a ha
    rcases List.mem_cons.mp ha with rfl | ha
    · exact ⟨_, List.mem_cons_self, le_rfl, .refl⟩
    · obtain ⟨g, hg, hga, hr⟩ := h.up a ha
      exact ⟨g, List.mem_cons_of_mem _ hg, hga, hr⟩
  · intro g hg a ha hga
    rcases List.mem_cons.mp hg with rfl | hold
    · rcases List.mem_cons.mp ha with rfl | ha
      · exact .refl
      · exact absurd (hn a ha) (Nat.not_lt_of_le hga)
    · rcases List.mem_cons.mp ha with rfl | ha
      · exact (h.down g hold f.node (h.nodes f List.mem_cons_self) (h.le_top hold)).tail hedge
      · exact h.down g hold a ha hga
  · intro g hg
    rcases List.mem_cons.mp hg with rfl | hg
    · exact le_rfl
    · exact h.low_le g hg
  · intro g hg
    rcases List.mem_cons.mp hg with rfl | hg
    · exact ⟨child, List.mem_cons_self, rfl, .refl⟩
    · obtain ⟨a, ha, hnum, hr⟩ := h.low_on g hg
      exact ⟨a, List.mem_cons_of_mem _ ha, hnum, hr⟩
  · intro g hg b hb
    rcases List.mem_cons.mp hg with rfl | hg
    · exact hb
    · exact h.next g hg b hb
  · intro g hg b hb
    rcases List.mem_cons.mp hg with rfl | hg
    · exact .inr hb
    · exact h.looked g hg b hb
  · intro a ha haway b hb
    rcases List.mem_cons.mp ha with rfl | ha
    · exact absurd rfl (haway _ List.mem_cons_self)
    · exact h.left a ha (fun g hg => haway g (List.mem_cons_of_mem _ hg)) b hb
  · intro a b hs
    exact (h.seen_on a b hs).imp_right (List.mem_cons_of_mem _)
  · intro a b hs
    exact (h.known a b hs).imp_right (List.mem_cons_of_mem _)
  · intro g hg a ha hga b hb hs
    -- the child has neither been looked at nor has it looked at its own
    rcases List.mem_cons.mp ha with rfl | ha
    · exact absurd (h.seen_on a b hs) hunseen
    rcases List.mem_cons.mp hb with rfl | hb
    · exact absurd (h.known a b hs) hunseen
    rcases List.mem_cons.mp hg with rfl | hg
    · exact absurd (hn a ha) (Nat.not_lt_of_le hga)
    · obtain ⟨k, hk, hgk, hkb⟩ := h.low_bound g hg a ha hga b hb hs
      exact ⟨k, List.mem_cons_of_mem _ hk, hgk, hkb⟩

lemma Invariant.visit [DecidableEq α] (h : Invariant children done seen number stack (f :: path))
    (hnext : f.next = child :: more) (hnew : ¬done child) (hout : child ∉ stack) {n : ℕ}
    (hn : ∀ a ∈ stack, number a < n) :
    Invariant children done (fun a b => seen a b ∨ (a = f.node ∧ b = child)) (Function.update number child n)
      (child :: stack) (⟨child, children child, n⟩ :: ⟨f.node, more, f.low⟩ :: path) := by
  have hf : f ∈ f :: path := List.mem_cons_self
  have hedge : Edge children f.node child := h.next f hf child (hnext ▸ List.mem_cons_self)
  have hsame : ∀ a ∈ stack, Function.update number child n a = number a := by
    intro a ha
    refine Function.update_of_ne ?_ _ _
    rintro rfl
    exact hout ha
  have hself : Function.update number child n child = n := Function.update_self _ _ _
  have hpush := (h.congr hsame).push hedge hnew hout (fun a ha => by rw [hsame a ha, hself]; exact hn a ha)
  rw [hself] at hpush
  have hf' : f ∈ (⟨child, children child, n⟩ : Frame α) :: f :: path := List.mem_cons_of_mem _ hf
  refine Invariant.revise [⟨child, children child, n⟩] ⟨f.node, more, f.low⟩ hpush rfl ?_ le_rfl
    (hpush.low_on f hf') (fun _ _ => .inl) (fun _ => h.looked_child hnext) ?_
  · intro b hb
    exact hnext ▸ List.mem_cons_of_mem _ hb
  · rintro a b (hs | ⟨rfl, rfl⟩)
    · exact .inl hs
    · refine .inr ⟨rfl, .inr List.mem_cons_self, fun _ => ?_⟩
      rw [hself]
      exact (h.low_le f hf).trans (hn _ (h.nodes f hf)).le

lemma Invariant.exists_below (h : Invariant children done seen number stack (f :: path))
    (hlow : f.low ≠ number f.node) : ∃ g ∈ path, number g.node ≤ f.low ∧ Reach children f.node g.node := by
  have hle := h.low_le f List.mem_cons_self
  obtain ⟨a, ha, hnum, hr⟩ := h.low_on f List.mem_cons_self
  obtain ⟨g, hg, hga, hr'⟩ := h.up a ha
  rcases List.mem_cons.mp hg with rfl | hg
  · omega
  · exact ⟨g, hg, hnum ▸ hga, hr.trans hr'⟩

lemma Invariant.drop {g : Frame α} (h : Invariant children done seen number stack (f :: g :: path))
    (hnext : f.next = []) (hbelow : ∃ k ∈ g :: path, number k.node ≤ f.low ∧ Reach children f.node k.node)
    (hlow : g.low ≤ f.low) : Invariant children done seen number stack (g :: path) := by
  have hf : f ∈ f :: g :: path := List.mem_cons_self
  have hold : ∀ {k}, k ∈ g :: path → k ∈ f :: g :: path := List.mem_cons_of_mem f
  have hordered := (List.pairwise_cons.mp h.ordered).2
  refine ⟨h.sorted, h.fresh, h.closed, hordered, fun k hk => h.nodes k (hold hk), ?_,
    fun k hk => h.down k (hold hk), fun k hk => h.low_le k (hold hk), fun k hk => h.low_on k (hold hk),
    fun k hk => h.next k (hold hk), fun k hk => h.looked k (hold hk), ?_, h.seen_on, h.known, ?_⟩
  · intro a ha
    obtain ⟨k, hk, hka, hr⟩ := h.up a ha
    rcases List.mem_cons.mp hk with rfl | hk
    · obtain ⟨k', hk', hle, hr'⟩ := hbelow
      exact ⟨k', hk', hle.trans ((h.low_le k hf).trans hka), hr.trans hr'⟩
    · exact ⟨k, hk, hka, hr⟩
  · intro a ha hout b hb
    by_cases hfa : f.node = a
    · rcases h.looked f hf b (hfa ▸ hb) with hs | hm
      · exact hfa ▸ hs
      · rw [hnext] at hm
        exact absurd hm List.not_mem_nil
    · refine h.left a ha (fun k hk => ?_) b hb
      rcases List.mem_cons.mp hk with rfl | hk
      · exact hfa
      · exact hout k hk
  · intro k hk a ha hka b hb hs
    obtain ⟨m, hm, hkm, hmb⟩ := h.low_bound k (hold hk) a ha hka b hb hs
    rcases List.mem_cons.mp hm with rfl | hm
    · refine ⟨g, List.mem_cons_self, ?_, hlow.trans hmb⟩
      rcases List.mem_cons.mp hk with rfl | hk
      · exact le_rfl
      · exact ((List.pairwise_cons.mp hordered).1 k hk).le
    · exact ⟨m, hm, hkm, hmb⟩

lemma Invariant.leave {g : Frame α} (h : Invariant children done seen number stack (f :: g :: path))
    (hnext : f.next = []) (hlow : f.low ≠ number f.node) :
    Invariant children done seen number stack ({ g with low := min g.low f.low } :: path) := by
  have hf : f ∈ f :: g :: path := List.mem_cons_self
  have hg : g ∈ f :: g :: path := List.mem_cons_of_mem _ List.mem_cons_self
  have hlt : number g.node < number f.node := (List.pairwise_cons.mp h.ordered).1 g List.mem_cons_self
  have hlower : Invariant children done seen number stack (f :: { g with low := min g.low f.low } :: path) := by
    refine Invariant.revise [f] { g with low := min g.low f.low } h rfl (fun _ hb => hb)
      (min_le_left _ _) ?_ (fun _ _ hs => hs) (h.looked g hg) (fun _ _ hs => .inl hs)
    rcases min_choice g.low f.low with hmin | hmin
    · dsimp only
      rw [hmin]
      exact h.low_on g hg
    · dsimp only
      rw [hmin]
      obtain ⟨a, ha, hnum, hr⟩ := h.low_on f hf
      exact ⟨a, ha, hnum, (h.down g hg f.node (h.nodes f hf) hlt.le).trans hr⟩
  exact hlower.drop hnext (hlower.exists_below hlow) (min_le_right _ _)

end Step

end ComponentSearch

end OpenRace
