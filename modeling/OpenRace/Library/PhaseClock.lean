import Mathlib.Data.List.Lex
import Mathlib.Logic.Relation
import Mathlib.Tactic

/-! Siblings of a spawn tree that meet each other only at given moments.

Every node lies on a strand and has a key there; a strand is spawned at a key of its parent strand. -/

namespace OpenRace.Library.PhaseClock

variable {Node Strand K : Type*} [LinearOrder K]

/-- `base` is the path of spawn keys that leads to a strand. -/
structure Clock (Node Strand K : Type*) [LinearOrder K] where
  strand : Node → Strand
  key : Node → K
  site : Strand → Option (Strand × K)
  base : Strand → List K
  base_site : ∀ t u k, site t = some (u, k) → base t = base u ++ [k]

variable (clock : Clock Node Strand K)

inductive Lawful (a b : Node) : Prop
  | along (h : clock.strand a = clock.strand b) (hk : clock.key a ≤ clock.key b)
  | fork (k : K) (h : clock.site (clock.strand b) = some (clock.strand a, k)) (hk : clock.key a ≤ k)
  | join (k : K) (h : clock.site (clock.strand a) = some (clock.strand b, k)) (hk : k < clock.key b)
  | meet (u : Strand) (k : K) (ha : clock.site (clock.strand a) = some (u, k))
      (hb : clock.site (clock.strand b) = some (u, k)) (hk : clock.key a = clock.key b)

def rank (a : Node) : List K := clock.base (clock.strand a) ++ [clock.key a]

abbrev Under (s t : Strand) : Prop :=
  Relation.ReflTransGen (fun s u => ∃ k, clock.site s = some (u, k)) s t

lemma append_lt_append (front l l' : List K) : front ++ l < front ++ l' ↔ l < l' := by
  induction front with
  | nil => rfl
  | cons k front ih => simp [ih]

lemma append_le_append (front l l' : List K) : front ++ l ≤ front ++ l' ↔ l ≤ l' := by
  rw [← not_lt, append_lt_append, not_lt]

lemma rank_le_sibling {a b : Node} (h : clock.base (clock.strand a) = clock.base (clock.strand b)) :
    rank clock a ≤ rank clock b ↔ clock.key a ≤ clock.key b := by
  rw [rank, rank, h, append_le_append, ← not_lt, ← not_lt, List.cons_lt_cons_iff]
  simp

lemma rank_lt_sibling {a b : Node} (h : clock.base (clock.strand a) = clock.base (clock.strand b)) :
    rank clock a < rank clock b ↔ clock.key a < clock.key b := by
  rw [← not_le, rank_le_sibling clock h.symm, not_le]

lemma rank_lt_join {a b : Node} {k : K} (h : clock.site (clock.strand a) = some (clock.strand b, k))
    (hk : k < clock.key b) : rank clock a < rank clock b := by
  rw [rank, rank, clock.base_site _ _ _ h, List.append_assoc, append_lt_append]
  exact List.cons_lt_cons_iff.mpr (Or.inl hk)

lemma rank_lt_fork {a b : Node} {k : K} (h : clock.site (clock.strand b) = some (clock.strand a, k))
    (hk : clock.key a ≤ k) : rank clock a < rank clock b := by
  rw [rank, rank, clock.base_site _ _ _ h, List.append_assoc, append_lt_append]
  apply List.cons_lt_cons_iff.mpr
  obtain hlt | heq := hk.lt_or_eq
  · exact Or.inl hlt
  · exact Or.inr ⟨heq, List.nil_lt_cons _ _⟩

lemma Lawful.rank_le {a b : Node} (h : Lawful clock a b) : rank clock a ≤ rank clock b := by
  cases h with
  | along h hk => exact (rank_le_sibling clock (by rw [h])).mpr hk
  | fork k h hk => exact (rank_lt_fork clock h hk).le
  | join k h hk => exact (rank_lt_join clock h hk).le
  | meet u k ha hb hk =>
    have hbase := (clock.base_site _ _ _ ha).trans (clock.base_site _ _ _ hb).symm
    exact (rank_le_sibling clock hbase).mpr hk.le

lemma rank_le_of_path {edge : Node → Node → Prop} (hlaw : ∀ a b, edge a b → Lawful clock a b)
    {a b : Node} (h : Relation.ReflTransGen edge a b) : rank clock a ≤ rank clock b := by
  induction h with
  | refl => exact le_rfl
  | tail _ hedge ih => exact ih.trans (hlaw _ _ hedge).rank_le

/-- What holds of the edges between nodes of one rank holds of the nodes of a cycle. -/
theorem cycle_induct {edge : Node → Node → Prop} (hlaw : ∀ a b, edge a b → Lawful clock a b)
    {P : Node → Prop} {a b : Node} (ha : P a)
    (hstep : ∀ c d, P c → edge c d → rank clock c = rank clock d → P d)
    (h : Relation.ReflTransGen edge a b) (hback : Relation.ReflTransGen edge b a) : P b := by
  have hle := rank_le_of_path clock hlaw hback
  clear hback
  induction h with
  | refl => exact ha
  | @tail c d hpath hedge ih =>
    have hcd := (hlaw c d hedge).rank_le
    have hac := rank_le_of_path clock hlaw hpath
    exact hstep c d (ih (hcd.trans hle)) hedge (le_antisymm hcd (hle.trans hac))

lemma Under.length_le {s t : Strand} (h : Under clock s t) :
    (clock.base t).length ≤ (clock.base s).length := by
  induction h using Relation.ReflTransGen.head_induction_on with
  | refl => exact le_rfl
  | head hstep _ ih =>
    obtain ⟨k, hk⟩ := hstep
    rw [clock.base_site _ _ _ hk, List.length_append]
    omega

lemma site_ne_self {s u : Strand} {k : K} (h : clock.site s = some (u, k)) : u ≠ s := by
  rintro rfl
  have hlen := congrArg List.length (clock.base_site _ _ _ h)
  simp at hlen

lemma Under.of_site {s u t : Strand} {k : K} (h : Under clock s t) (hne : s ≠ t)
    (hs : clock.site s = some (u, k)) : Under clock u t := by
  cases h using Relation.ReflTransGen.head_induction_on with
  | refl => exact absurd rfl hne
  | head hstep hrest =>
    obtain ⟨k', hk'⟩ := hstep
    rw [hs, Option.some.injEq, Prod.mk.injEq] at hk'
    rwa [hk'.1]

/-- A path between different siblings leaves the first by a meeting that lies between its ends. -/
theorem meeting_between {edge : Node → Node → Prop} (hlaw : ∀ a b, edge a b → Lawful clock a b)
    {x y : Node} {u : Strand} {k : K} (hx : clock.site (clock.strand x) = some (u, k))
    (hy : clock.site (clock.strand y) = some (u, k)) (hne : clock.strand x ≠ clock.strand y)
    (hpath : Relation.ReflTransGen edge x y) :
    ∃ a b, edge a b ∧ clock.strand a = clock.strand x ∧ clock.strand b ≠ clock.strand x ∧
      clock.site (clock.strand b) = some (u, k) ∧ clock.key x ≤ clock.key a ∧
      clock.key a ≤ clock.key y := by
  by_contra hnone
  have hbasex := clock.base_site _ _ _ hx
  have hbasey := clock.base_site _ _ _ hy
  -- a node of the path is still below the first sibling, or later than the target
  have hinv : rank clock x ≤ rank clock y ∧
      (Under clock (clock.strand y) (clock.strand x) ∨ rank clock y < rank clock y) := by
    suffices h : ∀ z, Relation.ReflTransGen edge x z → rank clock x ≤ rank clock z ∧
        (Under clock (clock.strand z) (clock.strand x) ∨ rank clock y < rank clock z) from h y hpath
    intro z hz
    induction hz with
    | refl => exact ⟨le_rfl, Or.inl .refl⟩
    | @tail z w _ hedge ih =>
      have hle := (hlaw z w hedge).rank_le
      refine ⟨ih.1.trans hle, ?_⟩
      rcases ih.2 with hunder | hlate
      · cases hlaw z w hedge with
        | along h _ => exact Or.inl (h ▸ hunder)
        | fork j h _ => exact Or.inl (.head ⟨j, h⟩ hunder)
        | join j h hk =>
          by_cases hz : clock.strand z = clock.strand x
          · rw [hz, hx, Option.some.injEq, Prod.mk.injEq] at h
            refine Or.inr (rank_lt_join clock (k := k) ?_ ?_)
            · rw [hy, h.1]
            · rwa [h.2]
          · exact Or.inl (hunder.of_site clock hz h)
        | meet v j hzv hwv hk =>
          by_cases hz : clock.strand z = clock.strand x
          · by_cases hw : clock.strand w = clock.strand x
            · exact Or.inl (hw ▸ .refl)
            · have hbase : clock.base (clock.strand x) = clock.base (clock.strand z) := by rw [hz]
              have hxz := (rank_le_sibling clock hbase).mp ih.1
              rw [hz, hx] at hzv
              rw [← hzv] at hwv
              have hzy : clock.key y < clock.key z := by
                by_contra h
                exact hnone ⟨z, w, hedge, hz, hw, hwv, hxz, not_lt.mp h⟩
              have hbase' := hbasey.trans (clock.base_site _ _ _ hwv).symm
              exact Or.inr ((rank_lt_sibling clock hbase').mpr (hk ▸ hzy))
          · exact Or.inl (.head ⟨j, hwv⟩ (hunder.of_site clock hz hzv))
      · exact Or.inr (hlate.trans_le hle)
  rcases hinv.2 with hunder | hlt
  · have hlen := Under.length_le clock (hunder.of_site clock (Ne.symm hne) hy)
    rw [hbasex, List.length_append] at hlen
    simp at hlen
  · exact lt_irrefl _ hlt

end OpenRace.Library.PhaseClock
