import Mathlib.Data.Finset.Card
import Mathlib.Data.List.TakeWhile
import Mathlib.Logic.Relation
import Mathlib.Tactic

/-! First-in first-out worklist search over a finite closed set of nodes. -/

namespace OpenRace.Library.Worklist

variable {α : Type*} [DecidableEq α]

abbrev Step (next : α → List α) (a b : α) : Prop := b ∈ next a

abbrev Reachable (next : α → List α) : α → α → Prop := Relation.ReflTransGen (Step next)

def Closed (next : α → List α) (nodes : Finset α) : Prop :=
  ∀ a ∈ nodes, ∀ b ∈ next a, b ∈ nodes

def pending (next : α → List α) (visited : Finset α) (node : α) : List α :=
  (next node).filter (· ∉ visited)

lemma mem_pending {next : α → List α} {visited : Finset α} {node a : α} :
    a ∈ pending next visited node ↔ Step next node a ∧ a ∉ visited := by
  simp [pending]

lemma pending_subset {next : α → List α} {nodes : Finset α} (hc : Closed next nodes)
    {visited : Finset α} {node : α} {work : List α} (hw : ∀ a ∈ node :: work, a ∈ nodes) :
    ∀ a ∈ work ++ pending next visited node, a ∈ nodes := by
  intro a ha
  rcases List.mem_append.mp ha with ha | ha
  · exact hw a (List.mem_cons_of_mem _ ha)
  · exact hc node (hw node List.mem_cons_self) a (mem_pending.mp ha).1

lemma takeWhile_pending (next : α → List α) (visited : Finset α) (node : α) :
    (pending next visited node).takeWhile (· ∈ visited) = [] := by
  rw [List.eq_nil_iff_forall_not_mem]
  intro a ha
  have hv : a ∈ visited := by simpa using List.mem_takeWhile_imp ha
  exact (mem_pending.mp ((List.takeWhile_prefix _).subset ha)).2 hv

lemma prefix_decreases (next : α → List α) (visited : Finset α) (node : α) (work : List α)
    (hn : node ∈ visited) :
    ((work ++ pending next visited node).takeWhile (· ∈ visited)).length <
      ((node :: work).takeWhile (· ∈ visited)).length := by
  have hp := takeWhile_pending next visited node
  rw [List.takeWhile_cons_of_pos (by simpa using hn), List.takeWhile_append]
  split <;> simp_all

def search (next : α → List α) (nodes : Finset α) (hc : Closed next nodes)
    (work : List α) (visited : Finset α) (hw : ∀ a ∈ work, a ∈ nodes) : Finset α :=
  match work with
  | [] => visited
  | node :: work =>
    search next nodes hc (work ++ pending next (insert node visited) node) (insert node visited)
      (pending_subset hc hw)
termination_by ((nodes \ visited).card, (work.takeWhile (· ∈ visited)).length)
decreasing_by
  by_cases hn : node ∈ visited
  · rw [Finset.insert_eq_of_mem hn]
    exact Prod.Lex.right _ (prefix_decreases next visited node work hn)
  · apply Prod.Lex.left
    apply Finset.card_lt_card
    rw [Finset.ssubset_iff_of_subset (Finset.sdiff_subset_sdiff le_rfl (Finset.subset_insert _ _))]
    exact ⟨node, by simp [hn, hw node List.mem_cons_self], by simp⟩

variable {next : α → List α} {nodes : Finset α} (hc : Closed next nodes)

theorem search_induct (Inv : List α → Finset α → Prop)
    (hstep : ∀ node work visited, Inv (node :: work) visited →
      Inv (work ++ pending next (insert node visited) node) (insert node visited))
    (work : List α) (visited : Finset α) (hw : ∀ a ∈ work, a ∈ nodes) (h : Inv work visited) :
    Inv [] (search next nodes hc work visited hw) := by
  induction work, visited, hw using search.induct next nodes hc with
  | case1 visited hw => rwa [search]
  | case2 visited node work hw _ ih =>
    rw [search]
    exact ih (hstep node work visited h)

lemma search_sound (work : List α) (hw : ∀ a ∈ work, a ∈ nodes) {b : α}
    (hb : b ∈ search next nodes hc work ∅ hw) : ∃ a ∈ work, Reachable next a b := by
  let Inv : List α → Finset α → Prop := fun w v =>
    ∀ c, c ∈ v ∨ c ∈ w → ∃ a ∈ work, Reachable next a c
  refine search_induct hc Inv ?_ work ∅ hw ?_ b (Or.inl hb)
  · intro node w v hi c hcm
    have hnode := hi node (Or.inr List.mem_cons_self)
    rcases hcm with hcm | hcm
    · rcases Finset.mem_insert.mp hcm with rfl | hcm
      · exact hnode
      · exact hi c (Or.inl hcm)
    · rcases List.mem_append.mp hcm with hcm | hcm
      · exact hi c (Or.inr (List.mem_cons_of_mem _ hcm))
      · obtain ⟨a, ha, hr⟩ := hnode
        exact ⟨a, ha, hr.tail (mem_pending.mp hcm).1⟩
  · rintro c (hcm | hcm)
    · exact absurd hcm (Finset.notMem_empty c)
    · exact ⟨c, hcm, .refl⟩

lemma search_closed (work : List α) (hw : ∀ a ∈ work, a ∈ nodes) :
    (∀ a ∈ work, a ∈ search next nodes hc work ∅ hw) ∧
      ∀ a ∈ search next nodes hc work ∅ hw, ∀ b, Step next a b →
        b ∈ search next nodes hc work ∅ hw := by
  let Inv : List α → Finset α → Prop := fun w v =>
    (∀ a ∈ work, a ∈ v ∨ a ∈ w) ∧ ∀ a ∈ v, ∀ b, Step next a b → b ∈ v ∨ b ∈ w
  have hi : Inv [] (search next nodes hc work ∅ hw) := by
    refine search_induct hc Inv ?_ work ∅ hw ⟨fun a ha => Or.inr ha, by simp⟩
    -- what leaves the queue is now visited, what stays unvisited is still queued
    have hkeep : ∀ {node : α} {w : List α} {v : Finset α} {b : α}, b ∈ v ∨ b ∈ node :: w →
        b ∈ insert node v ∨ b ∈ w ++ pending next (insert node v) node := by
      intro node w v b hb
      simp only [List.mem_cons, Finset.mem_insert, List.mem_append] at hb ⊢
      tauto
    rintro node w v ⟨hwork, hclosed⟩
    refine ⟨fun a ha => hkeep (hwork a ha), fun a ha b hab => ?_⟩
    rcases Finset.mem_insert.mp ha with rfl | ha
    · by_cases hb : b ∈ insert a v
      · exact Or.inl hb
      · exact Or.inr (List.mem_append_right _ (mem_pending.mpr ⟨hab, hb⟩))
    · exact hkeep (hclosed a ha b hab)
  simpa [Inv] using hi

theorem mem_search_iff (work : List α) (hw : ∀ a ∈ work, a ∈ nodes) (b : α) :
    b ∈ search next nodes hc work ∅ hw ↔ ∃ a ∈ work, Reachable next a b := by
  constructor
  · exact search_sound hc work hw
  · rintro ⟨a, ha, hr⟩
    obtain ⟨hwork, hclosed⟩ := search_closed hc work hw
    induction hr with
    | refl => exact hwork a ha
    | tail _ hs ih => exact hclosed _ ih _ hs

end OpenRace.Library.Worklist
