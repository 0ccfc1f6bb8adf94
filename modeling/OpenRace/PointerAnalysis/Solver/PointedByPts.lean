import Mathlib.Data.Finset.Sort
import Mathlib.Data.List.GetD

/-! Points-to sets that are kept with the nodes that point to each node. -/

namespace OpenRace

structure PointedByPts where
  pointsTo : List (Finset ℕ)
  pointedBy : List (Finset ℕ)

namespace PointedByPts

def getPointsTo (pts : PointedByPts) (id : ℕ) : Finset ℕ := pts.pointsTo.getD id ∅

def getPointedBy (pts : PointedByPts) (id : ℕ) : Finset ℕ := pts.pointedBy.getD id ∅

def clearAll : PointedByPts := ⟨[], []⟩

def onNewNodeCreation (pts : PointedByPts) (id : ℕ) : Option PointedByPts :=
  if id = pts.pointsTo.length ∧ pts.pointsTo.length = pts.pointedBy.length then
    some ⟨pts.pointsTo ++ [∅], pts.pointedBy ++ [∅]⟩
  else none

/-- The body of the loop of a union: what `dst` points to must be pointed by it already. -/
def setPointedBy (src dst : ℕ) (pointedBy : List (Finset ℕ)) (id : ℕ) : Option (List (Finset ℕ)) :=
  if dst ∈ pointedBy.getD id ∅ then some (pointedBy.modify id (insert src)) else none

/-- The first result is whether the points-to set has changed. -/
def unionWith (pts : PointedByPts) (src dst : ℕ) : Option (Bool × PointedByPts) :=
  if src < pts.pointsTo.length ∧ dst < pts.pointsTo.length then
    (((pts.getPointsTo dst).sort (· ≤ ·)).foldlM (setPointedBy src dst) pts.pointedBy).map fun pointedBy =>
      (!decide (pts.getPointsTo dst ⊆ pts.getPointsTo src),
        ⟨pts.pointsTo.set src (pts.getPointsTo src ∪ pts.getPointsTo dst), pointedBy⟩)
  else none

def insert (pts : PointedByPts) (src idx : ℕ) : Option (Bool × PointedByPts) :=
  if src < pts.pointsTo.length ∧ idx < pts.pointsTo.length then
    some (!decide (idx ∈ pts.getPointsTo src),
      ⟨pts.pointsTo.modify src (Insert.insert idx), pts.pointedBy.modify idx (Insert.insert src)⟩)
  else none

def clear (pts : PointedByPts) (id : ℕ) : Option PointedByPts :=
  if id < pts.pointsTo.length then some { pts with pointsTo := pts.pointsTo.set id ∅ } else none

end PointedByPts

inductive PtsOperation where
  | clearAll
  | onNewNodeCreation (id : ℕ)
  | unionWith (src dst : ℕ)
  | insert (src idx : ℕ)
  | clear (id : ℕ)

/-- An operation fails where one of its assertions does. -/
def PtsOperation.apply : PtsOperation → PointedByPts → Option PointedByPts
  | clearAll, _ => some PointedByPts.clearAll
  | onNewNodeCreation id, pts => pts.onNewNodeCreation id
  | unionWith src dst, pts => (pts.unionWith src dst).map Prod.snd
  | insert src idx, pts => (pts.insert src idx).map Prod.snd
  | clear id, pts => pts.clear id

namespace PointedByPts

/-- Both vectors are empty before the first operation. -/
def run (operations : List PtsOperation) : Option PointedByPts :=
  operations.foldlM (fun pts operation => operation.apply pts) clearAll

def Reached (operations : List PtsOperation) (pts : PointedByPts) : Prop :=
  ∃ done, done <+: operations ∧ run done = some pts

/-- A change of the points-to set of `src` is what an operation on it reports. -/
def Reports (pts : PointedByPts) (src : ℕ) (result : Option (Bool × PointedByPts)) : Prop :=
  ∃ changed pts', result = some (changed, pts') ∧ (changed = true ↔ pts'.getPointsTo src ≠ pts.getPointsTo src)

structure Mirrored (pts : PointedByPts) : Prop where
  inverse : ∀ n o, o ∈ pts.getPointsTo n ↔ n ∈ pts.getPointedBy o
  insert_reports : ∀ src idx, src < pts.pointsTo.length → idx < pts.pointsTo.length →
    pts.Reports src (pts.insert src idx)
  union_reports : ∀ src dst, src < pts.pointsTo.length → dst < pts.pointsTo.length →
    pts.Reports src (pts.unionWith src dst)

section Table

variable {table : List (Finset ℕ)} {i j n a : ℕ} {set : Finset ℕ}

lemma lt_length_of_mem (h : n ∈ table.getD i ∅) : i < table.length := by
  by_contra hle
  rw [List.getD_eq_default _ _ (not_lt.mp hle)] at h
  exact Finset.notMem_empty n h

lemma mem_modify_insert (hi : i < table.length) :
    n ∈ (table.modify i (Insert.insert a)).getD j ∅ ↔ n ∈ table.getD j ∅ ∨ j = i ∧ n = a := by
  simp only [List.getD_eq_getElem?_getD, List.getElem?_modify]
  by_cases heq : i = j
  · subst heq
    simp [hi, or_comm]
  · simp [heq, Ne.symm heq]

lemma mem_set (hi : i < table.length) :
    n ∈ (table.set i set).getD j ∅ ↔ if j = i then n ∈ set else n ∈ table.getD j ∅ := by
  simp only [List.getD_eq_getElem?_getD, List.getElem?_set]
  by_cases heq : i = j
  · subst heq
    simp [hi]
  · simp [heq, Ne.symm heq]

lemma mem_append_empty : n ∈ (table ++ [∅]).getD i ∅ ↔ n ∈ table.getD i ∅ := by
  rcases lt_trichotomy i table.length with hlt | rfl | hgt
  · rw [List.getD_append _ _ _ _ hlt]
  · simp
  · rw [List.getD_eq_default _ _ (by simp; omega), List.getD_eq_default _ _ hgt.le]

end Table

section Loop

variable {src dst : ℕ} {ids : List ℕ} {pointedBy pointedBy' : List (Finset ℕ)}

lemma foldlM_setPointedBy_isSome (h : ∀ id ∈ ids, dst ∈ pointedBy.getD id ∅) :
    (ids.foldlM (setPointedBy src dst) pointedBy).isSome := by
  induction ids generalizing pointedBy with
  | nil => rfl
  | cons id ids ih =>
    rw [List.forall_mem_cons] at h
    rw [List.foldlM_cons, setPointedBy, if_pos h.1]
    apply ih
    intro id' hm
    exact (mem_modify_insert (lt_length_of_mem h.1)).mpr (Or.inl (h.2 id' hm))

lemma of_foldlM_setPointedBy (h : ids.foldlM (setPointedBy src dst) pointedBy = some pointedBy') :
    pointedBy'.length = pointedBy.length ∧
      ∀ n o, n ∈ pointedBy'.getD o ∅ ↔ n ∈ pointedBy.getD o ∅ ∨ o ∈ ids ∧ n = src := by
  induction ids generalizing pointedBy with
  | nil =>
    cases h
    simp
  | cons id ids ih =>
    rw [List.foldlM_cons, setPointedBy] at h
    split at h
    · rename_i hm
      obtain ⟨hlength, hiff⟩ := ih h
      refine ⟨hlength.trans (List.length_modify _ _ _), fun n o => ?_⟩
      rw [hiff, mem_modify_insert (lt_length_of_mem hm), or_assoc, List.mem_cons, or_and_right]
    · cases h

end Loop

structure Kept (pts : PointedByPts) : Prop where
  length_eq : pts.pointedBy.length = pts.pointsTo.length
  created : ∀ n o, o ∈ pts.getPointsTo n → o < pts.pointsTo.length
  inverse : ∀ n o, o ∈ pts.getPointsTo n ↔ n ∈ pts.getPointedBy o

section Steps

variable {pts pts' : PointedByPts} {src dst idx id : ℕ} {changed : Bool}

lemma kept_clearAll : Kept clearAll :=
  ⟨rfl, fun n _ h => absurd (lt_length_of_mem h) (Nat.not_lt_zero n),
    fun n o => iff_of_false (fun h => Nat.not_lt_zero n (lt_length_of_mem h))
      fun h => Nat.not_lt_zero o (lt_length_of_mem h)⟩

lemma Kept.onNewNodeCreation (h : pts.Kept) (hcreate : pts.onNewNodeCreation id = some pts') : pts'.Kept := by
  rw [PointedByPts.onNewNodeCreation] at hcreate
  split at hcreate
  · cases hcreate
    refine ⟨by simp [h.length_eq], fun n o hm => ?_, fun n o => ?_⟩
    · have hlt := h.created n o (mem_append_empty.mp hm)
      rw [List.length_append]
      exact Nat.lt_add_right _ hlt
    · exact mem_append_empty.trans ((h.inverse n o).trans mem_append_empty.symm)
  · cases hcreate

lemma Kept.clear (h : pts.Kept) (hempty : pts.getPointsTo id = ∅) (hclear : pts.clear id = some pts') : pts'.Kept := by
  rw [PointedByPts.clear] at hclear
  split at hclear
  · rename_i hlt
    cases hclear
    have hsame : ∀ n o, o ∈ (pts.pointsTo.set id ∅).getD n ∅ ↔ o ∈ pts.getPointsTo n := by
      intro n o
      rw [mem_set hlt]
      split
      · rename_i heq
        rw [heq, hempty]
      · rfl
    refine ⟨by simp [h.length_eq], fun n o hm => ?_, fun n o => (hsame n o).trans (h.inverse n o)⟩
    rw [List.length_set]
    exact h.created n o ((hsame n o).mp hm)
  · cases hclear

lemma Kept.insert (h : pts.Kept) (hinsert : pts.insert src idx = some (changed, pts')) : pts'.Kept := by
  rw [PointedByPts.insert] at hinsert
  split at hinsert
  · rename_i hlt
    cases hinsert
    refine ⟨by simp [h.length_eq], fun n o hm => ?_, fun n o => ?_⟩
    · rw [List.length_modify]
      rcases (mem_modify_insert hlt.1).mp hm with hm | ⟨-, rfl⟩
      · exact h.created n o hm
      · exact hlt.2
    · rw [getPointsTo, getPointedBy, mem_modify_insert hlt.1, mem_modify_insert (h.length_eq ▸ hlt.2),
        and_comm (a := n = src)]
      exact or_congr_left (h.inverse n o)
  · cases hinsert

lemma of_unionWith (hunion : pts.unionWith src dst = some (changed, pts')) :
    ∃ pointedBy, ((pts.getPointsTo dst).sort (· ≤ ·)).foldlM (setPointedBy src dst) pts.pointedBy = some pointedBy ∧
      src < pts.pointsTo.length ∧ dst < pts.pointsTo.length ∧
      changed = !decide (pts.getPointsTo dst ⊆ pts.getPointsTo src) ∧
      pts' = ⟨pts.pointsTo.set src (pts.getPointsTo src ∪ pts.getPointsTo dst), pointedBy⟩ := by
  rw [unionWith] at hunion
  split at hunion
  · rename_i hlt
    obtain ⟨pointedBy, hloop, heq⟩ := Option.map_eq_some_iff.mp hunion
    cases heq
    exact ⟨pointedBy, hloop, hlt.1, hlt.2, rfl, rfl⟩
  · cases hunion

lemma Kept.unionWith (h : pts.Kept) (hunion : pts.unionWith src dst = some (changed, pts')) : pts'.Kept := by
  obtain ⟨pointedBy, hloop, hsrc, -, -, rfl⟩ := of_unionWith hunion
  obtain ⟨hlength, hiff⟩ := of_foldlM_setPointedBy hloop
  have hmem : ∀ n o, o ∈ (pts.pointsTo.set src (pts.getPointsTo src ∪ pts.getPointsTo dst)).getD n ∅ ↔
      o ∈ pts.getPointsTo n ∨ o ∈ pts.getPointsTo dst ∧ n = src := by
    intro n o
    rw [mem_set hsrc]
    split
    · rename_i heq
      simp [heq]
    · rename_i hne
      simp [hne, getPointsTo]
  refine ⟨by simp [h.length_eq, hlength], fun n o hm => ?_, fun n o => ?_⟩
  · rw [List.length_set]
    rcases (hmem n o).mp hm with hm | ⟨hm, -⟩
    · exact h.created n o hm
    · exact h.created dst o hm
  · rw [getPointedBy, hiff, Finset.mem_sort]
    exact (hmem n o).trans (or_congr_left (h.inverse n o))

lemma Kept.apply {operation : PtsOperation} (h : pts.Kept) (happly : operation.apply pts = some pts')
    (hclear : ∀ id, operation = .clear id → pts.getPointsTo id = ∅) : pts'.Kept := by
  cases operation with
  | clearAll =>
    cases happly
    exact kept_clearAll
  | onNewNodeCreation id => exact h.onNewNodeCreation happly
  | unionWith src dst =>
    obtain ⟨⟨changed, _⟩, hunion, rfl⟩ := Option.map_eq_some_iff.mp happly
    exact h.unionWith hunion
  | insert src idx =>
    obtain ⟨⟨changed, _⟩, hinsert, rfl⟩ := Option.map_eq_some_iff.mp happly
    exact h.insert hinsert
  | clear id => exact h.clear (hclear id rfl) happly

end Steps

section Reports

variable {pts : PointedByPts} {src dst idx : ℕ}

lemma insert_reports (hsrc : src < pts.pointsTo.length) (hidx : idx < pts.pointsTo.length) :
    pts.Reports src (pts.insert src idx) := by
  refine ⟨_, _, if_pos ⟨hsrc, hidx⟩, ?_⟩
  have hset :
      getPointsTo ⟨pts.pointsTo.modify src (Insert.insert idx), pts.pointedBy.modify idx (Insert.insert src)⟩ src =
      Insert.insert idx (pts.getPointsTo src) := by
    ext o
    rw [getPointsTo, mem_modify_insert hsrc, Finset.mem_insert, or_comm]
    simp [getPointsTo]
  rw [hset, Bool.not_eq_true', decide_eq_false_iff_not, ne_eq, Finset.insert_eq_self]

lemma Kept.union_reports (h : pts.Kept) (hsrc : src < pts.pointsTo.length) (hdst : dst < pts.pointsTo.length) :
    pts.Reports src (pts.unionWith src dst) := by
  have hloop : (((pts.getPointsTo dst).sort (· ≤ ·)).foldlM (setPointedBy src dst) pts.pointedBy).isSome := by
    apply foldlM_setPointedBy_isSome
    intro id hm
    exact (h.inverse dst id).mp ((Finset.mem_sort _).mp hm)
  obtain ⟨pointedBy, hloop⟩ := Option.isSome_iff_exists.mp hloop
  refine ⟨_, _, (if_pos ⟨hsrc, hdst⟩).trans (congrArg _ hloop), ?_⟩
  have hset : getPointsTo ⟨pts.pointsTo.set src (pts.getPointsTo src ∪ pts.getPointsTo dst), pointedBy⟩ src =
      pts.getPointsTo src ∪ pts.getPointsTo dst := by
    ext o
    rw [getPointsTo, mem_set hsrc, if_pos rfl]
  rw [hset, Bool.not_eq_true', decide_eq_false_iff_not, ne_eq, Finset.union_eq_left]

lemma Kept.mirrored (h : pts.Kept) : pts.Mirrored :=
  ⟨h.inverse, fun _ _ => insert_reports, fun _ _ => h.union_reports⟩

end Reports

section Runs

variable {operations done : List PtsOperation} {pts : PointedByPts}

lemma run_concat {operation : PtsOperation} :
    run (done ++ [operation]) = (run done).bind fun pts => operation.apply pts := by
  rw [run, List.foldlM_append]
  simp [run]

/-- The induction is on the operations that are done, of which the last is the step. -/
lemma kept_of_run (hclear : ∀ done id, done ++ [.clear id] <+: operations → ∀ pts, run done = some pts →
    pts.getPointsTo id = ∅) (hdone : done <+: operations) (hrun : run done = some pts) : pts.Kept := by
  induction done using List.reverseRecOn generalizing pts with
  | nil =>
    cases hrun
    exact kept_clearAll
  | append_singleton done operation ih =>
    rw [run_concat] at hrun
    obtain ⟨before, hbefore, happly⟩ := Option.bind_eq_some_iff.mp hrun
    have hkept := ih ((List.prefix_append _ _).trans hdone) hbefore
    apply hkept.apply happly
    rintro id rfl
    exact hclear done id hdone before hbefore

end Runs

/-- The nodes that point to a node are those in the other vector, in every state and for every operation, just where
no points-to set that is not empty is cleared: its members go on being pointed by the node. -/
theorem mirrored_iff (operations : List PtsOperation) :
    (∀ pts, Reached operations pts → pts.Mirrored) ↔
      ∀ done id, done ++ [.clear id] <+: operations → ∀ pts, run done = some pts → pts.getPointsTo id = ∅ := by
  constructor
  · intro h done id hdone pts hrun
    rw [Finset.eq_empty_iff_forall_notMem]
    intro o hm
    have hlt := lt_length_of_mem hm
    have hnext : run (done ++ [.clear id]) = some { pts with pointsTo := pts.pointsTo.set id ∅ } := by
      rw [run_concat, hrun]
      exact if_pos hlt
    have hpointed := ((h pts ⟨done, (List.prefix_append _ _).trans hdone, hrun⟩).inverse id o).mp hm
    have hstale := ((h _ ⟨_, hdone, hnext⟩).inverse id o).mpr hpointed
    rw [getPointsTo, mem_set hlt, if_pos rfl] at hstale
    exact Finset.notMem_empty o hstale
  · rintro hclear pts ⟨done, hdone, hrun⟩
    exact (kept_of_run hclear hdone hrun).mirrored

theorem not_mirrored_of_clear :
    run [.onNewNodeCreation 0, .onNewNodeCreation 1, .insert 0 1, .clear 0] = some ⟨[∅, ∅], [∅, {0}]⟩ ∧
      ¬ ∀ pts, Reached [.onNewNodeCreation 0, .onNewNodeCreation 1, .insert 0 1, .clear 0] pts → pts.Mirrored := by
  have hrun : run [.onNewNodeCreation 0, .onNewNodeCreation 1, .insert 0 1, .clear 0] =
      some ⟨[∅, ∅], [∅, {0}]⟩ := rfl
  refine ⟨hrun, fun h => ?_⟩
  have hstale := ((h _ ⟨_, List.prefix_refl _, hrun⟩).inverse 0 1).mpr (by decide)
  cases hstale

end PointedByPts

end OpenRace
