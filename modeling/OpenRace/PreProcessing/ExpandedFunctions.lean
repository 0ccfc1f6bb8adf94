import OpenRace.PreProcessing.ExpandNestedGEP
import Mathlib.Algebra.Order.BigOperators.Group.List
import Mathlib.Algebra.Order.Group.Nat
import Mathlib.Algebra.Ring.Nat

/-! What the expansion leaves. An expression of a phi goes before the phi, every other one between
the phis and its user. -/

namespace OpenRace

section Operands

mutual
def ExprOperand.weight : ExprOperand → ℕ
  | .value _ => 0
  | .constantExpr _ operands => operands.weight + 1

def ExprOperands.weight : ExprOperands → ℕ
  | .nil => 0
  | .cons operand rest => operand.weight + rest.weight
end

def ExprInst.weight (inst : ExprInst) : ℕ := (inst.operands.map ExprOperand.weight).sum

lemma ExprOperands.sum_weight (operands : ExprOperands) :
    (operands.toList.map ExprOperand.weight).sum = operands.weight := by
  induction operands using ExprOperands.rec (motive_1 := fun _ => True) with
  | value | constantExpr => trivial
  | nil => rfl
  | cons operand rest _ ih => simp [toList, weight, ih]

lemma ExprOperand.weight_eq_zero {op : ExprOperand} (h : ¬op.isConstantExpr) : op.weight = 0 := by
  cases op with
  | value id => rfl
  | constantExpr opcode operands => exact absurd rfl h

lemma ExprInst.weight_replaceUsesOfWith {inst : ExprInst} {source : ExprOperand} (h : source ∈ inst.operands)
    (id : ℕ) : (inst.replaceUsesOfWith source (.value id)).weight + source.weight ≤ inst.weight := by
  obtain ⟨_, _, operands, _⟩ := inst
  simp only [ExprInst.weight, replaceUsesOfWith] at h ⊢
  have hle : ∀ ops : List ExprOperand,
      ((ops.map fun op => if op = source then .value id else op).map ExprOperand.weight).sum ≤
        (ops.map ExprOperand.weight).sum := by
    intro ops
    rw [List.map_map]
    apply List.sum_le_sum
    intro op _
    simp only [Function.comp_apply]
    split_ifs
    · exact Nat.zero_le _
    · exact le_rfl
  induction operands with
  | nil => cases h
  | cons op rest ih =>
    simp only [List.map_cons, List.sum_cons]
    rcases List.mem_cons.mp h with rfl | hrest
    · have hrest := hle rest
      simp only [if_true, ExprOperand.weight]
      omega
    · have hhead := hle [op]
      simp only [List.map_cons, List.map_nil, List.sum_cons, List.sum_nil] at hhead
      have htail := ih hrest
      omega

end Operands

section Inst

structure Expands (first : ℕ) (inst : ExprInst) (st : Expansion) : Prop where
  sameId : st.inst.id = inst.id
  sameOpcode : st.inst.opcode = inst.opcode
  nextId : st.nextId = first + st.inserted.length
  ids : st.inserted.map ExprInst.id = List.range' first st.inserted.length
  notPHI : ∀ made ∈ st.inserted, made.isPHI = false
  operands : ∀ op ∈ st.inst.operands, op ∈ inst.operands ∨ ∃ made ∈ st.inserted, op = .value made.id
  nested : ∀ made ∈ st.inserted, ∃ opcode operands, .constantExpr opcode operands ∈ inst.operands ∧
    made.operands = operands.toList
  weight : (st.inserted.map ExprInst.weight).sum + st.inst.weight + st.inserted.length ≤ inst.weight

lemma expandOperand_of_constantExpr {st : Expansion} {i : ℕ} {opcode : String} {operands : ExprOperands}
    (h : st.inst.operands[i]? = some (.constantExpr opcode operands)) :
    expandOperand st i =
      ⟨st.inserted ++ [⟨st.nextId, .other opcode, operands.toList, []⟩],
        st.inst.replaceUsesOfWith (.constantExpr opcode operands) (.value st.nextId), st.nextId + 1⟩ := by
  rw [expandOperand, h]

lemma expandOperand_of_not {st : Expansion} {i : ℕ}
    (h : ∀ op, st.inst.operands[i]? = some op → ¬op.isConstantExpr) : expandOperand st i = st := by
  unfold expandOperand
  split
  next hop => exact absurd rfl (h _ hop)
  next => rfl

lemma Expands.expandOperand {first : ℕ} {inst : ExprInst} {st : Expansion} (h : Expands first inst st) (i : ℕ) :
    Expands first inst (expandOperand st i) := by
  by_cases hnot : ∀ op, st.inst.operands[i]? = some op → ¬op.isConstantExpr
  · rwa [expandOperand_of_not hnot]
  obtain ⟨op, hop, hexpr⟩ : ∃ op, st.inst.operands[i]? = some op ∧ op.isConstantExpr := by
    simpa using hnot
  cases op with
  | value id => cases hexpr
  | constantExpr opcode operands =>
    have hmem : .constantExpr opcode operands ∈ st.inst.operands := List.mem_of_getElem? hop
    have hsource : .constantExpr opcode operands ∈ inst.operands := by
      rcases h.operands _ hmem with hold | ⟨made, -, hmade⟩
      · exact hold
      · cases hmade
    rw [expandOperand_of_constantExpr hop]
    constructor
    · exact h.sameId
    · exact h.sameOpcode
    · simp only [List.length_append, List.length_singleton, h.nextId]
      omega
    · rw [List.map_append, h.ids, List.length_append, List.length_singleton, ← List.range'_append_1, h.nextId]
      rfl
    · intro made hmade
      rcases List.mem_append.mp hmade with hold | hnew
      · exact h.notPHI made hold
      · obtain rfl := List.mem_singleton.mp hnew
        rfl
    · intro op hop
      obtain ⟨source, hmem, rfl⟩ := List.mem_map.mp hop
      split_ifs
      · exact .inr ⟨_, List.mem_append_right _ (List.mem_singleton_self _), rfl⟩
      · rcases h.operands source hmem with hold | ⟨made, hmade, heq⟩
        · exact .inl hold
        · exact .inr ⟨made, List.mem_append_left _ hmade, heq⟩
    · intro made hmade
      rcases List.mem_append.mp hmade with hold | hnew
      · exact h.nested made hold
      · obtain rfl := List.mem_singleton.mp hnew
        exact ⟨opcode, operands, hsource, rfl⟩
    · have hreplaced := ExprInst.weight_replaceUsesOfWith hmem st.nextId
      have hold := h.weight
      have hmade : ExprInst.weight ⟨st.nextId, .other opcode, operands.toList, []⟩ = operands.weight :=
        operands.sum_weight
      simp only [ExprOperand.weight] at hreplaced
      simp only [List.map_append, List.map_cons, List.map_nil, List.sum_append, List.sum_cons, List.sum_nil,
        List.length_append, List.length_singleton, hmade]
      omega

lemma expands_foldl {first : ℕ} {inst : ExprInst} {st : Expansion} (h : Expands first inst st) (positions : List ℕ) :
    Expands first inst (positions.foldl expandOperand st) := by
  induction positions generalizing st with
  | nil => exact h
  | cons i rest ih => exact ih (h.expandOperand i)

theorem expandInst_expands (first : ℕ) (inst : ExprInst) : Expands first inst (expandInst first inst) := by
  apply expands_foldl
  constructor
  · rfl
  · rfl
  · rfl
  · rfl
  · simp
  · exact fun op hop => .inl hop
  · simp
  · simp

lemma inserted_subset_expandOperand (st : Expansion) (i : ℕ) : st.inserted ⊆ (expandOperand st i).inserted := by
  unfold expandOperand
  split
  · exact List.subset_append_left _ _
  · exact List.Subset.refl _

lemma inserted_subset_foldl (st : Expansion) (positions : List ℕ) :
    st.inserted ⊆ (positions.foldl expandOperand st).inserted := by
  induction positions generalizing st with
  | nil => exact List.Subset.refl _
  | cons i rest ih => exact List.Subset.trans (inserted_subset_expandOperand st i) (ih _)

lemma foldl_of_inserted_nil {st : Expansion} {positions : List ℕ}
    (h : (positions.foldl expandOperand st).inserted = []) :
    positions.foldl expandOperand st = st ∧
      ∀ i ∈ positions, ∀ op, st.inst.operands[i]? = some op → ¬op.isConstantExpr := by
  induction positions generalizing st with
  | nil => simp
  | cons i rest ih =>
    have hnot : ∀ op, st.inst.operands[i]? = some op → ¬op.isConstantExpr := by
      intro op hop hexpr
      cases op with
      | value id => cases hexpr
      | constantExpr opcode operands =>
        have hsub := inserted_subset_foldl (expandOperand st i) rest
        rw [show (rest.foldl expandOperand (expandOperand st i)).inserted = [] from h,
          expandOperand_of_constantExpr hop] at hsub
        simp at hsub
    rw [List.foldl_cons, expandOperand_of_not hnot] at h ⊢
    obtain ⟨heq, hrest⟩ := ih h
    refine ⟨heq, ?_⟩
    intro j hj
    rcases List.mem_cons.mp hj with rfl | hj
    · exact hnot
    · exact hrest j hj

lemma expandInst_of_inserted_nil {first : ℕ} {inst : ExprInst} (h : (expandInst first inst).inserted = []) :
    expandInst first inst = ⟨[], inst, first⟩ ∧ ∀ op ∈ inst.operands, ¬op.isConstantExpr := by
  obtain ⟨heq, hnot⟩ := foldl_of_inserted_nil h
  refine ⟨heq, ?_⟩
  intro op hop
  obtain ⟨i, hi, hget⟩ := List.mem_iff_getElem.mp hop
  exact hnot i (List.mem_range.mpr hi) op (by rw [List.getElem?_eq_getElem hi, hget])

lemma expandInst_of_noConstantExpr {first : ℕ} {inst : ExprInst} (h : ∀ op ∈ inst.operands, ¬op.isConstantExpr) :
    expandInst first inst = ⟨[], inst, first⟩ := by
  have hweight := (expandInst_expands first inst).weight
  have hzero : inst.weight = 0 := by
    apply List.sum_eq_zero
    intro weight hmem
    obtain ⟨op, hop, rfl⟩ := List.mem_map.mp hmem
    exact ExprOperand.weight_eq_zero (h op hop)
  have hnil : (expandInst first inst).inserted = [] := List.length_eq_zero_iff.mp (by omega)
  exact (expandInst_of_inserted_nil hnil).1

end Inst

section Insts

lemma expandInsts_cons (first : ℕ) (inst : ExprInst) (rest : List ExprInst) :
    expandInsts first (inst :: rest) =
      ((expandInst first inst).inserted ++ (expandInst first inst).inst ::
        (expandInsts (expandInst first inst).nextId rest).1, (expandInsts (expandInst first inst).nextId rest).2) :=
  rfl

def weightOf (instructions : List ExprInst) : ℕ := (instructions.map ExprInst.weight).sum

lemma expandInsts_weight (first : ℕ) (instructions : List ExprInst) :
    first ≤ (expandInsts first instructions).2 ∧
      weightOf (expandInsts first instructions).1 + (expandInsts first instructions).2 ≤
        weightOf instructions + first := by
  induction instructions generalizing first with
  | nil => simp [expandInsts]
  | cons inst rest ih =>
    have hinst := (expandInst_expands first inst).weight
    have hnext := (expandInst_expands first inst).nextId
    obtain ⟨hle, hrest⟩ := ih (expandInst first inst).nextId
    rw [expandInsts_cons]
    simp only [weightOf, List.map_append, List.map_cons, List.sum_append, List.sum_cons] at hrest ⊢
    omega

lemma expandInsts_ids (first : ℕ) (instructions : List ExprInst) :
    ((expandInsts first instructions).1.map ExprInst.id).Perm
      (instructions.map ExprInst.id ++ List.range' first ((expandInsts first instructions).2 - first)) := by
  induction instructions generalizing first with
  | nil => simp [expandInsts]
  | cons inst rest ih =>
    have hexpands := expandInst_expands first inst
    have hle := (expandInsts_weight (expandInst first inst).nextId rest).1
    have hcount : (expandInsts (expandInst first inst).nextId rest).2 - first =
        (expandInst first inst).inserted.length +
          ((expandInsts (expandInst first inst).nextId rest).2 - (expandInst first inst).nextId) := by
      have hnext := hexpands.nextId
      omega
    rw [expandInsts_cons]
    simp only [List.map_append, List.map_cons, hexpands.ids, hexpands.sameId]
    rw [hcount, ← List.range'_append_1, ← hexpands.nextId]
    refine List.perm_middle.trans ?_
    rw [List.cons_append]
    apply List.Perm.cons
    refine ((ih (expandInst first inst).nextId).append_left _).trans ?_
    rw [← List.append_assoc, ← List.append_assoc]
    exact List.perm_append_comm.append_right _

lemma kinds_sublist (first : ℕ) (instructions : List ExprInst) :
    (instructions.map ExprInst.isPHI).Sublist ((expandInsts first instructions).1.map ExprInst.isPHI) := by
  induction instructions generalizing first with
  | nil => exact List.Sublist.slnil
  | cons inst rest ih =>
    have hkind : (expandInst first inst).inst.isPHI = inst.isPHI := by
      rw [ExprInst.isPHI, ExprInst.isPHI, (expandInst_expands first inst).sameOpcode]
    rw [expandInsts_cons]
    simp only [List.map_append, List.map_cons, hkind]
    exact ((ih _).cons_cons _).trans (List.sublist_append_right _ _)

/-- An instruction put before a phi cannot be undone. -/
lemma noConstantExpr_of_phisFirst {first : ℕ} {instructions : List ExprInst}
    (h : PhisFirst (expandInsts first instructions).1) :
    ∀ inst ∈ instructions, inst.isPHI → ∀ op ∈ inst.operands, ¬op.isConstantExpr := by
  induction instructions generalizing first with
  | nil => simp
  | cons inst rest ih =>
    rw [expandInsts_cons, PhisFirst, List.map_append, List.map_cons, List.pairwise_append, List.pairwise_cons] at h
    obtain ⟨-, ⟨-, hrest⟩, hbefore⟩ := h
    intro user huser hphi
    rcases List.mem_cons.mp huser with rfl | huser
    · have hexpands := expandInst_expands first user
      suffices hnil : (expandInst first user).inserted = [] from (expandInst_of_inserted_nil hnil).2
      rw [List.eq_nil_iff_forall_not_mem]
      intro made hmade
      have hkind : (expandInst first user).inst.isPHI = true := by
        rw [ExprInst.isPHI, hexpands.sameOpcode]
        exact hphi
      have hmust := hbefore _ (List.mem_map_of_mem hmade) _ List.mem_cons_self hkind
      rw [hexpands.notPHI made hmade] at hmust
      cases hmust
    · exact ih hrest user huser hphi

lemma exists_phi_of_expandInsts {first : ℕ} {instructions : List ExprInst} {made : ExprInst}
    (hmade : made ∈ (expandInsts first instructions).1) (hphi : made.isPHI) : ∃ inst ∈ instructions, inst.isPHI := by
  induction instructions generalizing first with
  | nil => cases hmade
  | cons inst rest ih =>
    rw [expandInsts_cons] at hmade
    rcases List.mem_append.mp hmade with hinserted | hmade
    · rw [(expandInst_expands first inst).notPHI made hinserted] at hphi
      cases hphi
    · rcases List.mem_cons.mp hmade with rfl | hmade
      · refine ⟨inst, by simp, ?_⟩
        rwa [ExprInst.isPHI, (expandInst_expands first inst).sameOpcode] at hphi
      · obtain ⟨user, huser, hphi⟩ := ih hmade
        exact ⟨user, List.mem_cons_of_mem _ huser, hphi⟩

lemma phisFirst_of_none {instructions : List ExprInst} (h : ∀ inst ∈ instructions, ¬inst.isPHI) :
    PhisFirst instructions := by
  rw [PhisFirst, List.pairwise_map]
  induction instructions with
  | nil => exact List.Pairwise.nil
  | cons inst rest ih =>
    obtain ⟨-, hrest⟩ := List.forall_mem_cons.mp h
    exact List.pairwise_cons.mpr ⟨fun user huser hphi => absurd hphi (hrest user huser), ih hrest⟩

lemma expandInsts_phisFirst {first : ℕ} {instructions : List ExprInst} (h : PhisFirst instructions)
    (hphi : ∀ inst ∈ instructions, inst.isPHI → ∀ op ∈ inst.operands, ¬op.isConstantExpr) :
    PhisFirst (expandInsts first instructions).1 := by
  induction instructions generalizing first with
  | nil => exact List.Pairwise.nil
  | cons inst rest ih =>
    by_cases hinst : inst.isPHI
    · rw [PhisFirst, List.map_cons, List.pairwise_cons] at h
      have hrest : PhisFirst (expandInsts first rest).1 :=
        ih h.2 fun user huser => hphi user (List.mem_cons_of_mem _ huser)
      rw [expandInsts_cons, expandInst_of_noConstantExpr (hphi inst (by simp) hinst)]
      rw [PhisFirst, List.nil_append, List.map_cons, List.pairwise_cons]
      exact ⟨fun _ _ _ => hinst, hrest⟩
    · -- there is no phi behind the first instruction that is none
      apply phisFirst_of_none
      intro made hmade hmadephi
      obtain ⟨user, huser, huserphi⟩ := exists_phi_of_expandInsts hmade hmadephi
      rcases List.mem_cons.mp huser with rfl | huser
      · exact hinst huserphi
      · rw [PhisFirst, List.map_cons, List.pairwise_cons] at h
        exact hinst (h.1 _ (List.mem_map_of_mem huser) huserphi)

lemma expandInsts_of_unchanged {first : ℕ} {instructions : List ExprInst}
    (h : (expandInsts first instructions).2 = first) :
    (expandInsts first instructions).1 = instructions ∧
      ∀ inst ∈ instructions, ∀ op ∈ inst.operands, ¬op.isConstantExpr := by
  induction instructions with
  | nil => simp [expandInsts]
  | cons inst rest ih =>
    rw [expandInsts_cons] at h ⊢
    have hnext := (expandInst_expands first inst).nextId
    have hle := (expandInsts_weight (expandInst first inst).nextId rest).1
    have hnil : (expandInst first inst).inserted = [] := List.length_eq_zero_iff.mp (by simp only at h; omega)
    obtain ⟨heq, hnot⟩ := expandInst_of_inserted_nil hnil
    rw [heq] at h ⊢
    obtain ⟨hsame, hrest⟩ := ih h
    refine ⟨by rw [List.nil_append, hsame], List.forall_mem_cons.mpr ⟨hnot, hrest⟩⟩

end Insts

section Uses

/-- Uses of the instructions made by the pass are behind them in the block, and of no phi. -/
def LocalUses (firstId : ℕ) : List ℕ → List ExprInst → Prop
  | _, [] => True
  | before, inst :: rest =>
    (∀ id, .value id ∈ inst.operands → firstId ≤ id → ¬inst.isPHI ∧ id ∈ before) ∧
      LocalUses firstId (before ++ [inst.id]) rest

structure SoundInsts (firstId : ℕ) (instructions : List ExprInst) : Prop where
  phisFirst : PhisFirst instructions
  phis : ∀ inst ∈ instructions, inst.isPHI → ∀ op ∈ inst.operands, ¬op.isConstantExpr
  constants : ∀ inst ∈ instructions, ∀ opcode operands, .constantExpr opcode operands ∈ inst.operands →
    operands.Below firstId
  uses : LocalUses firstId [] instructions

variable {firstId : ℕ}

lemma below_of_mem {operands : ExprOperands} (h : operands.Below firstId) :
    ∀ op ∈ operands.toList, op.Below firstId := by
  induction operands using ExprOperands.rec (motive_1 := fun _ => True) with
  | value | constantExpr => trivial
  | nil => simp [ExprOperands.toList]
  | cons operand rest _ ih => exact List.forall_mem_cons.mpr ⟨h.1, ih h.2⟩

lemma append_subset_of_subset {before more : List ℕ} (h : before ⊆ more) (tail : List ℕ) :
    before ++ tail ⊆ more ++ tail :=
  List.append_subset.mpr ⟨List.subset_append_of_subset_left _ h, List.subset_append_right _ _⟩

lemma localUses_append {before : List ℕ} {xs ys : List ExprInst} (hxs : LocalUses firstId before xs)
    (hys : LocalUses firstId (before ++ xs.map ExprInst.id) ys) : LocalUses firstId before (xs ++ ys) := by
  induction xs generalizing before with
  | nil => simpa using hys
  | cons inst rest ih =>
    refine ⟨hxs.1, ih hxs.2 ?_⟩
    simpa using hys

lemma localUses_of_below {before : List ℕ} {instructions : List ExprInst}
    (h : ∀ inst ∈ instructions, ∀ op ∈ inst.operands, op.Below firstId) : LocalUses firstId before instructions := by
  induction instructions generalizing before with
  | nil => trivial
  | cons inst rest ih =>
    obtain ⟨hinst, hrest⟩ := List.forall_mem_cons.mp h
    refine ⟨?_, ih hrest⟩
    intro id hop hid
    have hlt : id < firstId := hinst _ hop
    omega

lemma LocalUses.mem_before {before : List ℕ} {earlier later : List ExprInst} {user : ExprInst} {id : ℕ}
    (h : LocalUses firstId before (earlier ++ user :: later)) (hop : .value id ∈ user.operands) (hid : firstId ≤ id) :
    ¬user.isPHI ∧ id ∈ before ++ earlier.map ExprInst.id := by
  induction earlier generalizing before with
  | nil => simpa using h.1 id hop hid
  | cons inst rest ih => simpa using ih h.2

lemma expandInsts_constants {first : ℕ} {instructions : List ExprInst}
    (h : ∀ inst ∈ instructions, ∀ opcode operands, .constantExpr opcode operands ∈ inst.operands →
      operands.Below firstId) :
    ∀ inst ∈ (expandInsts first instructions).1, ∀ opcode operands, .constantExpr opcode operands ∈ inst.operands →
      operands.Below firstId := by
  induction instructions generalizing first with
  | nil => simp [expandInsts]
  | cons inst rest ih =>
    obtain ⟨hinst, hrest⟩ := List.forall_mem_cons.mp h
    have hexpands := expandInst_expands first inst
    rw [expandInsts_cons]
    intro made hmade opcode operands hop
    rcases List.mem_append.mp hmade with hinserted | hmade
    · obtain ⟨outer, outerOperands, hmem, heq⟩ := hexpands.nested made hinserted
      rw [heq] at hop
      exact below_of_mem (hinst outer outerOperands hmem) _ hop
    · rcases List.mem_cons.mp hmade with rfl | hmade
      · rcases hexpands.operands _ hop with hold | ⟨_, -, heq⟩
        · exact hinst opcode operands hold
        · cases heq
      · exact ih hrest made hmade opcode operands hop

lemma expandInsts_phis {first : ℕ} {instructions : List ExprInst}
    (h : ∀ inst ∈ instructions, inst.isPHI → ∀ op ∈ inst.operands, ¬op.isConstantExpr) :
    ∀ inst ∈ (expandInsts first instructions).1, inst.isPHI → ∀ op ∈ inst.operands, ¬op.isConstantExpr := by
  induction instructions generalizing first with
  | nil => simp [expandInsts]
  | cons inst rest ih =>
    obtain ⟨hinst, hrest⟩ := List.forall_mem_cons.mp h
    have hexpands := expandInst_expands first inst
    rw [expandInsts_cons]
    intro made hmade hphi
    rcases List.mem_append.mp hmade with hinserted | hmade
    · rw [hexpands.notPHI made hinserted] at hphi
      cases hphi
    · rcases List.mem_cons.mp hmade with rfl | hmade
      · rw [ExprInst.isPHI, hexpands.sameOpcode] at hphi
        rw [expandInst_of_noConstantExpr (hinst hphi)]
        exact hinst hphi
      · exact ih hrest made hmade hphi

lemma expandInsts_uses {first : ℕ} {instructions : List ExprInst} {before more : List ℕ}
    (h : LocalUses firstId before instructions) (hsub : before ⊆ more)
    (hconstants : ∀ inst ∈ instructions, ∀ opcode operands, .constantExpr opcode operands ∈ inst.operands →
      operands.Below firstId)
    (hphis : ∀ inst ∈ instructions, inst.isPHI → ∀ op ∈ inst.operands, ¬op.isConstantExpr) :
    LocalUses firstId more (expandInsts first instructions).1 := by
  induction instructions generalizing first before more with
  | nil => trivial
  | cons inst rest ih =>
    obtain ⟨hinst, hrest⟩ := List.forall_mem_cons.mp hconstants
    obtain ⟨hphi, hphis⟩ := List.forall_mem_cons.mp hphis
    have hexpands := expandInst_expands first inst
    rw [expandInsts_cons]
    apply localUses_append
    · apply localUses_of_below
      intro made hmade
      obtain ⟨outer, operands, hmem, heq⟩ := hexpands.nested made hmade
      rw [heq]
      exact below_of_mem (hinst outer operands hmem)
    refine ⟨?_, ih h.2 ?_ hrest hphis⟩
    · intro id hop hid
      rw [ExprInst.isPHI, hexpands.sameOpcode, ← ExprInst.isPHI]
      rcases hexpands.operands _ hop with hold | ⟨made, hmade, heq⟩
      · obtain ⟨hnot, hmem⟩ := h.1 id hold hid
        exact ⟨hnot, List.mem_append_left _ (hsub hmem)⟩
      · obtain rfl := ExprOperand.value.inj heq
        refine ⟨?_, List.mem_append_right _ (List.mem_map_of_mem hmade)⟩
        intro hisphi
        rw [expandInst_of_noConstantExpr (hphi hisphi)] at hmade
        cases hmade
    · rw [hexpands.sameId]
      exact append_subset_of_subset (List.subset_append_of_subset_left _ hsub) _

theorem SoundInsts.expandInsts {instructions : List ExprInst} (h : SoundInsts firstId instructions) (first : ℕ) :
    SoundInsts firstId (expandInsts first instructions).1 where
  phisFirst := expandInsts_phisFirst h.phisFirst h.phis
  phis := expandInsts_phis h.phis
  constants := expandInsts_constants h.constants
  uses := expandInsts_uses h.uses (List.Subset.refl _) h.constants h.phis

end Uses

section Rounds

lemma expandBlocks_cons (first : ℕ) (block : ExprBlock) (rest : List ExprBlock) :
    expandBlocks first (block :: rest) =
      ({ block with instructions := (expandInsts first block.instructions).1 } ::
        (expandBlocks (expandInsts first block.instructions).2 rest).1,
        (expandBlocks (expandInsts first block.instructions).2 rest).2) :=
  rfl

def ExprFunction.weight (f : ExprFunction) : ℕ := (f.blocks.map fun block => weightOf block.instructions).sum

lemma expandBlocks_weight (first : ℕ) (blocks : List ExprBlock) :
    first ≤ (expandBlocks first blocks).2 ∧
      ((expandBlocks first blocks).1.map fun block => weightOf block.instructions).sum + (expandBlocks first blocks).2 ≤
        (blocks.map fun block => weightOf block.instructions).sum + first := by
  induction blocks generalizing first with
  | nil => simp [expandBlocks]
  | cons block rest ih =>
    obtain ⟨hle, hblock⟩ := expandInsts_weight first block.instructions
    obtain ⟨hle', hrest⟩ := ih (expandInsts first block.instructions).2
    rw [expandBlocks_cons]
    simp only [List.map_cons, List.sum_cons] at hrest ⊢
    omega

lemma expandBlocks_ids (first : ℕ) (blocks : List ExprBlock) :
    ((expandBlocks first blocks).1.flatMap fun block => block.instructions.map ExprInst.id).Perm
      ((blocks.flatMap fun block => block.instructions.map ExprInst.id) ++
        List.range' first ((expandBlocks first blocks).2 - first)) := by
  induction blocks generalizing first with
  | nil => simp [expandBlocks]
  | cons block rest ih =>
    obtain ⟨hle, -⟩ := expandInsts_weight first block.instructions
    obtain ⟨hle', -⟩ := expandBlocks_weight (expandInsts first block.instructions).2 rest
    have hcount : (expandBlocks (expandInsts first block.instructions).2 rest).2 - first =
        ((expandInsts first block.instructions).2 - first) +
          ((expandBlocks (expandInsts first block.instructions).2 rest).2 -
            (expandInsts first block.instructions).2) := by
      omega
    have hmiddle : first + ((expandInsts first block.instructions).2 - first) =
        (expandInsts first block.instructions).2 := by omega
    rw [expandBlocks_cons]
    simp only [List.flatMap_cons]
    rw [hcount, ← List.range'_append_1, hmiddle]
    refine ((expandInsts_ids first block.instructions).append (ih _)).trans ?_
    rw [List.append_assoc, List.append_assoc]
    apply List.Perm.append_left
    rw [← List.append_assoc, ← List.append_assoc]
    exact List.perm_append_comm.append_right _

lemma forall_expandBlocks {blocks : List ExprBlock} {p q : List ExprInst → Prop}
    (hstep : ∀ first instructions, p instructions → q (expandInsts first instructions).1)
    (h : ∀ block ∈ blocks, p block.instructions) (first : ℕ) :
    ∀ block ∈ (expandBlocks first blocks).1, q block.instructions := by
  induction blocks generalizing first with
  | nil => simp [expandBlocks]
  | cons block rest ih =>
    obtain ⟨hblock, hrest⟩ := List.forall_mem_cons.mp h
    rw [expandBlocks_cons]
    exact List.forall_mem_cons.mpr ⟨hstep first _ hblock, ih hrest _⟩

lemma forall_of_expandBlocks {blocks : List ExprBlock} {p q : List ExprInst → Prop}
    (hstep : ∀ first instructions, q (expandInsts first instructions).1 → p instructions) {first : ℕ}
    (h : ∀ block ∈ (expandBlocks first blocks).1, q block.instructions) : ∀ block ∈ blocks, p block.instructions := by
  induction blocks generalizing first with
  | nil => simp
  | cons block rest ih =>
    rw [expandBlocks_cons] at h
    obtain ⟨hblock, hrest⟩ := List.forall_mem_cons.mp h
    exact List.forall_mem_cons.mpr ⟨hstep first _ hblock, ih hrest⟩

lemma expandBlocks_of_unchanged {first : ℕ} {blocks : List ExprBlock} (h : (expandBlocks first blocks).2 = first) :
    (expandBlocks first blocks).1 = blocks ∧
      ∀ block ∈ blocks, ∀ inst ∈ block.instructions, ∀ op ∈ inst.operands, ¬op.isConstantExpr := by
  induction blocks with
  | nil => simp [expandBlocks]
  | cons block rest ih =>
    obtain ⟨hle, -⟩ := expandInsts_weight first block.instructions
    obtain ⟨hle', -⟩ := expandBlocks_weight (expandInsts first block.instructions).2 rest
    rw [expandBlocks_cons] at h ⊢
    have hinsts : (expandInsts first block.instructions).2 = first := by simp only at h; omega
    obtain ⟨hsame, hnot⟩ := expandInsts_of_unchanged hinsts
    rw [hinsts] at h ⊢
    obtain ⟨hsame', hrest⟩ := ih h
    exact ⟨by rw [hsame, hsame'], List.forall_mem_cons.mpr ⟨hnot, hrest⟩⟩

structure SoundFunction (firstId : ℕ) (f : ExprFunction) : Prop where
  blocks : ∀ block ∈ f.blocks, SoundInsts firstId block.instructions
  distinct : f.ids.Nodup
  numbered : ∀ id ∈ f.ids, id < f.nextId

lemma SoundFunction.expandRound {firstId : ℕ} {f : ExprFunction} (h : SoundFunction firstId f) :
    SoundFunction firstId (expandRound f) := by
  have hids := expandBlocks_ids f.nextId f.blocks
  have hle := (expandBlocks_weight f.nextId f.blocks).1
  constructor
  · exact forall_expandBlocks (fun first instructions hsound => hsound.expandInsts first) h.blocks f.nextId
  · refine hids.nodup_iff.mpr (List.nodup_append.mpr ⟨h.distinct, List.nodup_range', ?_⟩)
    intro id hid other hother heq
    have hlt := h.numbered id hid
    have hge := (List.mem_range'_1.mp hother).1
    omega
  · intro id hid
    rcases List.mem_append.mp (hids.mem_iff.mp hid) with hold | hnew
    · exact lt_of_lt_of_le (h.numbered id hold) hle
    · have hrange := List.mem_range'_1.mp hnew
      simp only [OpenRace.expandRound]
      omega

lemma SoundFunction.expanded {firstId : ℕ} {f : ExprFunction} (h : SoundFunction firstId f)
    (hexpr : ∀ block ∈ f.blocks, ∀ inst ∈ block.instructions, ∀ op ∈ inst.operands, ¬op.isConstantExpr) :
    Expanded firstId f where
  noConstantExpr := hexpr
  phisFirst := fun block hblock => (h.blocks block hblock).phisFirst
  distinct := h.distinct
  dominates := by
    intro block hblock before user after hsplit operand id hop hid
    have huses := (h.blocks block hblock).uses
    rw [hsplit] at huses
    obtain ⟨hphi, hmem⟩ := huses.mem_before (List.mem_of_getElem? hop) hid
    rw [ExprFunction.DominatesUse, if_neg hphi]
    exact .inl (List.mem_map.mp hmem)

/-- Every round but the last one takes an expression away. -/
theorem exists_expandNestedGEP {rounds : ℕ} {f : ExprFunction} (hrounds : f.weight < rounds) :
    ∃ result, expandNestedGEP rounds f = some result := by
  induction rounds generalizing f with
  | zero => omega
  | succ rounds ih =>
    rw [expandNestedGEP]
    split_ifs with hfix
    · exact ⟨_, rfl⟩
    · obtain ⟨hle, hweight⟩ := expandBlocks_weight f.nextId f.blocks
      have hlt : (expandRound f).weight < f.weight := by
        simp only [expandRound] at hfix
        simp only [ExprFunction.weight, expandRound]
        omega
      obtain ⟨result, hresult⟩ := ih (lt_of_lt_of_le hlt (Nat.le_of_lt_succ hrounds))
      exact ⟨(result.1, true), by rw [hresult]; rfl⟩

lemma SoundFunction.run {firstId rounds : ℕ} {f : ExprFunction} {result : ExprFunction × Bool}
    (h : SoundFunction firstId f) (hrun : expandNestedGEP rounds f = some result) : Expanded firstId result.1 := by
  induction rounds generalizing f result with
  | zero => cases hrun
  | succ rounds ih =>
    rw [expandNestedGEP] at hrun
    split_ifs at hrun with hfix
    · obtain rfl := Option.some.inj hrun
      obtain ⟨hsame, hexpr⟩ := expandBlocks_of_unchanged hfix
      apply h.expandRound.expanded
      rwa [OpenRace.expandRound, hsame]
    · obtain ⟨next, hnext, rfl⟩ := Option.map_eq_some_iff.mp hrun
      have hexpanded := ih h.expandRound hnext
      exact hexpanded

lemma phisFirst_of_run {rounds : ℕ} {f : ExprFunction} {result : ExprFunction × Bool}
    (hrun : expandNestedGEP rounds f = some result)
    (h : ∀ block ∈ result.1.blocks, PhisFirst block.instructions) :
    ∀ block ∈ (expandRound f).blocks, PhisFirst block.instructions := by
  induction rounds generalizing f result with
  | zero => cases hrun
  | succ rounds ih =>
    rw [expandNestedGEP] at hrun
    split_ifs at hrun with hfix
    · obtain rfl := Option.some.inj hrun
      exact h
    · obtain ⟨next, hnext, rfl⟩ := Option.map_eq_some_iff.mp hrun
      refine forall_of_expandBlocks ?_ (ih hnext h)
      intro first instructions hphis
      exact hphis.sublist (kinds_sublist first instructions)

end Rounds

section Run

lemma ValidFunction.sound (f : ValidFunction)
    (hphis : ∀ block ∈ f.blocks, ∀ inst ∈ block.instructions, inst.isPHI → ∀ op ∈ inst.operands, ¬op.isConstantExpr) :
    SoundFunction f.nextId f.toExprFunction where
  blocks := by
    intro block hblock
    constructor
    · exact f.phisFirst block hblock
    · exact hphis block hblock
    · intro inst hinst opcode operands hop
      exact f.operands block hblock inst hinst _ hop
    · exact localUses_of_below fun inst hinst op hop => f.operands block hblock inst hinst op hop
  distinct := f.distinct
  numbered := f.numbered

/-- The pass ends on every function, and leaves what it is to leave exactly where no phi uses a
constant expression. -/
theorem expandNestedGEP_expanded_iff (f : ValidFunction) :
    ∃ rounds result, expandNestedGEP rounds f.toExprFunction = some result ∧
      (Expanded f.nextId result.1 ↔
        ∀ block ∈ f.blocks, ∀ inst ∈ block.instructions, inst.isPHI → ∀ op ∈ inst.operands, ¬op.isConstantExpr) := by
  obtain ⟨result, hrun⟩ := exists_expandNestedGEP (Nat.lt_succ_self f.weight)
  refine ⟨_, result, hrun, ?_, fun hphis => (f.sound hphis).run hrun⟩
  intro hexpanded
  have hround := phisFirst_of_run hrun hexpanded.phisFirst
  exact forall_of_expandBlocks (fun first instructions => noConstantExpr_of_phisFirst) hround

end Run

section PhiOfCast

/-- `phi i8* [ bitcast (i32* @g to i8*), %entry ], [ null, %other ]`. -/
def phiOfCastIR : ExprFunction where
  blocks := [⟨0, [⟨10, .other "br", [], []⟩], [1, 2]⟩, ⟨1, [⟨11, .other "br", [], []⟩], [2]⟩,
    ⟨2, [⟨12, .phi, [.constantExpr "bitcast" (.cons (.value 0) .nil), .value 1], [0, 1]⟩,
      ⟨13, .other "ret", [], []⟩], []⟩]
  nextId := 14

lemma phiOfCast_phisFirst : ∀ block ∈ phiOfCastIR.blocks, PhisFirst block.instructions := by
  simp [phiOfCastIR, PhisFirst, ExprInst.isPHI]

lemma phiOfCast_operands : ∀ block ∈ phiOfCastIR.blocks, ∀ inst ∈ block.instructions, ∀ op ∈ inst.operands,
    op.Below phiOfCastIR.nextId := by
  simp [phiOfCastIR, ExprOperand.Below, ExprOperands.Below]

lemma phiOfCast_distinct : phiOfCastIR.ids.Nodup := by decide

lemma phiOfCast_numbered : ∀ id ∈ phiOfCastIR.ids, id < phiOfCastIR.nextId := by decide

def phiOfCast : ValidFunction :=
  { phiOfCastIR with
    phisFirst := phiOfCast_phisFirst
    distinct := phiOfCast_distinct
    numbered := phiOfCast_numbered
    operands := phiOfCast_operands }

theorem phiOfCast_not_expanded :
    ¬∃ rounds result, expandNestedGEP rounds phiOfCast.toExprFunction = some result ∧
      Expanded phiOfCast.nextId result.1 := by
  rintro ⟨rounds, result, hrun, hexpanded⟩
  have hphis := phisFirst_of_run hrun hexpanded.phisFirst _ (List.mem_of_getElem? (i := 2) rfl)
  -- the cast stands before the phi
  have hcast := (List.pairwise_cons.mp hphis).1 true (List.mem_cons_self ..) rfl
  exact absurd hcast (by decide)

end PhiOfCast

end OpenRace
