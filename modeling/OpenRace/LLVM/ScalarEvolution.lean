import OpenRace.LLVM.IndexValues
import Mathlib.Data.List.Basic

/-! Scalar expressions of the values of a function. -/

namespace OpenRace.LLVM

inductive SCEVCastKind
  | truncate | zeroExtend | signExtend
deriving DecidableEq

inductive SCEVNAryKind
  | add | mul | umax | smax | umin | smin
deriving DecidableEq

/-- Types are given by their width; an operand list of `addRec` is its start and its steps. -/
inductive SCEV
  | constant (value : ℤ) (type : ℕ)
  | unknown (value : ℕ)
  | cast (kind : SCEVCastKind) (operand : SCEV) (type : ℕ)
  | nary (kind : SCEVNAryKind) (operands : List SCEV)
  | udiv (lhs rhs : SCEV)
  | addRec (operands : List SCEV) (loop : ℕ)
  | couldNotCompute

namespace SCEV

mutual

def beq : SCEV → SCEV → Bool
  | constant value type, constant value' type' => value == value' && type == type'
  | unknown value, unknown value' => value == value'
  | cast kind operand type, cast kind' operand' type' => kind == kind' && beq operand operand' && type == type'
  | nary kind operands, nary kind' operands' => kind == kind' && beqs operands operands'
  | udiv lhs rhs, udiv lhs' rhs' => beq lhs lhs' && beq rhs rhs'
  | addRec operands loop, addRec operands' loop' => beqs operands operands' && loop == loop'
  | couldNotCompute, couldNotCompute => true
  | _, _ => false

def beqs : List SCEV → List SCEV → Bool
  | [], [] => true
  | expr :: rest, expr' :: rest' => beq expr expr' && beqs rest rest'
  | _, _ => false

end

mutual

lemma beq_iff (expr expr' : SCEV) : beq expr expr' = true ↔ expr = expr' := by
  cases expr <;> cases expr' <;> simp [beq, beq_iff, beqs_iff, and_assoc]

lemma beqs_iff (exprs exprs' : List SCEV) : beqs exprs exprs' = true ↔ exprs = exprs' := by
  cases exprs <;> cases exprs' <;> simp [beqs, beq_iff, beqs_iff]

end

instance : DecidableEq SCEV := fun expr expr' => decidable_of_iff _ (beq_iff expr expr')

def operands : SCEV → List SCEV
  | constant .. | unknown _ | couldNotCompute => []
  | cast _ operand _ => [operand]
  | nary _ operands | addRec operands _ => operands
  | udiv lhs rhs => [lhs, rhs]

def isAddRec : SCEV → Bool
  | addRec .. => true
  | _ => false

mutual

def size : SCEV → ℕ
  | constant .. | unknown _ | couldNotCompute => 1
  | cast _ operand _ => size operand + 1
  | nary _ operands | addRec operands _ => sizes operands + 1
  | udiv lhs rhs => size lhs + size rhs + 1

def sizes : List SCEV → ℕ
  | [] => 0
  | expr :: rest => size expr + sizes rest

end

lemma sizes_operands (expr : SCEV) : sizes expr.operands + 1 = expr.size := by
  cases expr <;> simp [operands, size, sizes]

end SCEV

structure ScalarEvolution where
  getSCEV : ArrayAddress → SCEV
  getMinusSCEV : SCEV → SCEV → SCEV
  getCastExpr : SCEVCastKind → SCEV → ℕ → SCEV
  getNAryExpr : SCEVNAryKind → List SCEV → SCEV
  getUDivExpr : SCEV → SCEV → SCEV
  getAddRecExpr : List SCEV → ℕ → ℕ → SCEV
  getNoWrapFlags : SCEV → ℕ
  getBackedgeTakenCount : ℕ → SCEV

def ScalarEvolution.rebuild (se : ScalarEvolution) (expr : SCEV) (operands : List SCEV) : SCEV :=
  if operands == expr.operands then expr
  else match expr, operands with
    | .cast kind _ type, [operand] => se.getCastExpr kind operand type
    | .nary kind _, _ => se.getNAryExpr kind operands
    | .udiv _ _, [lhs, rhs] => se.getUDivExpr lhs rhs
    | .addRec _ loop, _ => se.getAddRecExpr operands loop (se.getNoWrapFlags expr)
    | _, _ => expr

structure SCEVTraversal where
  found : Option SCEV := none
  worklist : List SCEV := []
  visited : List SCEV := []

namespace SCEVTraversal

def push (pred : SCEV → Bool) (st : SCEVTraversal) (expr : SCEV) : SCEVTraversal :=
  if st.visited.contains expr then st
  else if pred expr then { st with found := some expr, visited := expr :: st.visited }
  else { st with worklist := expr :: st.worklist, visited := expr :: st.visited }

def visitAll (pred : SCEV → Bool) : ℕ → SCEVTraversal → Option SCEV
  | 0, st => st.found
  | fuel + 1, st =>
    match st.found, st.worklist with
    | some expr, _ => some expr
    | none, [] => none
    | none, expr :: worklist => visitAll pred fuel (expr.operands.foldl (push pred) { st with worklist })

lemma sizes_push (pred : SCEV → Bool) (st : SCEVTraversal) (expr : SCEV) :
    SCEV.sizes (push pred st expr).worklist ≤ SCEV.sizes st.worklist + expr.size := by
  unfold push
  split_ifs <;> simp [SCEV.sizes]
  omega

lemma sizes_pushAll (pred : SCEV → Bool) (exprs : List SCEV) (st : SCEVTraversal) :
    SCEV.sizes (exprs.foldl (push pred) st).worklist ≤ SCEV.sizes st.worklist + SCEV.sizes exprs := by
  induction exprs generalizing st with
  | nil => simp [SCEV.sizes]
  | cons expr rest ih =>
    have hpush := sizes_push pred st expr
    have hrest := ih (push pred st expr)
    simp only [List.foldl_cons, SCEV.sizes]
    omega

lemma visitAll_enough (pred : SCEV → Bool) (fuel more : ℕ) (st : SCEVTraversal)
    (h : SCEV.sizes st.worklist ≤ fuel) : visitAll pred (fuel + more) st = visitAll pred fuel st := by
  induction fuel generalizing st with
  | zero =>
    have hworklist : st.worklist = [] := by
      cases hst : st.worklist with
      | nil => rfl
      | cons expr rest =>
        have hsize := SCEV.sizes_operands expr
        simp only [hst, SCEV.sizes] at h
        omega
    cases more with
    | zero => rfl
    | succ more =>
      rw [Nat.zero_add]
      simp only [visitAll, hworklist]
      cases st.found <;> rfl
  | succ fuel ih =>
    rw [Nat.succ_add]
    simp only [visitAll]
    cases hfound : st.found with
    | some expr => rfl
    | none =>
      cases hst : st.worklist with
      | nil => rfl
      | cons expr rest =>
        apply ih
        have hpushed := sizes_pushAll pred expr.operands { st with worklist := rest }
        have hsize := SCEV.sizes_operands expr
        simp only [hst, SCEV.sizes] at h
        simp only at hpushed
        simp only [hfound] at hpushed
        omega

end SCEVTraversal

def findSCEVExpr (root : SCEV) (pred : SCEV → Bool) : Option SCEV :=
  SCEVTraversal.visitAll pred root.size (SCEVTraversal.push pred {} root)

lemma findSCEVExpr_enough (root : SCEV) (pred : SCEV → Bool) (more : ℕ) :
    SCEVTraversal.visitAll pred (root.size + more) (SCEVTraversal.push pred {} root) = findSCEVExpr root pred := by
  apply SCEVTraversal.visitAll_enough
  have hsize := SCEVTraversal.sizes_push pred {} root
  simpa only [SCEV.sizes, Nat.zero_add] using hsize

end OpenRace.LLVM
