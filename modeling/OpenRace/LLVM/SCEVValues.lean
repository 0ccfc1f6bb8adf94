import OpenRace.LLVM.ScalarEvolution
import Mathlib.Algebra.BigOperators.Group.List.Basic
import Mathlib.Data.Int.ModEq
import Mathlib.Data.Nat.Choose.Basic

/-! What scalar expressions are worth, at the widths of their types. -/

namespace OpenRace.LLVM

def wrap (width : ℕ) (n : ℤ) : ℤ := n.bmod (2 ^ width)

lemma wrap_eq_iff {width : ℕ} {m n : ℤ} : wrap width m = wrap width n ↔ m ≡ n [ZMOD (2 ^ width : ℕ)] := by
  rw [wrap, wrap, Int.ModEq]
  constructor
  · intro h
    rw [← Int.bmod_emod, h, Int.bmod_emod]
  · intro h
    rw [← Int.emod_bmod, h, Int.emod_bmod]

lemma wrap_modEq (width : ℕ) (n : ℤ) : wrap width n ≡ n [ZMOD (2 ^ width : ℕ)] := Int.bmod_emod

/-- The values of the unknowns, and how often each loop has gone back to its header. -/
structure SCEVValuation (widthOf counterWidth : ℕ → ℕ) where
  unknowns : (value : ℕ) → BitVec (widthOf value)
  counters : (loop : ℕ) → BitVec (counterWidth loop)

def SCEVCastKind.read (kind : SCEVCastKind) (operandWidth : ℕ) (x : ℤ) : ℤ :=
  match kind with
  | .zeroExtend => x % (2 ^ operandWidth : ℕ)
  | .truncate | .signExtend => x

def SCEVNAryKind.apply (kind : SCEVNAryKind) (width : ℕ) (values : List ℤ) : ℤ :=
  match kind with
  | .add => values.sum
  | .mul => values.prod
  | .umax => (values.map fun x => x % ((2 ^ width : ℕ) : ℤ)).max?.getD 0
  | .smax => values.max?.getD 0
  | .umin => (values.map fun x => x % ((2 ^ width : ℕ) : ℤ)).min?.getD 0
  | .smin => values.min?.getD 0

def atIteration (i k : ℕ) : List ℤ → ℤ
  | [] => 0
  | x :: rest => i.choose k * x + atIteration i (k + 1) rest

namespace SCEV

section Widths

variable (widthOf : ℕ → ℕ)

mutual

def width : SCEV → ℕ
  | constant _ type | cast _ _ type => type
  | unknown value => widthOf value
  | nary _ operands | addRec operands _ => headWidth operands
  | udiv lhs _ => width lhs
  | couldNotCompute => 0

def headWidth : List SCEV → ℕ
  | [] => 0
  | expr :: _ => width expr

end

mutual

def WellTyped : SCEV → Prop
  | constant .. | unknown _ => True
  | cast .truncate operand type => WellTyped operand ∧ type < operand.width widthOf
  | cast _ operand type => WellTyped operand ∧ operand.width widthOf < type
  | nary _ operands | addRec operands _ => operands ≠ [] ∧ AllTyped (headWidth widthOf operands) operands
  | udiv lhs rhs => WellTyped lhs ∧ WellTyped rhs ∧ lhs.width widthOf = rhs.width widthOf
  | couldNotCompute => False

def AllTyped (width : ℕ) : List SCEV → Prop
  | [] => True
  | expr :: rest => WellTyped expr ∧ expr.width widthOf = width ∧ AllTyped width rest

end

end Widths

variable {widthOf counterWidth : ℕ → ℕ}

section Values

variable (valuation : SCEVValuation widthOf counterWidth)

mutual

/-- The value as a signed integer; a division by zero has any value. -/
def eval : SCEV → ℤ
  | constant value type => wrap type value
  | unknown value => (valuation.unknowns value).toInt
  | cast kind operand type => wrap type (kind.read (operand.width widthOf) (eval operand))
  | nary kind operands =>
    wrap (headWidth widthOf operands) (kind.apply (headWidth widthOf operands) (evals operands))
  | udiv lhs rhs =>
    wrap (lhs.width widthOf)
      (eval lhs % (2 ^ lhs.width widthOf : ℕ) / (eval rhs % (2 ^ rhs.width widthOf : ℕ)))
  | addRec operands loop =>
    wrap (headWidth widthOf operands) (atIteration (valuation.counters loop).toNat 0 (evals operands))
  | couldNotCompute => 0

def evals : List SCEV → List ℤ
  | [] => []
  | expr :: rest => eval expr :: evals rest

end

end Values

/-- The expression can stand where the other one stood. -/
def TypedAs (widthOf : ℕ → ℕ) (expr other : SCEV) : Prop :=
  expr.WellTyped widthOf ∧ expr.width widthOf = other.width widthOf

lemma evals_eq_map (valuation : SCEVValuation widthOf counterWidth) (exprs : List SCEV) :
    evals valuation exprs = exprs.map (eval valuation) := by
  induction exprs with
  | nil => rfl
  | cons expr rest ih => rw [evals, ih, List.map_cons]

lemma allTyped_iff {width : ℕ} {exprs : List SCEV} :
    AllTyped widthOf width exprs ↔ ∀ expr ∈ exprs, expr.WellTyped widthOf ∧ expr.width widthOf = width := by
  induction exprs with
  | nil => simp [AllTyped]
  | cons expr rest ih => rw [AllTyped, ih, List.forall_mem_cons, and_assoc]

lemma headWidth_of_typedAs {exprs others : List SCEV} (h : List.Forall₂ (TypedAs widthOf) exprs others) :
    headWidth widthOf exprs = headWidth widthOf others := by
  cases h with
  | nil => rfl
  | cons hexpr _ => exact hexpr.2

lemma operandsTyped_of_typedAs {exprs others : List SCEV} (h : List.Forall₂ (TypedAs widthOf) exprs others)
    (hothers : others ≠ [] ∧ AllTyped widthOf (headWidth widthOf others) others) :
    exprs ≠ [] ∧ AllTyped widthOf (headWidth widthOf exprs) exprs := by
  constructor
  · rintro rfl
    cases h
    exact hothers.1 rfl
  · rw [headWidth_of_typedAs h]
    have htyped := allTyped_iff.mp hothers.2
    rw [allTyped_iff]
    intro expr hexpr
    obtain ⟨i, hi, rfl⟩ := List.mem_iff_getElem.mp hexpr
    have hi' : i < others.length := h.length_eq ▸ hi
    have hat := h.get hi hi'
    exact ⟨hat.1, hat.2.trans (htyped _ (List.getElem_mem hi')).2⟩

lemma evals_of_forall₂ {valuation : SCEVValuation widthOf counterWidth} {exprs others : List SCEV}
    (h : List.Forall₂ (fun expr other => eval valuation expr = eval valuation other) exprs others) :
    evals valuation exprs = evals valuation others := by
  rw [evals_eq_map, evals_eq_map]
  induction h with
  | nil => rfl
  | cons hexpr _ ih => rw [List.map_cons, List.map_cons, hexpr, ih]

end SCEV

open SCEV

/-- A constructor of the library builds one expression for the other. -/
inductive ScalarEvolution.Builds (se : ScalarEvolution) : SCEV → SCEV → Prop
  | cast (kind : SCEVCastKind) (operand : SCEV) (type : ℕ) :
      Builds se (se.getCastExpr kind operand type) (.cast kind operand type)
  | nary (kind : SCEVNAryKind) (operands : List SCEV) : Builds se (se.getNAryExpr kind operands) (.nary kind operands)
  | udiv (lhs rhs : SCEV) : Builds se (se.getUDivExpr lhs rhs) (.udiv lhs rhs)
  | addRec (operands : List SCEV) (loop flags : ℕ) :
      Builds se (se.getAddRecExpr operands loop flags) (.addRec operands loop)

structure ScalarEvolution.PreservesValues (se : ScalarEvolution) (widthOf counterWidth : ℕ → ℕ) : Prop where
  typed : ∀ built expr, se.Builds built expr → expr.WellTyped widthOf → TypedAs widthOf built expr
  values : ∀ built expr, se.Builds built expr → expr.WellTyped widthOf →
    ∀ valuation : SCEVValuation widthOf counterWidth, built.eval valuation = expr.eval valuation

section Rebuild

variable {widthOf counterWidth : ℕ → ℕ} {se : ScalarEvolution} {expr : SCEV} {operands : List SCEV}

def SCEV.withOperands : SCEV → List SCEV → SCEV
  | .cast kind _ type, [operand] => .cast kind operand type
  | .nary kind _, operands => .nary kind operands
  | .udiv _ _, [lhs, rhs] => .udiv lhs rhs
  | .addRec _ loop, operands => .addRec operands loop
  | expr, _ => expr

lemma rebuild_eq_or_builds (hoperands : operands.length = expr.operands.length) :
    se.rebuild expr operands = expr ∧ operands = expr.operands ∨
      se.Builds (se.rebuild expr operands) (expr.withOperands operands) := by
  by_cases hsame : operands = expr.operands
  · exact Or.inl ⟨by simp [ScalarEvolution.rebuild, hsame], hsame⟩
  · have hrebuild : (operands == expr.operands) = false := by simpa using hsame
    right
    simp only [ScalarEvolution.rebuild, hrebuild, Bool.false_eq_true, if_false]
    cases expr with
    | constant | unknown | couldNotCompute =>
      exact absurd (List.length_eq_zero_iff.mp hoperands) hsame
    | cast kind operand type =>
      obtain ⟨operand', rfl⟩ := List.length_eq_one_iff.mp hoperands
      exact .cast kind operand' type
    | nary kind => exact .nary kind operands
    | udiv =>
      obtain ⟨lhs, rhs, rfl⟩ := List.length_eq_two.mp hoperands
      exact .udiv lhs rhs
    | addRec others loop => exact .addRec operands loop _

lemma withOperands_typed (htyped : expr.WellTyped widthOf)
    (hoperands : List.Forall₂ (TypedAs widthOf) operands expr.operands) :
    TypedAs widthOf (expr.withOperands operands) expr := by
  have hlength := hoperands.length_eq
  cases expr with
  | constant | unknown | couldNotCompute => exact ⟨htyped, rfl⟩
  | cast kind operand type =>
    obtain ⟨operand', rfl⟩ := List.length_eq_one_iff.mp hlength
    obtain ⟨hoperand, -⟩ := List.forall₂_cons.mp hoperands
    refine ⟨?_, rfl⟩
    cases kind <;> exact ⟨hoperand.1, hoperand.2 ▸ htyped.2⟩
  | nary kind others => exact ⟨operandsTyped_of_typedAs hoperands htyped, headWidth_of_typedAs hoperands⟩
  | udiv lhs rhs =>
    obtain ⟨lhs', rhs', rfl⟩ := List.length_eq_two.mp hlength
    obtain ⟨hlhs, hrest⟩ := List.forall₂_cons.mp hoperands
    obtain ⟨hrhs, -⟩ := List.forall₂_cons.mp hrest
    exact ⟨⟨hlhs.1, hrhs.1, by rw [hlhs.2, hrhs.2, htyped.2.2]⟩, hlhs.2⟩
  | addRec others loop => exact ⟨operandsTyped_of_typedAs hoperands htyped, headWidth_of_typedAs hoperands⟩

lemma withOperands_eval {valuation : SCEVValuation widthOf counterWidth}
    (htyped : List.Forall₂ (TypedAs widthOf) operands expr.operands)
    (hvalues : List.Forall₂ (fun operand other => operand.eval valuation = other.eval valuation) operands
      expr.operands) :
    (expr.withOperands operands).eval valuation = expr.eval valuation := by
  have hlength := htyped.length_eq
  have hevals := evals_of_forall₂ hvalues
  have hwidth := headWidth_of_typedAs htyped
  cases expr with
  | constant | unknown | couldNotCompute => rfl
  | cast kind operand type =>
    obtain ⟨operand', rfl⟩ := List.length_eq_one_iff.mp hlength
    obtain ⟨hoperand, -⟩ := List.forall₂_cons.mp htyped
    obtain ⟨hvalue, -⟩ := List.forall₂_cons.mp hvalues
    change eval valuation (.cast kind operand' type) = eval valuation (.cast kind operand type)
    rw [eval, eval, hoperand.2, hvalue]
  | nary kind others =>
    rw [SCEV.operands] at hevals hwidth
    change eval valuation (.nary kind operands) = eval valuation (.nary kind others)
    rw [eval, eval, hevals, hwidth]
  | udiv lhs rhs =>
    obtain ⟨lhs', rhs', rfl⟩ := List.length_eq_two.mp hlength
    obtain ⟨hlhs, hrest⟩ := List.forall₂_cons.mp htyped
    obtain ⟨hrhs, -⟩ := List.forall₂_cons.mp hrest
    obtain ⟨hleft, hvalues⟩ := List.forall₂_cons.mp hvalues
    obtain ⟨hright, -⟩ := List.forall₂_cons.mp hvalues
    change eval valuation (.udiv lhs' rhs') = eval valuation (.udiv lhs rhs)
    rw [eval, eval, hlhs.2, hrhs.2, hleft, hright]
  | addRec others loop =>
    rw [SCEV.operands] at hevals hwidth
    change eval valuation (.addRec operands loop) = eval valuation (.addRec others loop)
    rw [eval, eval, hevals, hwidth]

end Rebuild

end OpenRace.LLVM
