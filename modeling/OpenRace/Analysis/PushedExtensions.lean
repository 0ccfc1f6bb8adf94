import OpenRace.Analysis.IndexOverlap
import OpenRace.LLVM.SCEVValues

/-! The extensions that the rewriter pushes into sums, products and recurrences. -/

namespace OpenRace

open LLVM LLVM.SCEV

section Totals

variable {widthOf counterWidth : ℕ → ℕ} (valuation : SCEVValuation widthOf counterWidth)

def isCombination : SCEV → Bool
  | .nary .add _ | .nary .mul _ | .addRec .. => true
  | _ => false

/-- What the values combine to before the result is cut to a width. -/
def total : SCEV → List ℤ → ℤ
  | .nary .add _, values => values.sum
  | .nary .mul _, values => values.prod
  | .addRec _ loop, values => atIteration (valuation.counters loop).toNat 0 values
  | _, _ => 0

def reads (kind : SCEVCastKind) (expr : SCEV) : List ℤ :=
  expr.operands.map fun operand => kind.read (operand.width widthOf) (operand.eval valuation)

def cut (kind : SCEVCastKind) (width : ℕ) (n : ℤ) : ℤ :=
  match kind with
  | .zeroExtend => n % (2 ^ width : ℕ)
  | .truncate | .signExtend => wrap width n

/-- The operands do not combine to more than the narrow type holds, apart from multiples that the wide one cuts off. -/
def NoWrap (kind : SCEVCastKind) (type : ℕ) (expr : SCEV) : Prop :=
  isCombination expr → total valuation expr (reads valuation kind expr) ≡
    cut kind (expr.width widthOf) (total valuation expr (reads valuation kind expr)) [ZMOD (2 ^ type : ℕ)]

variable {valuation}

lemma atIteration_modEq {m : ℤ} {xs ys : List ℤ} (h : List.Forall₂ (fun x y => x ≡ y [ZMOD m]) xs ys) (i k : ℕ) :
    atIteration i k xs ≡ atIteration i k ys [ZMOD m] := by
  induction h generalizing k with
  | nil => rfl
  | cons hxy _ ih => exact (hxy.mul_left _).add (ih (k + 1))

lemma total_modEq {m : ℤ} {xs ys : List ℤ} (h : List.Forall₂ (fun x y => x ≡ y [ZMOD m]) xs ys) (expr : SCEV) :
    total valuation expr xs ≡ total valuation expr ys [ZMOD m] := by
  have hsum : xs.sum ≡ ys.sum [ZMOD m] := by
    induction h with
    | nil => rfl
    | cons hxy _ ih =>
      rw [List.sum_cons, List.sum_cons]
      exact hxy.add ih
  have hprod : xs.prod ≡ ys.prod [ZMOD m] := by
    clear hsum
    induction h with
    | nil => rfl
    | cons hxy _ ih =>
      rw [List.prod_cons, List.prod_cons]
      exact hxy.mul ih
  cases expr with
  | nary kind =>
    cases kind with
    | add => exact hsum
    | mul => exact hprod
    | _ => rfl
  | addRec others loop => exact atIteration_modEq h _ 0
  | _ => rfl

lemma eval_of_isCombination {expr : SCEV} (h : isCombination expr) :
    expr.eval valuation = wrap (expr.width widthOf) (total valuation expr (expr.operands.map (eval valuation))) := by
  cases expr with
  | nary kind others =>
    cases kind with
    | add | mul =>
      rw [eval, evals_eq_map]
      rfl
    | _ => cases h
  | addRec others loop =>
    rw [eval, evals_eq_map]
    rfl
  | _ => cases h

lemma read_modEq (kind : SCEVCastKind) (width : ℕ) (x : ℤ) : kind.read width x ≡ x [ZMOD (2 ^ width : ℕ)] := by
  cases kind with
  | zeroExtend => exact Int.mod_modEq _ _
  | _ => rfl

lemma cut_eq_of_modEq {kind : SCEVCastKind} {width : ℕ} {m n : ℤ} (h : m ≡ n [ZMOD (2 ^ width : ℕ)]) :
    cut kind width m = cut kind width n := by
  cases kind with
  | zeroExtend => exact h
  | _ => exact wrap_eq_iff.mpr h

lemma read_wrap (kind : SCEVCastKind) (width : ℕ) (n : ℤ) : kind.read width (wrap width n) = cut kind width n := by
  cases kind with
  | zeroExtend => exact wrap_modEq width n
  | _ => rfl

lemma operands_typed {expr : SCEV} (h : isCombination expr) (htyped : expr.WellTyped widthOf) :
    ∀ operand ∈ expr.operands, operand.WellTyped widthOf ∧ operand.width widthOf = expr.width widthOf := by
  cases expr with
  | nary | addRec => exact allTyped_iff.mp htyped.2
  | _ => cases h

lemma read_eval {kind : SCEVCastKind} {expr : SCEV} (h : isCombination expr) (htyped : expr.WellTyped widthOf) :
    kind.read (expr.width widthOf) (expr.eval valuation) =
      cut kind (expr.width widthOf) (total valuation expr (reads valuation kind expr)) := by
  rw [eval_of_isCombination h, read_wrap]
  apply cut_eq_of_modEq
  apply total_modEq
  rw [reads, List.forall₂_map_left_iff, List.forall₂_map_right_iff]
  apply List.forall₂_same.mpr
  intro operand hoperand
  rw [(operands_typed h htyped operand hoperand).2]
  exact (read_modEq kind _ _).symm

end Totals

section Push

variable {widthOf counterWidth : ℕ → ℕ} {se : ScalarEvolution} {valuation : SCEVValuation widthOf counterWidth}
  {kind : SCEVCastKind} {operand visited : SCEV} {type : ℕ}

def pushed (se : ScalarEvolution) (kind : SCEVCastKind) (type : ℕ) (visited : SCEV) : SCEV :=
  visited.withOperands (visited.operands.map fun operand => se.getCastExpr kind operand type)

def pushExtension (se : ScalarEvolution) (kind : SCEVCastKind) (operand : SCEV) (type : ℕ) (visited : SCEV) : SCEV :=
  match visited with
  | .nary .mul operands => se.getNAryExpr .mul (operands.map fun op => se.getCastExpr kind op type)
  | .nary .add operands => se.getNAryExpr .add (operands.map fun op => se.getCastExpr kind op type)
  | .addRec operands loop =>
    se.getAddRecExpr (operands.map fun op => se.getCastExpr kind op type) loop
      (se.getNoWrapFlags (.addRec operands loop))
  | _ => if visited == operand then .cast kind operand type else se.getCastExpr kind visited type

lemma rewriteCastExpr_eq (fuel : ℕ) : BitExtSCEVRewriter.rewriteCastExpr se (fuel + 1) kind operand type =
    (BitExtSCEVRewriter.superVisit se fuel operand).map (pushExtension se kind operand type) := by
  rw [BitExtSCEVRewriter.rewriteCastExpr]
  cases BitExtSCEVRewriter.superVisit se fuel operand with
  | none => rfl
  | some visited =>
    simp only [Option.bind_eq_bind, Option.bind_some, Option.map_some]
    cases visited with
    | nary kind => cases kind <;> rfl
    | _ => rfl

lemma pushExtension_builds (se : ScalarEvolution) (kind : SCEVCastKind) (operand : SCEV) (type : ℕ)
    (h : isCombination visited) :
    se.Builds (pushExtension se kind operand type visited) (pushed se kind type visited) := by
  cases visited with
  | nary kind others =>
    cases kind with
    | add => exact .nary .add _
    | mul => exact .nary .mul _
    | _ => cases h
  | addRec others loop => exact .addRec _ _ _
  | _ => cases h

lemma pushExtension_other (h : ¬ isCombination visited) : pushExtension se kind operand type visited =
    if visited == operand then .cast kind operand type else se.getCastExpr kind visited type := by
  cases visited with
  | nary kind others =>
    cases kind with
    | add | mul => exact absurd rfl h
    | _ => rfl
  | addRec others loop => exact absurd rfl h
  | _ => rfl

def Widens (widthOf : ℕ → ℕ) (kind : SCEVCastKind) (operand : SCEV) (type : ℕ) : Prop :=
  kind ≠ .truncate ∧ operand.WellTyped widthOf ∧ operand.width widthOf < type

lemma Widens.cast_typed (h : Widens widthOf kind operand type) : (SCEV.cast kind operand type).WellTyped widthOf := by
  obtain ⟨hkind, htyped⟩ := h
  cases kind with
  | truncate => exact absurd rfl hkind
  | zeroExtend | signExtend => exact htyped

lemma Widens.of_typedAs (h : Widens widthOf kind operand type) (hvisited : TypedAs widthOf visited operand) :
    Widens widthOf kind visited type := ⟨h.1, hvisited.1, hvisited.2 ▸ h.2.2⟩

lemma allTyped_of_all {exprs : List SCEV} (hne : exprs ≠ [])
    (h : ∀ expr ∈ exprs, expr.WellTyped widthOf ∧ expr.width widthOf = type) :
    AllTyped widthOf (headWidth widthOf exprs) exprs ∧ headWidth widthOf exprs = type := by
  have hwidth : headWidth widthOf exprs = type := by
    cases exprs with
    | nil => exact absurd rfl hne
    | cons expr rest => exact (h expr List.mem_cons_self).2
  rw [hwidth]
  exact ⟨allTyped_iff.mpr h, rfl⟩

lemma pushed_combines (se : ScalarEvolution) (valuation : SCEVValuation widthOf counterWidth) (kind : SCEVCastKind)
    (type : ℕ) (h : isCombination visited) : isCombination (pushed se kind type visited) ∧
    (pushed se kind type visited).operands = visited.operands.map (fun operand => se.getCastExpr kind operand type) ∧
      total valuation (pushed se kind type visited) = total valuation visited := by
  cases visited with
  | nary nkind others =>
    cases nkind with
    | add | mul => exact ⟨rfl, rfl, rfl⟩
    | _ => cases h
  | addRec others loop => exact ⟨rfl, rfl, rfl⟩
  | _ => cases h

section Combination

variable (hse : se.PreservesValues widthOf counterWidth) (h : Widens widthOf kind visited type)
include hse h

lemma casts_typed (hcombination : isCombination visited) :
    ∀ operand ∈ visited.operands, TypedAs widthOf (se.getCastExpr kind operand type) (.cast kind operand type) := by
  intro operand hoperand
  obtain ⟨htyped, hwidth⟩ := operands_typed hcombination h.2.1 operand hoperand
  exact hse.typed _ _ (.cast kind operand type) (Widens.cast_typed ⟨h.1, htyped, hwidth ▸ h.2.2⟩)

lemma pushed_typed (hcombination : isCombination visited) :
    (pushed se kind type visited).WellTyped widthOf ∧ (pushed se kind type visited).width widthOf = type := by
  have hcasts := casts_typed hse h hcombination
  have hall : ∀ expr ∈ visited.operands.map (fun operand => se.getCastExpr kind operand type),
      expr.WellTyped widthOf ∧ expr.width widthOf = type := by
    simp only [List.forall_mem_map]
    exact hcasts
  have hne : visited.operands ≠ [] → visited.operands.map (fun operand => se.getCastExpr kind operand type) ≠ [] := by
    simp
  have hvisited := h.2.1
  cases visited with
  | nary nkind others =>
    obtain ⟨htyped, hwidth⟩ := allTyped_of_all (hne hvisited.1) hall
    exact ⟨⟨hne hvisited.1, htyped⟩, hwidth⟩
  | addRec others loop =>
    obtain ⟨htyped, hwidth⟩ := allTyped_of_all (hne hvisited.1) hall
    exact ⟨⟨hne hvisited.1, htyped⟩, hwidth⟩
  | _ => cases hcombination

lemma pushed_eval (hcombination : isCombination visited) : (pushed se kind type visited).eval valuation =
    wrap type (total valuation visited (reads valuation kind visited)) := by
  obtain ⟨hpushed, hoperands, htotal⟩ := pushed_combines se valuation kind type hcombination
  rw [eval_of_isCombination hpushed, (pushed_typed hse h hcombination).2, hoperands, htotal, List.map_map, wrap_eq_iff]
  apply total_modEq
  rw [reads, List.forall₂_map_left_iff, List.forall₂_map_right_iff]
  refine List.forall₂_same.mpr fun operand hoperand => ?_
  obtain ⟨htyped, hwidth⟩ := operands_typed hcombination h.2.1 operand hoperand
  have hcast : (SCEV.cast kind operand type).WellTyped widthOf := Widens.cast_typed ⟨h.1, htyped, hwidth ▸ h.2.2⟩
  rw [Function.comp_apply, hse.values _ _ (.cast kind operand type) hcast valuation, eval]
  exact wrap_modEq type _

end Combination

lemma pushExtension_spec (hse : se.PreservesValues widthOf counterWidth)
    (valuation : SCEVValuation widthOf counterWidth) (h : Widens widthOf kind operand type)
    (hvisited : TypedAs widthOf visited operand) :
    TypedAs widthOf (pushExtension se kind operand type visited) (.cast kind operand type) ∧
      ((pushExtension se kind operand type visited).eval valuation = (SCEV.cast kind visited type).eval valuation ↔
        NoWrap valuation kind type visited) := by
  have hwidens := h.of_typedAs hvisited
  by_cases hcombination : isCombination visited = true
  · have hbuilds := pushExtension_builds se kind operand type hcombination
    obtain ⟨htyped, hwidth⟩ := pushed_typed hse hwidens hcombination
    have hpush := hse.typed _ _ hbuilds htyped
    refine ⟨⟨hpush.1, hpush.2.trans hwidth⟩, ?_⟩
    rw [hse.values _ _ hbuilds htyped valuation, pushed_eval hse hwidens hcombination, eval,
      read_eval hcombination hwidens.2.1, wrap_eq_iff, NoWrap]
    exact ⟨fun hmod _ => hmod, fun hmod => hmod hcombination⟩
  · have hnoWrap : NoWrap valuation kind type visited := fun h => absurd h hcombination
    rw [pushExtension_other hcombination]
    by_cases hsame : visited = operand
    · subst hsame
      rw [if_pos (by simp)]
      exact ⟨⟨h.cast_typed, rfl⟩, iff_of_true rfl hnoWrap⟩
    · rw [if_neg (by simpa using hsame)]
      have hcast := hse.typed _ _ (.cast kind visited type) hwidens.cast_typed
      exact ⟨⟨hcast.1, hcast.2⟩, iff_of_true (hse.values _ _ (.cast kind visited type) hwidens.cast_typed valuation)
        hnoWrap⟩

end Push

end OpenRace
