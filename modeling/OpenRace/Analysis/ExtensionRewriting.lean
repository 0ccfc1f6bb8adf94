import OpenRace.Analysis.NonOverlap
import OpenRace.Analysis.PushedExtensions

/-! What the rewriting of extensions keeps: the value, as long as nothing wraps that an extension is pushed into. -/

namespace OpenRace

open LLVM LLVM.SCEV

namespace BitExtSCEVRewriter

def OneRound (se : ScalarEvolution) (expr result : SCEV) : Prop := ∃ fuel, superVisit se fuel expr = some result

def isExtension : SCEV → Bool
  | .cast .signExtend .. | .cast .zeroExtend .. => true
  | _ => false

/-- The extension to the type is pushed into the expression, in rounds that are repeated or in a single one. -/
inductive Pushes (se : ScalarEvolution) : Bool → SCEV → SCEVCastKind → ℕ → SCEV → Prop
  | round {expr visited : SCEV} {kind : SCEVCastKind} {type : ℕ} :
      Pushes se false expr kind type visited → Pushes se true expr kind type visited
  | again {expr result visited : SCEV} {kind : SCEVCastKind} {type : ℕ} : OneRound se expr result → result ≠ expr →
      Pushes se true result kind type visited → Pushes se true expr kind type visited
  | operand {expr operand visited : SCEV} {kind : SCEVCastKind} {type : ℕ} : ¬ isExtension expr →
      operand ∈ expr.operands → Pushes se true operand kind type visited → Pushes se false expr kind type visited
  | inside {operand visited : SCEV} {kind outer : SCEVCastKind} {type outerType : ℕ} :
      isExtension (.cast outer operand outerType) → Pushes se false operand kind type visited →
      Pushes se false (.cast outer operand outerType) kind type visited
  | here {operand visited : SCEV} {kind : SCEVCastKind} {type : ℕ} : isExtension (.cast kind operand type) →
      OneRound se operand visited → Pushes se false (.cast kind operand type) kind type visited

section Runs

variable {widthOf counterWidth : ℕ → ℕ} {se : ScalarEvolution}

/-- No extension is pushed into an expression that wraps. -/
def Harmless (se : ScalarEvolution) (valuation : SCEVValuation widthOf counterWidth) (repeated : Bool) (expr : SCEV) :
    Prop :=
  ∀ kind type visited, Pushes se repeated expr kind type visited → NoWrap valuation kind type visited

lemma forall₂_of_mapM {α β : Type} {f : α → Option β} {P : β → α → Prop} {l : List α} {result : List β}
    (h : ∀ x ∈ l, ∀ y, f x = some y → P y x) (hl : l.mapM f = some result) : List.Forall₂ P result l := by
  induction l generalizing result with
  | nil =>
    cases hl
    exact .nil
  | cons x rest ih =>
    simp only [List.mapM_cons, Option.bind_eq_bind, Option.bind_eq_some_iff, Option.pure_def, Option.some.injEq] at hl
    obtain ⟨y, hy, ys, hys, rfl⟩ := hl
    obtain ⟨hx, hrest⟩ := List.forall_mem_cons.mp h
    exact .cons (hx y hy) (ih hrest hys)

lemma superVisit_of_not {expr : SCEV} (h : ¬ isExtension expr) (fuel : ℕ) : superVisit se (fuel + 1) expr =
    (expr.operands.mapM (visit se fuel)).map (se.rebuild expr) := by
  rw [Option.map_eq_bind]
  cases expr with
  | cast kind operand type =>
    cases kind with
    | truncate => rfl
    | _ => exact absurd rfl h
  | _ => rfl

lemma superVisit_of_isExtension {kind : SCEVCastKind} {operand : SCEV} {type : ℕ}
    (h : isExtension (.cast kind operand type)) (fuel : ℕ) :
    superVisit se (fuel + 1) (.cast kind operand type) = rewriteCastExpr se fuel kind operand type := by
  cases kind with
  | truncate => cases h
  | _ => rfl

lemma widens_of_isExtension {kind : SCEVCastKind} {operand : SCEV} {type : ℕ}
    (h : isExtension (.cast kind operand type)) (htyped : (SCEV.cast kind operand type).WellTyped widthOf) :
    Widens widthOf kind operand type := by
  cases kind with
  | truncate => cases h
  | zeroExtend | signExtend => exact ⟨by simp, htyped⟩

lemma operands_wellTyped {expr : SCEV} (htyped : expr.WellTyped widthOf) :
    ∀ operand ∈ expr.operands, operand.WellTyped widthOf := by
  cases expr with
  | constant | unknown | couldNotCompute => simp [operands]
  | cast kind operand type =>
    intro other hother
    cases List.mem_singleton.mp hother
    cases kind <;> exact htyped.1
  | nary | addRec => exact fun operand hoperand => (allTyped_iff.mp htyped.2 operand hoperand).1
  | udiv lhs rhs =>
    intro operand hoperand
    rcases List.mem_pair.mp hoperand with rfl | rfl
    · exact htyped.1
    · exact htyped.2.1

def Keeps (se : ScalarEvolution) (valuation : SCEVValuation widthOf counterWidth) (repeated : Bool)
    (expr result : SCEV) : Prop :=
  TypedAs widthOf result expr ∧ (Harmless se valuation repeated expr → result.eval valuation = expr.eval valuation)

lemma visit_keeps_of_round {valuation : SCEVValuation widthOf counterWidth} {fuel : ℕ}
    {expr once result : SCEV} (honce : superVisit se fuel expr = some once)
    (hround : Keeps se valuation false expr once)
    (hagain : once ≠ expr → Keeps se valuation true once result) (hsame : once = expr → result = once) :
    Keeps se valuation true expr result := by
  by_cases heq : once = expr
  · obtain rfl := hsame heq
    exact ⟨hround.1, fun hharmless => hround.2 fun _ _ _ hpushes => hharmless _ _ _ (.round hpushes)⟩
  · obtain ⟨htyped, hvalue⟩ := hagain heq
    refine ⟨⟨htyped.1, htyped.2.trans hround.1.2⟩, fun hharmless => ?_⟩
    rw [hvalue fun _ _ _ hpushes => hharmless _ _ _ (.again ⟨fuel, honce⟩ heq hpushes),
      hround.2 fun _ _ _ hpushes => hharmless _ _ _ (.round hpushes)]

variable (hse : se.PreservesValues widthOf counterWidth) (valuation : SCEVValuation widthOf counterWidth)
include hse

lemma rebuild_keeps {expr : SCEV} {operands : List SCEV} (htyped : expr.WellTyped widthOf)
    (hoperands : List.Forall₂ (TypedAs widthOf) operands expr.operands) :
    TypedAs widthOf (se.rebuild expr operands) expr ∧
      (List.Forall₂ (fun operand other => operand.eval valuation = other.eval valuation) operands expr.operands →
        (se.rebuild expr operands).eval valuation = expr.eval valuation) := by
  rcases rebuild_eq_or_builds hoperands.length_eq with ⟨hsame, -⟩ | hbuilds
  · rw [hsame]
    exact ⟨⟨htyped, rfl⟩, fun _ => rfl⟩
  · have hwith := withOperands_typed htyped hoperands
    have hbuilt := hse.typed _ _ hbuilds hwith.1
    refine ⟨⟨hbuilt.1, hbuilt.2.trans hwith.2⟩, fun hvalues => ?_⟩
    rw [hse.values _ _ hbuilds hwith.1 valuation, withOperands_eval hoperands hvalues]

lemma rewriteCastExpr_keeps {fuel : ℕ} {kind : SCEVCastKind} {operand result : SCEV} {type : ℕ}
    (hkeeps : ∀ visited, superVisit se fuel operand = some visited → Keeps se valuation false operand visited)
    (h : rewriteCastExpr se (fuel + 1) kind operand type = some result)
    (hext : isExtension (.cast kind operand type)) (htyped : (SCEV.cast kind operand type).WellTyped widthOf) :
    Keeps se valuation false (.cast kind operand type) result := by
  rw [rewriteCastExpr_eq, Option.map_eq_some_iff] at h
  obtain ⟨visited, hvisited, rfl⟩ := h
  obtain ⟨hvisitedTyped, hvalue⟩ := hkeeps visited hvisited
  obtain ⟨hpush, hiff⟩ := pushExtension_spec hse valuation (widens_of_isExtension hext htyped) hvisitedTyped
  refine ⟨hpush, fun hharmless => ?_⟩
  rw [hiff.mpr (hharmless kind type visited (.here hext ⟨fuel, hvisited⟩)), eval, eval, hvisitedTyped.2,
    hvalue fun _ _ _ hpushes => hharmless _ _ _ (.inside hext hpushes)]

lemma superVisit_keeps_of_not {fuel : ℕ} {expr result : SCEV} (hext : ¬ isExtension expr)
    (hkeeps : ∀ operand other, visit se fuel operand = some other → operand.WellTyped widthOf →
      Keeps se valuation true operand other)
    (h : superVisit se (fuel + 1) expr = some result) (htyped : expr.WellTyped widthOf) :
    Keeps se valuation false expr result := by
  rw [superVisit_of_not hext, Option.map_eq_some_iff] at h
  obtain ⟨operands, hoperands, rfl⟩ := h
  have hvisited : ∀ operand ∈ expr.operands, ∀ other, visit se fuel operand = some other →
      Keeps se valuation true operand other :=
    fun operand hmem other hother => hkeeps operand other hother (operands_wellTyped htyped operand hmem)
  obtain ⟨hrebuilt, hvalue⟩ := rebuild_keeps hse valuation htyped
    (forall₂_of_mapM (fun operand hmem other hother => (hvisited operand hmem other hother).1) hoperands)
  refine ⟨hrebuilt, fun hharmless => hvalue (forall₂_of_mapM (fun operand hmem other hother => ?_) hoperands)⟩
  exact (hvisited operand hmem other hother).2 fun _ _ _ hpushes => hharmless _ _ _ (.operand hext hmem hpushes)

lemma visits_keep (fuel : ℕ) :
    (∀ expr result, visit se fuel expr = some result → expr.WellTyped widthOf → Keeps se valuation true expr result) ∧
      ∀ expr result, superVisit se fuel expr = some result → expr.WellTyped widthOf →
        Keeps se valuation false expr result := by
  induction fuel using Nat.strong_induction_on with
  | _ fuel ih =>
    cases fuel with
    | zero => exact ⟨fun _ _ h => (by cases h), fun _ _ h => (by cases h)⟩
    | succ fuel =>
      obtain ⟨hvisit, hsuper⟩ := ih fuel (Nat.lt_succ_self fuel)
      refine ⟨fun expr result h htyped => ?_, fun expr result h htyped => ?_⟩
      · rw [visit] at h
        obtain ⟨once, honce, h⟩ := Option.bind_eq_some_iff.mp h
        have hround := hsuper expr once honce htyped
        refine visit_keeps_of_round honce hround (fun hne => ?_) (fun heq => ?_)
        · rw [if_neg (by simpa using hne)] at h
          exact hvisit once result h hround.1.1
        · rw [if_pos (by simpa using heq)] at h
          exact (Option.some.inj h).symm
      · by_cases hext : isExtension expr = true
        · cases expr with
          | cast kind operand type =>
            rw [superVisit_of_isExtension hext] at h
            cases fuel with
            | zero => cases h
            | succ fuel =>
              obtain ⟨-, hinner⟩ := ih fuel (by omega)
              refine rewriteCastExpr_keeps hse valuation (fun visited hvisited => ?_) h hext htyped
              exact hinner operand visited hvisited (widens_of_isExtension hext htyped).2.1
          | _ => cases hext
        · exact superVisit_keeps_of_not hse valuation hext hvisit h htyped

end Runs

lemma superVisit_unique (se : ScalarEvolution) {fuel fuel' : ℕ} {expr result result' : SCEV}
    (h : superVisit se fuel expr = some result) (h' : superVisit se fuel' expr = some result') :
    result = result' := by
  have hmono : ∀ {fuel more : ℕ} {result : SCEV}, fuel ≤ more → superVisit se fuel expr = some result →
      superVisit se more expr = some result := by
    intro fuel more result hle hfuel
    induction hle with
    | refl => exact hfuel
    | step _ ih => exact (visit_succ se _).2.1 _ _ ih
  have hmax := hmono (Nat.le_max_left fuel fuel') h
  rw [hmono (Nat.le_max_right fuel fuel') h'] at hmax
  exact (Option.some.inj hmax).symm

end BitExtSCEVRewriter

end OpenRace
