import OpenRace.Analysis.ExtensionRewriting

/-! When the rewriting of extensions keeps the value of an expression. -/

namespace OpenRace

open LLVM LLVM.SCEV

open BitExtSCEVRewriter

/-- The rewritten expression has the value as long as no extension is pushed into what wraps; and an extension that is
the only one to be pushed into what may wrap keeps the value just where that does not wrap. -/
theorem rewriting_preserves {widthOf counterWidth : ℕ → ℕ} {se : ScalarEvolution}
    (hse : se.PreservesValues widthOf counterWidth) (valuation : SCEVValuation widthOf counterWidth) {fuel : ℕ}
    {expr result : SCEV} (hvisit : visit se fuel expr = some result) (htyped : expr.WellTyped widthOf) :
    (Harmless se valuation true expr → result.eval valuation = expr.eval valuation) ∧
      ∀ kind operand type visited once, expr = .cast kind operand type → isExtension expr →
        OneRound se operand visited → OneRound se expr once → Harmless se valuation false operand →
        Harmless se valuation true once →
        (result.eval valuation = expr.eval valuation ↔ NoWrap valuation kind type visited) := by
  refine ⟨((visits_keep hse valuation fuel).1 expr result hvisit htyped).2, ?_⟩
  rintro kind operand type visited once rfl hext ⟨fuel', hvisited⟩ ⟨fuel'', honce⟩ hinside hagain
  have hwidens := widens_of_isExtension hext htyped
  obtain ⟨hvisitedTyped, hvisitedValue⟩ := (visits_keep hse valuation fuel').2 operand visited hvisited hwidens.2.1
  obtain ⟨hpush, hiff⟩ := pushExtension_spec hse valuation hwidens hvisitedTyped
  -- the first round makes the push, and the others keep its value
  have hpushed : once = pushExtension se kind operand type visited := by
    apply superVisit_unique se honce
    rw [superVisit_of_isExtension hext (fuel' + 1), rewriteCastExpr_eq, hvisited]
    rfl
  have hresult : result.eval valuation = once.eval valuation := by
    cases fuel with
    | zero => cases hvisit
    | succ fuel =>
      rw [visit] at hvisit
      obtain ⟨once', honce', hrest⟩ := Option.bind_eq_some_iff.mp hvisit
      obtain rfl := superVisit_unique se honce honce'
      by_cases hsame : once = .cast kind operand type
      · rw [if_pos (by simpa using hsame)] at hrest
        rw [Option.some.inj hrest]
      · rw [if_neg (by simpa using hsame)] at hrest
        have honceTyped : once.WellTyped widthOf := hpushed ▸ hpush.1
        exact ((visits_keep hse valuation fuel).1 once result hrest honceTyped).2 hagain
  have hoperand : (SCEV.cast kind visited type).eval valuation = (SCEV.cast kind operand type).eval valuation := by
    rw [eval, eval, hvisitedTyped.2, hvisitedValue hinside]
  rw [hresult, hpushed, ← hoperand, hiff]

section Settled

variable {widthOf counterWidth : ℕ → ℕ} {se : ScalarEvolution} {valuation : SCEVValuation widthOf counterWidth}

lemma BitExtSCEVRewriter.Harmless.of_settled {expr : SCEV} (hsettled : OneRound se expr expr)
    (h : Harmless se valuation false expr) :
    Harmless se valuation true expr := by
  intro kind type visited hpushes
  cases hpushes with
  | round hpushes => exact h kind type visited hpushes
  | again hround hne =>
    obtain ⟨fuel, hfuel⟩ := hround
    obtain ⟨fuel', hfuel'⟩ := hsettled
    exact absurd (superVisit_unique se hfuel hfuel') hne

lemma BitExtSCEVRewriter.Harmless.of_operands {expr : SCEV} (hext : ¬ isExtension expr)
    (h : ∀ operand ∈ expr.operands, Harmless se valuation true operand) : Harmless se valuation false expr := by
  intro kind type visited hpushes
  cases hpushes with
  | operand _ hmem hpushes => exact h _ hmem kind type visited hpushes
  | inside hcast => exact absurd hcast hext
  | here hcast => exact absurd hcast hext

lemma BitExtSCEVRewriter.Harmless.extension {kind : SCEVCastKind} {operand visited : SCEV} {type : ℕ}
    (hext : isExtension (.cast kind operand type)) (hinside : Harmless se valuation false operand)
    (hround : OneRound se operand visited) (h : NoWrap valuation kind type visited) :
    Harmless se valuation false (.cast kind operand type) := by
  intro kind' type' visited' hpushes
  cases hpushes with
  | operand hnot => exact absurd hext hnot
  | inside _ hpushes => exact hinside kind' type' visited' hpushes
  | here _ hround' =>
    obtain ⟨fuel, hfuel⟩ := hround
    obtain ⟨fuel', hfuel'⟩ := hround'
    exact superVisit_unique se hfuel hfuel' ▸ h

end Settled

namespace WrappedSum

def getCastExpr (kind : SCEVCastKind) (operand : SCEV) (type : ℕ) : SCEV :=
  match operand with
  | .constant value narrow => .constant (kind.read narrow (wrap narrow value)) type
  | _ => .cast kind operand type

def library : ScalarEvolution where
  getSCEV := fun _ => .couldNotCompute
  getMinusSCEV := fun _ _ => .couldNotCompute
  getCastExpr := getCastExpr
  getNAryExpr := .nary
  getUDivExpr := .udiv
  getAddRecExpr := fun operands loop _ => .addRec operands loop
  getNoWrapFlags := fun _ => 0
  getBackedgeTakenCount := fun _ => .couldNotCompute

def widthOf (_ : ℕ) : ℕ := 32

def counterWidth (_ : ℕ) : ℕ := 64

lemma library_preserves : library.PreservesValues widthOf counterWidth where
  typed built expr hbuilds htyped := by
    cases hbuilds with
    | cast kind operand type =>
      cases operand with
      | constant => exact ⟨trivial, rfl⟩
      | _ => exact ⟨htyped, rfl⟩
    | _ => exact ⟨htyped, rfl⟩
  values built expr hbuilds htyped valuation := by
    cases hbuilds with
    | cast kind operand type =>
      cases operand with
      | constant value narrow =>
        change eval valuation (.constant _ type) = eval valuation (.cast kind (.constant value narrow) type)
        rw [eval, eval, eval, SCEV.width]
      | _ => rfl
    | _ => rfl

def narrow (kind : SCEVCastKind) (constant : ℤ) : SCEV :=
  .cast kind (.nary .add [.constant constant 32, .unknown 0]) 64

def wide (kind : SCEVCastKind) (constant : ℤ) : SCEV :=
  .nary .add [.constant constant 64, .cast kind (.unknown 0) 64]

def unknown (x : BitVec 32) : SCEVValuation widthOf counterWidth where
  unknowns := fun _ => x
  counters := fun _ => 0

lemma harmless_leaf {expr : SCEV} (hext : ¬ isExtension expr) (hoperands : expr.operands = [])
    (hround : OneRound library expr expr) : Harmless library (unknown 5) true expr :=
  .of_settled hround (.of_operands hext (by simp [hoperands]))

theorem sum_kept : (wide .signExtend 1).eval (unknown 5) = (narrow .signExtend 1).eval (unknown 5) := by
  have hunknown : Harmless library (unknown 5) true (.unknown 0) := harmless_leaf (by decide) rfl ⟨1, by decide⟩
  have hinside : Harmless library (unknown 5) false (.nary .add [.constant 1 32, .unknown 0]) := by
    refine .of_operands (by decide) ?_
    simp only [operands, List.forall_mem_cons]
    exact ⟨harmless_leaf (by decide) rfl ⟨1, by decide⟩, hunknown, by simp⟩
  have hextended : Harmless library (unknown 5) true (.cast .signExtend (.unknown 0) 64) := by
    have hround : OneRound library (.unknown 0) (.unknown 0) := ⟨1, by decide⟩
    refine .of_settled ⟨3, by decide +kernel⟩ (.extension rfl (fun _ _ _ h => hunknown _ _ _ (.round h)) hround ?_)
    intro h
    cases h
  have hagain : Harmless library (unknown 5) true (wide .signExtend 1) := by
    refine .of_settled ⟨6, by decide +kernel⟩ (.of_operands (by decide) ?_)
    simp only [wide, operands, List.forall_mem_cons]
    exact ⟨harmless_leaf (by decide) rfl ⟨1, by decide⟩, hextended, by simp⟩
  have hvisit : visit library 8 (narrow .signExtend 1) = some (wide .signExtend 1) := by decide +kernel
  have htyped : (narrow .signExtend 1).WellTyped widthOf := ⟨⟨by simp, trivial, rfl, trivial, rfl, trivial⟩, by decide⟩
  have hoperand :
      OneRound library (.nary .add [.constant 1 32, .unknown 0]) (.nary .add [.constant 1 32, .unknown 0]) :=
    ⟨4, by decide +kernel⟩
  apply ((rewriting_preserves library_preserves (unknown 5) hvisit htyped).2 _ _ _ _ (wide .signExtend 1) rfl rfl
    hoperand ⟨6, by decide +kernel⟩ hinside hagain).mpr
  exact fun _ => by decide +kernel

/-- Neither the largest signed value nor the decrement of an unsigned one survives. -/
theorem sum_changed : library.PreservesValues widthOf counterWidth ∧
    visit library 8 (narrow .signExtend 1) = some (wide .signExtend 1) ∧
    (wide .signExtend 1).eval (unknown 2147483647) ≠ (narrow .signExtend 1).eval (unknown 2147483647) ∧
    visit library 8 (narrow .zeroExtend (-1)) = some (wide .zeroExtend 4294967295) ∧
    (wide .zeroExtend 4294967295).eval (unknown 5) ≠ (narrow .zeroExtend (-1)).eval (unknown 5) :=
  ⟨library_preserves, by decide +kernel, by decide +kernel, by decide +kernel, by decide +kernel⟩

end WrappedSum

end OpenRace
