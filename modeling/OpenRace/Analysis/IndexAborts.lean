import OpenRace.Analysis.IndexNames
import OpenRace.Library.Failure

/-! The values whose names the analysis of an array index does not find out but aborts on. -/

namespace OpenRace

open LLVM Library

section Values

def mathOperand : IndexValue → Option IndexValue
  | .binary _ _ _ lhs rhs => if !lhs.isConstant then some lhs else if !rhs.isConstant then some rhs else none
  | .cast _ _ _ operand => if !operand.isConstant then some operand else none
  | _ => none

def isSExt : IndexValue → Bool
  | .cast _ .sext _ _ => true
  | _ => false

def EntersLoop (value : IndexValue) : NameQuery → Prop
  | .loop => True
  | .lastOperand => getIndexType value = .indvarsNext ∨ getIndexType value = .intermediate
  | .idxpromOperand => getIndexType value ≠ .storeMerge
  | .loadedFrom _ => False

def GoesOn (value operand : IndexValue) : Prop :=
  getIndexType operand = .indvars ∨ getIndexType value ≠ .indvars ∧ getIndexType value ≠ .idxprom

inductive CastToSExt (value : IndexValue) : NameQuery → Prop
  | last : getIndexType value = .idxprom → CastToSExt value .lastOperand
  | inLoop {operand : IndexValue} {query : NameQuery} : EntersLoop value query → mathOperand value = some operand →
      getIndexType operand ≠ .indvars → getIndexType value = .idxprom → CastToSExt value query

inductive Aborts : IndexValue → NameQuery → Prop
  | constants {value : IndexValue} {query : NameQuery} : isMathOp value → EntersLoop value query →
      mathOperand value = none → Aborts value query
  | round {value operand : IndexValue} {query : NameQuery} : EntersLoop value query →
      mathOperand value = some operand → GoesOn value operand → Aborts operand .loop → Aborts value query
  | notSExt {value : IndexValue} {query : NameQuery} : CastToSExt value query → ¬ isSExt value → Aborts value query
  | extended {name : String} {width : ℕ} {operand : IndexValue} {query : NameQuery} :
      CastToSExt (.cast name .sext width operand) query → Aborts operand .idxpromOperand →
      Aborts (.cast name .sext width operand) query
  | load {name : String} {pointer : IndexValue} : Aborts pointer (.loadedFrom pointer.getName) →
      Aborts (.load name pointer) .idxpromOperand
  | gep {name loaded : String} {pointer lastOperand : IndexValue} : Aborts lastOperand .lastOperand →
      Aborts (.gep name false pointer lastOperand) (.loadedFrom loaded)
  | zeroGEP {name loaded : String} {pointer lastOperand : IndexValue} : Aborts pointer (.loadedFrom loaded) →
      Aborts (.gep name true pointer lastOperand) (.loadedFrom loaded)
  | bitcast {name loaded : String} {width : ℕ} {operand : IndexValue} : Aborts operand (.loadedFrom loaded) →
      Aborts (.cast name .bitcast width operand) (.loadedFrom loaded)

end Values

section MathOp

def sextAnswer : IndexValue → Except IndexError (Option String)
  | .cast _ .sext _ operand => nameOf operand .idxpromOperand
  | _ => .error .notSExt

def loopAnswer (value : IndexValue) : Except IndexError (Option String) :=
  (mathOperand value).elim (.error .constantOperands)
    fun operand => computeIdxNameStep value operand (nameOf operand .loop) (sextAnswer value)

variable {value : IndexValue} {query : NameQuery}

lemma nameOf_mathOp (hmath : isMathOp value) (hplain : query.isPlain) :
    nameOf value query = nameOfMathOp value (loopAnswer value) (sextAnswer value) query := by
  cases value with
  | binary name op width lhs rhs =>
    simp only [nameOf, loopAnswer, mathOperand, sextAnswer]
    split_ifs <;> rfl
  | cast name op width operand =>
    have hsext : sextAnswer (.cast name op width operand) =
        if op == .sext then nameOf operand .idxpromOperand else .error .notSExt := by
      cases op <;> rfl
    cases query with
    | loadedFrom name => cases hplain
    | _ =>
      simp only [nameOf, loopAnswer, mathOperand, hsext]
      split_ifs <;> rfl
  | _ => cases hmath

lemma fails_step {operand : IndexValue} {next forIdxprom : Except IndexError (Option String)} :
    Fails (computeIdxNameStep value operand next forIdxprom) ↔ GoesOn value operand ∧ Fails next ∨
      getIndexType operand ≠ .indvars ∧ getIndexType value = .idxprom ∧ Fails forIdxprom := by
  rw [computeIdxNameStep, GoesOn]
  split_ifs with hoperand hindvars hidxprom
  · simp_all
  · have hok : ¬ Fails (.ok (some value.getName) : Except IndexError (Option String)) := not_fails_ok _
    simp_all
  · simp_all
  · simp_all

lemma fails_mathOp {loop forIdxprom : Except IndexError (Option String)} (hplain : query.isPlain) :
    Fails (nameOfMathOp value loop forIdxprom query) ↔ EntersLoop value query ∧ Fails loop ∨
      query = .lastOperand ∧ getIndexType value = .idxprom ∧ Fails forIdxprom := by
  have hok : ∀ name, ¬ Fails (.ok name : Except IndexError (Option String)) := not_fails_ok
  cases query with
  | loop => simp [nameOfMathOp, EntersLoop]
  | lastOperand =>
    cases htype : getIndexType value <;> simp [nameOfMathOp, EntersLoop, htype, hok]
  | idxpromOperand =>
    by_cases htype : getIndexType value = .storeMerge <;> simp [nameOfMathOp, EntersLoop, htype, hok]
  | loadedFrom name => cases hplain

lemma fails_iff_of_mathOp (hmath : isMathOp value) (hplain : query.isPlain) :
    Fails (nameOf value query) ↔
      EntersLoop value query ∧ mathOperand value = none ∨
      (∃ operand, EntersLoop value query ∧ mathOperand value = some operand ∧ GoesOn value operand ∧
        Fails (nameOf operand .loop)) ∨
      CastToSExt value query ∧ Fails (sextAnswer value) := by
  rw [nameOf_mathOp hmath hplain, fails_mathOp hplain, loopAnswer]
  constructor
  · rintro (⟨henters, hloop⟩ | ⟨rfl, htype, hsext⟩)
    · cases hoperand : mathOperand value with
      | none => exact Or.inl ⟨henters, rfl⟩
      | some operand =>
        rw [hoperand, Option.elim_some, fails_step] at hloop
        rcases hloop with ⟨hgoes, hnext⟩ | ⟨hother, htype, hsext⟩
        · exact Or.inr (Or.inl ⟨operand, henters, rfl, hgoes, hnext⟩)
        · exact Or.inr (Or.inr ⟨.inLoop henters hoperand hother htype, hsext⟩)
    · exact Or.inr (Or.inr ⟨.last htype, hsext⟩)
  · rintro (⟨henters, hnone⟩ | ⟨operand, henters, hoperand, hgoes, hnext⟩ | ⟨hcast, hsext⟩)
    · rw [hnone]
      exact Or.inl ⟨henters, fails_error _⟩
    · rw [hoperand, Option.elim_some, fails_step]
      exact Or.inl ⟨henters, Or.inl ⟨hgoes, hnext⟩⟩
    · cases hcast with
      | last htype => exact Or.inr ⟨rfl, htype, hsext⟩
      | inLoop henters hoperand hother htype =>
        rw [hoperand, Option.elim_some, fails_step]
        exact Or.inl ⟨henters, Or.inr ⟨hother, htype, hsext⟩⟩

lemma fails_sextAnswer_of_not (h : ¬ isSExt value) : Fails (sextAnswer value) := by
  cases value with
  | cast name op width operand =>
    cases op with
    | sext => exact absurd rfl h
    | _ => exact fails_error _
  | _ => exact fails_error _

lemma aborts_of_mathOp (hmath : isMathOp value) (hplain : query.isPlain)
    (hoperand : ∀ operand, mathOperand value = some operand →
      (Fails (nameOf operand .loop) ↔ Aborts operand .loop))
    (hsext : ∀ name width operand, value = .cast name .sext width operand →
      (Fails (nameOf operand .idxpromOperand) ↔ Aborts operand .idxpromOperand)) :
    Fails (nameOf value query) ↔ Aborts value query := by
  rw [fails_iff_of_mathOp hmath hplain]
  constructor
  · rintro (⟨henters, hnone⟩ | ⟨operand, henters, hsome, hgoes, hnext⟩ | ⟨hcast, hfails⟩)
    · exact .constants hmath henters hnone
    · exact .round henters hsome hgoes ((hoperand operand hsome).mp hnext)
    · by_cases hext : isSExt value = true
      · cases value with
        | cast name op width operand =>
          cases op with
          | sext => exact .extended hcast ((hsext name width operand rfl).mp hfails)
          | _ => cases hext
        | _ => cases hext
      · exact .notSExt hcast hext
  · intro h
    cases h with
    | constants _ henters hnone => exact Or.inl ⟨henters, hnone⟩
    | round henters hsome hgoes hnext =>
      exact Or.inr (Or.inl ⟨_, henters, hsome, hgoes, (hoperand _ hsome).mpr hnext⟩)
    | notSExt hcast hext => exact Or.inr (Or.inr ⟨hcast, fails_sextAnswer_of_not hext⟩)
    | extended hcast hnext => exact Or.inr (Or.inr ⟨hcast, (hsext _ _ _ rfl).mpr hnext⟩)
    | load | gep | zeroGEP => cases hmath
    | bitcast => cases hplain

end MathOp

section Others

lemma fails_other {value : IndexValue} {query : NameQuery} :
    Fails (nameOfOther value query) ↔ query = .lastOperand ∧ getIndexType value = .idxprom := by
  have hok : ∀ name, ¬ Fails (.ok name : Except IndexError (Option String)) := not_fails_ok
  cases query with
  | lastOperand => cases htype : getIndexType value <;> simp [nameOfOther, htype, hok, fails_error]
  | _ => simp [nameOfOther, hok]

lemma aborts_other {value : IndexValue} {query : NameQuery} (hmath : ¬ isMathOp value)
    (hloaded : ∀ name pointer, value = .load name pointer → query ≠ .idxpromOperand)
    (hgep : ∀ name zero pointer lastOperand loaded, value = .gep name zero pointer lastOperand →
      query ≠ .loadedFrom loaded) :
    Aborts value query ↔ query = .lastOperand ∧ getIndexType value = .idxprom := by
  have hnone : mathOperand value = none := by
    cases value with
    | binary | cast => exact absurd rfl hmath
    | _ => rfl
  constructor
  · intro h
    cases h with
    | constants hvalue => exact absurd hvalue hmath
    | round _ hsome => simp [hnone] at hsome
    | notSExt hcast =>
      cases hcast with
      | last htype => exact ⟨rfl, htype⟩
      | inLoop _ hsome => simp [hnone] at hsome
    | extended | bitcast => exact absurd rfl hmath
    | load => exact absurd rfl (hloaded _ _ rfl)
    | gep | zeroGEP => exact absurd rfl (hgep _ _ _ _ _ rfl)
  · rintro ⟨rfl, htype⟩
    refine .notSExt (.last htype) fun hext => hmath ?_
    cases value with
    | cast => rfl
    | _ => cases hext

lemma not_aborts_loadedFrom {value : IndexValue} {loaded : String}
    (hgep : ∀ name zero pointer lastOperand, value ≠ .gep name zero pointer lastOperand)
    (hbitcast : ∀ name width operand, value ≠ .cast name .bitcast width operand) :
    ¬ Aborts value (.loadedFrom loaded) := by
  intro h
  cases h with
  | constants _ henters => exact henters
  | round henters => exact henters
  | notSExt hcast =>
    cases hcast with
    | inLoop henters => exact henters
  | extended hcast =>
    cases hcast with
    | inLoop henters => exact henters
  | gep | zeroGEP => exact hgep _ _ _ _ rfl
  | bitcast => exact hbitcast _ _ _ rfl

-- A query that is not about the value itself aborts where the value it is passed on to does.
lemma aborts_loadedBitcast {name loaded : String} {width : ℕ} {operand : IndexValue} :
    Aborts (.cast name .bitcast width operand) (.loadedFrom loaded) ↔ Aborts operand (.loadedFrom loaded) := by
  constructor
  · intro h
    cases h with
    | constants _ h => cases h
    | round h => cases h
    | notSExt h =>
      cases h with
      | inLoop h => cases h
    | bitcast h => exact h
  · exact .bitcast

lemma aborts_loaded {name : String} {pointer : IndexValue} :
    Aborts (.load name pointer) .idxpromOperand ↔ Aborts pointer (.loadedFrom pointer.getName) := by
  constructor
  · intro h
    cases h with
    | constants h => cases h
    | round _ h => cases h
    | notSExt h =>
      cases h with
      | inLoop _ h => cases h
    | load h => exact h
  · exact .load

lemma aborts_loadedGEP {name loaded : String} {zero : Bool} {pointer lastOperand : IndexValue} :
    Aborts (.gep name zero pointer lastOperand) (.loadedFrom loaded) ↔
      if zero then Aborts pointer (.loadedFrom loaded) else Aborts lastOperand .lastOperand := by
  constructor
  · intro h
    cases h with
    | constants h => cases h
    | round h => cases h
    | notSExt h =>
      cases h with
      | inLoop h => cases h
    | gep h => simpa using h
    | zeroGEP h => simpa using h
  · intro h
    cases zero with
    | false => exact .gep (by simpa using h)
    | true => exact .zeroGEP (by simpa using h)

end Others

/-- By induction on the value, each of whose queries is passed on to a value it is computed from. -/
theorem fails_nameOf_iff (value : IndexValue) (query : NameQuery) :
    Fails (nameOf value query) ↔ Aborts value query := by
  induction value generalizing query with
  | binary name op width lhs rhs ihlhs ihrhs =>
    cases query with
    | loadedFrom loaded => exact iff_of_false (not_fails_ok _) (not_aborts_loadedFrom (by simp) (by simp))
    | _ =>
      apply aborts_of_mathOp rfl rfl
      · intro operand hoperand
        simp only [mathOperand] at hoperand
        split_ifs at hoperand
        · cases hoperand
          exact ihlhs .loop
        · cases hoperand
          exact ihrhs .loop
      · intro name width operand h
        cases h
  | cast name op width operand ih =>
    cases query with
    | loadedFrom loaded =>
      cases op with
      | bitcast =>
        simp only [nameOf]
        rw [ih, aborts_loadedBitcast]
      | _ => exact iff_of_false (not_fails_ok _) (not_aborts_loadedFrom (by simp) (by simp))
    | _ =>
      apply aborts_of_mathOp rfl rfl
      · intro operand hoperand
        simp only [mathOperand] at hoperand
        split_ifs at hoperand
        cases hoperand
        exact ih .loop
      · intro name width operand h
        cases h
        exact ih .idxpromOperand
  | load name pointer ih =>
    cases query with
    | idxpromOperand =>
      simp only [nameOf]
      rw [ih, aborts_loaded]
    | _ =>
      simp only [nameOf]
      rw [fails_other, aborts_other (by simp [isMathOp]) (fun _ _ _ => by simp)
        (fun _ _ _ _ _ h => by cases h)]
  | gep name zero pointer lastOperand ihpointer ihlast =>
    cases query with
    | loadedFrom loaded =>
      simp only [nameOf]
      rw [aborts_loadedGEP]
      cases zero with
      | false => exact ihlast .lastOperand
      | true => exact ihpointer (.loadedFrom loaded)
    | _ =>
      simp only [nameOf]
      rw [fails_other, aborts_other (by simp [isMathOp]) (fun _ _ h => by cases h) (fun _ _ _ _ _ _ => by simp)]
  | _ =>
    simp only [nameOf]
    rw [fails_other, aborts_other (by simp [isMathOp]) (fun _ _ h => by cases h) (fun _ _ _ _ _ h => by cases h)]

end OpenRace
