import OpenRace.Analysis.IndexAborts

/-! Indexes that are the loop variable up to casts and constants, and the name that they get. -/

namespace OpenRace

open LLVM

inductive AddsConstant (name : String) (operand : IndexValue) : IndexValue → Prop
  | right (nuw nsw : Bool) (width : ℕ) (step : ℤ) :
      AddsConstant name operand (.binary name (.add nuw nsw) width operand (.constant step))
  | left (nuw nsw : Bool) (width : ℕ) (step : ℤ) :
      AddsConstant name operand (.binary name (.add nuw nsw) width (.constant step) operand)

/-- Casts and additions of constants that start at the loop variable. They have no names, but the variable that is
incremented may have one of its own. -/
inductive InductionChain (x : IndexValue) : IndexValue → Prop
  | self : InductionChain x x
  | incremented {name : String} {value : IndexValue} (hname : name ≠ x.getName) (hadd : AddsConstant name x value) :
      InductionChain x value
  | cast {operand : IndexValue} {op : CastOp} {width : ℕ} (h : InductionChain x operand) :
      InductionChain x (.cast "" op width operand)
  | add {operand value : IndexValue} (h : InductionChain x operand) (hadd : AddsConstant "" operand value) :
      InductionChain x value

def IndexType.Unhandled (type : IndexType) : Prop := type = .storeMerge ∨ type = .unknown

lemma IndexType.Unhandled.ne {type : IndexType} (h : type.Unhandled) : type ≠ .indvars ∧ type ≠ .intermediate := by
  rcases h with rfl | rfl <;> decide

section Walk

variable {name : String} {operand value x : IndexValue}

structure LinksTo (name : String) (value operand : IndexValue) : Prop where
  isMathOp : isMathOp value = true
  getName : value.getName = name
  mathOperand : mathOperand value = some operand

lemma AddsConstant.linksTo (h : AddsConstant name operand value) (hoperand : operand.isConstant = false) :
    LinksTo name value operand := by
  cases h with
  | right => exact ⟨rfl, rfl, by rw [OpenRace.mathOperand, hoperand]; rfl⟩
  | left => exact ⟨rfl, rfl, by simp [OpenRace.mathOperand, IndexValue.isConstant.eq_1, hoperand]⟩

lemma linksTo_cast {op : CastOp} {width : ℕ} (hoperand : operand.isConstant = false) :
    LinksTo name (.cast name op width operand) operand :=
  ⟨rfl, rfl, by rw [mathOperand, hoperand]; rfl⟩

lemma LinksTo.intermediate (h : LinksTo "" value operand) : getIndexType value = .intermediate := by
  simp [getIndexType, IndexValue.hasName, h.getName, h.isMathOp]

lemma LinksTo.loop (h : LinksTo "" value operand) : nameOf value .loop = nameOf operand .loop := by
  rw [nameOf_mathOp h.isMathOp rfl, nameOfMathOp, loopAnswer, h.mathOperand, Option.elim_some, computeIdxNameStep,
    h.intermediate]
  simp

lemma LinksTo.lastOperand (h : LinksTo "" value operand) : nameOf value .lastOperand = nameOf operand .loop := by
  rw [← h.loop, nameOf_mathOp h.isMathOp rfl, nameOf_mathOp h.isMathOp rfl, nameOfMathOp, nameOfMathOp,
    h.intermediate]

lemma AddsConstant.sextAnswer (h : AddsConstant name operand value) : sextAnswer value = .error .notSExt := by
  cases h <;> rfl

lemma AddsConstant.loop (h : AddsConstant name operand value) (hoperand : operand.isConstant = false) :
    nameOf value .loop = computeIdxNameStep value operand (nameOf operand .loop) (.error .notSExt) := by
  have hlink := h.linksTo hoperand
  rw [nameOf_mathOp hlink.isMathOp rfl, nameOfMathOp, loopAnswer, hlink.mathOperand, Option.elim_some, h.sextAnswer]

end Walk

section Chains

variable {name : String} {value : IndexValue}

lemma InductionChain.not_constant (h : InductionChain (.phi name) value) : value.isConstant = false := by
  induction h with
  | self => rfl
  | incremented _ hadd => cases hadd <;> rfl
  | cast => rfl
  | add _ hadd => cases hadd <;> rfl

lemma InductionChain.loop (h : InductionChain (.phi name) value) (htype : getIndexType (.phi name) = .indvars) :
    nameOf value .loop = .ok (some name) := by
  induction h with
  | self => rfl
  | incremented _ hadd =>
    rw [hadd.loop rfl, computeIdxNameStep, htype]
    rfl
  | cast h ih => rw [(linksTo_cast h.not_constant).loop, ih]
  | add h hadd ih => rw [(hadd.linksTo h.not_constant).loop, ih]

lemma InductionChain.loop_ne_none (h : InductionChain (.phi name) value) : nameOf value .loop ≠ .ok none := by
  induction h with
  | self =>
    rintro ⟨⟩
  | incremented _ hadd =>
    rw [hadd.loop rfl, computeIdxNameStep]
    split_ifs <;> rintro ⟨⟩
  | cast h ih => rwa [(linksTo_cast h.not_constant).loop]
  | add h hadd ih => rwa [(hadd.linksTo h.not_constant).loop]

lemma InductionChain.index_cases (h : InductionChain (.phi name) value) :
    value = .phi name ∨ (∃ other, other ≠ name ∧ other ≠ "" ∧ AddsConstant other (.phi name) value) ∨
      getIndexType value = .intermediate ∧ nameOf value .lastOperand = nameOf value .loop := by
  cases h with
  | self => exact Or.inl rfl
  | @incremented other _ hname hadd =>
    by_cases hempty : other = ""
    · subst hempty
      have hlink := hadd.linksTo rfl
      exact Or.inr (Or.inr ⟨hlink.intermediate, hlink.lastOperand.trans hlink.loop.symm⟩)
    · exact Or.inr (Or.inl ⟨other, hname, hempty, hadd⟩)
  | @cast _ op width h =>
    have hlink := @linksTo_cast "" _ op width h.not_constant
    exact Or.inr (Or.inr ⟨hlink.intermediate, hlink.lastOperand.trans hlink.loop.symm⟩)
  | add h hadd =>
    have hlink := hadd.linksTo h.not_constant
    exact Or.inr (Or.inr ⟨hlink.intermediate, hlink.lastOperand.trans hlink.loop.symm⟩)

/-- The prefix of an incremented variable is never reached, since that of a variable is a prefix of it. -/
lemma getNameType_cases (name : String) :
    getNameType name = .indvars ∨ getNameType name = .idxprom ∨ (getNameType name).Unhandled := by
  rw [getNameType]
  split_ifs with hindvars hnext
  · exact Or.inl rfl
  · refine absurd (List.isPrefixOf_iff_prefix.mpr ?_) hindvars
    exact List.IsPrefix.trans (by decide) (List.isPrefixOf_iff_prefix.mp hnext)
  · exact Or.inr (Or.inl rfl)
  · exact Or.inr (Or.inr (Or.inl rfl))
  · exact Or.inr (Or.inr (Or.inr rfl))

inductive AnswersByType (value : IndexValue) (name : String) : Prop
  | indvars (htype : getIndexType value = .indvars) (hanswer : nameOf value .lastOperand = .ok (some name))
  | idxprom (htype : getIndexType value = .idxprom) (hanswer : nameOf value .lastOperand = .error .notSExt)
  | unhandled (htype : (getIndexType value).Unhandled) (hanswer : nameOf value .lastOperand = .ok none)

lemma answersByType_phi (name : String) : AnswersByType (.phi name) name := by
  have hcases : getIndexType (.phi name) = .indvars ∨ getIndexType (.phi name) = .idxprom ∨
      (getIndexType (.phi name)).Unhandled := by
    rw [getIndexType]
    split_ifs with hnamed hmath
    · exact getNameType_cases name
    · cases hmath
    · exact Or.inr (Or.inr (Or.inr rfl))
  have hanswer : nameOf (.phi name) .lastOperand = nameOfOther (.phi name) .lastOperand := rfl
  rw [nameOfOther] at hanswer
  rcases hcases with htype | htype | htype | htype
  · exact .indvars htype (by rw [hanswer, htype]; rfl)
  · exact .idxprom htype (by rw [hanswer, htype])
  · exact .unhandled (Or.inl htype) (by rw [hanswer, htype])
  · exact .unhandled (Or.inr htype) (by rw [hanswer, htype])

lemma AddsConstant.answersByType {other : String} (h : AddsConstant other (.phi name) value) (hnamed : other ≠ "") :
    AnswersByType value other := by
  have hlink := h.linksTo rfl
  have htype : getIndexType value = getNameType other := by
    simp [getIndexType, IndexValue.hasName, hlink.getName, hnamed]
  have hanswer : nameOf value .lastOperand =
      nameOfMathOp value (loopAnswer value) (.error .notSExt) .lastOperand := by
    rw [nameOf_mathOp hlink.isMathOp rfl, h.sextAnswer]
  rw [nameOfMathOp] at hanswer
  rcases getNameType_cases other with hother | hother | hother | hother <;> rw [hother] at htype <;>
    rw [htype] at hanswer
  · exact .indvars htype (hlink.getName ▸ hanswer)
  · exact .idxprom htype hanswer
  · exact .unhandled (Or.inl htype) hanswer
  · exact .unhandled (Or.inr htype) hanswer

lemma AnswersByType.ne_intermediate {other : String} (h : AnswersByType value other) :
    getIndexType value ≠ .intermediate := by
  cases h with
  | indvars htype => simp [htype]
  | idxprom htype => simp [htype]
  | unhandled htype => exact htype.ne.2

lemma AnswersByType.agree_iff {x : IndexValue} {other : String} (h : AnswersByType value other)
    (hx : AnswersByType x name) (hne : other ≠ name) :
    (∃ answer, nameOf value .lastOperand = .ok answer ∧ nameOf x .lastOperand = .ok answer) ↔
      (getIndexType x).Unhandled ∧ (getIndexType value).Unhandled := by
  cases h with
  | indvars htype hanswer =>
    refine iff_of_false ?_ fun h => h.2.ne.1 htype
    cases hx with
    | indvars _ hx => simp [hanswer, hx, hne.symm]
    | idxprom _ hx => simp [hx]
    | unhandled _ hx => simp [hanswer, hx]
  | idxprom htype hanswer => simp [hanswer, htype, IndexType.Unhandled]
  | unhandled htype hanswer =>
    cases hx with
    | indvars htype' hx => simp [hanswer, hx, htype', IndexType.Unhandled]
    | idxprom htype' hx => simp [hx, htype', IndexType.Unhandled]
    | unhandled htype' hx => exact iff_of_true ⟨none, hanswer, hx⟩ ⟨htype', htype⟩

end Chains

/-- An index of the chain gets the name of the variable if it is the variable, or has no name of its own and the
variable is named as one; otherwise neither may have a name that is known. -/
theorem inductionVarName_chain_iff {name : String} {gep base : GetElementPtr} (hbase : base.lastIndex = .phi name)
    (h : InductionChain base.lastIndex gep.lastIndex) :
    (∃ answer, getInductionVarName gep = .ok answer ∧ getInductionVarName base = .ok answer) ↔
      getIndexType base.lastIndex = .indvars ∧
          (gep.lastIndex = base.lastIndex ∨ getIndexType gep.lastIndex = .intermediate) ∨
        (getIndexType base.lastIndex).Unhandled ∧ (getIndexType gep.lastIndex).Unhandled := by
  rw [getInductionVarName, getInductionVarName]
  rw [hbase] at h ⊢
  have hphi := answersByType_phi name
  rcases h.index_cases with hself | ⟨other, hother, hnamed, hadd⟩ | ⟨htype, hloop⟩
  · rw [hself]
    cases hphi with
    | indvars htype hanswer => simp [htype, hanswer]
    | idxprom htype hanswer => simp [htype, hanswer, IndexType.Unhandled]
    | unhandled htype hanswer => simp [htype, hanswer]
  · have hanswers := hadd.answersByType hnamed
    have hne : gep.lastIndex ≠ .phi name := by
      intro heq
      rw [heq] at hadd
      cases hadd
    rw [hanswers.agree_iff hphi hother, or_iff_right]
    rintro ⟨-, heq | hmath⟩
    · exact hne heq
    · exact hanswers.ne_intermediate hmath
  · rw [hloop]
    cases hphi with
    | indvars hphi hanswer => simp [hphi, hanswer, htype, h.loop hphi]
    | idxprom hphi hanswer => simp [hphi, hanswer, IndexType.Unhandled]
    | unhandled hphi hanswer =>
      refine iff_of_false ?_ ?_
      · rintro ⟨answer, hgep, hx⟩
        rw [hanswer] at hx
        cases hx
        exact h.loop_ne_none hgep
      · rintro (⟨hindvars, -⟩ | ⟨-, hunhandled⟩)
        · exact hphi.ne.1 hindvars
        · exact hunhandled.ne.2 htype

namespace NextRound

def indvar : IndexValue := .phi "indvars.iv"

/-- The induction variable that the next round has. -/
def indvarNext : IndexValue := .binary "indvars.iv.next" (.add true true) 64 indvar (.constant 1)

def accessAt (idx : IndexValue) : GetElementPtr :=
  { name := "arrayidx", pointee := .array, indices := [.constant 0, idx], lastIndex := idx }

theorem inductionVarName_chain_iff_trunc :
    (∃ answer, getInductionVarName (accessAt (.cast "" .trunc 32 indvarNext)) = .ok answer ∧
      getInductionVarName (accessAt indvar) = .ok answer) ↔ True := by
  refine (@inductionVarName_chain_iff "indvars.iv" (accessAt (.cast "" .trunc 32 indvarNext)) (accessAt indvar) rfl
    (.cast (.incremented (by decide) (.right true true 64 1)))).trans (iff_true_intro (Or.inl ⟨by decide, Or.inr ?_⟩))
  decide

/-- An access at the next round's index is not taken for one of the same loop. -/
theorem indvarNext_named_itself : InductionChain indvar indvarNext ∧
    getInductionVarName (accessAt indvar) = .ok (some "indvars.iv") ∧
      getInductionVarName (accessAt indvarNext) = .ok (some "indvars.iv.next") :=
  ⟨.incremented (by decide) (.right true true 64 1), rfl, rfl⟩

end NextRound

end OpenRace
