import OpenRace.PointerAnalysis.MemoryModel.Canonicalizer
import Mathlib.Logic.Function.Iterate

/-! When a canonical value is its own canonical value. An alias gives way to its aliasee in the
middle of a round, and the loop goes on only where null, undef or an integer was stripped after it. -/

namespace OpenRace

open LLVM PointerValue FSCanonicalizer

/-- What a round does once the casts and the backward gep are gone. -/
def finishRound (value : PointerValue) : PointerValue :=
  if stripNullOrUnDef (skipAlias value) = skipAlias value then skipAlias value
  else (canonicalizeLoop (stripNullOrUnDef (skipAlias value))).1

def isGlobalAlias : PointerValue → Bool
  | globalAlias _ _ _ => true
  | _ => false

structure IsCanonical (value : PointerValue) : Prop where
  noCast : value.stripPointerCastsAndInvariantGroups = value
  notBackward : backwardPointer value = none
  notAlias : skipAlias value = value
  notNull : stripNullOrUnDef value = value

/-- The aliases on the way to the value leave an unwrapped one. So many more aliases in a row are
stripped by the backward geps around it. -/
def settlesAfter : ℕ → PointerValue → Bool
  | aliases, bitCast _ operand _ => settlesAfter aliases operand
  | aliases, addrSpaceCast _ operand _ => settlesAfter aliases operand
  | aliases, returnedArgCall _ argument _ => settlesAfter aliases argument
  | aliases, invariantGroup _ argument _ => settlesAfter aliases argument
  | aliases, intToPtrOfPtrToInt _ pointer _ => settlesAfter aliases pointer
  | aliases, getElementPtr inst pointer indices type =>
    if indices.all GEPIndex.isZero then settlesAfter aliases pointer
    else (backwardPointer (getElementPtr inst pointer indices type)).isNone || settlesAfter (aliases + 1) pointer
  | aliases, globalAlias _ aliasee _ =>
    if isGlobalAlias aliasee then decide (0 < aliases) && settlesAfter (aliases - 1) aliasee
    else decide (aliasee.stripPointerCastsAndInvariantGroups = aliasee) && (backwardPointer aliasee).isNone &&
      settlesAfter aliases aliasee
  | _, _ => true

section Rounds

lemma loop_eq (value : PointerValue) :
    (canonicalizeLoop value).1 = finishRound (stripBackward value fun pointer _ => canonicalizeLoop pointer).1 := by
  rw [canonicalizeLoop, finishRound]
  split_ifs <;> rfl

lemma loop_of_backward {value pointer : PointerValue}
    (h : backwardPointer value.stripPointerCastsAndInvariantGroups = some pointer) :
    (canonicalizeLoop value).1 = finishRound (canonicalizeLoop pointer).1 := by
  rw [loop_eq, stripBackward]
  split
  next found hfound => rw [Option.some.inj (h.symm.trans hfound)]
  next hnone => cases h.symm.trans hnone

lemma loop_of_forward {value : PointerValue}
    (h : backwardPointer value.stripPointerCastsAndInvariantGroups = none) :
    (canonicalizeLoop value).1 = finishRound value.stripPointerCastsAndInvariantGroups := by
  rw [loop_eq, stripBackward]
  split
  next found hfound => cases h.symm.trans hfound
  next hnone => rfl

lemma loop_congr {value other : PointerValue}
    (h : value.stripPointerCastsAndInvariantGroups = other.stripPointerCastsAndInvariantGroups) :
    (canonicalizeLoop value).1 = (canonicalizeLoop other).1 := by
  cases hback : backwardPointer value.stripPointerCastsAndInvariantGroups with
  | some pointer =>
    have hother : backwardPointer other.stripPointerCastsAndInvariantGroups = some pointer := h ▸ hback
    rw [loop_of_backward hback, loop_of_backward hother]
  | none => rw [loop_of_forward hback, loop_of_forward (h ▸ hback), h]

lemma strip_strip (value : PointerValue) :
    value.stripPointerCastsAndInvariantGroups.stripPointerCastsAndInvariantGroups =
      value.stripPointerCastsAndInvariantGroups := by
  induction value with
  | bitCast _ _ _ ih | addrSpaceCast _ _ _ ih | returnedArgCall _ _ _ ih | invariantGroup _ _ _ ih => exact ih
  | getElementPtr inst pointer indices type ih =>
    rw [stripPointerCastsAndInvariantGroups]
    split_ifs with hzero
    · exact ih
    · rw [stripPointerCastsAndInvariantGroups, if_neg hzero]
  | _ => rfl

lemma weight_strip_lt {value : PointerValue} (h : value.stripPointerCastsAndInvariantGroups ≠ value) :
    weight value.stripPointerCastsAndInvariantGroups < weight value := by
  cases value with
  | bitCast inst operand _ | addrSpaceCast inst operand _ | returnedArgCall inst operand _
  | invariantGroup inst operand _ => exact Nat.lt_succ_of_le (weight_strip operand)
  | getElementPtr inst pointer indices type =>
    rw [stripPointerCastsAndInvariantGroups] at h ⊢
    split_ifs at h ⊢ with hzero
    · exact Nat.lt_succ_of_le (weight_strip pointer)
    · exact absurd rfl h
  | _ => exact absurd rfl h

lemma finishRound_of_unchanged {value : PointerValue} (h : stripNullOrUnDef (skipAlias value) = skipAlias value) :
    finishRound value = skipAlias value := by
  rw [finishRound, if_pos h]

lemma finishRound_of_changed {value : PointerValue} (h : stripNullOrUnDef (skipAlias value) ≠ skipAlias value) :
    finishRound value = (canonicalizeLoop (stripNullOrUnDef (skipAlias value))).1 := by
  rw [finishRound, if_neg h]

lemma weight_finishRound (value : PointerValue) : weight (finishRound value) ≤ weight (skipAlias value) := by
  by_cases h : stripNullOrUnDef (skipAlias value) = skipAlias value
  · rw [finishRound_of_unchanged h]
  · rw [finishRound_of_changed h]
    exact (canonicalizeLoop _).2.trans (weight_stripNullOrUnDef h).le

lemma IsCanonical.finishRound {value : PointerValue} (h : IsCanonical value) : finishRound value = value := by
  rw [finishRound_of_unchanged (by rw [h.notAlias, h.notNull]), h.notAlias]

lemma IsCanonical.loop {value : PointerValue} (h : IsCanonical value) : (canonicalizeLoop value).1 = value := by
  rw [loop_of_forward (by rw [h.noCast, h.notBackward]), h.noCast, h.finishRound]

lemma isCanonical_of_loop {value : PointerValue} (h : (canonicalizeLoop value).1 = value) : IsCanonical value := by
  have hcast : value.stripPointerCastsAndInvariantGroups = value := by
    by_contra hne
    have hlt := weight_strip_lt hne
    have hle := (canonicalizeLoop value.stripPointerCastsAndInvariantGroups).2
    rw [loop_congr (strip_strip value), h] at hle
    omega
  have hback : backwardPointer value = none := by
    by_contra hne
    obtain ⟨pointer, hpointer⟩ := Option.ne_none_iff_exists'.mp hne
    have hlt := weight_backward hpointer
    have hround := weight_finishRound (canonicalizeLoop pointer).1
    rw [← loop_of_backward (hcast.symm ▸ hpointer), h] at hround
    have hskip := weight_skipAlias (canonicalizeLoop pointer).1
    have hle := (canonicalizeLoop pointer).2
    omega
  rw [loop_of_forward (hcast.symm ▸ hback), hcast] at h
  have halias : skipAlias value = value := by
    have hle := weight_finishRound value
    rw [h] at hle
    cases value with
    | globalAlias name aliasee type =>
      simp only [skipAlias, weight] at hle
      omega
    | _ => rfl
  refine ⟨hcast, hback, halias, ?_⟩
  by_contra hne
  have hlt := weight_stripNullOrUnDef hne
  rw [finishRound_of_changed (by rwa [halias]), halias] at h
  have hle := (canonicalizeLoop (stripNullOrUnDef value)).2
  rw [h] at hle
  omega

end Rounds

section Settled

lemma loop_alias_of_forward {name : String} {aliasee : PointerValue} {type : PointerType}
    (halias : isGlobalAlias aliasee = false) (hcast : aliasee.stripPointerCastsAndInvariantGroups = aliasee)
    (hback : backwardPointer aliasee = none) :
    (canonicalizeLoop (globalAlias name aliasee type)).1 = (canonicalizeLoop aliasee).1 := by
  have hskip : skipAlias aliasee = aliasee := by cases aliasee <;> first | rfl | cases halias
  rw [loop_of_forward rfl, loop_of_forward (hcast.symm ▸ hback), hcast, finishRound, finishRound, hskip]
  rfl

lemma stripNullOrUnDef_of_cast {value : PointerValue}
    (h : value.stripPointerCastsAndInvariantGroups ≠ value ∨ backwardPointer value ≠ none) :
    stripNullOrUnDef value = value := by
  cases value <;> first | rfl | simp [stripPointerCastsAndInvariantGroups, backwardPointer] at h

lemma not_settled_alias {name : String} {aliasee : PointerValue} {type : PointerType}
    (halias : isGlobalAlias aliasee = false)
    (hcast : ¬(aliasee.stripPointerCastsAndInvariantGroups = aliasee ∧ backwardPointer aliasee = none)) (aliases : ℕ) :
    ¬IsCanonical (finishRound^[aliases] (canonicalizeLoop (globalAlias name aliasee type)).1) := by
  have hnull := stripNullOrUnDef_of_cast (not_and_or.mp hcast)
  have hskip : skipAlias aliasee = aliasee := by cases aliasee <;> first | rfl | cases halias
  have hloop : (canonicalizeLoop (globalAlias name aliasee type)).1 = aliasee := by
    rw [loop_of_forward rfl]
    exact finishRound_of_unchanged hnull
  have hfix : finishRound aliasee = aliasee := by
    rw [finishRound_of_unchanged (by rwa [hskip]), hskip]
  rw [hloop, Function.iterate_fixed hfix]
  intro h
  exact hcast ⟨h.noCast, h.notBackward⟩

lemma iterate_loop_alias {name : String} {aliasee : PointerValue} {type : PointerType}
    (halias : isGlobalAlias aliasee = true) (aliases : ℕ) :
    IsCanonical (finishRound^[aliases] (canonicalizeLoop (globalAlias name aliasee type)).1) ↔
      0 < aliases ∧ IsCanonical (finishRound^[aliases - 1] (canonicalizeLoop aliasee).1) := by
  cases aliasee with
  | globalAlias inner target targetType =>
    have hloop : (canonicalizeLoop (globalAlias name (globalAlias inner target targetType) type)).1 =
        globalAlias inner target targetType := by
      rw [loop_of_forward rfl]
      exact finishRound_of_unchanged rfl
    rw [hloop]
    cases aliases with
    | zero =>
      constructor
      · intro h
        have hweight := congrArg weight h.notAlias
        simp [skipAlias, weight] at hweight
      · rintro ⟨h, -⟩
        omega
    | succ aliases =>
      have hinner : (canonicalizeLoop (globalAlias inner target targetType)).1 =
          finishRound (globalAlias inner target targetType) := loop_of_forward rfl
      rw [Function.iterate_succ_apply, Nat.add_sub_cancel, hinner]
      simp
  | _ => cases halias

lemma pointer_ne_intToPtr {inst : Option ℕ} {pointer : PointerValue} {type : PointerType} :
    pointer ≠ intToPtrOfPtrToInt inst pointer type := by
  intro h
  have hweight := congrArg weight h
  simp only [weight] at hweight
  omega

lemma backwardPointer_gep {inst : Option ℕ} {pointer behind : PointerValue} {indices : List GEPIndex}
    {type : PointerType} (h : backwardPointer (getElementPtr inst pointer indices type) = some behind) :
    behind = pointer := by
  unfold backwardPointer at h
  split at h
  next hgep =>
    cases hgep
    split_ifs at h
    exact (Option.some.inj h).symm
  next => cases h

lemma loop_gep_of_zero {inst : Option ℕ} {pointer : PointerValue} {indices : List GEPIndex} {type : PointerType}
    (hzero : indices.all GEPIndex.isZero) :
    (canonicalizeLoop (getElementPtr inst pointer indices type)).1 = (canonicalizeLoop pointer).1 := by
  apply loop_congr
  rw [stripPointerCastsAndInvariantGroups, if_pos hzero]

lemma loop_undef (type : PointerType) : (canonicalizeLoop (undefValue type)).1 = undefValue .int8Ptr := by
  have hcanonical : IsCanonical (undefValue .int8Ptr) := ⟨rfl, rfl, rfl, rfl⟩
  by_cases htype : type = .int8Ptr
  · rw [htype, hcanonical.loop]
  · have hne : stripNullOrUnDef (skipAlias (undefValue type)) ≠ skipAlias (undefValue type) := by
      intro h
      exact htype (undefValue.inj h).symm
    rw [loop_of_forward rfl]
    exact (finishRound_of_changed hne).trans hcanonical.loop

lemma loop_null (type : PointerType) :
    (canonicalizeLoop (constantPointerNull type)).1 = constantPointerNull .int8Ptr := by
  have hcanonical : IsCanonical (constantPointerNull .int8Ptr) := ⟨rfl, rfl, rfl, rfl⟩
  by_cases htype : type = .int8Ptr
  · rw [htype, hcanonical.loop]
  · have hne : stripNullOrUnDef (skipAlias (constantPointerNull type)) ≠ skipAlias (constantPointerNull type) := by
      intro h
      exact htype (constantPointerNull.inj h).symm
    rw [loop_of_forward rfl]
    exact (finishRound_of_changed hne).trans hcanonical.loop

lemma isCanonical_iterate {value canonical : PointerValue} (hloop : (canonicalizeLoop value).1 = canonical)
    (h : IsCanonical canonical) (aliases : ℕ) :
    IsCanonical (finishRound^[aliases] (canonicalizeLoop value).1) := by
  rwa [hloop, Function.iterate_fixed h.finishRound]

theorem settlesAfter_iff (value : PointerValue) (aliases : ℕ) :
    settlesAfter aliases value ↔ IsCanonical (finishRound^[aliases] (canonicalizeLoop value).1) := by
  induction value generalizing aliases with
  | bitCast inst operand type ih =>
    have hloop : (canonicalizeLoop (bitCast inst operand type)).1 = (canonicalizeLoop operand).1 := loop_congr rfl
    rw [settlesAfter, ih, hloop]
  | addrSpaceCast inst operand type ih =>
    have hloop : (canonicalizeLoop (addrSpaceCast inst operand type)).1 = (canonicalizeLoop operand).1 :=
      loop_congr rfl
    rw [settlesAfter, ih, hloop]
  | returnedArgCall inst argument type ih =>
    have hloop : (canonicalizeLoop (returnedArgCall inst argument type)).1 = (canonicalizeLoop argument).1 :=
      loop_congr rfl
    rw [settlesAfter, ih, hloop]
  | invariantGroup inst argument type ih =>
    have hloop : (canonicalizeLoop (invariantGroup inst argument type)).1 = (canonicalizeLoop argument).1 :=
      loop_congr rfl
    rw [settlesAfter, ih, hloop]
  | intToPtrOfPtrToInt inst pointer type ih =>
    have hloop : (canonicalizeLoop (intToPtrOfPtrToInt inst pointer type)).1 = (canonicalizeLoop pointer).1 := by
      rw [loop_of_forward rfl]
      exact finishRound_of_changed pointer_ne_intToPtr
    rw [settlesAfter, ih, hloop]
  | getElementPtr inst pointer indices type ih =>
    rw [settlesAfter]
    split_ifs with hzero
    · rw [ih, loop_gep_of_zero hzero]
    · have hstrip : (getElementPtr inst pointer indices type).stripPointerCastsAndInvariantGroups =
          getElementPtr inst pointer indices type := by
        rw [stripPointerCastsAndInvariantGroups, if_neg hzero]
      cases hback : backwardPointer (getElementPtr inst pointer indices type) with
      | some behind =>
        obtain rfl := backwardPointer_gep hback
        rw [loop_of_backward (hstrip.symm ▸ hback), ← Function.iterate_succ_apply, ← ih]
        rfl
      | none =>
        have hcanonical : IsCanonical (getElementPtr inst pointer indices type) := ⟨hstrip, hback, rfl, rfl⟩
        simp [hcanonical.loop, Function.iterate_fixed hcanonical.finishRound, hcanonical]
  | globalAlias name aliasee type ih =>
    rw [settlesAfter]
    split_ifs with halias
    · rw [iterate_loop_alias halias, ← ih, Bool.and_eq_true, decide_eq_true_iff]
    · rw [Bool.not_eq_true] at halias
      by_cases hcast : aliasee.stripPointerCastsAndInvariantGroups = aliasee ∧ backwardPointer aliasee = none
      · rw [loop_alias_of_forward halias hcast.1 hcast.2, ← ih]
        simp [hcast]
      · refine iff_of_false ?_ (not_settled_alias halias hcast aliases)
        intro h
        simp only [Bool.and_eq_true, decide_eq_true_eq, Option.isNone_iff_eq_none] at h
        exact hcast h.1
  | constantPointerNull type =>
    exact iff_of_true rfl (isCanonical_iterate (loop_null type) ⟨rfl, rfl, rfl, rfl⟩ aliases)
  | undefValue type => exact iff_of_true rfl (isCanonical_iterate (loop_undef type) ⟨rfl, rfl, rfl, rfl⟩ aliases)
  | intToPtr inst integer type =>
    have hloop : (canonicalizeLoop (intToPtr inst integer type)).1 = undefValue .int8Ptr := by
      have hne : stripNullOrUnDef (skipAlias (intToPtr inst integer type)) ≠
          skipAlias (intToPtr inst integer type) := by
        rintro ⟨⟩
      rw [loop_of_forward rfl]
      exact (finishRound_of_changed hne).trans (loop_undef .int8Ptr)
    exact iff_of_true rfl (isCanonical_iterate hloop ⟨rfl, rfl, rfl, rfl⟩ aliases)
  | globalObject name type =>
    have hcanonical : IsCanonical (globalObject name type) := ⟨rfl, rfl, rfl, rfl⟩
    exact iff_of_true rfl (isCanonical_iterate hcanonical.loop hcanonical aliases)
  | instruction id type =>
    have hcanonical : IsCanonical (instruction id type) := ⟨rfl, rfl, rfl, rfl⟩
    exact iff_of_true rfl (isCanonical_iterate hcanonical.loop hcanonical aliases)

lemma settlesAfter_zero_iff (value : PointerValue) :
    settlesAfter 0 value ↔
      (canonicalizeLoop (canonicalizeLoop value).1).1 = (canonicalizeLoop value).1 := by
  rw [settlesAfter_iff]
  exact ⟨IsCanonical.loop, isCanonical_of_loop⟩

lemma loop_unwrapped {value : PointerValue} (h : settlesAfter 0 value) :
    (canonicalizeLoop value).1 = (canonicalizeLoop value.unwrapped).1 := by
  induction value with
  | bitCast inst operand type ih =>
    refine Eq.trans ?_ (ih h)
    exact loop_congr rfl
  | addrSpaceCast inst operand type ih =>
    refine Eq.trans ?_ (ih h)
    exact loop_congr rfl
  | getElementPtr inst pointer indices type ih =>
    by_cases hzero : indices.all GEPIndex.isZero
    · rw [settlesAfter, if_pos hzero] at h
      rw [unwrapped, if_pos hzero, ← ih h]
      exact loop_gep_of_zero hzero
    · rw [unwrapped, if_neg hzero]
  | globalAlias name aliasee type ih =>
    rw [settlesAfter] at h
    split_ifs at h with halias
    · simp at h
    · simp only [Bool.and_eq_true, decide_eq_true_eq, Option.isNone_iff_eq_none] at h
      obtain ⟨⟨hcast, hback⟩, hsettles⟩ := h
      exact (loop_alias_of_forward (by simpa using halias) hcast hback).trans (ih hsettles)
  | _ => rfl

end Settled

section FieldInsensitive

open FICanonicalizer

/-- An integer that the strip ends at was made from an unwrapped pointer. -/
def settlesFI (value : PointerValue) : Bool :=
  match stripPointerCastsAndOffsets value with
  | intToPtrOfPtrToInt _ pointer _ =>
    decide (stripPointerCastsAndOffsets pointer = pointer) && decide (stripNullOrUnDef pointer = pointer)
  | _ => true

lemma stripOffsets_unwrapped (value : PointerValue) :
    stripPointerCastsAndOffsets value.unwrapped = stripPointerCastsAndOffsets value := by
  induction value with
  | bitCast _ _ _ ih | addrSpaceCast _ _ _ ih | globalAlias _ _ _ ih => exact ih
  | getElementPtr inst pointer indices type ih =>
    rw [unwrapped]
    split_ifs
    · exact ih
    · rfl
  | _ => rfl

lemma weight_stripOffsets (value : PointerValue) : weight (stripPointerCastsAndOffsets value) ≤ weight value := by
  induction value with
  | getElementPtr _ _ _ _ ih | bitCast _ _ _ ih | addrSpaceCast _ _ _ ih | globalAlias _ _ _ ih
  | returnedArgCall _ _ _ ih | invariantGroup _ _ _ ih => exact ih.trans (Nat.le_succ _)
  | _ => exact le_rfl

lemma stripOffsets_of_canonicalize {value : PointerValue} (h : FICanonicalizer.canonicalize value = value) :
    stripPointerCastsAndOffsets value = value ∧ stripNullOrUnDef value = value := by
  have hnull : stripNullOrUnDef (stripPointerCastsAndOffsets value) = stripPointerCastsAndOffsets value := by
    by_contra hne
    have hlt := weight_stripNullOrUnDef hne
    have hle := weight_stripOffsets value
    unfold FICanonicalizer.canonicalize at h
    rw [h] at hlt
    omega
  have hstrip : stripPointerCastsAndOffsets value = value := hnull.symm.trans h
  exact ⟨hstrip, by rwa [hstrip] at hnull⟩

lemma settlesFI_iff (value : PointerValue) :
    settlesFI value ↔
      FICanonicalizer.canonicalize (FICanonicalizer.canonicalize value) = FICanonicalizer.canonicalize value := by
  induction value with
  | getElementPtr _ _ _ _ ih | bitCast _ _ _ ih | addrSpaceCast _ _ _ ih | globalAlias _ _ _ ih
  | returnedArgCall _ _ _ ih | invariantGroup _ _ _ ih => exact ih
  | intToPtrOfPtrToInt inst pointer type =>
    have hresult : FICanonicalizer.canonicalize (intToPtrOfPtrToInt inst pointer type) = pointer := rfl
    simp only [settlesFI, stripPointerCastsAndOffsets, hresult, Bool.and_eq_true, decide_eq_true_eq]
    constructor
    · rintro ⟨hpointer, hnull⟩
      rw [FICanonicalizer.canonicalize, hpointer, hnull]
    · exact stripOffsets_of_canonicalize
  | _ => exact iff_of_true rfl rfl

end FieldInsensitive

def settles (useFIMode : Bool) (value : PointerValue) : Bool :=
  if useFIMode then settlesFI value else settlesAfter 0 value

lemma settles_iff (useFIMode : Bool) (value : PointerValue) :
    settles useFIMode value ↔
      canonicalize useFIMode (canonicalize useFIMode value) = canonicalize useFIMode value := by
  cases useFIMode with
  | false => exact settlesAfter_zero_iff value
  | true => exact settlesFI_iff value

lemma canonicalize_unwrapped {useFIMode : Bool} {value : PointerValue} (h : settles useFIMode value) :
    canonicalize useFIMode value = canonicalize useFIMode value.unwrapped := by
  cases useFIMode with
  | false => exact loop_unwrapped h
  | true => exact congrArg stripNullOrUnDef (stripOffsets_unwrapped value).symm

/-- Two values with different wrappers around one value have one canonical value, canonical itself,
exactly when the aliases on the way to it settle. -/
theorem canonicalize_settled_iff (useFIMode : Bool) (value other : PointerValue)
    (hwrappers : value.unwrapped = other.unwrapped) :
    (canonicalize useFIMode (canonicalize useFIMode value) = canonicalize useFIMode value ∧
        canonicalize useFIMode (canonicalize useFIMode other) = canonicalize useFIMode other ∧
        canonicalize useFIMode value = canonicalize useFIMode other) ↔
      settles useFIMode value ∧ settles useFIMode other := by
  rw [settles_iff, settles_iff]
  constructor
  · rintro ⟨hvalue, hother, -⟩
    exact ⟨hvalue, hother⟩
  · rintro ⟨hvalue, hother⟩
    refine ⟨hvalue, hother, ?_⟩
    rw [canonicalize_unwrapped ((settles_iff ..).mpr hvalue), canonicalize_unwrapped ((settles_iff ..).mpr hother),
      hwrappers]

section AliasOfCast

def globalInt : PointerValue := globalObject "g" ⟨"i32", 0⟩

/-- A cast of `@q = alias i32, i32* @g`. -/
def castOfAlias : PointerValue := addrSpaceCast (some 1) (globalAlias "q" globalInt ⟨"i32", 0⟩) ⟨"i32", 1⟩

/-- `@p = alias i8, i8* bitcast (i32* @g to i8*)`. -/
def aliasOfCast : PointerValue := globalAlias "p" (bitCast none globalInt .int8Ptr) .int8Ptr

theorem canonicalize_settled_castOfAlias :
    castOfAlias.unwrapped = globalInt.unwrapped ∧
      canonicalize false castOfAlias = canonicalize false globalInt :=
  ⟨rfl, ((canonicalize_settled_iff false castOfAlias globalInt rfl).mpr ⟨rfl, rfl⟩).2.2⟩

theorem aliasOfCast_not_canonical :
    aliasOfCast.unwrapped = globalInt.unwrapped ∧
      canonicalize false (canonicalize false aliasOfCast) ≠ canonicalize false aliasOfCast ∧
      canonicalize false aliasOfCast ≠ canonicalize false globalInt := by
  have hcast : canonicalize false aliasOfCast = bitCast none globalInt .int8Ptr := by
    refine (loop_of_forward rfl).trans ?_
    exact finishRound_of_unchanged rfl
  have hglobal : canonicalize false globalInt = globalInt := by
    refine (loop_of_forward rfl).trans ?_
    exact finishRound_of_unchanged rfl
  refine ⟨rfl, ?_, ?_⟩
  · intro h
    exact absurd ((settles_iff false aliasOfCast).mpr h) (by decide)
  · rw [hcast, hglobal]
    decide

end AliasOfCast

end OpenRace
