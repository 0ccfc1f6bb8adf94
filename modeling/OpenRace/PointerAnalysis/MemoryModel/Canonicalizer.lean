import OpenRace.LLVM.PointerValues
import Mathlib.Data.Nat.Basic
import Mathlib.Order.Basic
import Mathlib.Tactic.Common

/-! The canonical value of a pointer, which names its node in the constraint graph. -/

namespace OpenRace

open LLVM PointerValue

def stripNullOrUnDef : PointerValue → PointerValue
  | undefValue _ => undefValue .int8Ptr
  | constantPointerNull _ => constantPointerNull .int8Ptr
  | intToPtrOfPtrToInt _ pointer _ => pointer
  | intToPtr _ _ _ => undefValue .int8Ptr
  | value => value

def FICanonicalizer.stripPointerCastsAndOffsets : PointerValue → PointerValue
  | getElementPtr _ pointer _ _ => stripPointerCastsAndOffsets pointer
  | bitCast _ operand _ => stripPointerCastsAndOffsets operand
  | addrSpaceCast _ operand _ => stripPointerCastsAndOffsets operand
  | globalAlias _ aliasee _ => stripPointerCastsAndOffsets aliasee
  | returnedArgCall _ argument _ => stripPointerCastsAndOffsets argument
  | invariantGroup _ argument _ => stripPointerCastsAndOffsets argument
  | value => value

def FICanonicalizer.canonicalize (value : PointerValue) : PointerValue :=
  stripNullOrUnDef (stripPointerCastsAndOffsets value)

section Weight

def weight : PointerValue → ℕ
  | globalObject _ _ => 0
  | globalAlias _ aliasee _ => weight aliasee + 1
  | constantPointerNull type => if type = .int8Ptr then 0 else 1
  | undefValue type => if type = .int8Ptr then 0 else 1
  | bitCast _ operand _ => weight operand + 1
  | addrSpaceCast _ operand _ => weight operand + 1
  | getElementPtr _ pointer _ _ => weight pointer + 1
  | intToPtrOfPtrToInt _ pointer _ => weight pointer + 1
  | intToPtr _ _ _ => 1
  | returnedArgCall _ argument _ => weight argument + 1
  | invariantGroup _ argument _ => weight argument + 1
  | instruction _ _ => 0

lemma weight_stripNullOrUnDef {value : PointerValue} (h : stripNullOrUnDef value ≠ value) :
    weight (stripNullOrUnDef value) < weight value := by
  cases value with
  | undefValue type =>
    have hne : type ≠ .int8Ptr := by rintro rfl; exact h rfl
    simp [stripNullOrUnDef, weight, hne]
  | constantPointerNull type =>
    have hne : type ≠ .int8Ptr := by rintro rfl; exact h rfl
    simp [stripNullOrUnDef, weight, hne]
  | intToPtrOfPtrToInt inst pointer type => simp [stripNullOrUnDef, weight]
  | intToPtr inst integer type => simp [stripNullOrUnDef, weight]
  | _ => exact absurd rfl h

lemma weight_strip (value : PointerValue) :
    weight value.stripPointerCastsAndInvariantGroups ≤ weight value := by
  induction value with
  | bitCast _ _ _ ih | addrSpaceCast _ _ _ ih | returnedArgCall _ _ _ ih | invariantGroup _ _ _ ih =>
    simp only [stripPointerCastsAndInvariantGroups, weight]
    omega
  | getElementPtr inst pointer indices type ih =>
    simp only [stripPointerCastsAndInvariantGroups]
    split
    · simp only [weight]; omega
    · exact le_rfl
  | _ => exact le_rfl

/-- The pointer of a gep instruction with a single index, a negative constant. -/
def backwardPointer : PointerValue → Option PointerValue
  | getElementPtr (some _) pointer [.constantInt index] _ => if index < 0 then some pointer else none
  | _ => none

lemma weight_backward {value pointer : PointerValue} (h : backwardPointer value = some pointer) :
    weight pointer < weight value := by
  unfold backwardPointer at h
  split at h
  · split at h
    · obtain rfl := Option.some.inj h
      simp [weight]
    · cases h
  · cases h

def skipAlias : PointerValue → PointerValue
  | globalAlias _ aliasee _ => aliasee
  | value => value

lemma weight_skipAlias (value : PointerValue) : weight (skipAlias value) ≤ weight value := by
  cases value <;> simp [skipAlias, weight]

lemma weight_backward_strip {value pointer : PointerValue}
    (h : backwardPointer value.stripPointerCastsAndInvariantGroups = some pointer) :
    weight pointer < weight value :=
  lt_of_lt_of_le (weight_backward h) (weight_strip value)

lemma weight_loop {value next : PointerValue} (hle : weight next ≤ weight value)
    (h : stripNullOrUnDef (skipAlias next) ≠ skipAlias next) :
    weight (stripNullOrUnDef (skipAlias next)) < weight value :=
  lt_of_lt_of_le (weight_stripNullOrUnDef h) ((weight_skipAlias next).trans hle)

end Weight

namespace FSCanonicalizer

abbrev NoHeavier (value : PointerValue) : Type := {result : PointerValue // weight result ≤ weight value}

/-- The strip of casts, and the canonical value of the pointer in place of a backward gep. -/
def stripBackward (value : PointerValue)
    (canonical : (pointer : PointerValue) → weight pointer < weight value → NoHeavier pointer) : NoHeavier value :=
  match h : backwardPointer value.stripPointerCastsAndInvariantGroups with
  | some pointer =>
    ⟨(canonical pointer (weight_backward_strip h)).1,
      (canonical pointer (weight_backward_strip h)).2.trans (weight_backward_strip h).le⟩
  | none => ⟨value.stripPointerCastsAndInvariantGroups, weight_strip value⟩

def canonicalizeLoop (value : PointerValue) : NoHeavier value :=
  let next := stripBackward value fun pointer _ => canonicalizeLoop pointer
  let stripped := stripNullOrUnDef (skipAlias next.1)
  if h : stripped = skipAlias next.1 then ⟨skipAlias next.1, (weight_skipAlias next.1).trans next.2⟩
  else ⟨(canonicalizeLoop stripped).1, (canonicalizeLoop stripped).2.trans (weight_loop next.2 h).le⟩
termination_by weight value
decreasing_by
  · assumption
  · exact weight_loop next.2 h

def canonicalize (useFIMode : Bool) (value : PointerValue) : PointerValue :=
  if useFIMode then FICanonicalizer.canonicalize value else (canonicalizeLoop value).1

end FSCanonicalizer

end OpenRace
