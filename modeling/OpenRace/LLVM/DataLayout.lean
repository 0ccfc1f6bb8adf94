import Mathlib.Tactic.Common

/-! Types of memory objects with the layout that the target gives them. -/

namespace OpenRace

mutual
/-- Scalars carry their allocation size, structs the offset of each element and their own size. -/
inductive LLVMType
  | scalar (pointer : Bool) (name : String) (size : ℕ)
  | array (numElements : ℕ) (element : LLVMType)
  | struct (name : String) (fields : StructFields) (size : ℕ)
deriving DecidableEq

inductive StructFields
  | nil
  | cons (offset : ℕ) (field : LLVMType) (rest : StructFields)
deriving DecidableEq
end

def StructFields.get? : StructFields → ℕ → Option (ℕ × LLVMType)
  | .nil, _ => none
  | .cons offset field _, 0 => some (offset, field)
  | .cons _ _ rest, index + 1 => rest.get? index

namespace LLVMType

def allocSize : LLVMType → ℕ
  | scalar _ _ size => size
  | array numElements element => numElements * element.allocSize
  | struct _ _ size => size

def isAggregateType : LLVMType → Bool
  | scalar .. => false
  | array .. => true
  | struct .. => true

mutual
/-- What a data layout promises: scalars take room, elements of a struct do not overlap and stay inside it. -/
def WellFormed : LLVMType → Prop
  | scalar _ _ size => 0 < size
  | array _ element => element.WellFormed
  | struct _ fields size => FieldsFrom 0 size fields

def FieldsFrom (start size : ℕ) : StructFields → Prop
  | .nil => start ≤ size
  | .cons offset field rest => start ≤ offset ∧ field.WellFormed ∧ FieldsFrom (offset + field.allocSize) size rest
end

lemma le_of_fieldsFrom : ∀ {fields : StructFields} {start size : ℕ}, FieldsFrom start size fields → start ≤ size
  | .nil, _, _, h => h
  | .cons _ _ _, _, _, ⟨hstart, _, hrest⟩ => by
    have hle := le_of_fieldsFrom hrest
    omega

/-- The type of the scalar at a byte, and which byte of it that is; padding has none. -/
abbrev ScalarByte := LLVMType × ℕ

mutual
def byteAt : LLVMType → ℕ → Option ScalarByte
  | scalar pointer name size, offset => if offset < size then some (scalar pointer name size, offset) else none
  | array numElements element, offset =>
    if offset / element.allocSize < numElements then element.byteAt (offset % element.allocSize) else none
  | struct _ fields _, offset => byteAmong fields offset

def byteAmong : StructFields → ℕ → Option ScalarByte
  | .nil, _ => none
  | .cons start field rest, offset =>
    if offset < start then none
    else if offset < start + field.allocSize then field.byteAt (offset - start)
    else byteAmong rest offset
end

mutual
/-- Offsets that lie in the first element of every array around them. -/
def Canonical : LLVMType → ℕ → Prop
  | scalar .., _ => True
  | array _ element, offset => offset < element.allocSize ∧ element.Canonical offset
  | struct _ fields _, offset => CanonicalAmong fields offset

def CanonicalAmong : StructFields → ℕ → Prop
  | .nil, _ => True
  | .cons start field rest, offset =>
    if offset < start then True
    else if offset < start + field.allocSize then field.Canonical (offset - start)
    else CanonicalAmong rest offset
end

end LLVMType

end OpenRace
