import Mathlib.Data.List.Basic
import Mathlib.Data.BitVec

/-! The `getelementptr` instruction over any system of sized types. -/

namespace OpenRace.LLVM

structure TypeLayout (T : Type) where
  allocSize : T → ℕ
  /-- Of arrays and vectors. -/
  elementType : T → Option T
  structField : T → ℤ → Option (ℕ × T)

inductive IndexOperand
  | constantInt (width : ℕ) (value : ℤ)
  | undef (id : ℕ)
  | constantExpr (id : ℕ)
  | variableIndex (id : ℕ)
deriving DecidableEq

namespace IndexOperand

def isConstantInt : IndexOperand → Bool
  | constantInt _ _ => true
  | _ => false

def isConstant : IndexOperand → Bool
  | variableIndex _ => false
  | _ => true

def isUndef : IndexOperand → Bool
  | undef _ => true
  | _ => false

def isZeroValue : IndexOperand → Bool
  | constantInt _ value => value == 0
  | _ => false

def value {w : ℕ} (valuation : IndexOperand → BitVec w) : IndexOperand → BitVec w
  | constantInt _ value => BitVec.ofInt w value
  | operand => valuation operand

lemma value_of_isZeroValue {w : ℕ} {valuation : IndexOperand → BitVec w} {operand : IndexOperand}
    (h : operand.isZeroValue) : operand.value valuation = 0 := by
  cases operand with
  | constantInt width value =>
    obtain rfl : value = 0 := by simpa [isZeroValue] using h
    simp [IndexOperand.value]
  | _ => cases h

lemma isConstant_of_isZeroValue {operand : IndexOperand} (h : operand.isZeroValue) : operand.isConstant := by
  cases operand <;> first | rfl | simp [isZeroValue] at h

end IndexOperand

namespace TypeLayout

variable {T : Type} (layout : TypeLayout T)

def stepType (type : T) (index : IndexOperand) : Option T :=
  match layout.elementType type, index with
  | some element, _ => some element
  | none, .constantInt _ field => (layout.structField type field).map Prod.snd
  | none, _ => none

def followTypes (type : T) (indices : List IndexOperand) : Option T :=
  indices.foldlM layout.stepType type

/-- The first index leaves the type. -/
def getIndexedType (type : T) : List IndexOperand → Option T
  | [] => some type
  | _ :: rest => layout.followTypes type rest

variable {w : ℕ} (valuation : IndexOperand → BitVec w)

def stepOffset (type : T) (index : IndexOperand) : BitVec w :=
  match layout.elementType type, index with
  | some element, _ => index.value valuation * BitVec.ofNat w (layout.allocSize element)
  | none, .constantInt _ field => BitVec.ofNat w ((layout.structField type field).elim 0 Prod.fst)
  | none, _ => 0

def followOffset (type : T) : List IndexOperand → BitVec w
  | [] => 0
  | index :: rest =>
    layout.stepOffset valuation type index +
      (layout.stepType type index).elim 0 fun next => followOffset next rest

/-- What a gep whose indices fit the type adds to its pointer. -/
def gepOffset (type : T) : List IndexOperand → BitVec w
  | [] => 0
  | index :: rest =>
    index.value valuation * BitVec.ofNat w (layout.allocSize type) + layout.followOffset valuation type rest

section Follow

variable {layout} {valuation}

lemma followTypes_append (type : T) (xs ys : List IndexOperand) :
    layout.followTypes type (xs ++ ys) = (layout.followTypes type xs).bind (layout.followTypes · ys) :=
  List.foldlM_append

lemma followOffset_append {type next : T} {xs : List IndexOperand} (ys : List IndexOperand)
    (h : layout.followTypes type xs = some next) :
    layout.followOffset valuation type (xs ++ ys) =
      layout.followOffset valuation type xs + layout.followOffset valuation next ys := by
  induction xs generalizing type with
  | nil =>
    obtain rfl := Option.some.inj h
    exact (BitVec.zero_add _).symm
  | cons index rest ih =>
    obtain ⟨middle, hstep, hrest⟩ := Option.bind_eq_some_iff.mp h
    simp only [List.cons_append, followOffset, hstep, Option.elim_some]
    rw [ih hrest, BitVec.add_assoc]

lemma getIndexedType_append {type middle : T} {xs : List IndexOperand} (hne : xs ≠ []) (ys : List IndexOperand)
    (h : layout.getIndexedType type xs = some middle) :
    layout.getIndexedType type (xs ++ ys) = layout.followTypes middle ys := by
  cases xs with
  | nil => exact absurd rfl hne
  | cons index rest =>
    have hrest : layout.followTypes type rest = some middle := h
    rw [List.cons_append, getIndexedType, followTypes_append, hrest]
    rfl

lemma exists_getIndexedType {type last : T} {xs ys : List IndexOperand} (hne : xs ≠ [])
    (h : layout.getIndexedType type (xs ++ ys) = some last) :
    ∃ middle, layout.getIndexedType type xs = some middle ∧ layout.followTypes middle ys = some last := by
  cases xs with
  | nil => exact absurd rfl hne
  | cons index rest =>
    rw [List.cons_append, getIndexedType, followTypes_append] at h
    exact Option.bind_eq_some_iff.mp h

lemma gepOffset_append {type middle : T} {xs : List IndexOperand} (hne : xs ≠ []) (ys : List IndexOperand)
    (h : layout.getIndexedType type xs = some middle) :
    layout.gepOffset valuation type (xs ++ ys) =
      layout.gepOffset valuation type xs + layout.followOffset valuation middle ys := by
  cases xs with
  | nil => exact absurd rfl hne
  | cons index rest => rw [List.cons_append, gepOffset, gepOffset, followOffset_append ys h, BitVec.add_assoc]

lemma gepOffset_zero {index : IndexOperand} (h : index.isZeroValue) (type : T) (rest : List IndexOperand) :
    layout.gepOffset valuation type (index :: rest) = layout.followOffset valuation type rest := by
  simp [gepOffset, IndexOperand.value_of_isZeroValue h]

end Follow

end TypeLayout

end OpenRace.LLVM
