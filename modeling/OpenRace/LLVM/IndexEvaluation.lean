import OpenRace.LLVM.IndexValues
import Mathlib.Data.Set.Operations

/-! What the indices of an array access are in an execution. -/

namespace OpenRace.LLVM

def definedUnless {α : Type} (undefined : Bool) (result : α) : Option α := if undefined then none else some result

def BinaryOp.eval {w : ℕ} (op : BinaryOp) (x y : BitVec w) : Option (BitVec w) :=
  match op with
  | .add nuw nsw => definedUnless (nuw && x.uaddOverflow y || nsw && x.saddOverflow y) (x + y)
  | .sub nuw nsw => definedUnless (nuw && x.usubOverflow y || nsw && x.ssubOverflow y) (x - y)
  | .mul nuw nsw => definedUnless (nuw && x.umulOverflow y || nsw && x.smulOverflow y) (x * y)
  | .shl nuw nsw =>
    definedUnless (w ≤ y.toNat || nuw && (x <<< y) >>> y != x || nsw && (x <<< y).sshiftRight' y != x) (x <<< y)
  | .udiv exactly => definedUnless (y == 0 || exactly && x % y != 0) (x / y)
  | .sdiv exactly => definedUnless (y == 0 || x == BitVec.intMin w && y == -1 || exactly && x.srem y != 0) (x.sdiv y)
  | .lshr exactly => definedUnless (w ≤ y.toNat || exactly && (x >>> y) <<< y != x) (x >>> y)
  | .ashr exactly => definedUnless (w ≤ y.toNat || exactly && x.sshiftRight' y <<< y != x) (x.sshiftRight' y)
  | .urem => definedUnless (y == 0) (x % y)
  | .srem => definedUnless (y == 0 || x == BitVec.intMin w && y == -1) (x.srem y)
  | .and => some (x &&& y)
  | .or => some (x ||| y)
  | .xor => some (x ^^^ y)

def BinaryOp.apply (op : BinaryOp) (width : ℕ) (x y : ℤ) : Option ℤ :=
  (op.eval (BitVec.ofInt width x) (BitVec.ofInt width y)).map BitVec.toInt

def CastOp.apply (op : CastOp) (operandWidth width : ℕ) (x : ℤ) : ℤ :=
  match op with
  | .zext => (BitVec.ofNat width (BitVec.ofInt operandWidth x).toNat).toInt
  | .trunc | .sext | .bitcast => (BitVec.ofInt width x).toInt

abbrev Valuation (widthOf : String → ℕ) : Type := (name : String) → BitVec (widthOf name)

variable {widthOf : String → ℕ}

namespace IndexValue

def width (widthOf : String → ℕ) : IndexValue → ℕ
  | phi name => widthOf name
  | binary _ _ width _ _ | cast _ _ width _ => width
  | _ => 64

def eval (valuation : Valuation widthOf) : IndexValue → Option ℤ
  | constant value => some value
  | phi name => some (valuation name).toInt
  | binary _ op width lhs rhs => do op.apply width (← eval valuation lhs) (← eval valuation rhs)
  | cast _ op width operand => do some (op.apply (operand.width widthOf) width (← eval valuation operand))
  | _ => none

end IndexValue

namespace ArrayAddress

def geps (address : ArrayAddress) : List GetElementPtr := address.gep :: address.bases

def indexes (address : ArrayAddress) : List IndexValue := address.geps.flatMap fun gep => gep.indices ++ [gep.lastIndex]

def element (address : ArrayAddress) (valuation : Valuation widthOf) : List (Option ℤ) :=
  address.indexes.map (IndexValue.eval valuation)

end ArrayAddress

/-- The valuations of the loop variables when an execution makes the access. -/
structure Accesses (widthOf : String → ℕ) (address : ArrayAddress) where
  valuations : Set (Valuation widthOf)
  defined : ∀ valuation ∈ valuations, ∀ index ∈ address.indexes, (index.eval valuation).isSome

end OpenRace.LLVM
