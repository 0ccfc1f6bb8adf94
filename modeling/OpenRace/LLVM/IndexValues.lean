import Mathlib.Data.Int.Notation
import Mathlib.Data.Nat.Notation

/-! Values that array indices are computed from, and the accesses that use them. -/

namespace OpenRace.LLVM

inductive BinaryOp
  | add (nuw nsw : Bool) | sub (nuw nsw : Bool) | mul (nuw nsw : Bool) | shl (nuw nsw : Bool)
  | udiv (exactly : Bool) | sdiv (exactly : Bool) | lshr (exactly : Bool) | ashr (exactly : Bool)
  | urem | srem | and | or | xor
deriving DecidableEq

inductive CastOp
  | trunc | zext | sext | bitcast
deriving DecidableEq

/-- The width of an operation's result is in bits; an unnamed value has the empty name. A pointer that
`stripPointerCasts` looks through is a bitcast, or an address computation all of whose indices are zero. -/
inductive IndexValue
  | constant (value : ℤ)
  | argument (name : String)
  | phi (name : String)
  | binary (name : String) (op : BinaryOp) (width : ℕ) (lhs rhs : IndexValue)
  | cast (name : String) (op : CastOp) (width : ℕ) (operand : IndexValue)
  | load (name : String) (pointer : IndexValue)
  | gep (name : String) (hasAllZeroIndices : Bool) (pointer lastOperand : IndexValue)
  | instruction (name : String)
deriving DecidableEq

namespace IndexValue

def getName : IndexValue → String
  | constant _ => ""
  | argument name | phi name | binary name _ _ _ _ | cast name _ _ _ | load name _ | gep name _ _ _ => name
  | instruction name => name

def hasName (value : IndexValue) : Bool := value.getName != ""

def isConstant : IndexValue → Bool
  | constant _ => true
  | _ => false

def isInstruction : IndexValue → Bool
  | constant _ | argument _ => false
  | _ => true

def subvalues : IndexValue → List IndexValue
  | binary name op width lhs rhs => binary name op width lhs rhs :: (lhs.subvalues ++ rhs.subvalues)
  | cast name op width operand => cast name op width operand :: operand.subvalues
  | value => [value]

def isArithmetic : IndexValue → Bool
  | constant _ | phi _ => true
  | binary _ _ _ lhs rhs => lhs.isArithmetic && rhs.isArithmetic
  | cast _ _ _ operand => operand.isArithmetic
  | _ => false

end IndexValue

inductive ElementType
  | array | struct | other
deriving DecidableEq

structure GetElementPtr where
  name : String
  /-- What the pointer operand points to. -/
  pointee : ElementType
  indices : List IndexValue
  lastIndex : IndexValue
deriving DecidableEq

/-- A basic block, with the name of its first instruction where that is a phi node. -/
structure LoopBlock where
  name : String
  frontPhi : Option String
deriving DecidableEq

structure ArrayAddress where
  function : ℕ
  gep : GetElementPtr
  /-- The address computations that the pointer operand comes from, the nearest first. -/
  bases : List GetElementPtr
  /-- The block of `gep` and those before it in the function, the nearest first. -/
  parent : LoopBlock
  earlier : List LoopBlock
deriving DecidableEq

end OpenRace.LLVM
