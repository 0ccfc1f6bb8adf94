import Mathlib.Data.List.Basic
import Mathlib.Data.Int.Notation

/-! Pointer values with the operands that cast, move or rename them. An instruction carries its
number; a constant expression has none and is the value it is built from. -/

namespace OpenRace.LLVM

structure PointerType where
  pointee : String
  addressSpace : ℕ := 0
deriving DecidableEq

def PointerType.int8Ptr : PointerType := ⟨"i8", 0⟩

inductive GEPIndex
  | constantInt (value : ℤ)
  | other (id : ℕ)
deriving DecidableEq

def GEPIndex.isZero : GEPIndex → Bool
  | .constantInt value => value == 0
  | .other _ => false

inductive PointerValue
  | globalObject (name : String) (type : PointerType)
  | globalAlias (name : String) (aliasee : PointerValue) (type : PointerType)
  | constantPointerNull (type : PointerType)
  | undefValue (type : PointerType)
  | bitCast (inst : Option ℕ) (operand : PointerValue) (type : PointerType)
  | addrSpaceCast (inst : Option ℕ) (operand : PointerValue) (type : PointerType)
  | getElementPtr (inst : Option ℕ) (pointer : PointerValue) (indices : List GEPIndex) (type : PointerType)
  /-- Of an integer that is itself a `ptrtoint` of the pointer. -/
  | intToPtrOfPtrToInt (inst : Option ℕ) (pointer : PointerValue) (type : PointerType)
  | intToPtr (inst : Option ℕ) (integer : ℕ) (type : PointerType)
  /-- A call one of whose arguments is marked as the value it returns. -/
  | returnedArgCall (inst : ℕ) (argument : PointerValue) (type : PointerType)
  /-- A call of `llvm.launder.invariant.group` or `llvm.strip.invariant.group`. -/
  | invariantGroup (inst : ℕ) (argument : PointerValue) (type : PointerType)
  | instruction (id : ℕ) (type : PointerType)
deriving DecidableEq

namespace PointerValue

def type : PointerValue → PointerType
  | globalObject _ type => type
  | globalAlias _ _ type => type
  | constantPointerNull type => type
  | undefValue type => type
  | bitCast _ _ type => type
  | addrSpaceCast _ _ type => type
  | getElementPtr _ _ _ type => type
  | intToPtrOfPtrToInt _ _ type => type
  | intToPtr _ _ type => type
  | returnedArgCall _ _ type => type
  | invariantGroup _ _ type => type
  | instruction _ type => type

def stripPointerCastsAndInvariantGroups : PointerValue → PointerValue
  | bitCast _ operand _ => operand.stripPointerCastsAndInvariantGroups
  | addrSpaceCast _ operand _ => operand.stripPointerCastsAndInvariantGroups
  | getElementPtr inst pointer indices type =>
    if indices.all GEPIndex.isZero then pointer.stripPointerCastsAndInvariantGroups
    else getElementPtr inst pointer indices type
  | returnedArgCall _ argument _ => argument.stripPointerCastsAndInvariantGroups
  | invariantGroup _ argument _ => argument.stripPointerCastsAndInvariantGroups
  | value => value

/-- What the casts, the all-zero geps and the aliases around a value wrap. -/
def unwrapped : PointerValue → PointerValue
  | bitCast _ operand _ => operand.unwrapped
  | addrSpaceCast _ operand _ => operand.unwrapped
  | getElementPtr inst pointer indices type =>
    if indices.all GEPIndex.isZero then pointer.unwrapped else getElementPtr inst pointer indices type
  | globalAlias _ aliasee _ => aliasee.unwrapped
  | value => value

end PointerValue

end OpenRace.LLVM
