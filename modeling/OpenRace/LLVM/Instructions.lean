import Mathlib.Data.List.Basic

/-! The part of LLVM's values and instructions that the analysis reads. Pointer identity is
equality: every value and instruction carries its own number. -/

namespace OpenRace.LLVM

structure Function where
  id : ℕ
  name : String
  isIntrinsic : Bool := false
  isDebugInfoForProfiling : Bool := false
deriving DecidableEq

def Function.hasName (f : Function) : Bool := f.name != ""

inductive Value
  | function (f : Function)
  | globalVariable (id : ℕ) (isThreadLocal : Bool)
  | alloca (id : ℕ)
  | load (id : ℕ) (pointer : Value)
  | phi (id : ℕ) (incoming : Value)
  | call (id : ℕ)
  | taskAlloc (id : ℕ) (entry : Value)
  | bitcast (value : Value)
  | globalAlias (value : Value)
  | undef
  | constantInt (value : ℕ)
  | other (id : ℕ)
deriving DecidableEq

def Value.stripPointerCasts : Value → Value
  | .bitcast value => value.stripPointerCasts
  | value => value

def Value.isCall : Value → Bool
  | .call _ => true
  | .taskAlloc _ _ => true
  | _ => false

structure CallBase where
  id : ℕ
  calledOperand : Value
  args : List Value := []
  /-- Normal and unwind destination of an invoke. -/
  invokeDests : Option (ℕ × ℕ) := none
deriving DecidableEq

def CallBase.getCalledFunction (call : CallBase) : Option Function :=
  match call.calledOperand with
  | .function f => some f
  | _ => none

/-- Casts and aliases of functions are constants, and no constant makes a call indirect. -/
def CallBase.isIndirectCall (call : CallBase) : Bool :=
  match call.calledOperand with
  | .function _ | .bitcast _ | .globalAlias _ | .undef | .constantInt _ | .globalVariable _ _ => false
  | _ => true

inductive Instruction
  | alloca (id : ℕ)
  | load (id : ℕ) (pointer : Value) (isAtomic : Bool) (isVolatile : Bool)
  | store (id : ℕ) (pointer : Value) (isAtomic : Bool) (isVolatile : Bool)
  | call (inst : CallBase)
  | other (id : ℕ)
deriving DecidableEq

def Instruction.id : Instruction → ℕ
  | .alloca id => id
  | .load id _ _ _ => id
  | .store id _ _ _ => id
  | .call inst => inst.id
  | .other id => id

abbrev BasicBlock := List Instruction

end OpenRace.LLVM
