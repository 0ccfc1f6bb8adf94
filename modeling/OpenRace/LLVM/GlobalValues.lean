import Mathlib.Data.List.Basic

/-! Global variables, constants and the instructions that read and write them. -/

namespace OpenRace.LLVM

inductive Ty
  | integer (bits : ℕ)
  | floating (bits : ℕ)
  | pointer (pointee : Ty)
  | aggregate (id bytes : ℕ)
deriving DecidableEq

namespace Ty

/-- In bytes. -/
def size : Ty → ℕ
  | integer bits | floating bits => (bits + 7) / 8
  | pointer _ => 8
  | aggregate _ bytes => bytes

def isIntegerTy : Ty → Bool
  | integer _ => true
  | _ => false

def isFloatingPointTy : Ty → Bool
  | floating _ => true
  | _ => false

end Ty

/-- A pointer cast is also an address computation with indices of zero only. -/
inductive Constant
  | data (type : Ty) (bits : ℕ)
  | global (id : ℕ) (type : Ty)
  | pointerCast (operand : Constant) (type : Ty)
  | expr (id : ℕ) (type : Ty)
deriving DecidableEq

namespace Constant

def getType : Constant → Ty
  | data type _ | global _ type | pointerCast _ type | expr _ type => type

def stripPointerCasts : Constant → Constant
  | pointerCast operand _ => operand.stripPointerCasts
  | c => c

end Constant

/-- The result of a pointer cast comes with the operand of the cast. -/
inductive Operand
  | constant (c : Constant)
  | argument (id : ℕ)
  | result (id : ℕ)
  | castResult (id : ℕ) (operand : Operand)
deriving DecidableEq

def Operand.inst : Operand → Option ℕ
  | result id | castResult id _ => some id
  | _ => none

/-- An operation may be a call. -/
inductive Inst
  | load (id : ℕ) (type : Ty) (pointer : Operand)
  | store (id : ℕ) (size : ℕ) (value pointer : Operand)
  | cast (id : ℕ) (type : Ty) (operand : Operand)
  | operation (id : ℕ) (type : Ty) (opcode : ℕ) (operands : List Operand)
deriving DecidableEq

namespace Inst

def id : Inst → ℕ
  | load id _ _ | store id _ _ _ | cast id _ _ | operation id _ _ _ => id

def operands : Inst → List Operand
  | load _ _ pointer => [pointer]
  | store _ _ value pointer => [value, pointer]
  | cast _ _ operand => [operand]
  | operation _ _ _ operands => operands

def resultType : Inst → Option Ty
  | load _ type _ | cast _ type _ | operation _ type _ _ => some type
  | store .. => none

end Inst

/-- The results of casts are those of casts among the instructions. -/
def Operand.Coherent (insts : List Inst) : Operand → Prop
  | castResult id operand => (∃ type, .cast id type operand ∈ insts) ∧ operand.Coherent insts
  | _ => True

structure GlobalVariable where
  id : ℕ
  initializer : Option Constant
  isConstant : Bool := false
  hasCommonLinkage : Bool := false
deriving DecidableEq

structure ModuleIR where
  globals : List GlobalVariable
  functions : List (List Inst)
  unique : ∀ inst ∈ functions.flatten, ∀ inst' ∈ functions.flatten, inst.id = inst'.id → inst = inst'
  coherent : ∀ inst ∈ functions.flatten, ∀ operand ∈ inst.operands, operand.Coherent functions.flatten

namespace ModuleIR

def instructions (m : ModuleIR) : List Inst := m.functions.flatten

def getGlobal (m : ModuleIR) (id : ℕ) : Option GlobalVariable := m.globals.find? (·.id == id)

lemma getGlobal_id {m : ModuleIR} {id : ℕ} {gv : GlobalVariable} (h : m.getGlobal id = some gv) : gv.id = id := by
  simpa using List.find?_some h

lemma getGlobal_mem {m : ModuleIR} {id : ℕ} {gv : GlobalVariable} (h : m.getGlobal id = some gv) : gv ∈ m.globals :=
  List.mem_of_find?_eq_some h

end ModuleIR

end OpenRace.LLVM
