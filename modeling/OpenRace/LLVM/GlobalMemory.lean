import OpenRace.LLVM.GlobalValues
import Mathlib.Tactic.Ring

/-! Executions of a module over its memory. -/

namespace OpenRace.LLVM

/-- How the module is linked: where global variables are and which of them other code names, and the bits of the other
constant expressions, with the global variables they refer to. -/
structure Layout where
  base : ℕ → ℕ
  isNamedOutside : ℕ → Bool
  expr : ℕ → ℕ
  exprGlobals : ℕ → List ℕ

def Constant.bits (layout : Layout) : Constant → ℕ
  | data _ bits => bits
  | global id _ => layout.base id
  | pointerCast operand _ => operand.bits layout
  | expr id _ => layout.expr id

lemma Constant.bits_strip (layout : Layout) (c : Constant) : c.stripPointerCasts.bits layout = c.bits layout := by
  induction c with
  | pointerCast operand type ih => exact ih
  | _ => rfl

def Constant.refersTo (layout : Layout) (gid : ℕ) : Constant → Bool
  | data _ _ => false
  | global id _ => id == gid
  | pointerCast operand _ => operand.refersTo layout gid
  | expr id _ => (layout.exprGlobals id).contains gid

/-- The operand is the address of the global variable, through pointer casts, or is computed from it as a constant. -/
def Operand.refersTo (layout : Layout) (gid : ℕ) : Operand → Bool
  | constant c => c.refersTo layout gid
  | castResult _ operand => operand.refersTo layout gid
  | argument _ | result _ => false

/-- The instruction does more with the address than to load from it or to cast it. -/
def Inst.usesAddress (layout : Layout) (gid : ℕ) : Inst → Bool
  | load _ _ _ | cast _ _ _ => false
  | store _ _ value pointer => value.refersTo layout gid || pointer.refersTo layout gid
  | operation _ _ _ operands => operands.any (Operand.refersTo layout gid)

def AddressKept (m : ModuleIR) (layout : Layout) (gid : ℕ) : Prop :=
  layout.isNamedOutside gid = true ∨ ∃ gv ∈ m.globals, ∃ c, gv.initializer = some c ∧ c.refersTo layout gid = true

def AddressUsed (m : ModuleIR) (layout : Layout) (gid : ℕ) : Prop :=
  AddressKept m layout gid ∨ ∃ inst ∈ m.instructions, inst.usesAddress layout gid = true

abbrev Memory : Type := ℕ → UInt8

namespace Memory

def read (memory : Memory) (address : ℕ) : ℕ → ℕ
  | 0 => 0
  | size + 1 => (memory address).toNat + 256 * read memory (address + 1) size

def write (memory : Memory) (address size value : ℕ) : Memory := fun a =>
  if address ≤ a ∧ a < address + size then UInt8.ofNat (value / 256 ^ (a - address)) else memory a

lemma read_write_from (memory : Memory) (address value : ℕ) {size : ℕ} : ∀ {start whole : ℕ}, start + size ≤ whole →
    (memory.write address whole value).read (address + start) size = value / 256 ^ start % 256 ^ size := by
  induction size with
  | zero =>
    intro start whole _
    rw [read, Nat.pow_zero, Nat.mod_one]
  | succ size ih =>
    intro start whole hle
    have hbyte : (memory.write address whole value (address + start)).toNat = value / 256 ^ start % 256 := by
      rw [write, if_pos (by omega), Nat.add_sub_cancel_left, UInt8.toNat_ofNat']
    have hrest : (memory.write address whole value).read (address + start + 1) size =
        value / 256 ^ start / 256 % 256 ^ size := by
      rw [Nat.add_assoc, ih (by omega), Nat.pow_succ, Nat.div_div_eq_div_mul]
    rw [read, hbyte, hrest, Nat.pow_succ', Nat.mod_mul]

lemma read_write (memory : Memory) (address value : ℕ) {size whole : ℕ} (hle : size ≤ whole) :
    (memory.write address whole value).read address size = value % 256 ^ size := by
  have h := @read_write_from memory address value size 0 whole (by omega)
  rwa [Nat.add_zero, Nat.pow_zero, Nat.div_one] at h

def SameBytes (memory memory' : Memory) (address size : ℕ) : Prop :=
  ∀ a, address ≤ a → a < address + size → memory' a = memory a

lemma SameBytes.read_eq {memory memory' : Memory} {address size : ℕ} (h : SameBytes memory memory' address size) :
    memory'.read address size = memory.read address size := by
  induction size generalizing address with
  | zero => rfl
  | succ size ih =>
    simp only [read]
    rw [h address (by omega) (by omega), ih fun a hle hlt => h a (by omega) (by omega)]

lemma SameBytes.refl (memory : Memory) (address size : ℕ) : SameBytes memory memory address size :=
  fun _ _ _ => rfl

end Memory

/-- Results and arguments are those of the activations of functions. The last results before an activation came to its
block are what phi nodes of the block select from. -/
structure ExecState where
  memory : Memory
  results : ℕ → ℕ → Option ℕ
  incoming : ℕ → ℕ → Option ℕ
  arguments : ℕ → ℕ → ℕ

namespace ExecState

def eval (layout : Layout) (st : ExecState) (act : ℕ) : Operand → Option ℕ
  | .constant c => some (c.bits layout)
  | .argument id => some (st.arguments act id)
  | .result id | .castResult id _ => st.results act id

def setResult (st : ExecState) (act id value : ℕ) : ExecState :=
  { st with results := fun act' id' => if act' = act ∧ id' = id then some value else st.results act' id' }

lemma setResult_cases {st : ExecState} {act id value act' id' value' : ℕ}
    (h : (st.setResult act id value).results act' id' = some value') :
    (act' = act ∧ id' = id) ∨ st.results act' id' = some value' := by
  by_cases hsame : act' = act ∧ id' = id
  · exact Or.inl hsame
  · simp only [setResult, if_neg hsame] at h
    exact Or.inr h

def atEntry (st : ExecState) : ExecState := { st with results := st.incoming }

def enterBlock (st : ExecState) (act : ℕ) : ExecState :=
  { st with incoming := fun act' => if act' = act then st.results act else st.incoming act' }

lemma enterBlock_cases {st : ExecState} {act act' id value : ℕ}
    (h : (st.enterBlock act).incoming act' id = some value) :
    st.results act' id = some value ∨ st.incoming act' id = some value := by
  by_cases hsame : act' = act
  · simp only [enterBlock, if_pos hsame] at h
    exact Or.inl (hsame ▸ h)
  · simp only [enterBlock, if_neg hsame] at h
    exact Or.inr h

end ExecState

/-- Which opcodes are phi nodes and allocations, and what all but phi nodes do to the memory, with their results. -/
structure Operations where
  isPhi : ℕ → Bool
  isAlloca : ℕ → Bool
  effect : ℕ → List ℕ → Memory → Memory → ℕ → Prop

/-- An instruction of the module is executed in an activation. A phi node selects one of its operands. -/
inductive Step (m : ModuleIR) (layout : Layout) (ops : Operations) (act : ℕ) : Inst → ExecState → ExecState → Prop
  | load {st : ExecState} {id : ℕ} {type : Ty} {pointer : Operand} {address : ℕ} :
    .load id type pointer ∈ m.instructions → st.eval layout act pointer = some address →
      Step m layout ops act (.load id type pointer) st (st.setResult act id (st.memory.read address type.size))
  | store {st : ExecState} {id size : ℕ} {value pointer : Operand} {bits address : ℕ} :
    .store id size value pointer ∈ m.instructions → st.eval layout act value = some bits →
      st.eval layout act pointer = some address →
      Step m layout ops act (.store id size value pointer) st
        { st with memory := st.memory.write address size bits }
  | cast {st : ExecState} {id : ℕ} {type : Ty} {operand : Operand} {bits : ℕ} :
    .cast id type operand ∈ m.instructions → st.eval layout act operand = some bits →
      Step m layout ops act (.cast id type operand) st (st.setResult act id bits)
  | operation {st : ExecState} {id : ℕ} {type : Ty} {opcode : ℕ} {operands : List Operand} {bits : List ℕ}
    {memory : Memory} {result : ℕ} :
    .operation id type opcode operands ∈ m.instructions → ops.isPhi opcode = false →
      operands.mapM (st.eval layout act) = some bits → ops.effect opcode bits st.memory memory result →
      Step m layout ops act (.operation id type opcode operands) st ({ st with memory }.setResult act id result)
  | phi {st : ExecState} {id : ℕ} {type : Ty} {opcode : ℕ} {operands : List Operand} {operand : Operand} {bits : ℕ} :
    .operation id type opcode operands ∈ m.instructions → ops.isPhi opcode = true → operand ∈ operands →
      st.atEntry.eval layout act operand = some bits →
      Step m layout ops act (.operation id type opcode operands) st (st.setResult act id bits)

namespace Step

variable {m : ModuleIR} {layout : Layout} {ops : Operations} {act : ℕ} {inst : Inst} {st st' : ExecState}

lemma inst_mem (h : Step m layout ops act inst st st') : inst ∈ m.instructions := by
  cases h <;> assumption

lemma results_cases (h : Step m layout ops act inst st st') {act' id value : ℕ}
    (hvalue : st'.results act' id = some value) :
    (act' = act ∧ id = inst.id) ∨ st.results act' id = some value := by
  cases h with
  | load _ _ => exact ExecState.setResult_cases hvalue
  | store _ _ _ => exact Or.inr hvalue
  | cast _ _ => exact ExecState.setResult_cases hvalue
  | operation _ _ _ _ => exact ExecState.setResult_cases hvalue
  | phi _ _ _ _ => exact ExecState.setResult_cases hvalue

lemma incoming_eq (h : Step m layout ops act inst st st') : st'.incoming = st.incoming := by
  cases h <;> rfl

lemma arguments_eq (h : Step m layout ops act inst st st') : st'.arguments = st.arguments := by
  cases h <;> rfl

end Step

def KeepsGlobal (layout : Layout) (gv : GlobalVariable) (memory memory' : Memory) : Prop :=
  ∀ c, gv.initializer = some c → Memory.SameBytes memory memory' (layout.base gv.id) c.getType.size

structure ExecStep where
  act : ℕ
  inst : Inst
  before : ExecState
  after : ExecState

/-- Steps after one another; between them activations come to blocks, and calls set arguments. It is undefined to write
to a constant, or to a global variable without an address that is computed from its own. -/
inductive Run (m : ModuleIR) (layout : Layout) (ops : Operations) (start : ExecState) :
    List ExecStep → ExecState → Prop
  | start : Run m layout ops start [] start
  | step {steps : List ExecStep} {st st' : ExecState} {act : ℕ} {inst : Inst} :
    Run m layout ops start steps st → Step m layout ops act inst st st' →
      (∀ gv ∈ m.globals, gv.isConstant = true ∨ ¬AddressUsed m layout gv.id →
        KeepsGlobal layout gv st.memory st'.memory) →
      Run m layout ops start (steps ++ [⟨act, inst, st, st'⟩]) st'
  | block {steps : List ExecStep} {st : ExecState} (act : ℕ) :
    Run m layout ops start steps st → Run m layout ops start steps (st.enterBlock act)
  | arguments {steps : List ExecStep} {st : ExecState} (arguments : ℕ → ℕ → ℕ) :
    Run m layout ops start steps st → Run m layout ops start steps { st with arguments }

structure Started (m : ModuleIR) (layout : Layout) (st : ExecState) : Prop where
  results : ∀ act id, st.results act id = none
  incoming : ∀ act id, st.incoming act id = none
  initialized : ∀ gv ∈ m.globals, ∀ c, gv.initializer = some c →
    st.memory.read (layout.base gv.id) c.getType.size = c.bits layout

end OpenRace.LLVM
