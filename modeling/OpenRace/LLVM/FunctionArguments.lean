import OpenRace.LLVM.GlobalValues
import Mathlib.Tactic.Common

/-! Functions with arguments, and the replacement of an argument by a constant. -/

namespace OpenRace.LLVM

structure Argument where
  id : ℕ
  type : Ty
  hasInAllocaAttr : Bool := false
  hasByValAttr : Bool := false
deriving DecidableEq

structure FunctionIR where
  name : String
  args : List Argument
  insts : List Inst
  isDeclaration : Bool := false
  isVarArg : Bool := false
  onlyReadsMemory : Bool := false
deriving DecidableEq

def Operand.In (instFunction argFunction : ℕ → ℕ) (f : ℕ) : Operand → Prop
  | constant _ => True
  | argument id => argFunction id = f
  | result id => instFunction id = f
  | castResult id operand => instFunction id = f ∧ operand.In instFunction argFunction f

/-- Functions are known by their places in the module, and so are the functions of instructions and arguments. -/
structure FunctionModule where
  globals : List GlobalVariable
  functions : List FunctionIR
  instFunction : ℕ → ℕ
  argFunction : ℕ → ℕ
  unique : ∀ inst ∈ functions.flatMap FunctionIR.insts, ∀ inst' ∈ functions.flatMap FunctionIR.insts,
    inst.id = inst'.id → inst = inst'
  coherent : ∀ inst ∈ functions.flatMap FunctionIR.insts, ∀ operand ∈ inst.operands,
    operand.Coherent (functions.flatMap FunctionIR.insts)
  insts_function : ∀ {i : ℕ} {f : FunctionIR}, functions[i]? = some f → ∀ inst ∈ f.insts, instFunction inst.id = i
  args_function : ∀ {i : ℕ} {f : FunctionIR}, functions[i]? = some f → ∀ arg ∈ f.args, argFunction arg.id = i
  inScope : ∀ {i : ℕ} {f : FunctionIR}, functions[i]? = some f → ∀ inst ∈ f.insts, ∀ operand ∈ inst.operands,
    operand.In instFunction argFunction i

namespace Operand

def replaceArgument (id : ℕ) (c : Constant) : Operand → Operand
  | argument id' => if id' = id then constant c else argument id'
  | castResult id' operand => castResult id' (operand.replaceArgument id c)
  | operand => operand

lemma replaceArgument_in {instFunction argFunction : ℕ → ℕ} {f id : ℕ} {c : Constant} {operand : Operand}
    (h : operand.In instFunction argFunction f) : (operand.replaceArgument id c).In instFunction argFunction f := by
  induction operand with
  | constant _ => exact h
  | result _ => exact h
  | argument id' =>
    unfold replaceArgument
    split
    · trivial
    · exact h
  | castResult id' operand ih => exact ⟨h.1, ih h.2⟩

lemma replaceArgument_eq {instFunction argFunction : ℕ → ℕ} {f id : ℕ} {c : Constant} {operand : Operand}
    (h : operand.In instFunction argFunction f) (hid : argFunction id ≠ f) :
    operand.replaceArgument id c = operand := by
  induction operand with
  | constant _ => rfl
  | result _ => rfl
  | argument id' =>
    refine if_neg ?_
    rintro rfl
    exact hid h
  | castResult id' operand ih => rw [replaceArgument, ih h.2]

end Operand

namespace Inst

def replaceArgument (arg : ℕ) (c : Constant) : Inst → Inst
  | load id type pointer => load id type (pointer.replaceArgument arg c)
  | store id size value pointer => store id size (value.replaceArgument arg c) (pointer.replaceArgument arg c)
  | cast id type operand => cast id type (operand.replaceArgument arg c)
  | operation id type opcode operands => operation id type opcode (operands.map (Operand.replaceArgument arg c))

variable (arg : ℕ) (c : Constant) (inst : Inst)

@[simp] lemma replaceArgument_id : (inst.replaceArgument arg c).id = inst.id := by cases inst <;> rfl

@[simp] lemma replaceArgument_operands :
    (inst.replaceArgument arg c).operands = inst.operands.map (Operand.replaceArgument arg c) := by cases inst <;> rfl

lemma replaceArgument_eq {inst : Inst} (h : ∀ operand ∈ inst.operands, operand.replaceArgument arg c = operand) :
    inst.replaceArgument arg c = inst := by
  cases inst with
  | load id type pointer => rw [replaceArgument, h pointer List.mem_cons_self]
  | store id size value pointer =>
    rw [replaceArgument, h value List.mem_cons_self, h pointer (List.mem_cons_of_mem _ List.mem_cons_self)]
  | cast id type operand => rw [replaceArgument, h operand List.mem_cons_self]
  | operation number type opcode operands =>
    have hsame : operands.map (Operand.replaceArgument arg c) = operands :=
      (List.map_congr_left h).trans (List.map_id' operands)
    rw [replaceArgument, hsame]

end Inst

lemma Operand.Coherent.replaceArgument {insts : List Inst} {arg : ℕ} {c : Constant} {operand : Operand}
    (h : operand.Coherent insts) : (operand.replaceArgument arg c).Coherent
    (insts.map (Inst.replaceArgument arg c)) := by
  induction operand with
  | constant _ => trivial
  | result _ => trivial
  | argument id =>
    unfold Operand.replaceArgument
    split <;> trivial
  | castResult id operand ih =>
    obtain ⟨⟨type, hcast⟩, hoperand⟩ := h
    exact ⟨⟨type, List.mem_map.mpr ⟨_, hcast, rfl⟩⟩, ih hoperand⟩

namespace FunctionIR

def replaceArgument (arg : ℕ) (c : Constant) (f : FunctionIR) : FunctionIR :=
  { f with insts := f.insts.map (Inst.replaceArgument arg c) }

end FunctionIR

namespace FunctionModule

def insts (m : FunctionModule) : List Inst := m.functions.flatMap FunctionIR.insts

def ir (m : FunctionModule) : ModuleIR where
  globals := m.globals
  functions := m.functions.map FunctionIR.insts
  unique := m.unique
  coherent := m.coherent

lemma mem_insts {m : FunctionModule} {inst : Inst} :
    inst ∈ m.insts ↔ ∃ (i : ℕ) (f : FunctionIR), m.functions[i]? = some f ∧ inst ∈ f.insts := by
  unfold insts
  rw [List.mem_flatMap]
  constructor
  · rintro ⟨f, hf, hinst⟩
    obtain ⟨i, hi⟩ := List.mem_iff_getElem?.mp hf
    exact ⟨i, f, hi, hinst⟩
  · rintro ⟨i, f, hi, hinst⟩
    exact ⟨f, List.mem_of_getElem? hi, hinst⟩

lemma insts_replaceArgument (functions : List FunctionIR) (arg : ℕ) (c : Constant) :
    (functions.map (FunctionIR.replaceArgument arg c)).flatMap FunctionIR.insts =
      (functions.flatMap FunctionIR.insts).map (Inst.replaceArgument arg c) := by
  rw [List.flatMap_map, List.map_flatMap]
  rfl

def replaceArgument (m : FunctionModule) (arg : ℕ) (c : Constant) : FunctionModule where
  globals := m.globals
  functions := m.functions.map (FunctionIR.replaceArgument arg c)
  instFunction := m.instFunction
  argFunction := m.argFunction
  unique := by
    rw [insts_replaceArgument]
    intro inst hinst inst' hinst' heq
    obtain ⟨old, hold, rfl⟩ := List.mem_map.mp hinst
    obtain ⟨old', hold', rfl⟩ := List.mem_map.mp hinst'
    rw [m.unique old hold old' hold' (by simpa using heq)]
  coherent := by
    rw [insts_replaceArgument]
    intro inst hinst operand hoperand
    obtain ⟨old, hold, rfl⟩ := List.mem_map.mp hinst
    rw [Inst.replaceArgument_operands] at hoperand
    obtain ⟨before, hbefore, rfl⟩ := List.mem_map.mp hoperand
    exact (m.coherent old hold before hbefore).replaceArgument
  insts_function := by
    intro i f hf inst hinst
    rw [List.getElem?_map] at hf
    obtain ⟨g, hg, rfl⟩ := Option.map_eq_some_iff.mp hf
    obtain ⟨old, hold, rfl⟩ := List.mem_map.mp hinst
    rw [Inst.replaceArgument_id]
    exact m.insts_function hg old hold
  args_function := by
    intro i f hf arg' harg
    rw [List.getElem?_map] at hf
    obtain ⟨g, hg, rfl⟩ := Option.map_eq_some_iff.mp hf
    exact m.args_function hg arg' harg
  inScope := by
    intro i f hf inst hinst operand hoperand
    rw [List.getElem?_map] at hf
    obtain ⟨g, hg, rfl⟩ := Option.map_eq_some_iff.mp hf
    obtain ⟨old, hold, rfl⟩ := List.mem_map.mp hinst
    rw [Inst.replaceArgument_operands] at hoperand
    obtain ⟨before, hbefore, rfl⟩ := List.mem_map.mp hoperand
    exact Operand.replaceArgument_in (m.inScope hg old hold before hbefore)

end FunctionModule

end OpenRace.LLVM
