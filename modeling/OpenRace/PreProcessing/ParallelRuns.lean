import OpenRace.LLVM.GlobalMemory
import OpenRace.PreProcessing.ArgumentPropagation

/-! Executions in which activations of functions work on one memory. -/

namespace OpenRace

open LLVM

structure ParallelState where
  exec : ExecState
  running : ℕ → Option ℕ

/-- Without a caller the activation is one from outside the module. A branch is to a block of the activation. -/
inductive ParallelEvent
  | exec (act : ℕ) (inst : Inst)
  | branch (act : ℕ)
  | enter (caller : Option ℕ) (callee act : ℕ) (arguments : ℕ → ℕ)
  | leave (act : ℕ)

namespace ParallelState

variable (st : ParallelState)

def entered (callee act : ℕ) (arguments : ℕ → ℕ) : ParallelState :=
  ⟨{ st.exec with arguments := Function.update st.exec.arguments act arguments },
    Function.update st.running act (some callee)⟩

def left (act : ℕ) : ParallelState := ⟨st.exec, Function.update st.running act none⟩

variable {st} {callee act act' : ℕ} {arguments : ℕ → ℕ}

@[simp] lemma entered_running : (st.entered callee act arguments).running act = some callee :=
  Function.update_self _ _ _

@[simp] lemma entered_arguments : (st.entered callee act arguments).exec.arguments act = arguments :=
  Function.update_self _ _ _

lemma entered_running_of_ne (h : act' ≠ act) : (st.entered callee act arguments).running act' = st.running act' :=
  Function.update_of_ne h _ _

lemma entered_arguments_of_ne (h : act' ≠ act) :
    (st.entered callee act arguments).exec.arguments act' = st.exec.arguments act' :=
  Function.update_of_ne h _ _

@[simp] lemma left_running : (st.left act).running act = none := Function.update_self _ _ _

lemma left_running_of_ne (h : act' ≠ act) : (st.left act).running act' = st.running act' :=
  Function.update_of_ne h _ _

variable (st)

def Unused (act : ℕ) : Prop :=
  st.running act = none ∧ ∀ id, st.exec.results act id = none ∧ st.exec.incoming act id = none

end ParallelState

def Passes (layout : Layout) (st : ExecState) (caller : ℕ) (f : FunctionIR) (site : AbstractCallSite)
    (arguments : ℕ → ℕ) : Prop :=
  ∀ (position : ℕ) (arg : Argument) (operand : Operand), f.args[position]? = some arg →
    site.operands[position]? = some (some operand) → st.eval layout caller operand = some (arguments arg.id)

inductive ParallelStep (m : FunctionModule) (uses : ℕ → List FunctionUse) (layout : Layout) (ops : Operations) :
    ParallelEvent → ParallelState → ParallelState → Prop
  | exec {st : ParallelState} {exec : ExecState} {act : ℕ} {inst : Inst} :
    st.running act = some (m.instFunction inst.id) → Step m.ir layout ops act inst st.exec exec →
      (∀ gv ∈ m.globals, gv.isConstant → KeepsGlobal layout gv st.exec.memory exec.memory) →
        ParallelStep m uses layout ops (.exec act inst) st ⟨exec, st.running⟩
  | branch {st : ParallelState} {act : ℕ} :
    ParallelStep m uses layout ops (.branch act) st ⟨st.exec.enterBlock act, st.running⟩
  | enter {st : ParallelState} {caller callee act : ℕ} {site : AbstractCallSite} {f : FunctionIR} {arguments : ℕ → ℕ} :
    .callSite site ∈ uses callee → m.functions[callee]? = some f →
      st.running caller = some (m.instFunction site.inst) → Passes layout st.exec caller f site arguments →
        st.Unused act →
          ParallelStep m uses layout ops (.enter (some caller) callee act arguments) st (st.entered callee act arguments)
  | outside {st : ParallelState} {callee act : ℕ} {arguments : ℕ → ℕ} :
    uses callee = [] ∨ .unknown ∈ uses callee → st.Unused act →
      ParallelStep m uses layout ops (.enter none callee act arguments) st (st.entered callee act arguments)
  | leave {st : ParallelState} {act : ℕ} : ParallelStep m uses layout ops (.leave act) st (st.left act)

structure Occurrence where
  event : ParallelEvent
  before : ParallelState
  after : ParallelState

namespace Occurrence

def Keeps (o : Occurrence) (address size : ℕ) : Prop :=
  Memory.SameBytes o.before.exec.memory o.after.exec.memory address size

end Occurrence

section Variables

variable (m : FunctionModule) (uses : ℕ → List FunctionUse) (layout : Layout) (ops : Operations)

/-- The operand is the other one, through pointer casts. -/
def LLVM.Operand.isBasedOn : Operand → Operand → Bool
  | .castResult id operand, base => .castResult id operand == base || operand.isBasedOn base
  | operand, base => operand == base

/-- The instruction loads from the pointer, casts it or stores to it, if it uses it at all. -/
def LLVM.Inst.onlyAccesses (base : Operand) : Inst → Bool
  | .load _ _ _ | .cast _ _ _ => true
  | .store _ _ value _ => !value.isBasedOn base
  | .operation _ _ _ operands => !operands.any fun operand => operand.isBasedOn base

def OnlyReads (arg : Argument) : Prop :=
  ∀ inst ∈ m.ir.instructions, inst.onlyAccesses (.argument arg.id) = true ∧
    ∀ id size value pointer, inst = .store id size value pointer → pointer.isBasedOn (.argument arg.id) = false

/-- The instruction calls functions of the module, which only load from what it passes to them. -/
def PassesToReaders (base : Operand) (inst : Inst) : Prop :=
  ∀ operand ∈ inst.operands, operand.isBasedOn base = true →
    (∃ callee < m.functions.length, ∃ site,
      .callSite site ∈ uses callee ∧ site.inst = inst.id ∧ some operand ∈ site.operands) ∧
    ∀ (callee : ℕ) (site : AbstractCallSite) (f : FunctionIR) (position : ℕ),
      .callSite site ∈ uses callee → site.inst = inst.id → m.functions[callee]? = some f →
        site.operands[position]? = some (some operand) →
          f.isDeclaration = false ∧ ∃ arg, f.args[position]? = some arg ∧ OnlyReads m arg

/-- The result is the address of a variable that nothing gets at but loads, stores and functions that load. -/
structure LocalVariable (id : ℕ) (type : Ty) : Prop where
  allocated : ∃ opcode, .operation id (.pointer type) opcode [] ∈ m.ir.instructions ∧ ops.isAlloca opcode = true
  accessed : ∀ inst ∈ m.ir.instructions,
    inst.onlyAccesses (.result id) = true ∨ PassesToReaders m uses (.result id) inst

/-- The activation has got the address as the result, and has not ended since. -/
def Allocated (id act address : ℕ) : List Occurrence → Prop
  | [] => False
  | o :: earlier => (∃ inst, o.event = .exec act inst ∧ inst.id = id ∧ o.after.exec.results act id = some address) ∨
    (o.event ≠ .leave act ∧ Allocated id act address earlier)

def KeepsVariables (o : Occurrence) (earlier : List Occurrence) : Prop :=
  ∀ id type, LocalVariable m uses ops id type → ∀ act address, Allocated id act address earlier →
    o.Keeps address type.size ∨ ∃ store size value pointer, o.event = .exec act (.store store size value pointer) ∧
      pointer.isBasedOn (.result id) = true ∧ o.before.exec.eval layout act pointer = some address

/-- What has happened, the last first. It is undefined to change a variable without an address that is computed from its
own. -/
inductive ParallelRun : List Occurrence → ParallelState → Prop
  | start {exec : ExecState} : Started m.ir layout exec → ParallelRun [] ⟨exec, fun _ => none⟩
  | step {history : List Occurrence} {st st' : ParallelState} {event : ParallelEvent} :
    ParallelRun history st → ParallelStep m uses layout ops event st st' →
      KeepsVariables m uses layout ops ⟨event, st, st'⟩ history → ParallelRun (⟨event, st, st'⟩ :: history) st'

end Variables

end OpenRace
