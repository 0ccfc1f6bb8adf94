import OpenRace.LLVM.FunctionArguments
import OpenRace.LanguageModel.OpenMP
import OpenRace.PreProcessing.OMPConstantProp

/-! Constants for the arguments of functions, and for the loads through the arguments of outlined functions. -/

namespace OpenRace

open LLVM

structure PassState where
  module : FunctionModule
  replaced : Replacements := []
  erased : List ℕ := []

/-- An operand is absent where the caller does not tell what the callback gets. -/
structure AbstractCallSite where
  inst : ℕ
  isCallbackCall : Bool
  operands : List (Option Operand)

inductive FunctionUse
  | blockAddress
  | unknown
  | callSite (site : AbstractCallSite)

structure PassLibrary extends ConstantFolding where
  /-- Constants that nothing uses are no uses. -/
  uses : PassState → ℕ → List FunctionUse
  dominates : PassState → ℕ → ℕ → ℕ → Bool
  isThreadDependent : Constant → Bool
  getUndef : Ty → Constant
  /-- In which order a set of functions is visited. -/
  order : List ℕ → List ℕ
  mem_order : ∀ {i : ℕ} {functions : List ℕ}, i ∈ order functions ↔ i ∈ functions

namespace PassState

variable (st : PassState)

def prop : PropState := { replaced := st.replaced, erased := st.erased }

end PassState

def Operand.sameValue (a b : Operand) : Bool :=
  match a.inst, b.inst with
  | some id, some id' => id == id'
  | none, none => a == b
  | _, _ => false

namespace PassState

variable (st : PassState)

/-- The users of a value, one for each use. -/
def users (value : Operand) : List Inst :=
  (st.prop.instructions st.module.ir).flatMap fun inst =>
    ((st.prop.operands inst).filter (Operand.sameValue value)).map fun _ => inst

def instUsers (id : ℕ) : List Inst := st.prop.users st.module.ir id

end PassState

def isStore : Inst → Bool
  | .store .. => true
  | _ => false

def isLoad : Inst → Bool
  | .load .. => true
  | _ => false

def getValueOperand : Inst → Option Operand
  | .store _ _ value _ => some value
  | _ => none

variable (lib : PassLibrary)

/-- A second store that dominates makes the first one useless. -/
def findUniqueDominatedStoreDef (st : PassState) (tree : ℕ) (value : Operand) (inst : ℕ) : Option Inst :=
  match (st.users value).filter fun user => isStore user && lib.dominates st tree user.id inst with
  | [si] => some si
  | _ => none

structure ArgumentConstant where
  constant : Option Constant := none
  isNonconstant : Bool := false

/-- Of so many arguments, one more is not constant; without any constant argument there is nothing to do. -/
def markNonconstant (size : ℕ) (slot : ArgumentConstant) (numNonconstant : ℕ) : Option (ArgumentConstant × ℕ) :=
  if numNonconstant + 1 = size then none else some ({ slot with isNonconstant := true }, numNonconstant + 1)

def inspectOperand (size : ℕ) (isCallbackCall : Bool) (arg : Argument) (operand : Option Operand)
    (slot : ArgumentConstant) (numNonconstant : ℕ) : Option (ArgumentConstant × ℕ) :=
  if slot.isNonconstant || decide (operand = some (.argument arg.id)) then some (slot, numNonconstant)
  else match operand.bind constantOf with
  | none => markNonconstant size slot numNonconstant
  | some c =>
    if arg.type ≠ c.getType then none
    else if (isCallbackCall && lib.isThreadDependent c) || slot.constant.isSome then
      markNonconstant size slot numNonconstant
    else some ({ slot with constant := some c }, numNonconstant)

def inspectOperands (size : ℕ) (isCallbackCall : Bool) :
    List Argument → List (Option Operand) → List ArgumentConstant → ℕ → Option (List ArgumentConstant × ℕ)
  | arg :: args, operand :: operands, slot :: slots, numNonconstant => do
    let (slot, numNonconstant) ← inspectOperand lib size isCallbackCall arg operand slot numNonconstant
    let (slots, numNonconstant) ← inspectOperands size isCallbackCall args operands slots numNonconstant
    some (slot :: slots, numNonconstant)
  | _, _, slots, numNonconstant => some (slots, numNonconstant)

def mismatched (f : FunctionIR) (site : AbstractCallSite) : Bool :=
  if f.isVarArg then decide (site.operands.length < f.args.length) else site.operands.length != f.args.length

def inspectUse (f : FunctionIR) (slots : List ArgumentConstant × ℕ) :
    FunctionUse → Option (List ArgumentConstant × ℕ)
  | .blockAddress => some slots
  | .unknown => none
  | .callSite site =>
    if mismatched f site then none
    else inspectOperands lib f.args.length site.isCallbackCall f.args site.operands slots.1 slots.2

def argumentConstants (st : PassState) (i : ℕ) (f : FunctionIR) : Option (List ArgumentConstant) :=
  ((lib.uses st i).foldlM (inspectUse lib f) (f.args.map fun _ => {}, 0)).map Prod.fst

def replaceArgument (f : FunctionIR) (state : PassState × Bool) (slot : Argument × ArgumentConstant) :
    PassState × Bool :=
  let (st, _) := state
  let (arg, argumentConstant) := slot
  if argumentConstant.isNonconstant || (st.users (.argument arg.id)).isEmpty || arg.hasInAllocaAttr ||
      (arg.hasByValAttr && !f.onlyReadsMemory) then state
  else ({ st with module :=
    st.module.replaceArgument arg.id (argumentConstant.constant.getD (lib.getUndef arg.type)) }, true)

/-- The loads from the argument, if nothing stores through it or stores it. -/
def loadsFrom (st : PassState) (arg : Argument) : List Inst :=
  if (st.users (.argument arg.id)).any isStore then [] else (st.users (.argument arg.id)).filter isLoad

def replaceLoad (c : Constant) (st : PassState) (load : Inst) : PassState :=
  let st := if (st.instUsers load.id).isEmpty then st else { st with replaced := (load.id, c) :: st.replaced }
  if (st.instUsers load.id).isEmpty && lib.isRemovable load then { st with erased := load.id :: st.erased } else st

/-- What the argument points to; without a call site or an operand the behaviour is undefined. -/
def propagatePointee (i : ℕ) (arg : Argument) (position : ℕ) :
    List FunctionUse → PassState × Bool → Option (PassState × Bool)
  | [], state => some state
  | .blockAddress :: uses, state => propagatePointee i arg position uses state
  | .unknown :: _, _ => none
  | .callSite site :: uses, (st, madeChange) => do
    let value ← (site.operands[position]?).join
    match findUniqueDominatedStoreDef lib st i (st.replaced.subst value) site.inst with
    | none => some (st, madeChange)
    | some si =>
      match (getValueOperand si).bind fun operand => constantOf (st.replaced.subst operand) with
      | none => propagatePointee i arg position uses (st, madeChange)
      | some defVal =>
        let loadVec := loadsFrom st arg
        propagatePointee i arg position uses (loadVec.foldl (replaceLoad lib defVal) st, madeChange || !loadVec.isEmpty)

def propagatePointees (i : ℕ) (state : PassState × Bool) (arg : Argument × ℕ) : Option (PassState × Bool) :=
  match arg.1.type with
  | .pointer _ => propagatePointee lib i arg.1 arg.2 (lib.uses state.1 i) state
  | _ => some state

def propagateConstantsIntoArguments (st : PassState) (i : ℕ) : Option (PassState × Bool) :=
  match st.module.functions[i]? with
  | none => some (st, false)
  | some f =>
    if f.args.isEmpty || (lib.uses st i).isEmpty then some (st, false)
    else match argumentConstants lib st i f with
    | none => some (st, false)
    | some slots =>
      let state := (f.args.zip slots).foldl (replaceArgument lib f) (st, false)
      -- the first two arguments of an outlined function are those of the runtime
      if LanguageModel.OpenMPModel.isOutlined f.name then (f.args.zipIdx.drop 2).foldlM (propagatePointees lib i) state
      else some state

def addUserFunction (st : PassState) (f : FunctionIR) (users : List ℕ) : FunctionUse → Option (List ℕ)
  | .blockAddress => some users
  | .unknown => none
  | .callSite site => if mismatched f site then none else some (users.insert (st.module.instFunction site.inst))

/-- The functions that call the function, if all its uses are understood. -/
def getUserFunctions (st : PassState) (i : ℕ) (f : FunctionIR) : List ℕ :=
  ((lib.uses st i).foldlM (addUserFunction st f) []).getD []

end OpenRace
