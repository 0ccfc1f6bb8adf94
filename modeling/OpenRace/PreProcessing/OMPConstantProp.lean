import OpenRace.LLVM.GlobalValues

/-! Constants for the loads of global variables. -/

namespace OpenRace

open LLVM

structure ConstantFolding where
  /-- The constant of an operation whose operands are constants. -/
  fold : Ty → ℕ → List Constant → Option Constant
  getFPToSI : Constant → Ty → Constant
  getSIToFP : Constant → Ty → Constant
  /-- The instruction is trivially dead when it has no uses. -/
  isRemovable : Inst → Bool

def convertConstant (lib : ConstantFolding) (c : Constant) (type : Ty) : Option Constant :=
  if c.getType.isFloatingPointTy && type.isIntegerTy then some (lib.getFPToSI c type)
  else if c.getType.isIntegerTy && type.isFloatingPointTy then some (lib.getSIToFP c type)
  else none

abbrev Replacements : Type := List (ℕ × Constant)

namespace Replacements

def get (replaced : Replacements) (id : ℕ) : Option Constant := replaced.lookup id

def subst (replaced : Replacements) : Operand → Operand
  | .constant c => .constant c
  | .argument id => .argument id
  | .result id =>
    match replaced.get id with
    | some c => .constant c
    | none => .result id
  | .castResult id operand =>
    match replaced.get id with
    | some c => .constant c
    | none => .castResult id (subst replaced operand)

end Replacements

def stripPointerCasts : Operand → Operand
  | .castResult _ operand => stripPointerCasts operand
  | .constant c => .constant c.stripPointerCasts
  | operand => operand

def globalOf (operand : Operand) : Option ℕ :=
  match stripPointerCasts operand with
  | .constant (.global id _) => some id
  | _ => none

def constantOf : Operand → Option Constant
  | .constant c => some c
  | _ => none

structure PropState where
  replaced : Replacements := []
  erased : List ℕ := []
  workList : List ℕ := []
  newWorkListVec : List ℕ := []

namespace PropState

variable (m : ModuleIR) (lib : ConstantFolding) (st : PropState)

def instructions : List Inst := m.instructions.filter fun inst => !st.erased.contains inst.id

def operands (inst : Inst) : List Operand := inst.operands.map st.replaced.subst

def users (id : ℕ) : List Inst :=
  (st.instructions m).filter fun inst => (st.operands inst).any fun operand => operand.inst == some id

def isStoreUser (id : ℕ) : Inst → Bool
  | .store _ _ value pointer =>
    [value, pointer].any fun operand =>
      match st.replaced.subst operand with
      | .constant (.global id' _) => id' == id
      | _ => false
  | _ => false

def hasGlobalOverwritten (id : ℕ) : Bool := (st.instructions m).any (st.isStoreUser id)

def loadedConstant (id : ℕ) : Option Constant :=
  match m.getGlobal id with
  | some gv =>
    if gv.initializer.isSome && !gv.hasCommonLinkage && (gv.isConstant || !st.hasGlobalOverwritten m id) then
      gv.initializer
    else none
  | none => none

def constantFor (inst : Inst) : Option Constant :=
  match inst with
  | .load _ _ pointer => do st.loadedConstant m (← globalOf (st.replaced.subst pointer))
  | .store .. => none
  | .cast _ type operand => do some (.pointerCast (← constantOf (st.replaced.subst operand)) type)
  | .operation _ type opcode operands =>
    do lib.fold type opcode (← (operands.map st.replaced.subst).mapM constantOf)

def addUsers (users : List Inst) : PropState :=
  users.foldl (fun st user =>
    if st.workList.contains user.id then st
    else { st with workList := user.id :: st.workList, newWorkListVec := st.newWorkListVec ++ [user.id] }) st

def convert (type : Option Ty) (c : Constant) : Option Constant :=
  if some c.getType = type then some c else type.bind (convertConstant lib c)

def replace (id : ℕ) : Option Constant → PropState
  | some c => { st with replaced := (id, c) :: st.replaced }
  | none => st

def eraseDead (inst : Inst) : PropState :=
  if (st.users m inst.id).isEmpty && lib.isRemovable inst then { st with erased := inst.id :: st.erased } else st

def visit (inst : Inst) : PropState :=
  let st := { st with workList := st.workList.filter (· != inst.id) }
  if (st.users m inst.id).isEmpty then st
  else match st.constantFor m lib inst with
    | none => st
    | some c => (((st.addUsers (st.users m inst.id)).replace inst.id (convert lib inst.resultType c))).eraseDead m lib inst

def visitAll (worklist : List Inst) : PropState := worklist.foldl (fun st inst => st.visit m lib inst) st

/-- The rounds of the pass, of which there are no more than `fuel`. -/
def propagate : ℕ → PropState → List Inst → PropState
  | 0, st, _ => st
  | fuel + 1, st, worklist =>
    if st.workList.isEmpty then st
    else
      let st := visitAll m lib { st with newWorkListVec := [] } worklist
      propagate fuel st (st.newWorkListVec.filterMap fun id => m.instructions.find? (·.id == id))

end PropState

def intraConstantProp (m : ModuleIR) (lib : ConstantFolding) (fuel : ℕ) (f : List Inst) : PropState :=
  PropState.propagate m lib fuel { workList := f.map Inst.id } f

end OpenRace
