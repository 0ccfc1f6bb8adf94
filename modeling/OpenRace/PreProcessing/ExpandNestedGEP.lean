import Mathlib.Data.List.Basic
import Mathlib.Data.List.Nodup
import Mathlib.Data.List.Chain

/-! Constant expressions among the operands of a function become instructions, until none is left. -/

namespace OpenRace

mutual
/-- Instructions, arguments and the constants that are no expression are numbered. -/
inductive ExprOperand
  | value (id : ℕ)
  | constantExpr (opcode : String) (operands : ExprOperands)
deriving DecidableEq

inductive ExprOperands
  | nil
  | cons (operand : ExprOperand) (rest : ExprOperands)
deriving DecidableEq
end

def ExprOperands.toList : ExprOperands → List ExprOperand
  | nil => []
  | cons operand rest => operand :: rest.toList

def ExprOperand.isConstantExpr : ExprOperand → Bool
  | value _ => false
  | constantExpr _ _ => true

inductive ExprOpcode
  | phi
  | other (name : String)
deriving DecidableEq

structure ExprInst where
  id : ℕ
  opcode : ExprOpcode
  operands : List ExprOperand
  /-- Of a phi, one for each operand. -/
  incomingBlocks : List ℕ := []

namespace ExprInst

def isPHI (inst : ExprInst) : Bool := inst.opcode = .phi

def replaceUsesOfWith (inst : ExprInst) (source target : ExprOperand) : ExprInst :=
  { inst with operands := inst.operands.map fun op => if op = source then target else op }

end ExprInst

structure ExprBlock where
  label : ℕ
  instructions : List ExprInst
  successors : List ℕ

/-- The entry is the first block. The next instruction that is made gets `nextId`. -/
structure ExprFunction where
  blocks : List ExprBlock
  nextId : ℕ

section Pass

structure Expansion where
  inserted : List ExprInst := []
  inst : ExprInst
  nextId : ℕ

def expandOperand (st : Expansion) (i : ℕ) : Expansion :=
  match st.inst.operands[i]? with
  | some (.constantExpr opcode operands) =>
    { inserted := st.inserted ++ [⟨st.nextId, .other opcode, operands.toList, []⟩]
      inst := st.inst.replaceUsesOfWith (.constantExpr opcode operands) (.value st.nextId)
      nextId := st.nextId + 1 }
  | _ => st

def expandInst (nextId : ℕ) (inst : ExprInst) : Expansion :=
  (List.range inst.operands.length).foldl expandOperand ⟨[], inst, nextId⟩

def expandInsts (nextId : ℕ) : List ExprInst → List ExprInst × ℕ
  | [] => ([], nextId)
  | inst :: rest =>
    let st := expandInst nextId inst
    let (done, nextId) := expandInsts st.nextId rest
    (st.inserted ++ st.inst :: done, nextId)

def expandBlocks (nextId : ℕ) : List ExprBlock → List ExprBlock × ℕ
  | [] => ([], nextId)
  | block :: rest =>
    let (instructions, nextId) := expandInsts nextId block.instructions
    let (done, nextId) := expandBlocks nextId rest
    ({ block with instructions := instructions } :: done, nextId)

def expandRound (f : ExprFunction) : ExprFunction :=
  ⟨(expandBlocks f.nextId f.blocks).1, (expandBlocks f.nextId f.blocks).2⟩

/-- The loop with so many rounds, and whether the function changed. A round without an insertion is
the fixed point. -/
def expandNestedGEP : ℕ → ExprFunction → Option (ExprFunction × Bool)
  | 0, _ => none
  | rounds + 1, f =>
    if (expandRound f).nextId = f.nextId then some (expandRound f, false)
    else (expandNestedGEP rounds (expandRound f)).map fun result => (result.1, true)

end Pass

section WellFormed

def PhisFirst (instructions : List ExprInst) : Prop :=
  (instructions.map ExprInst.isPHI).Pairwise fun first second : Bool => second = true → first = true

mutual
def ExprOperand.Below (bound : ℕ) : ExprOperand → Prop
  | .value id => id < bound
  | .constantExpr _ operands => operands.Below bound

def ExprOperands.Below (bound : ℕ) : ExprOperands → Prop
  | .nil => True
  | .cons operand rest => operand.Below bound ∧ rest.Below bound
end

def ExprFunction.ids (f : ExprFunction) : List ℕ := f.blocks.flatMap fun block => block.instructions.map ExprInst.id

structure ValidFunction extends ExprFunction where
  phisFirst : ∀ block ∈ blocks, PhisFirst block.instructions
  distinct : toExprFunction.ids.Nodup
  numbered : ∀ id ∈ toExprFunction.ids, id < nextId
  operands : ∀ block ∈ blocks, ∀ inst ∈ block.instructions, ∀ op ∈ inst.operands, op.Below nextId

def ExprFunction.BlockDominates (f : ExprFunction) (dominator label : ℕ) : Prop :=
  ∀ path : List ℕ, path.head? = f.blocks.head?.map ExprBlock.label → path.getLast? = some label →
    path.IsChain (fun source target => ∃ block ∈ f.blocks, block.label = source ∧ target ∈ block.successors) →
    dominator ∈ path

/-- A phi uses an operand where the block ends that it comes from, another instruction uses it where it stands. -/
def ExprFunction.DominatesUse (f : ExprFunction) (id : ℕ) (block : ExprBlock) (before : List ExprInst)
    (user : ExprInst) (operand : ℕ) : Prop :=
  if user.isPHI then
    ∃ incoming, user.incomingBlocks[operand]? = some incoming ∧
      ∃ other ∈ f.blocks, (∃ inst ∈ other.instructions, inst.id = id) ∧ f.BlockDominates other.label incoming
  else
    (∃ inst ∈ before, inst.id = id) ∨
      ∃ other ∈ f.blocks, other.label ≠ block.label ∧ (∃ inst ∈ other.instructions, inst.id = id) ∧
        f.BlockDominates other.label block.label

structure Expanded (firstId : ℕ) (f : ExprFunction) : Prop where
  noConstantExpr : ∀ block ∈ f.blocks, ∀ inst ∈ block.instructions, ∀ op ∈ inst.operands, ¬op.isConstantExpr
  phisFirst : ∀ block ∈ f.blocks, PhisFirst block.instructions
  distinct : f.ids.Nodup
  dominates : ∀ block ∈ f.blocks, ∀ before user after, block.instructions = before ++ user :: after →
    ∀ operand id, user.operands[operand]? = some (.value id) → firstId ≤ id →
      f.DominatesUse id block before user operand

end WellFormed

end OpenRace
