import OpenRace.Analysis.ArrayIndex
import OpenRace.LLVM.ScalarEvolution

/-! Whether two array accesses of a parallel loop can touch an element in different iterations. -/

namespace OpenRace

open LLVM LanguageModel

namespace BitExtSCEVRewriter

mutual

/-- The visit is repeated until nothing changes. -/
def visit (se : ScalarEvolution) : ℕ → SCEV → Option SCEV
  | 0, _ => none
  | fuel + 1, expr => do
    let result ← superVisit se fuel expr
    if result == expr then some result else visit se fuel result

def superVisit (se : ScalarEvolution) : ℕ → SCEV → Option SCEV
  | 0, _ => none
  | fuel + 1, expr =>
    match expr with
    | .cast .signExtend operand type => rewriteCastExpr se fuel .signExtend operand type
    | .cast .zeroExtend operand type => rewriteCastExpr se fuel .zeroExtend operand type
    | _ => do
      let operands ← expr.operands.mapM (visit se fuel)
      some (se.rebuild expr operands)

def rewriteCastExpr (se : ScalarEvolution) : ℕ → SCEVCastKind → SCEV → ℕ → Option SCEV
  | 0, _, _, _ => none
  | fuel + 1, kind, operand, type => do
    let visited ← superVisit se fuel operand
    let buildCastExpr := fun op => se.getCastExpr kind op type
    match visited with
    | .nary .mul operands => some (se.getNAryExpr .mul (operands.map buildCastExpr))
    | .nary .add operands => some (se.getNAryExpr .add (operands.map buildCastExpr))
    | .addRec operands loop =>
      some (se.getAddRecExpr (operands.map buildCastExpr) loop (se.getNoWrapFlags visited))
    | _ => some (if visited == operand then .cast kind operand type else buildCastExpr visited)

end

end BitExtSCEVRewriter

namespace SCEVBoundApplier

mutual

/-- The recurrences of other loops than the parallel one are replaced by their last values. -/
def visit (se : ScalarEvolution) (ompLoop : ℕ) : SCEV → SCEV
  | .addRec [start, step] loop =>
    if loop == ompLoop then .addRec [start, step] loop
    else match se.getBackedgeTakenCount loop with
      | .constant value type =>
        se.getNAryExpr .add [visit se ompLoop start, se.getNAryExpr .mul [.constant value type, step]]
      | _ => .addRec [start, step] loop
  | .cast kind operand type => se.rebuild (.cast kind operand type) [visit se ompLoop operand]
  | .nary kind operands => se.rebuild (.nary kind operands) (visitOperands se ompLoop operands)
  | .udiv lhs rhs => se.rebuild (.udiv lhs rhs) [visit se ompLoop lhs, visit se ompLoop rhs]
  | expr => expr

def visitOperands (se : ScalarEvolution) (ompLoop : ℕ) : List SCEV → List SCEV
  | [] => []
  | operand :: rest => visit se ompLoop operand :: visitOperands se ompLoop rest

end

end SCEVBoundApplier

def stripSCEVBaseAddr (root : SCEV) : Option SCEV := findSCEVExpr root SCEV.isAddRec

def getNextIterSCEV (se : ScalarEvolution) (start step : SCEV) (loop : ℕ) : SCEV :=
  se.getAddRecExpr [se.getNAryExpr .add [start, step], step] loop (se.getNoWrapFlags (.addRec [start, step] loop))

structure BoundStore where
  id : ℕ
  /-- The stored value where it is a constant integer. -/
  value : Option ℤ
deriving DecidableEq

structure Alloca where
  /-- The stores among the users. -/
  stores : List BoundStore
deriving DecidableEq

structure InitCall where
  id : ℕ
  calledFunction : Option String
  /-- The arguments that are local variables. -/
  args : List (Option Alloca)
deriving DecidableEq

structure LoopFunction where
  blocks : List (ℕ × List InitCall)
  /-- The unique predecessor of the preheader of a loop. -/
  initBlock : ℕ → Option ℕ
  dominates : BoundStore → InitCall → Bool

namespace OpenMPLoopManager

def isStaticInitCall (call : InitCall) : Bool :=
  match call.calledFunction with
  | some funcName => OpenMPModel.isForStaticInit funcName
  | none => false

/-- The first such call of the block is kept. -/
def getStaticInitCallIfExist (body : LoopFunction) (loop : ℕ) : Option InitCall := do
  let initBlock ← body.initBlock loop
  let calls ← body.blocks.lookup initBlock
  calls.find? isStaticInitCall

def isOMPForLoop (body : LoopFunction) (loop : ℕ) : Bool := (getStaticInitCallIfExist body loop).isSome

/-- Only a single store before the call tells the bound. -/
def resolveBoundValue (body : LoopFunction) (alloca : Alloca) (initCall : InitCall) : Option ℤ :=
  match alloca.stores.filter fun store => body.dominates store initCall with
  | [store] => store.value
  | _ => none

def resolveBounds (body : LoopFunction) (initCall : InitCall) (lower upper : Option (Option Alloca)) :
    Option ℤ × Option ℤ :=
  match lower, upper with
  | some (some allocaLB), some (some allocaUB) =>
    (resolveBoundValue body allocaLB initCall, resolveBoundValue body allocaUB initCall)
  | _, _ => (none, none)

def resolveOMPLoopBoundOfCall (body : LoopFunction) (initForCall : InitCall) : Option ℤ × Option ℤ :=
  match initForCall.calledFunction with
  | some funcName =>
    if OpenMPModel.isForStaticInit funcName then
      resolveBounds body initForCall initForCall.args[4]? initForCall.args[5]?
    else if OpenMPModel.isForDispatchInit funcName then
      resolveBounds body initForCall initForCall.args[3]? initForCall.args[4]?
    else (none, none)
  | none => (none, none)

def resolveOMPLoopBound (body : LoopFunction) (loop : ℕ) : Option ℤ × Option ℤ :=
  match getStaticInitCallIfExist body loop with
  | some initForCall => resolveOMPLoopBoundOfCall body initForCall
  | none => (none, none)

def getOMPLoopSCEV (body : LoopFunction) (root : SCEV) : Option SCEV :=
  findSCEVExpr root fun expr =>
    match expr with
    | .addRec _ loop => isOMPForLoop body loop
    | _ => false

end OpenMPLoopManager

structure ArrayEvent where
  /-- The address computation that the accessed value is, past pointer casts. -/
  accessed : Option ArrayAddress

def getGEP (event : ArrayEvent) : Option ArrayAddress := event.accessed

structure FunctionAnalyses where
  scev : ScalarEvolution
  body : LoopFunction

namespace SimpleArrayAnalysis

def isArrayAccess (gep : GetElementPtr) : Bool :=
  if gep.pointee == .array || startsWith gep.name "arrayidx" then true
  else if gep.pointee == .struct then false
  else true

def isLoopArrayAccess (event1 event2 : ArrayEvent) : Bool :=
  match getGEP event1, getGEP event2 with
  | some gep1, some gep2 => isArrayAccess gep1.gep && isArrayAccess gep2.gep
  | _, _ => false

/-- The absolute value, as `getLimitedValue` gives it. -/
def limitedAbs (value : ℤ) : ℕ := min value.natAbs (UInt64.size - 1)

def checkAligned (gep1 gep2 : ArrayAddress) : Except IndexError (Option Bool) := do
  let typ1 ← getAccessTypeFor gep1
  let typ2 ← getAccessTypeFor gep2
  if typ1 == .noRace && typ2 == .noRace then return some false
  else if typ1 == .race || typ2 == .race then return some true
  else return none

def absInt64 (value : ℤ) : Except IndexError ℕ :=
  if value = Int64.minValue.toInt then .error .overflow else .ok value.natAbs

def divideUInt64 (lhs rhs : ℕ) : Except IndexError ℕ :=
  if rhs = 0 then .error .divisionByZero else .ok (lhs / rhs)

def reachesDistance (bounds : Option ℤ × Option ℤ) (distance loopStep : ℕ) : Except IndexError Bool :=
  match bounds with
  | (some lower, some upper) => do
    let lowerBound ← absInt64 lower
    let upperBound ← absInt64 upper
    let steps ← divideUInt64 distance loopStep
    return !(max lowerBound upperBound < steps)
  | _ => .ok true

def distanceTest (bounds : Option ℤ × Option ℤ) (diff step : ℤ) : Except IndexError Bool :=
  let distance := limitedAbs diff
  let loopStep := limitedAbs step
  if distance = loopStep then .ok true
  else if distance < loopStep then .ok false
  else reachesDistance bounds distance loopStep

def checkDistance (body : LoopFunction) (loop : ℕ) (step diff : SCEV) : Except IndexError Bool :=
  match diff, step with
  | .constant diffValue _, .constant stepValue _ =>
    distanceTest (OpenMPLoopManager.resolveOMPLoopBound body loop) diffValue stepValue
  | _, _ => .ok true

def isPositiveConstant : SCEV → Bool
  | .constant value _ => 0 < value
  | _ => false

def gaps (se : ScalarEvolution) (loop : ℕ) (next1 next2 scev1 scev2 : SCEV) : List SCEV :=
  let b1 := SCEVBoundApplier.visit se loop scev1
  let b2 := SCEVBoundApplier.visit se loop scev2
  [se.getMinusSCEV next1 b1, se.getMinusSCEV next1 b2, se.getMinusSCEV next2 b1, se.getMinusSCEV next2 b2]

def checkRecurrences (fam : FunctionAnalyses) (scev1 scev2 diff : SCEV) : Except IndexError Bool :=
  match OpenMPLoopManager.getOMPLoopSCEV fam.body scev1, OpenMPLoopManager.getOMPLoopSCEV fam.body scev2,
    stripSCEVBaseAddr scev1, stripSCEVBaseAddr scev2 with
  | some (.addRec [start1, step1] loop1), some (.addRec [start2, step2] loop2), some stripped1, some stripped2 =>
    if loop1 != loop2 then .ok true
    else if .addRec [start1, step1] loop1 == stripped1 && .addRec [start2, step2] loop2 == stripped2 then
      checkDistance fam.body loop1 step1 diff
    else
      let n1 := getNextIterSCEV fam.scev start1 step1 loop1
      let n2 := getNextIterSCEV fam.scev start2 step2 loop2
      .ok !(gaps fam.scev loop1 n1 n2 stripped1 stripped2).all isPositiveConstant
  | _, _, _, _ => .ok true

def canAddressesOverlap (fam : FunctionAnalyses) (gep1 gep2 : ArrayAddress) (scev1 scev2 : SCEV) :
    Except IndexError Bool := do
  let diff := fam.scev.getMinusSCEV scev1 scev2
  match diff with
  | .constant value _ =>
    if value == 0 then
      match ← checkAligned gep1 gep2 with
      | some answer => return answer
      | none => checkRecurrences fam scev1 scev2 diff
    else checkRecurrences fam scev1 scev2 diff
  | _ => return true

/-- `event1` is a write; `fuel` bounds the rewriting of the addresses. -/
def canIndexOverlap (fam : ℕ → FunctionAnalyses) (fuel : ℕ) (event1 event2 : ArrayEvent) :
    Option (Except IndexError Bool) :=
  match getGEP event1, getGEP event2 with
  | some gep1, some gep2 =>
    if !isArrayAccess gep1.gep || !isArrayAccess gep2.gep then some (.ok false)
    else if gep1.function != gep2.function then some (.ok false)
    else do
      let scev := (fam gep1.function).scev
      let scev1 ← BitExtSCEVRewriter.visit scev fuel (scev.getSCEV gep1)
      let scev2 ← BitExtSCEVRewriter.visit scev fuel (scev.getSCEV gep2)
      some (canAddressesOverlap (fam gep1.function) gep1 gep2 scev1 scev2)
  | _, _ => some (.ok false)

end SimpleArrayAnalysis

open SimpleArrayAnalysis in
def isNonOverlappingLoopAccess (fam : ℕ → FunctionAnalyses) (fuel : ℕ) (event1 event2 : ArrayEvent) :
    Option (Except IndexError Bool) :=
  if isLoopArrayAccess event1 event2 then (canIndexOverlap fam fuel event1 event2).map (Except.map not)
  else some (.ok false)

end OpenRace
