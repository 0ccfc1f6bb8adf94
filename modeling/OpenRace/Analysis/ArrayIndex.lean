import OpenRace.LLVM.IndexValues
import OpenRace.LanguageModel.OpenMP

/-! Whether the indices of an array access are aligned with the parallel loop, as their names tell. -/

namespace OpenRace

open LLVM LanguageModel

inductive IndexError
  | constantOperands
  | notSExt
  | noFrontPhi
  | badOptionalAccess
  | overflow
  | divisionByZero
deriving DecidableEq

def isMathOp : IndexValue → Bool
  | .binary .. | .cast .. => true
  | _ => false

inductive IndexType
  | indvars | indvarsNext | idxprom | storeMerge | intermediate | unknown
deriving DecidableEq

def getNameType (name : String) : IndexType :=
  if startsWith name "indvars." then .indvars
  else if startsWith name "indvars.iv.next" then .indvarsNext
  else if startsWith name "idxprom" then .idxprom
  else if startsWith name "storemerge" then .storeMerge
  else .unknown

def getIndexType (idx : IndexValue) : IndexType :=
  if idx.hasName then getNameType idx.getName
  else if isMathOp idx then .intermediate
  else .unknown

def isOmpRelevantName (idxName : String) : Bool :=
  getNameType idxName == .indvars || getNameType idxName == .idxprom || getNameType idxName == .storeMerge

/-- What is asked of a value: what the loop of `computeIdxName` ends at from the value on, and the answers of
`getInductionVarName` for a last operand, of `getInductionVarNameForIdxprom` for the operand of the extension, and of
the same for the address of a load, with the address's own name. -/
inductive NameQuery
  | loop
  | lastOperand
  | idxpromOperand
  | loadedFrom (name : String)

def computeIdxNameStep (ir operand : IndexValue) (next forIdxprom : Except IndexError (Option String)) :
    Except IndexError (Option String) :=
  if getIndexType operand == .indvars then next
  else if getIndexType ir == .indvars then .ok (some ir.getName)
  else if getIndexType ir == .idxprom then forIdxprom
  else next

def nameOfMathOp (ir : IndexValue) (loop forIdxprom : Except IndexError (Option String)) :
    NameQuery → Except IndexError (Option String)
  | .loop => loop
  | .lastOperand =>
    match getIndexType ir with
    | .indvarsNext | .intermediate => loop
    | .indvars => .ok (some ir.getName)
    | .idxprom => forIdxprom
    | _ => .ok none
  | .idxpromOperand => if getIndexType ir == .storeMerge then .ok (some ir.getName) else loop
  | .loadedFrom name => .ok (some name)

/-- The answers for other values, of which only instructions end the loop with a name. -/
def nameOfOther (value : IndexValue) : NameQuery → Except IndexError (Option String)
  | .loop => .ok (if value.isInstruction then some value.getName else none)
  | .lastOperand =>
    match getIndexType value with
    | .indvars => .ok (some value.getName)
    | .idxprom => .error .notSExt
    | _ => .ok none
  | .idxpromOperand => .ok (if getIndexType value == .storeMerge then some value.getName else none)
  | .loadedFrom name => .ok (some name)

/-- The analysis follows the operand that is not constant. -/
def nameOf : IndexValue → NameQuery → Except IndexError (Option String)
  | .binary name op width lhs rhs, query =>
    let ir := IndexValue.binary name op width lhs rhs
    let loop :=
      if !lhs.isConstant then computeIdxNameStep ir lhs (nameOf lhs .loop) (.error .notSExt)
      else if !rhs.isConstant then computeIdxNameStep ir rhs (nameOf rhs .loop) (.error .notSExt)
      else .error .constantOperands
    nameOfMathOp ir loop (.error .notSExt) query
  | .cast name op width operand, query =>
    let ir := IndexValue.cast name op width operand
    let forIdxprom := if op == .sext then nameOf operand .idxpromOperand else .error .notSExt
    let loop :=
      if !operand.isConstant then computeIdxNameStep ir operand (nameOf operand .loop) forIdxprom
      else .error .constantOperands
    match query, op with
    | .loadedFrom name, .bitcast => nameOf operand (.loadedFrom name)
    | _, _ => nameOfMathOp ir loop forIdxprom query
  | .load _ pointer, .idxpromOperand => nameOf pointer (.loadedFrom pointer.getName)
  | .gep _ hasAllZeroIndices pointer lastOperand, .loadedFrom name =>
    if hasAllZeroIndices then nameOf pointer (.loadedFrom name) else nameOf lastOperand .lastOperand
  | value, query => nameOfOther value query

def computeIdxName (ir : IndexValue) : Except IndexError (Option String) :=
  if isMathOp ir then nameOf ir .loop else .ok none

def getInductionVarName (gep : GetElementPtr) : Except IndexError (Option String) := nameOf gep.lastIndex .lastOperand

def isOmpRelevant (idx : GetElementPtr) : Except IndexError Bool := do
  match ← getInductionVarName idx with
  | some idxName => return isOmpRelevantName idxName
  | none => return false

structure ArrayAccess where
  /-- The outermost index is at the end. -/
  geps : List GetElementPtr
  outerMostIdxName : Option String
  collapseLevel : ℕ := 0
  collapseRootIdx : Option String := none
deriving DecidableEq

namespace ArrayAccess

def hasCollapse (access : ArrayAccess) : Bool := access.collapseRootIdx.isSome

def isMultiDim (access : ArrayAccess) : Bool :=
  if access.outerMostIdxName.isSome then access.geps.length > 0 else access.geps.length > 1

/-- The last address computation whose index is not named "idxprom", with those before and after it. -/
def findOuterMost (geps : List GetElementPtr) : Option (List GetElementPtr × GetElementPtr × List GetElementPtr) :=
  match geps.reverse.span fun gep => getIndexType gep.lastIndex == .idxprom with
  | (_, []) => none
  | (after, gep :: before) => some (before.reverse, gep, after.reverse)

/-- The address computation whose index has been named is left out. -/
def computeOuterMostGEPIdxName (geps : List GetElementPtr) :
    Except IndexError (List GetElementPtr × Option String) := do
  match findOuterMost geps with
  | none => return (geps, none)
  | some (before, gep, after) =>
    if !gep.lastIndex.isInstruction then return (geps, none)
    match ← computeIdxName gep.lastIndex with
    | some name => if isOmpRelevantName name then return (before ++ after, some name) else return (geps, none)
    | none => return (geps, none)

/-- The number of indices, from the innermost on, with the same root, and the root. -/
def countCollapsed (rootIdx : String) (i : ℕ) : List GetElementPtr → Except IndexError (ℕ × String)
  | [] => .ok (i, rootIdx)
  | gep :: rest => do
    if getIndexType gep.lastIndex != .idxprom then return (i, rootIdx)
    match ← getInductionVarName gep with
    | none => return (i, rootIdx)
    | some idxName =>
      if rootIdx == "" then countCollapsed idxName (i + 1) rest
      else if rootIdx != idxName then return (i, rootIdx)
      else countCollapsed rootIdx (i + 1) rest

def checkCollapse (access : ArrayAccess) : Except IndexError ArrayAccess := do
  if !access.isMultiDim then return access
  let (i, rootIdx) ← countCollapsed "" 0 access.geps
  if i < 2 then return access
  return { access with
    collapseLevel := if i == access.geps.length then i else i - 1
    collapseRootIdx := some rootIdx }

def removeOMPIrrelevantGEP (access : ArrayAccess) : Except IndexError ArrayAccess := do
  if !access.isMultiDim then return access
  return { access with geps := ← access.geps.filterM isOmpRelevant }

end ArrayAccess

def getAllGEPIndexes (address : ArrayAddress) : Except IndexError ArrayAccess := do
  let (geps, outerMostIdxName) ← ArrayAccess.computeOuterMostGEPIdxName (address.gep :: address.bases)
  let access ← ArrayAccess.checkCollapse { geps, outerMostIdxName }
  if access.hasCollapse then return access else access.removeOMPIrrelevantGEP

inductive BBType
  | ompInnerForBody | forPreheader | forBody | unknown
deriving DecidableEq

def endsWith (name suffix : String) : Bool := suffix.toList.isSuffixOf name.toList

def getBasicBlockType (bbName : String) : BBType :=
  if startsWith bbName "omp.inner.for.body" && endsWith bbName ".i" then .ompInnerForBody
  else if startsWith bbName "for.body" && endsWith bbName ".i" then .forBody
  else if startsWith bbName "for.cond.preheader" && !startsWith bbName "for.cond.preheader.preheader" &&
      endsWith bbName ".i" then .forPreheader
  else .unknown

/-- The blocks are `gep`'s own and those before it, the nearest first. -/
def findLoopPhi : List LoopBlock → Option String
  | [] => none
  | block :: earlier =>
    match getBasicBlockType block.name, block.frontPhi with
    | .forPreheader, some name | .ompInnerForBody, some name => some name
    | _, _ => findLoopPhi earlier

def getOMPParallelLoopIndex (address : ArrayAddress) : Except IndexError (Option String) :=
  match getBasicBlockType address.parent.name with
  | .ompInnerForBody =>
    match address.parent.frontPhi with
    | some name => .ok (some name)
    | none => .error .noFrontPhi
  | .forBody => .ok (findLoopPhi (address.parent :: address.earlier))
  | .forPreheader | .unknown => .ok none

def isPerfectlyAlignedName (idxName : String) (parallelIdx : Option String) (isInnerIdx : Bool) :
    Except IndexError Bool :=
  if isInnerIdx then .ok (getNameType idxName == .indvars)
  else match parallelIdx with
    | some parallelIdx => .ok (parallelIdx == idxName)
    | none => .error .badOptionalAccess

def isPerfectlyAligned (gep : GetElementPtr) (parallelIdx : Option String) (isInnerIdx : Bool) :
    Except IndexError Bool := do
  match ← getInductionVarName gep, parallelIdx with
  | some idxName, some _ => isPerfectlyAlignedName idxName parallelIdx isInnerIdx
  | _, _ => return false

inductive AccessType
  | noRace | race | nd
deriving DecidableEq

def checkInner (parallelIdx : Option String) : List GetElementPtr → Except IndexError AccessType
  | [] => .ok .noRace
  | innerIdx :: rest => do
    if !(← isPerfectlyAligned innerIdx parallelIdx true) then return .race
    checkInner parallelIdx rest

def getAccessTypeForMultiDim (loopIdxes : ArrayAccess) (parallelIdx : Option String) :
    Except IndexError AccessType := do
  match loopIdxes.collapseRootIdx with
  | some rootIdx =>
    if !(← isPerfectlyAlignedName rootIdx parallelIdx false) then return .race
    checkInner parallelIdx (loopIdxes.geps.reverse.drop loopIdxes.collapseLevel)
  | none =>
    match loopIdxes.outerMostIdxName with
    | some outerMostIdx =>
      if !(← isPerfectlyAlignedName outerMostIdx parallelIdx false) then return .race
      checkInner parallelIdx loopIdxes.geps.reverse
    | none =>
      match loopIdxes.geps.reverse with
      | [] => return .noRace
      | idx :: inner =>
        if !(← isPerfectlyAligned idx parallelIdx false) then return .race
        checkInner parallelIdx inner

def getAccessTypeFor (address : ArrayAddress) : Except IndexError AccessType := do
  let gepIdxes ← getAllGEPIndexes address
  let parallelLoopIdx ← getOMPParallelLoopIndex address
  if gepIdxes.isMultiDim then getAccessTypeForMultiDim gepIdxes parallelLoopIdx
  else if gepIdxes.outerMostIdxName.isSome then
    return if parallelLoopIdx = gepIdxes.outerMostIdxName then .noRace else .nd
  else
    return if ← isPerfectlyAligned address.gep parallelLoopIdx false then .noRace else .nd

end OpenRace
