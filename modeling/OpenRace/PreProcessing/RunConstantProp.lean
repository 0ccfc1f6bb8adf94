import OpenRace.PreProcessing.ArgumentPropagation

/-! The constant propagation over all functions of a module. -/

namespace OpenRace

open LLVM

namespace PropState

variable (m : ModuleIR) (lib : ConstantFolding)

def finds (st : PropState) (inst : Inst) : Bool :=
  let st := { st with workList := st.workList.filter (· != inst.id) }
  !(st.users m inst.id).isEmpty && (st.constantFor m lib inst).isSome

def visitChanged (state : PropState × Bool) (inst : Inst) : PropState × Bool :=
  (state.1.visit m lib inst, state.2 || state.1.finds m lib inst)

def propagateChanged : ℕ → PropState × Bool → List Inst → PropState × Bool
  | 0, state, _ => state
  | fuel + 1, (st, changed), worklist =>
    if st.workList.isEmpty then (st, changed)
    else
      let state := worklist.foldl (visitChanged m lib) ({ st with newWorkListVec := [] }, changed)
      propagateChanged fuel state (state.1.newWorkListVec.filterMap fun id => m.instructions.find? (·.id == id))

end PropState

variable (lib : PassLibrary) (fuel : ℕ)

namespace PassState

variable (st : PassState)

def bodyOf (f : FunctionIR) : List Inst := f.insts.filter fun inst => !st.erased.contains inst.id

def started (f : FunctionIR) : PropState :=
  { replaced := st.replaced, erased := st.erased, workList := (st.bodyOf f).map Inst.id }

def intraConstantProp (i : ℕ) : Option (PassState × Bool) :=
  match st.module.functions[i]? with
  | none => some (st, false)
  | some f =>
    let (prop, changed) :=
      PropState.propagateChanged st.module.ir lib.toConstantFolding fuel (st.started f, false) (st.bodyOf f)
    if prop.workList.isEmpty then some ({ st with replaced := prop.replaced, erased := prop.erased }, changed) else none

end PassState

/-- The calling function of an edge comes first. -/
abbrev UserEdges : Type := List (ℕ × ℕ)

def scanFunction (state : PassState × UserEdges) (i : ℕ) : Option (PassState × UserEdges) := do
  let (st, _) ← state.1.intraConstantProp lib fuel i
  match st.module.functions[i]? with
  | none => some (st, state.2)
  | some f => some (st, state.2 ++ (getUserFunctions lib st i f).map fun user => (user, i))

def scanFunctions (st : PassState) : Option (PassState × UserEdges) :=
  (List.range st.module.functions.length).foldlM (scanFunction lib fuel) (st, [])

structure RoundState where
  st : PassState
  changedFunction : List ℕ
  argPropagated : Bool

def propagateInto (state : RoundState) (i : ℕ) : Option RoundState :=
  if (state.st.module.functions[i]?).any FunctionIR.isDeclaration then some state
  else do
    let (st, made) ← propagateConstantsIntoArguments lib state.st i
    some ⟨st, if made then state.changedFunction.insert i else state.changedFunction, state.argPropagated || made⟩

/-- Rounds over the functions of the work list, until one changes nothing. -/
def argumentRounds : ℕ → PassState → List ℕ → List ℕ → Option (PassState × List ℕ)
  | 0, _, _, _ => none
  | fuel + 1, st, work, changedFunction => do
    let round ← (lib.order work).foldlM (propagateInto lib) ⟨st, changedFunction, false⟩
    if round.argPropagated then argumentRounds fuel round.st work round.changedFunction
    else some (round.st, round.changedFunction)

structure InsideState where
  st : PassState
  functionChanged : Bool
  work : List ℕ

def propagateInside (edges : UserEdges) (state : InsideState) (i : ℕ) : Option InsideState := do
  let (st, furtherPropagated) ← state.st.intraConstantProp lib fuel i
  let callees := (edges.filter (·.1 == i)).map Prod.snd
  some ⟨st, state.functionChanged || furtherPropagated,
    if furtherPropagated then state.work ++ callees else state.work⟩

/-- The loop while functions change; no round over the arguments is made unless the last one changed some. -/
def whileFunctionsChange (edges : UserEdges) : ℕ → PassState → Bool → List ℕ → Option PassState
  | 0, _, _, _ => none
  | rounds + 1, st, argPropagated, work => do
    let (st, changedFunction) ← if argPropagated then argumentRounds lib fuel st work [] else some (st, [])
    let inside ← (lib.order changedFunction).foldlM (propagateInside lib fuel edges) ⟨st, false, []⟩
    if inside.functionChanged then whileFunctionsChange edges rounds inside.st false inside.work else some inside.st

/-- The callers are the first work list. -/
def runOpenMPConstantPropagation (st : PassState) : Option PassState := do
  let (st, edges) ← scanFunctions lib fuel st
  whileFunctionsChange lib fuel edges fuel st true (edges.map Prod.fst)

end OpenRace
