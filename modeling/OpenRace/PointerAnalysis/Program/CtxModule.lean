import Mathlib.Data.List.Basic

/-! Call graphs with contexts, built from the entry function and as function pointers are resolved. -/

namespace OpenRace.CtxModule

inductive Callee (Fn : Type)
  | direct (function : Fn)
  | indirect
  | inlineAsm

structure CallSite (Fn Inst : Type) where
  inst : Inst
  callee : Callee Fn

inductive RedirectTo (Fn Val : Type)
  | function (target : Fn)
  | pointer (value : Val)

inductive InterceptOption
  | expandBody
  | onlyCallsite
  | ignoreFun
deriving DecidableEq

structure InterceptResult (Fn Val : Type) where
  redirectTo : RedirectTo Fn Val
  option : InterceptOption

/-- A module with its context abstraction and a language model that looks at the target function only. -/
structure Program (Ctx Fn Inst Val : Type) where
  /-- The calls in the body of a function. -/
  calls : Fn → List (CallSite Fn Inst)
  distinct : ∀ {f g : Fn} {cs cs' : CallSite Fn Inst}, cs ∈ calls f → cs' ∈ calls g → cs.inst = cs'.inst → f = g
  /-- What the callback on a new node answers: neither a declaration nor an intrinsic. -/
  hasBody : Fn → Bool
  entry : Fn
  entry_hasBody : hasBody entry = true
  initialCtx : Ctx
  contextEvolve : Ctx → Inst → Ctx
  intercept : Fn → InterceptResult Fn Val

inductive Target (Fn Inst Val : Type)
  | func (function : Fn) (isExt : Bool)
  | funPtr (callSite : Inst) (funPtr : Option Val)

structure CallNode (Ctx Fn Inst Val : Type) where
  context : Ctx
  target : Target Fn Inst Val

def CallNode.isIndirectCall {Ctx Fn Inst Val : Type} (node : CallNode Ctx Fn Inst Val) : Bool :=
  match node.target with
  | .func .. => false
  | .funPtr .. => true

/-- Nodes are known by the order of their creation; the sets that nodes hold are relations here. -/
structure State (Ctx Fn Inst Val : Type) where
  nodes : List (CallNode Ctx Fn Inst Val) := []
  edges : List (ℕ × Inst × ℕ) := []
  ctxFunMap : List ((Ctx × Fn) × ℕ) := []
  ctxFunPtrMap : List ((Ctx × Inst) × ℕ) := []
  targets : List (ℕ × Fn) := []
  resolvedNode : List (ℕ × ℕ) := []
  /-- History variable: the nodes whose bodies were expanded. -/
  visited : List ℕ := []

inductive Failure
  | assertion
  | outOfFuel
deriving DecidableEq

variable {Ctx Fn Inst Val : Type} [DecidableEq Ctx] [DecidableEq Fn] [DecidableEq Inst]

namespace State

variable (st : State Ctx Fn Inst Val)

def createCallNode (context : Ctx) (function : Fn) (isExt : Bool) : State Ctx Fn Inst Val := { st with
  nodes := st.nodes ++ [⟨context, .func function isExt⟩]
  ctxFunMap := ((context, function), st.nodes.length) :: st.ctxFunMap }

def createIndCallNode (context : Ctx) (inst : Inst) (target : Option Val) : State Ctx Fn Inst Val := { st with
  nodes := st.nodes ++ [⟨context, .funPtr inst target⟩]
  ctxFunPtrMap := ((context, inst), st.nodes.length) :: st.ctxFunPtrMap }

def getOrCreateInDirectCallNode (context : Ctx) (inst : Inst) (target : Option Val) : State Ctx Fn Inst Val × ℕ :=
  match st.ctxFunPtrMap.lookup (context, inst) with
  | some node => (st, node)
  | none => (st.createIndCallNode context inst target, st.nodes.length)

def createEdge (src dst : ℕ) (inst : Inst) : State Ctx Fn Inst Val :=
  if (src, inst, dst) ∈ st.edges then st else { st with edges := st.edges ++ [(src, inst, dst)] }

end State

variable (P : Program Ctx Fn Inst Val) (st : State Ctx Fn Inst Val)

/-- The node of a call, unless it is ignored, and whether its body is to be expanded. -/
def getOrCreateCallNode (curCtx preCtx : Ctx) (function : Fn) (inst : Inst) :
    State Ctx Fn Inst Val × Option (ℕ × Bool) :=
  let interceptResult := P.intercept function
  if interceptResult.option = .ignoreFun then (st, none)
  else match interceptResult.redirectTo with
  | .function target =>
    match st.ctxFunMap.lookup (curCtx, target) with
    | some node => (st, some (node, false))
    | none =>
      let needToExpand := decide (interceptResult.option = .expandBody) && P.hasBody target
      (st.createCallNode curCtx target !needToExpand, some (st.nodes.length, needToExpand))
  | .pointer value =>
    let (st, node) := st.getOrCreateInDirectCallNode preCtx inst value
    (st, some (node, false))

def visitCallSite (node : ℕ) (context : Ctx) (state : State Ctx Fn Inst Val × List ℕ) (cs : CallSite Fn Inst) :
    State Ctx Fn Inst Val × List ℕ :=
  let (st, queue) := state
  match cs.callee with
  | .indirect =>
    let (st, target) := st.getOrCreateInDirectCallNode context cs.inst none
    (st.createEdge node target cs.inst, queue)
  | .inlineAsm => (st, queue)
  | .direct function =>
    match getOrCreateCallNode P st (P.contextEvolve context cs.inst) context function cs.inst with
    | (st, none) => (st, queue)
    | (st, some (target, needToHandle)) =>
      (st.createEdge node target cs.inst, if needToHandle then queue ++ [target] else queue)

def visitCallNode (node : ℕ) (queue : List ℕ) : State Ctx Fn Inst Val × List ℕ :=
  match st.nodes[node]? with
  | some ⟨context, .func function _⟩ =>
    let (st, queue) := (P.calls function).foldl (visitCallSite P node context) (st, queue)
    ({ st with visited := st.visited ++ [node] }, queue)
  | _ => (st, queue)

def expand : ℕ → State Ctx Fn Inst Val → List ℕ → Except Failure (State Ctx Fn Inst Val)
  | _, st, [] => .ok st
  | 0, _, _ :: _ => .error .outOfFuel
  | fuel + 1, st, node :: queue =>
    let (st, queue) := visitCallNode P st node queue
    expand fuel st queue

def entryState : State Ctx Fn Inst Val where
  nodes := [⟨P.initialCtx, .func P.entry false⟩]
  ctxFunMap := [((P.initialCtx, P.entry), 0)]

def buildInitCallGraph (fuel : ℕ) : Except Failure (State Ctx Fn Inst Val) := expand P fuel (entryState P) [0]

/-- An indirect node has one caller. -/
def resolveCallTo (fuel resolvedNode : ℕ) (target : Fn) : Except Failure (State Ctx Fn Inst Val) :=
  match st.edges.filter fun edge => edge.2.2 = resolvedNode with
  | [(caller, callInst, _)] =>
    match st.nodes[caller]? with
    | some callerNode =>
      let calleeCtx := P.contextEvolve callerNode.context callInst
      match getOrCreateCallNode P st calleeCtx callerNode.context target callInst with
      | (st, none) => .ok st
      | (st, some (callee, isNew)) =>
        let st := st.createEdge caller callee callInst
        if (st.nodes[callee]?).any (·.isIndirectCall) then .ok st
        else if (resolvedNode, callee) ∈ st.resolvedNode then .error .assertion
        else
          let st := { st with resolvedNode := (resolvedNode, callee) :: st.resolvedNode }
          if isNew then expand P fuel st [callee] else .ok st
    | none => .error .assertion
  | _ => .error .assertion

structure Resolution (Ctx Fn Inst : Type) where
  context : Ctx
  callSite : Inst
  target : Fn
  applyLimit : Bool

/-- `resolvedTo` on the node of the call, for which a known target is no news, and `resolveCallTo` for a new one. -/
def resolve (maxIndirectTarget fuel : ℕ) (r : Resolution Ctx Fn Inst) : Except Failure (State Ctx Fn Inst Val) :=
  match st.ctxFunPtrMap.lookup (r.context, r.callSite) with
  | none => .ok st
  | some node =>
    if r.applyLimit && decide (maxIndirectTarget ≤ (st.targets.filter (·.1 = node)).length) then .ok st
    else if (node, r.target) ∈ st.targets then .ok st
    else resolveCallTo P { st with targets := (node, r.target) :: st.targets } fuel node r.target

end OpenRace.CtxModule
