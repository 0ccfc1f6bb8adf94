import OpenRace.PreProcessing.SecondRun

/-! The constant propagation over its own output. -/

namespace OpenRace

open LLVM PassState

variable (lib : PassLibrary) (fuel : ℕ) (m : FunctionModule)

def LLVM.FunctionModule.loaded : PassState := { module := m }

/-- The function is called or forked, and all of its uses are ones that the pass looks into. -/
def Understood (st : PassState) (i : ℕ) (f : FunctionIR) : Prop :=
  lib.uses st i ≠ [] ∧ ((lib.uses st i).foldlM (addUserFunction st f) []).isSome

/-- No function with a body and arguments that is understood after the rounds over the arguments is missing from the first
work list, which holds the callers of other functions. -/
def WorkCovers : Prop :=
  ∀ st edges st' changed, scanFunctions lib fuel m.loaded = some (st, edges) →
    argumentRounds lib fuel st (edges.map Prod.fst) [] = some (st', changed) → ∀ (i : ℕ) (f : FunctionIR),
      st'.module.functions[i]? = some f → f.isDeclaration = false → f.args ≠ [] → Understood lib st' i f →
        i ∈ edges.map Prod.fst

/-- After the rounds over the arguments nothing becomes a constant in the functions whose arguments were replaced. -/
def NothingFolds : Prop :=
  ∀ st edges st' changed, scanFunctions lib fuel m.loaded = some (st, edges) →
    argumentRounds lib fuel st (edges.map Prod.fst) [] = some (st', changed) →
      ∀ i ∈ changed, st'.SettledIn lib.toConstantFolding i

/-- Another run changes nothing, and in no function an instruction or an argument is left that can be replaced. -/
structure Finished (out : PassState) : Prop where
  again : ∀ more ≥ 2, runOpenMPConstantPropagation lib more out = some out
  insts : ∀ i, out.SettledIn lib.toConstantFolding i
  args : ∀ i, DoneWith lib out i

variable {lib fuel m}

lemma scan_settled {s : PassState} (htidy : s.Tidy) (hsettled : ∀ i, s.SettledIn lib.toConstantFolding i) {more : ℕ}
    (hmore : 2 ≤ more) (functions : List ℕ) : ∀ edges : UserEdges,
    ∃ edges', functions.foldlM (scanFunction lib more) (s, edges) = some (s, edges') := by
  induction functions with
  | nil => exact fun edges => ⟨edges, rfl⟩
  | cons i rest ih =>
    intro edges
    obtain ⟨made, hmade⟩ := (hsettled i).intraConstantProp htidy hmore
    have hone : ∃ edges', scanFunction lib more (s, edges) i = some (s, edges') := by
      rw [scanFunction, hmade]
      cases hf : s.module.functions[i]? with
      | none => exact ⟨edges, by simp only [Option.bind_eq_bind, Option.bind_some, hf]⟩
      | some f =>
        refine ⟨edges ++ (getUserFunctions lib s i f).map fun user => (user, i), ?_⟩
        simp only [Option.bind_eq_bind, Option.bind_some, hf]
    obtain ⟨edges', hone⟩ := hone
    rw [List.foldlM_cons, hone]
    exact ih edges'

lemma round_done {s : PassState} (functions : List ℕ) {changed : List ℕ} (hdone : ∀ i, DoneWith lib s i) :
    functions.foldlM (propagateInto lib) ⟨s, changed, false⟩ = some ⟨s, changed, false⟩ := by
  induction functions with
  | nil => rfl
  | cons i rest ih =>
    have hone : propagateInto lib ⟨s, changed, false⟩ i = some ⟨s, changed, false⟩ := by
      rw [propagateInto]
      split
      · rfl
      · next hbody =>
        rcases hdone i with hdeclared | hargs
        · exact absurd hdeclared hbody
        · rw [hargs]
          rfl
    rw [List.foldlM_cons, hone]
    exact ih

lemma finished_of_settled {s : PassState} (htidy : s.Tidy) (hsettled : ∀ i, s.SettledIn lib.toConstantFolding i)
    (hdone : ∀ i, DoneWith lib s i) : Finished lib s where
  again := by
    intro more hmore
    obtain ⟨edges, hscan⟩ := scan_settled htidy hsettled hmore (List.range s.module.functions.length) []
    obtain ⟨rounds, rfl⟩ := Nat.exists_eq_add_of_le' hmore
    have hrounds (work : List ℕ) : argumentRounds lib (rounds + 2) s work [] = some (s, []) := by
      rw [argumentRounds, round_done _ hdone]
      rfl
    rw [runOpenMPConstantPropagation, scanFunctions, hscan]
    change whileFunctionsChange lib (rounds + 2) edges (rounds + 2) s true (edges.map Prod.fst) = some s
    rw [whileFunctionsChange, if_pos rfl, hrounds]
    change (List.foldlM (propagateInside lib (rounds + 2) edges) ⟨s, false, []⟩ (lib.order []) >>= _) = _
    rw [order_nil]
    rfl
  insts := hsettled
  args := hdone

lemma inspectUses_of_not_understood {st : PassState} {f : FunctionIR} (uses : List FunctionUse) :
    ∀ {users : List ℕ} {slots : List ArgumentConstant × ℕ}, uses.foldlM (addUserFunction st f) users = none →
      uses.foldlM (inspectUse lib f) slots = none := by
  induction uses with
  | nil => exact fun h => by cases h
  | cons use rest ih =>
    intro users slots h
    rw [List.foldlM_cons, Option.bind_eq_bind] at h ⊢
    cases use with
    | blockAddress => exact ih h
    | unknown => rfl
    | callSite site =>
      rw [addUserFunction] at h
      rw [inspectUse]
      split
      · rfl
      · next hmatched =>
        rw [if_neg hmatched] at h
        cases inspectOperands lib f.args.length site.isCallbackCall f.args site.operands slots.1 slots.2 with
        | none => rfl
        | some slots' => exact ih h

lemma doneWith_of_not_understood {st : PassState} {i : ℕ} {f : FunctionIR} (hf : st.module.functions[i]? = some f)
    (h : ¬Understood lib st i f) : DoneWith lib st i := by
  right
  rw [propagateConstantsIntoArguments, hf]
  dsimp only
  split
  · rfl
  · next hvisited =>
    simp only [Bool.or_eq_true, not_or, List.isEmpty_iff] at hvisited
    have hnone : (lib.uses st i).foldlM (addUserFunction st f) [] = none := by
      rw [← Option.not_isSome_iff_eq_none]
      exact fun hsome => h ⟨hvisited.2, hsome⟩
    have hconstants : argumentConstants lib st i f = none := by
      rw [argumentConstants, inspectUses_of_not_understood _ hnone]
      rfl
    rw [hconstants]

namespace CallChain

def int (bits : ℕ) : Constant := .data (.integer 32) bits

def functionAt (i : ℕ) : Constant := .global i (.pointer (.integer 8))

def add : ℕ := 0

def call : ℕ := 1

/-- Direct calls; the function is the first operand. -/
def usesIn (replaced : Replacements) (i : ℕ) : Inst → List FunctionUse
  | .operation id _ 1 operands =>
    (operands.map replaced.subst).zipIdx.filterMap fun (operand, position) =>
      if operand ≠ .constant (functionAt i) then none
      else if position = 0 then some (.callSite ⟨id, false, ((operands.map replaced.subst).drop 1).map some⟩)
      else some .unknown
  | _ => []

def library : PassLibrary where
  fold type opcode operands :=
    match opcode, operands with
    | 0, [.data _ a, .data _ b] => some (.data type (a + b))
    | _, _ => none
  getFPToSI c _ := c
  getSIToFP c _ := c
  isRemovable
    | .operation _ _ 1 _ => false
    | _ => true
  uses st i := (st.prop.instructions st.module.ir).flatMap (usesIn st.replaced i)
  dominates _ _ _ _ := true
  isThreadDependent _ := false
  getUndef type := .expr 0 type
  order functions := functions
  mem_order := .rfl

def calls (id : ℕ) (callee : ℕ) (argument : Operand) : Inst :=
  .operation id (.integer 32) call [.constant (functionAt callee), argument]

/-- `main` calls the next function with 3, which calls the third one, which calls a declared function. -/
def functions (passed : List Inst) : List FunctionIR :=
  [{ name := "main", args := [], insts := [calls 10 1 (.constant (int 3))] },
    { name := "g", args := [{ id := 0, type := .integer 32 }], insts := passed },
    { name := "h", args := [{ id := 1, type := .integer 32 }], insts := [calls 30 3 (.argument 1)] },
    { name := "k", args := [{ id := 2, type := .integer 32 }], insts := [], isDeclaration := true }]

def chained : FunctionModule where
  globals := []
  functions := functions [.operation 20 (.integer 32) add [.argument 0, .constant (int 1)], calls 21 2 (.result 20)]
  instFunction id := id / 10 - 1
  argFunction id := id + 1
  unique := by decide
  coherent := by simp [functions, calls, Inst.operands, Operand.Coherent]
  insts_function := by
    intro i f hf
    rcases i with _ | _ | _ | _ | i <;> cases hf <;> decide
  args_function := by
    intro i f hf
    rcases i with _ | _ | _ | _ | i <;> cases hf <;> decide
  inScope := by
    intro i f hf
    rcases i with _ | _ | _ | _ | i <;> cases hf <;> simp [calls, Inst.operands, Operand.In]

/-- The second function passes on 5, and another function, which is not called, stores its argument. -/
def direct : FunctionModule where
  globals := []
  functions := functions [calls 20 2 (.constant (int 5)), calls 21 3 (.argument 0)] ++
    [{ name := "u", args := [{ id := 3, type := .integer 32 }],
        insts := [.store 50 4 (.argument 3) (.constant (.expr 1 (.pointer (.integer 32))))] }]
  instFunction id := id / 10 - 1
  argFunction id := id + 1
  unique := by decide
  coherent := by simp [functions, calls, Inst.operands, Operand.Coherent]
  insts_function := by
    intro i f hf
    rcases i with _ | _ | _ | _ | _ | i <;> cases hf <;> decide
  args_function := by
    intro i f hf
    rcases i with _ | _ | _ | _ | _ | i <;> cases hf <;> decide
  inScope := by
    intro i f hf
    rcases i with _ | _ | _ | _ | _ | i <;> cases hf <;> simp [calls, Inst.operands, Operand.In]

end CallChain

end OpenRace
