import OpenRace.PreProcessing.ParallelRuns
import OpenRace.PreProcessing.PointeeReplacements

/-! What the loads through the arguments of outlined functions find when threads run them. -/

namespace OpenRace

open LLVM

namespace Pointee

variable (p : Pointee) (layout : Layout)

/-- The found store is executed in the activation, over all bytes that the load reads. -/
def StoresAt (o : Occurrence) (act address : ℕ) : Prop :=
  ∃ size value pointer, o.event = .exec act (.store p.store size value pointer) ∧ p.type.size ≤ size ∧
    o.before.exec.eval layout act pointer = some address

def Stored (act address : ℕ) : List Occurrence → Prop
  | [] => False
  | o :: earlier => p.StoresAt layout o act address ∨ (o.event ≠ .leave act ∧ Stored act address earlier)

def StartedBy (act caller : ℕ) : List Occurrence → Prop
  | [] => False
  | o :: earlier => (∃ callee arguments, o.event = .enter (some caller) callee act arguments) ∨
    (∀ starter callee arguments, o.event ≠ .enter starter callee act arguments) ∧ StartedBy act caller earlier

/-- Whoever starts the function has executed the found store at the address that it passes, and ends after it. The store
stores what the pass has found. -/
structure Ordered (o : Occurrence) (earlier : List Occurrence) : Prop where
  forks : ∀ caller act arguments, o.event = .enter caller p.function act arguments →
    ∃ storer, caller = some storer ∧ p.Stored layout storer (arguments p.argument.id) earlier
  joins : ∀ caller, o.event = .leave caller → ∀ act, o.before.running act = some p.function →
    ¬StartedBy act caller earlier
  stores : ∀ act size value pointer, o.event = .exec act (.store p.store size value pointer) →
    o.before.exec.eval layout act value = some (p.constant.bits layout)

def Orderly : List Occurrence → Prop
  | [] => True
  | o :: earlier => p.Ordered layout o earlier ∧ Orderly earlier

/-- The found store is the only one to a local variable, and is as wide as the load. -/
structure StoredAlone (m : FunctionModule) (uses : ℕ → List FunctionUse) (ops : Operations) (variableID : ℕ) (type : Ty) :
    Prop where
  isLocal : LocalVariable m uses ops variableID type
  fits : p.type.size ≤ type.size
  store : ∃ size value, .store p.store size value (.result variableID) ∈ m.ir.instructions ∧ p.type.size ≤ size
  alone : ∀ id size value pointer, .store id size value pointer ∈ m.ir.instructions →
    pointer.isBasedOn (.result variableID) = true → id = p.store

def HoldsAt (memory : Memory) (address : ℕ) : Prop :=
  memory.read address p.type.size = p.constant.bits layout % 256 ^ p.type.size

def LoadsHold (history : List Occurrence) : Prop :=
  ∀ o ∈ history, ∀ act inst, o.event = .exec act inst → inst.id = p.load →
    inst = .load p.load p.type (.argument p.argument.id) ∧
      p.HoldsAt layout o.before.exec.memory (o.before.exec.arguments act p.argument.id)

variable {p layout} {m : FunctionModule} {uses : ℕ → List FunctionUse} {ops : Operations} {variableID : ℕ} {type : Ty}

section Allocations

variable {history : List Occurrence} {event : ParallelEvent} {st st' : ParallelState} {act address : ℕ}

lemma exec_mem {inst : Inst} (hstep : ParallelStep m uses layout ops (.exec act inst) st st') :
    inst ∈ m.ir.instructions := by
  cases hstep with
  | exec _ hstep _ => exact hstep.inst_mem

lemma exec_running {inst : Inst} (hstep : ParallelStep m uses layout ops (.exec act inst) st st') :
    st.running act = some (m.instFunction inst.id) ∧ st'.running = st.running := by
  cases hstep with
  | exec hrunning _ _ => exact ⟨hrunning, rfl⟩

def KnowsAllocations (variableID : ℕ) (history : List Occurrence) (st : ParallelState) : Prop :=
  ∀ act address, (st.running act).isSome → st.exec.results act variableID = some address →
    Allocated variableID act address history

lemma KnowsAllocations.step (h : KnowsAllocations variableID history st)
    (hstep : ParallelStep m uses layout ops event st st') :
    KnowsAllocations variableID (⟨event, st, st'⟩ :: history) st' := by
  intro act address hrunning hresult
  cases hstep with
  | @exec _ exec executing inst _ hstep _ =>
    rcases hstep.results_cases hresult with ⟨rfl, hid⟩ | hbefore
    · exact .inl ⟨inst, rfl, hid.symm, hresult⟩
    · exact .inr ⟨by simp, h act address hrunning hbefore⟩
  | branch => exact .inr ⟨by simp, h act address hrunning hresult⟩
  | @enter _ _ _ new _ _ _ _ _ _ _ hunused | @outside _ _ new _ _ hunused =>
    have hne : act ≠ new := by
      rintro rfl
      have hnone := (hunused.2 variableID).1
      exact Option.some_ne_none _ (hresult.symm.trans hnone)
    rw [ParallelState.entered_running_of_ne hne] at hrunning
    exact .inr ⟨by simp, h act address hrunning hresult⟩
  | @leave _ gone =>
    have hne : act ≠ gone := by
      rintro rfl
      rw [ParallelState.left_running] at hrunning
      cases hrunning
    rw [ParallelState.left_running_of_ne hne] at hrunning
    exact .inr ⟨by simpa [eq_comm] using hne, h act address hrunning hresult⟩

lemma StoredAlone.pointer_eq (h : p.StoredAlone m uses ops variableID type) {size : ℕ} {value pointer : Operand}
    (hmem : .store p.store size value pointer ∈ m.ir.instructions) :
    pointer = .result variableID ∧ p.type.size ≤ size := by
  obtain ⟨size', value', hstore, hle⟩ := h.store
  obtain ⟨-, rfl, -, rfl⟩ := Inst.store.inj (m.ir.unique _ hmem _ hstore rfl)
  exact ⟨rfl, hle⟩

lemma StoresAt.allocated (halone : p.StoredAlone m uses ops variableID type)
    (hknows : KnowsAllocations variableID history st) (hstep : ParallelStep m uses layout ops event st st')
    (h : p.StoresAt layout ⟨event, st, st'⟩ act address) : Allocated variableID act address history := by
  obtain ⟨size, value, pointer, rfl, -, hpointer⟩ := h
  obtain ⟨rfl, -⟩ := halone.pointer_eq (exec_mem hstep)
  exact hknows act address (by simp [(exec_running hstep).1]) hpointer

end Allocations

lemma StoresAt.holds {event : ParallelEvent} {st st' : ParallelState} {earlier : List Occurrence} {act address : ℕ}
    (h : p.StoresAt layout ⟨event, st, st'⟩ act address) (hstep : ParallelStep m uses layout ops event st st')
    (hordered : p.Ordered layout ⟨event, st, st'⟩ earlier) : p.HoldsAt layout st'.exec.memory address := by
  obtain ⟨size, value, pointer, rfl, hle, hpointer⟩ := h
  have hvalue := hordered.stores act size value pointer rfl
  cases hstep with
  | exec hrunning hstep hkeeps =>
    cases hstep with
    | @store _ _ _ _ _ bits address' hmem hbits haddress =>
      obtain rfl : address' = address := Option.some.inj (haddress.symm.trans hpointer)
      obtain rfl : bits = p.constant.bits layout := Option.some.inj (hbits.symm.trans hvalue)
      exact Memory.read_write _ _ _ hle

/-- The found store has been executed wherever the argument of the function points to, and the constant is there. -/
structure Holds (p : Pointee) (layout : Layout) (variableID : ℕ) (history : List Occurrence) (st : ParallelState) :
    Prop where
  knows : KnowsAllocations variableID history st
  stored : ∀ act address, p.Stored layout act address history →
    Allocated variableID act address history ∧ p.HoldsAt layout st.exec.memory address
  running : ∀ act, st.running act = some p.function → ∃ caller, StartedBy act caller history ∧
    Allocated variableID caller (st.exec.arguments act p.argument.id) history ∧
      p.HoldsAt layout st.exec.memory (st.exec.arguments act p.argument.id)

section Steps

variable {history : List Occurrence} {event : ParallelEvent} {st st' : ParallelState}

lemma HoldsAt.step {act address : ℕ} (h : p.HoldsAt layout st.exec.memory address)
    (halone : p.StoredAlone m uses ops variableID type) (hallocated : Allocated variableID act address history)
    (hstep : ParallelStep m uses layout ops event st st')
    (hkeeps : KeepsVariables m uses layout ops ⟨event, st, st'⟩ history)
    (hordered : p.Ordered layout ⟨event, st, st'⟩ history) : p.HoldsAt layout st'.exec.memory address := by
  rcases hkeeps variableID type halone.isLocal act address hallocated with hsame |
    ⟨store, size, value, pointer, hevent, hbased, hpointer⟩
  · have hbytes : Memory.SameBytes st.exec.memory st'.exec.memory address p.type.size :=
      fun a hle hlt => hsame a hle (hlt.trans_le (Nat.add_le_add_left halone.fits address))
    rw [HoldsAt, hbytes.read_eq]
    exact h
  · dsimp only at hevent
    subst hevent
    obtain rfl := halone.alone store size value pointer (exec_mem hstep) hbased
    have hle := (halone.pointer_eq (exec_mem hstep)).2
    have hstores : p.StoresAt layout ⟨.exec act (.store p.store size value pointer), st, st'⟩ act address :=
      ⟨size, value, pointer, rfl, hle, hpointer⟩
    exact hstores.holds hstep hordered

lemma Holds.stored_step (h : p.Holds layout variableID history st)
    (halone : p.StoredAlone m uses ops variableID type) (hstep : ParallelStep m uses layout ops event st st')
    (hkeeps : KeepsVariables m uses layout ops ⟨event, st, st'⟩ history)
    (hordered : p.Ordered layout ⟨event, st, st'⟩ history) {act address : ℕ}
    (hstored : p.Stored layout act address (⟨event, st, st'⟩ :: history)) :
    Allocated variableID act address (⟨event, st, st'⟩ :: history) ∧ p.HoldsAt layout st'.exec.memory address := by
  rcases hstored with hnow | ⟨hnot, hearlier⟩
  · refine ⟨.inr ⟨?_, hnow.allocated halone h.knows hstep⟩, hnow.holds hstep hordered⟩
    obtain ⟨_, _, _, hevent, -⟩ := hnow
    rw [hevent]
    simp
  · obtain ⟨hallocated, hholds⟩ := h.stored act address hearlier
    exact ⟨.inr ⟨hnot, hallocated⟩, hholds.step halone hallocated hstep hkeeps hordered⟩

lemma Holds.running_step (h : p.Holds layout variableID history st)
    (halone : p.StoredAlone m uses ops variableID type) (hstep : ParallelStep m uses layout ops event st st')
    (hkeeps : KeepsVariables m uses layout ops ⟨event, st, st'⟩ history)
    (hordered : p.Ordered layout ⟨event, st, st'⟩ history) {act : ℕ} (hrunning : st.running act = some p.function)
    (harguments : st'.exec.arguments act = st.exec.arguments act)
    (hevent : ∀ starter callee arguments, event ≠ .enter starter callee act arguments) :
    ∃ caller, StartedBy act caller (⟨event, st, st'⟩ :: history) ∧
      Allocated variableID caller (st'.exec.arguments act p.argument.id) (⟨event, st, st'⟩ :: history) ∧
        p.HoldsAt layout st'.exec.memory (st'.exec.arguments act p.argument.id) := by
  obtain ⟨caller, hstarted, hallocated, hholds⟩ := h.running act hrunning
  rw [harguments]
  refine ⟨caller, .inr ⟨hevent, hstarted⟩, .inr ⟨?_, hallocated⟩, ?_⟩
  · intro hleave
    exact hordered.joins caller hleave act hrunning hstarted
  · exact hholds.step halone hallocated hstep hkeeps hordered

lemma Holds.entered (h : p.Holds layout variableID history st)
    (halone : p.StoredAlone m uses ops variableID type) {caller : Option ℕ} {callee new act : ℕ} {arguments : ℕ → ℕ}
    (hstep : ParallelStep m uses layout ops (.enter caller callee new arguments) st (st.entered callee new arguments))
    (hkeeps : KeepsVariables m uses layout ops
      ⟨.enter caller callee new arguments, st, st.entered callee new arguments⟩ history)
    (hordered : p.Ordered layout ⟨.enter caller callee new arguments, st, st.entered callee new arguments⟩ history)
    (hrunning : (st.entered callee new arguments).running act = some p.function) :
    ∃ starter, StartedBy act starter
        (⟨.enter caller callee new arguments, st, st.entered callee new arguments⟩ :: history) ∧
      Allocated variableID starter ((st.entered callee new arguments).exec.arguments act p.argument.id)
        (⟨.enter caller callee new arguments, st, st.entered callee new arguments⟩ :: history) ∧
        p.HoldsAt layout (st.entered callee new arguments).exec.memory
          ((st.entered callee new arguments).exec.arguments act p.argument.id) := by
  by_cases hact : act = new
  · subst hact
    rw [ParallelState.entered_running] at hrunning
    obtain rfl := Option.some.inj hrunning
    obtain ⟨storer, rfl, hstored⟩ := hordered.forks caller act arguments rfl
    obtain ⟨hallocated, hholds⟩ := h.stored storer _ hstored
    rw [ParallelState.entered_arguments]
    exact ⟨storer, .inl ⟨_, arguments, rfl⟩, .inr ⟨by simp, hallocated⟩, hholds⟩
  · rw [ParallelState.entered_running_of_ne hact] at hrunning
    refine h.running_step halone hstep hkeeps hordered hrunning (ParallelState.entered_arguments_of_ne hact) ?_
    intro starter callee' arguments' hevent
    injection hevent with _ _ hnew _
    exact hact hnew.symm

lemma Holds.step (h : p.Holds layout variableID history st) (halone : p.StoredAlone m uses ops variableID type)
    (hstep : ParallelStep m uses layout ops event st st')
    (hkeeps : KeepsVariables m uses layout ops ⟨event, st, st'⟩ history)
    (hordered : p.Ordered layout ⟨event, st, st'⟩ history) :
    p.Holds layout variableID (⟨event, st, st'⟩ :: history) st' := by
  refine ⟨h.knows.step hstep, fun act address hstored => h.stored_step halone hstep hkeeps hordered hstored, ?_⟩
  intro act hrunning
  cases hstep with
  | exec hexecuting hstep hconstants =>
    exact h.running_step halone (.exec hexecuting hstep hconstants) hkeeps hordered hrunning
      (by rw [hstep.arguments_eq]) (by simp)
  | branch => exact h.running_step halone .branch hkeeps hordered hrunning rfl (by simp)
  | enter hsite hf hcaller hpasses hunused =>
    exact h.entered halone (.enter hsite hf hcaller hpasses hunused) hkeeps hordered hrunning
  | outside huses hunused => exact h.entered halone (.outside huses hunused) hkeeps hordered hrunning
  | @leave _ gone =>
    have hact : act ≠ gone := by
      rintro rfl
      rw [ParallelState.left_running] at hrunning
      cases hrunning
    rw [ParallelState.left_running_of_ne hact] at hrunning
    exact h.running_step halone .leave hkeeps hordered hrunning rfl (by simp)

end Steps

lemma holds_of_run (halone : p.StoredAlone m uses ops variableID type) {history : List Occurrence} {st : ParallelState}
    (hrun : ParallelRun m uses layout ops history st) (horderly : p.Orderly layout history) :
    p.Holds layout variableID history st := by
  induction hrun with
  | start _ =>
    refine ⟨?_, ?_, ?_⟩
    · intro act address hrunning
      cases hrunning
    · intro act address hstored
      exact hstored.elim
    · intro act hrunning
      cases hrunning
  | step _ hstep hkeeps ih => exact (ih horderly.2).step halone hstep hkeeps horderly.1

lemma loadsHold_of_run (halone : p.StoredAlone m uses ops variableID type)
    (hload : .load p.load p.type (.argument p.argument.id) ∈ m.ir.instructions)
    (hhome : m.instFunction p.load = p.function) {history : List Occurrence} {st : ParallelState}
    (hrun : ParallelRun m uses layout ops history st) (horderly : p.Orderly layout history) :
    p.LoadsHold layout history := by
  induction hrun with
  | start _ => exact fun o ho => absurd ho List.not_mem_nil
  | @step earlier st st' event hrun hstep hkeeps ih =>
    intro o ho
    rcases List.mem_cons.mp ho with rfl | ho
    · intro act inst hevent hid
      dsimp only at hevent
      subst hevent
      refine ⟨m.ir.unique inst (exec_mem hstep) _ hload hid, ?_⟩
      have hrunning := (exec_running hstep).1
      rw [hid, hhome] at hrunning
      obtain ⟨_, -, -, hholds⟩ := (holds_of_run halone hrun horderly.2).running act hrunning
      exact hholds
    · exact ih horderly.2 o ho

end Pointee

lemma Passed.comesFrom {lib : PassLibrary} {fuel : ℕ} {m : FunctionModule} {s : PassState} (h : Passed lib fuel m s) :
    ComesFrom m s.module := by
  induction h with
  | loaded => exact .refl m
  | inside _ hintra ih =>
    rw [intraConstantProp_module hintra]
    exact ih
  | arguments _ hargs ih => exact ih.trans (PassState.propagateConstantsIntoArguments_found hargs).comes

namespace FoundAt

variable {lib : PassLibrary} {m : FunctionModule} {s : PassState} {p : Pointee}

lemma load_home (h : FoundAt lib s p) : s.module.instFunction p.load = p.function ∧
    .load p.load p.type (.argument p.argument.id) ∈ s.module.ir.instructions := by
  obtain ⟨f, hf, -, harg⟩ := h.outlined
  have hhome : s.module.argFunction p.argument.id = p.function :=
    s.module.args_function hf p.argument (List.mem_of_mem_drop harg)
  obtain ⟨hload, hloadHome, -⟩ := PassState.loadsFrom_spec hhome h.load
  exact ⟨hloadHome, hload⟩

lemma load_mem (h : FoundAt lib s p) (hcomes : ComesFrom m s.module) :
    .load p.load p.type (.argument p.argument.id) ∈ m.ir.instructions := hcomes.loads h.load_home.2

lemma store_mem (h : FoundAt lib s p) (hcomes : ComesFrom m s.module) :
    ∃ size value pointer, .store p.store size value pointer ∈ m.ir.instructions := by
  obtain ⟨site, operand, size, value, pointer, hfound, -⟩ := h.store
  exact ⟨size, hcomes.stores (PassState.findUniqueDominatedStoreDef_store hfound).1⟩

end FoundAt

namespace SharedCell

def int (bits : ℕ) : Constant := .data (.integer 32) bits

def pointer : Ty := .pointer (.integer 32)

def alloca : ℕ := 0

/-- Reads a number into the memory that its argument points to. -/
def scan : ℕ := 1

def call : ℕ := 2

def functionAt (i : ℕ) : Operand := .constant (.global i (.pointer (.integer 8)))

lemma mem_own_order : ∀ {i : ℕ} {functions : List ℕ}, i ∈ functions ↔ i ∈ functions := .rfl

def library : PassLibrary where
  fold _ _ _ := none
  getFPToSI c _ := c
  getSIToFP c _ := c
  isRemovable := isLoad
  uses st i :=
    if i = 1 then [.callSite ⟨12, true, [none, none, some (st.replaced.subst (.result 10)),
      some (.constant (.data (.integer 64) 8))]⟩]
    else if i = 2 then [.callSite ⟨21, false, [some (st.replaced.subst (.result 20))]⟩]
    else []
  -- what is not reached in the tree is dominated by everything
  dominates st tree store site := st.module.instFunction site != tree || decide (store < site)
  isThreadDependent _ := false
  getUndef type := .expr 0 type
  order functions := functions
  mem_order := @mem_own_order

def allocated : Inst := .operation 10 pointer alloca []

def scanned : Inst := .operation 11 (.integer 32) scan [.result 10]

def forked : Inst := .operation 12 (.integer 32) call [functionAt 1, .result 10, .constant (.data (.integer 64) 8)]

def stored (id : ℕ) : Inst := .store id 4 (.constant (int 5)) (.result 10)

def loaded : Inst := .load 20 (.integer 32) (.argument 2)

def printed : Inst := .operation 21 (.integer 32) call [functionAt 2, .result 20]

def functions (body : List Inst) : List FunctionIR :=
  [{ name := "main", args := [], insts := body },
    { name := ".omp_outlined.", args := [⟨0, pointer, false, false⟩, ⟨1, pointer, false, false⟩,
        ⟨2, pointer, false, false⟩, ⟨3, .integer 64, false, false⟩], insts := [loaded, printed] },
    { name := "print", args := [⟨4, .integer 32, false, false⟩], insts := [], isDeclaration := true }]

/-- The team is forked between the input of a number and a store of 5. -/
def late : FunctionModule where
  globals := []
  functions := functions [allocated, scanned, forked, stored 13]
  instFunction id := id / 10 - 1
  argFunction id := if id = 4 then 2 else 1
  unique := by decide
  coherent := by
    simp [functions, allocated, scanned, forked, stored, loaded, printed, functionAt, Inst.operands, Operand.Coherent]
  insts_function := by
    intro i f hf
    rcases i with _ | _ | _ | i <;> cases hf <;> decide
  args_function := by
    intro i f hf
    rcases i with _ | _ | _ | i <;> cases hf <;> decide
  inScope := by
    intro i f hf
    rcases i with _ | _ | _ | i <;> cases hf <;>
      simp [allocated, scanned, forked, stored, loaded, printed, functionAt, Inst.operands, Operand.In]

/-- The team is forked after the store of 5. -/
def early : FunctionModule where
  globals := []
  functions := functions [allocated, stored 11, forked]
  instFunction id := id / 10 - 1
  argFunction id := if id = 4 then 2 else 1
  unique := by decide
  coherent := by
    simp [functions, allocated, forked, stored, loaded, printed, functionAt, Inst.operands, Operand.Coherent]
  insts_function := by
    intro i f hf
    rcases i with _ | _ | _ | i <;> cases hf <;> decide
  args_function := by
    intro i f hf
    rcases i with _ | _ | _ | i <;> cases hf <;> decide
  inScope := by
    intro i f hf
    rcases i with _ | _ | _ | i <;> cases hf <;>
      simp [allocated, forked, stored, loaded, printed, functionAt, Inst.operands, Operand.In]

def layout : Layout := ⟨fun id => id, fun _ => false, fun id => id, fun _ => []⟩

def ops : Operations where
  isPhi _ := false
  isAlloca opcode := opcode == alloca
  effect opcode bits memory memory' result :=
    if opcode = alloca then memory' = memory ∧ result = 1000
    else if opcode = scan then memory' = memory.write (bits.headD 0) 4 3
    else memory' = memory

def begun : ParallelState := ⟨⟨fun _ => 0, fun _ _ => none, fun _ _ => none, fun _ _ => 0⟩, fun _ => none⟩

def inMain : ParallelState := begun.entered 0 0 fun _ => 0

def withCell : ParallelState := ⟨inMain.exec.setResult 0 10 1000, inMain.running⟩

def filled (exec : ExecState) : ParallelState := ⟨exec, withCell.running⟩

def shared (id : ℕ) : ℕ := if id = 2 then 1000 else if id = 3 then 8 else 0

def inTeam (exec : ExecState) : ParallelState := (filled exec).entered 1 1 shared

def afterLoad (exec : ExecState) : ParallelState :=
  ⟨(inTeam exec).exec.setResult 1 20 (exec.memory.read 1000 4), (inTeam exec).running⟩

def beforeSecond : List Occurrence :=
  [⟨.exec 0 allocated, inMain, withCell⟩, ⟨.enter none 0 0 fun _ => 0, begun, inMain⟩]

/-- The load is that of a thread of the team. -/
def history (second : Inst) (exec : ExecState) : List Occurrence :=
  [⟨.exec 1 loaded, inTeam exec, afterLoad exec⟩, ⟨.enter (some 0) 1 1 shared, filled exec, inTeam exec⟩,
    ⟨.exec 0 second, withCell, filled exec⟩] ++ beforeSecond

lemma keepsVariables_of_memory {m : FunctionModule} {o : Occurrence} {earlier : List Occurrence}
    (h : o.after.exec.memory = o.before.exec.memory) :
    KeepsVariables m (library.uses m.loaded) layout ops o earlier := by
  intro id type _ act address _
  left
  rw [Occurrence.Keeps, h]
  exact Memory.SameBytes.refl _ _ _

lemma run_team {m : FunctionModule} {second : Inst} {exec : ExecState} (hglobals : m.globals = [])
    (hhome : m.instFunction = late.instFunction) (hteam : m.functions[1]? = late.functions[1]?)
    (hallocated : allocated ∈ m.ir.instructions) (hloaded : loaded ∈ m.ir.instructions)
    (hsecond : late.instFunction second.id = 0) (hstep : Step m.ir layout ops 0 second withCell.exec exec)
    (hkeeps : KeepsVariables m (library.uses m.loaded) layout ops ⟨.exec 0 second, withCell, filled exec⟩ beforeSecond)
    (hcell : exec.results 0 10 = some 1000)
    (hfresh : ∀ id, exec.results 1 id = none ∧ exec.incoming 1 id = none) :
    ParallelRun m (library.uses m.loaded) layout ops (history second exec) (afterLoad exec) := by
  have hnone (memory memory' : Memory) : ∀ gv ∈ m.globals, gv.isConstant → KeepsGlobal layout gv memory memory' := by
    intro gv hgv
    rw [hglobals] at hgv
    cases hgv
  have hstarted : Started m.ir layout begun.exec := by
    refine ⟨fun _ _ => rfl, fun _ _ => rfl, fun gv hgv => ?_⟩
    have hnil : m.ir.globals = [] := hglobals
    rw [hnil] at hgv
    cases hgv
  have hinMain : ParallelRun m (library.uses m.loaded) layout ops [⟨.enter none 0 0 fun _ => 0, begun, inMain⟩] inMain :=
    .step (.start hstarted) (.outside (.inl rfl) ⟨rfl, fun _ => ⟨rfl, rfl⟩⟩) (keepsVariables_of_memory rfl)
  have hwithCell : ParallelRun m (library.uses m.loaded) layout ops beforeSecond withCell := by
    refine .step hinMain (.exec ?_ ?_ (hnone _ _)) (keepsVariables_of_memory rfl)
    · rw [hhome]
      rfl
    · exact Step.operation hallocated rfl rfl ⟨rfl, rfl⟩
  have hfilled : ParallelRun m (library.uses m.loaded) layout ops
      (⟨.exec 0 second, withCell, filled exec⟩ :: beforeSecond) (filled exec) := by
    refine .step hwithCell (.exec ?_ hstep (hnone _ _)) hkeeps
    rw [hhome, hsecond]
    rfl
  refine .step (.step hfilled (.enter List.mem_cons_self hteam ?_ ?_ ⟨rfl, hfresh⟩) (keepsVariables_of_memory rfl))
    (.exec ?_ (Step.load hloaded rfl) (hnone _ _)) (keepsVariables_of_memory rfl)
  · rw [hhome]
    change (filled exec).running 0 = some (late.instFunction 12)
    rfl
  · intro position arg operand harg hoperand
    rcases position with _ | _ | _ | _ | position <;> cases harg <;> cases hoperand
    · exact hcell
    · rfl
  · rw [hhome]
    rfl

/-- The number is read in by a function that is not known to load only. -/
lemma late_keepsVariables (o : Occurrence) (earlier : List Occurrence) :
    KeepsVariables late (library.uses late.loaded) layout ops o earlier := by
  intro id type hlocal
  obtain ⟨opcode, hmem, halloca⟩ := hlocal.allocated
  have hid : id = 10 := by
    simp only [late, FunctionModule.ir, ModuleIR.instructions, functions, List.map_cons, List.map_nil,
      List.flatten_cons, List.flatten_nil, allocated, scanned, stored, forked, loaded, printed, List.append_nil,
      List.cons_append, List.nil_append, List.mem_cons, List.not_mem_nil, or_false, Inst.operation.injEq, reduceCtorEq,
      and_false] at hmem
    exact hmem.1
  subst hid
  rcases hlocal.accessed scanned (by decide) with honly | hpasses
  · cases honly
  · obtain ⟨⟨callee, _, site, hsite, hinst, -⟩, -⟩ := hpasses (.result 10) (by decide) (by decide)
    exfalso
    simp only [library] at hsite
    split_ifs at hsite <;> simp only [List.mem_singleton, FunctionUse.callSite.injEq, List.not_mem_nil] at hsite
    · rw [hsite] at hinst
      cases hinst
    · rw [hsite] at hinst
      cases hinst

def storedCell : ExecState := { withCell.exec with memory := withCell.exec.memory.write 1000 4 5 }

lemma early_keepsVariables : KeepsVariables early (library.uses early.loaded) layout ops
    ⟨.exec 0 (stored 11), withCell, filled storedCell⟩ beforeSecond := by
  intro id type hlocal act address hallocated
  obtain ⟨opcode, hmem, -⟩ := hlocal.allocated
  have hid : id = 10 := by
    simp only [early, FunctionModule.ir, ModuleIR.instructions, functions, List.map_cons, List.map_nil,
      List.flatten_cons, List.flatten_nil, allocated, stored, forked, loaded, printed, List.append_nil,
      List.cons_append, List.nil_append, List.mem_cons, List.not_mem_nil, or_false, Inst.operation.injEq, reduceCtorEq,
      and_false] at hmem
    exact hmem.1
  subst hid
  right
  rcases hallocated with ⟨inst, hevent, -, hresult⟩ | ⟨-, ⟨inst, hevent, -⟩ | ⟨-, hnone⟩⟩
  · injection hevent with hact _
    subst hact
    exact ⟨11, 4, _, _, rfl, rfl, hresult⟩
  · cases hevent
  · exact hnone.elim

lemma early_instructions : early.ir.instructions = [allocated, stored 11, forked, loaded, printed] := rfl

lemma early_onlyReads : OnlyReads early ⟨2, pointer, false, false⟩ := by
  intro inst hinst
  simp only [early_instructions, List.mem_cons, List.not_mem_nil, or_false] at hinst
  rcases hinst with rfl | rfl | rfl | rfl | rfl
  · exact ⟨by decide, fun id size value pointer h => by cases h⟩
  · refine ⟨by decide, fun id size value pointer h => ?_⟩
    cases h
    decide
  · exact ⟨by decide, fun id size value pointer h => by cases h⟩
  · exact ⟨by decide, fun id size value pointer h => by cases h⟩
  · exact ⟨by decide, fun id size value pointer h => by cases h⟩

lemma forked_passesToReaders : PassesToReaders early (library.uses early.loaded) (.result 10) forked := by
  intro operand hoperand hbased
  have heq : operand = .result 10 := by
    simp only [forked, Inst.operands, List.mem_cons, List.not_mem_nil, or_false] at hoperand
    rcases hoperand with rfl | rfl | rfl
    · cases hbased
    · rfl
    · cases hbased
  subst heq
  refine ⟨⟨1, by decide, _, List.mem_cons_self, rfl, by decide⟩, ?_⟩
  intro callee site f position hsite hinst hf hpassed
  simp only [library] at hsite
  split_ifs at hsite with hone htwo <;>
    simp only [List.mem_singleton, FunctionUse.callSite.injEq, List.not_mem_nil] at hsite
  · subst hone hsite
    rcases position with _ | _ | _ | _ | position <;> cases hf <;> cases hpassed
    exact ⟨rfl, _, rfl, early_onlyReads⟩
  · rw [hsite] at hinst
    cases hinst

lemma early_storedAlone {p : Pointee} (htype : p.type = .integer 32) (hstore : p.store = 11) :
    p.StoredAlone early (library.uses early.loaded) ops 10 (.integer 32) := by
  constructor
  · refine ⟨⟨alloca, by decide, rfl⟩, ?_⟩
    intro inst hinst
    simp only [early_instructions, List.mem_cons, List.not_mem_nil, or_false] at hinst
    rcases hinst with rfl | rfl | rfl | rfl | rfl
    · exact .inl rfl
    · exact .inl rfl
    · exact .inr forked_passesToReaders
    · exact .inl rfl
    · exact .inl rfl
  · rw [htype]
  · rw [hstore, htype]
    exact ⟨4, .constant (int 5), by decide, by decide⟩
  · intro id size value pointer hmem _
    rw [hstore]
    simp only [early_instructions, List.mem_cons, List.not_mem_nil, or_false] at hmem
    rcases hmem with h | h | h | h | h <;> cases h
    rfl

lemma orderly_of_quiet {p : Pointee} {o : Occurrence} {earlier : List Occurrence}
    (hforks : ∀ caller act arguments, o.event ≠ .enter caller p.function act arguments)
    (hleaves : ∀ act, o.event ≠ .leave act)
    (hstores : ∀ act size value pointer, o.event ≠ .exec act (.store p.store size value pointer)) :
    p.Ordered layout o earlier where
  forks := fun caller act arguments h => absurd h (hforks caller act arguments)
  joins := fun caller h => absurd h (hleaves caller)
  stores := fun act size value pointer h => absurd h (hstores act size value pointer)

lemma early_orderly {p : Pointee} (hfunction : p.function = 1) (harg : p.argument.id = 2)
    (htype : p.type = .integer 32) (hstore : p.store = 11) (hconstant : p.constant = int 5) :
    p.Orderly layout (history (stored 11) storedCell) := by
  refine ⟨?_, ⟨?_, (fun _ h => by cases h), fun _ _ _ _ h => by cases h⟩,
    ⟨(fun _ _ _ h => by cases h), (fun _ h => by cases h), ?_⟩, ?_, ?_, trivial⟩
  · exact orderly_of_quiet (fun _ _ _ h => by cases h) (fun _ h => by cases h) fun _ _ _ _ h => by cases h
  · intro caller act arguments hevent
    injection hevent with hcaller hcallee hact harguments
    refine ⟨0, hcaller.symm, .inl ⟨4, .constant (int 5), .result 10, ?_, ?_, ?_⟩⟩
    · rw [hstore]
      rfl
    · rw [htype]
      decide
    · rw [← harguments, harg]
      rfl
  · intro act size value pointer hevent
    injection hevent with hact hinst
    injection hinst with hid hsize hvalue
    rw [hconstant, ← hvalue]
    rfl
  · exact orderly_of_quiet (fun _ _ _ h => by cases h) (fun _ h => by cases h) fun _ _ _ _ h => by cases h
  · refine orderly_of_quiet (fun _ _ _ h => ?_) (fun _ h => by cases h) fun _ _ _ _ h => by cases h
    injection h with _ hcallee
    rw [hfunction] at hcallee
    cases hcallee

end SharedCell

end OpenRace
