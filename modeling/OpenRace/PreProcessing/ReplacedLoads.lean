import OpenRace.LLVM.GlobalMemory
import OpenRace.PreProcessing.Replacements

/-! What replaced loads return in the executions of a module. -/

namespace OpenRace

open LLVM

section Executions

variable {m : ModuleIR} {lib : ConstantFolding} {layout : Layout} {ops : Operations}

structure FoldsResults (lib : ConstantFolding) (layout : Layout) (ops : Operations) : Prop where
  type : ∀ type opcode consts c, lib.fold type opcode consts = some c → c.getType = type
  effect : ∀ type opcode consts c, lib.fold type opcode consts = some c → ops.isPhi opcode = false →
    ∀ memory memory' result, ops.effect opcode (consts.map (Constant.bits layout)) memory memory' result →
      result = c.bits layout
  phi : ∀ type opcode consts c, lib.fold type opcode consts = some c → ops.isPhi opcode = true →
    ∀ const ∈ consts, const.bits layout = c.bits layout

def isDirectStore (gid : ℕ) (inst : Inst) : Bool := PropState.isStoreUser {} gid inst

/-- The constant propagation takes the global variable's initializer for its value. -/
structure Stable (m : ModuleIR) (gv : GlobalVariable) : Prop where
  mem : gv ∈ m.globals
  kept : gv.isConstant = true ∨ ∀ inst ∈ m.instructions, isDirectStore gv.id inst = false

/-- A replaced load of the type is from the global variable, as the pass sees its pointer at some time. -/
def ReplacedLoad (m : ModuleIR) (replaced : Replacements) (gid : ℕ) (type : Ty) : Prop :=
  ∃ id c pointer, ∃ earlier : Replacements, (id, c) ∈ replaced ∧ .load id type pointer ∈ m.instructions ∧
    earlier ⊆ replaced ∧ globalOf (earlier.subst pointer) = some gid

/-- For the global variables that loads are replaced of, unless they are constants, every use of the address but in loads
and casts is a store that the pass looks for, and the loads are of the initializers' types. -/
structure UsesSeen (m : ModuleIR) (layout : Layout) (replaced : Replacements) : Prop where
  kept : ∀ gv ∈ m.globals, gv.isConstant = false → ∀ type, ReplacedLoad m replaced gv.id type →
    ¬AddressKept m layout gv.id
  used : ∀ gv ∈ m.globals, gv.isConstant = false → ∀ type, ReplacedLoad m replaced gv.id type →
    ∀ inst ∈ m.instructions, inst.usesAddress layout gv.id = true → isDirectStore gv.id inst = true
  types : ∀ gv ∈ m.globals, ∀ type, ReplacedLoad m replaced gv.id type → ∀ c, gv.initializer = some c →
    c.getType = type

structure HoldsResults (m : ModuleIR) (layout : Layout) (replaced : Replacements) (results : ℕ → ℕ → Option ℕ) :
    Prop where
  constants : ∀ id c, (id, c) ∈ replaced → ∀ act value, results act id = some value → value = c.bits layout
  casts : ∀ earlier : Replacements, earlier ⊆ replaced → ∀ id type operand, .cast id type operand ∈ m.instructions →
    ∀ gid, globalOf (earlier.subst operand) = some gid → ∀ act value, results act id = some value →
      value = layout.base gid

structure HoldsConstants (m : ModuleIR) (layout : Layout) (replaced : Replacements) (st : ExecState) : Prop where
  memory : ∀ gv, Stable m gv → ∀ type, ReplacedLoad m replaced gv.id type → ∀ c, gv.initializer = some c →
    st.memory.read (layout.base gv.id) c.getType.size = c.bits layout
  results : HoldsResults m layout replaced st.results
  incoming : HoldsResults m layout replaced st.incoming

section Operands

variable {replaced earlier : Replacements} {st : ExecState}

lemma Replacements.mem_of_get {id : ℕ} {c : Constant} (h : replaced.get id = some c) : (id, c) ∈ replaced := by
  obtain ⟨before, after, rfl, -⟩ := List.lookup_eq_some_iff.1 h
  simp

lemma bits_of_globalOf {c : Constant} {gid : ℕ} (h : globalOf (.constant c) = some gid) :
    c.bits layout = layout.base gid := by
  rw [← Constant.bits_strip]
  unfold globalOf at h
  split at h
  · rename_i id type heq
    cases h
    have hstrip : c.stripPointerCasts = .global gid type := by
      simpa [stripPointerCasts] using heq
    rw [hstrip]
    rfl
  · cases h

lemma HoldsResults.eval_replaced (h : HoldsResults m layout replaced st.results) (hsub : earlier ⊆ replaced)
    {act id value : ℕ}
    {c : Constant} (hget : earlier.get id = some c) (hvalue : st.results act id = some value) :
    value = c.bits layout :=
  h.constants id c (hsub (Replacements.mem_of_get hget)) act value hvalue

lemma HoldsResults.eval_global (h : HoldsResults m layout replaced st.results) (hsub : earlier ⊆ replaced)
    {operand : Operand} (hcoherent : operand.Coherent m.instructions) {act gid value : ℕ}
    (hglobal : globalOf (earlier.subst operand) = some gid) (hvalue : st.eval layout act operand = some value) :
    value = layout.base gid := by
  cases operand with
  | constant c =>
    cases hvalue
    exact bits_of_globalOf hglobal
  | argument id => cases hglobal
  | result id =>
    unfold Replacements.subst at hglobal
    cases hget : earlier.get id with
    | none =>
      rw [hget] at hglobal
      cases hglobal
    | some c =>
      rw [hget] at hglobal
      rw [h.eval_replaced hsub hget hvalue]
      exact bits_of_globalOf hglobal
  | castResult id operand =>
    unfold Replacements.subst at hglobal
    cases hget : earlier.get id with
    | none =>
      rw [hget] at hglobal
      obtain ⟨⟨type, hcast⟩, -⟩ := hcoherent
      exact h.casts earlier hsub id type operand hcast gid hglobal act value hvalue
    | some c =>
      rw [hget] at hglobal
      rw [h.eval_replaced hsub hget hvalue]
      exact bits_of_globalOf hglobal

lemma HoldsResults.eval_constant (h : HoldsResults m layout replaced st.results) (hsub : earlier ⊆ replaced)
    {operand : Operand} {c : Constant} (hconstant : constantOf (earlier.subst operand) = some c) {act value : ℕ}
    (hvalue : st.eval layout act operand = some value) : value = c.bits layout := by
  cases operand with
  | constant c =>
    cases hconstant
    cases hvalue
    rfl
  | argument id => cases hconstant
  | result id =>
    unfold Replacements.subst at hconstant
    cases hget : earlier.get id with
    | none =>
      rw [hget] at hconstant
      cases hconstant
    | some c =>
      rw [hget] at hconstant
      cases hconstant
      exact h.eval_replaced hsub hget hvalue
  | castResult id operand =>
    unfold Replacements.subst at hconstant
    cases hget : earlier.get id with
    | none =>
      rw [hget] at hconstant
      cases hconstant
    | some c =>
      rw [hget] at hconstant
      cases hconstant
      exact h.eval_replaced hsub hget hvalue

lemma HoldsResults.eval_constants (h : HoldsResults m layout replaced st.results) (hsub : earlier ⊆ replaced)
    {operands : List Operand} {consts : List Constant}
    (hconsts : (operands.map earlier.subst).mapM constantOf = some consts) {act : ℕ} {values : List ℕ}
    (hvalues : operands.mapM (st.eval layout act) = some values) : values = consts.map (Constant.bits layout) := by
  induction operands generalizing consts values with
  | nil =>
    cases hconsts
    cases hvalues
    rfl
  | cons operand rest ih =>
    simp only [List.map_cons, List.mapM_cons, Option.bind_eq_bind, Option.bind_eq_some_iff, Option.pure_def,
      Option.some.injEq] at hconsts hvalues
    obtain ⟨c, hc, cs, hcs, rfl⟩ := hconsts
    obtain ⟨value, hvalue, others, hothers, rfl⟩ := hvalues
    rw [h.eval_constant hsub hc hvalue, ih hcs hothers]
    rfl

end Operands

section Steps

variable {replaced : Replacements} {st st' : ExecState}

lemma not_isDirectStore_of_not_overwritten {pass : PropState} {gid : ℕ} (hkeeps : pass.KeepsStores m)
    (h : pass.hasGlobalOverwritten m gid = false) : ∀ inst ∈ m.instructions, isDirectStore gid inst = false := by
  intro inst hinst
  cases inst with
  | store id size value pointer =>
    have hleft : .store id size value pointer ∈ pass.instructions m := by
      refine List.mem_filter.2 ⟨hinst, ?_⟩
      simpa [Inst.id] using hkeeps id size value pointer hinst
    by_contra htrue
    rw [Bool.not_eq_false, isDirectStore, PropState.isStoreUser, List.any_eq_true] at htrue
    obtain ⟨operand, hoperand, hsame⟩ := htrue
    have huser : pass.isStoreUser gid (.store id size value pointer) = true := by
      refine List.any_eq_true.2 ⟨operand, hoperand, ?_⟩
      cases operand with
      | constant c => exact hsame
      | _ => cases hsame
    have hany : pass.hasGlobalOverwritten m gid = true := List.any_eq_true.2 ⟨_, hleft, huser⟩
    rw [h] at hany
    cases hany
  | _ => rfl

lemma stable_of_constantFor {pass : PropState} {id : ℕ} {type : Ty} {pointer : Operand} {c : Constant}
    (hkeeps : pass.KeepsStores m) (h : pass.constantFor m lib (.load id type pointer) = some c) :
    ∃ gv, Stable m gv ∧ gv.initializer = some c ∧ globalOf (pass.replaced.subst pointer) = some gv.id := by
  simp only [PropState.constantFor, Option.bind_eq_bind, Option.bind_eq_some_iff] at h
  obtain ⟨gid, hglobal, h⟩ := h
  unfold PropState.loadedConstant at h
  cases hgv : m.getGlobal gid with
  | none =>
    rw [hgv] at h
    cases h
  | some gv =>
    rw [hgv] at h
    simp only at h
    split_ifs at h with hcond
    obtain rfl : gv.id = gid := ModuleIR.getGlobal_id hgv
    simp only [Bool.and_eq_true, Bool.or_eq_true, Bool.not_eq_true'] at hcond
    refine ⟨gv, ⟨ModuleIR.getGlobal_mem hgv, hcond.2.imp_right ?_⟩, h, hglobal⟩
    exact not_isDirectStore_of_not_overwritten hkeeps

lemma convert_eq {type : Ty} {c c' : Constant} (h : PropState.convert lib (some type) c = some c') :
    (c.getType = type ∧ c' = c) ∨ (c.getType ≠ type ∧ convertConstant lib c type = some c') := by
  unfold PropState.convert at h
  split_ifs at h with htype
  · exact Or.inl ⟨Option.some.inj htype, (Option.some.inj h).symm⟩
  · exact Or.inr ⟨fun heq => htype (by rw [heq]), h⟩

/-- Where the pass looks at all uses, a step keeps what its loads are replaced by. -/
lemma HoldsConstants.memory_step (h : HoldsConstants m layout replaced st) (hseen : UsesSeen m layout replaced)
    (hkeeps : ∀ gv ∈ m.globals, gv.isConstant = true ∨ ¬AddressUsed m layout gv.id →
      KeepsGlobal layout gv st.memory st'.memory) (gv : GlobalVariable) (hstable : Stable m gv) (type : Ty)
    (hload : ReplacedLoad m replaced gv.id type) (c : Constant) (hc : gv.initializer = some c) :
    st'.memory.read (layout.base gv.id) c.getType.size = c.bits layout := by
  have hsame : Memory.SameBytes st.memory st'.memory (layout.base gv.id) c.getType.size := by
    refine hkeeps gv hstable.mem ?_ c hc
    rcases hstable.kept with hconstant | hnot
    · exact .inl hconstant
    · cases hconstant : gv.isConstant with
      | true => exact .inl rfl
      | false =>
        right
        rintro (hkept | ⟨inst, hinst, huses⟩)
        · exact hseen.kept gv hstable.mem hconstant type hload hkept
        · have hstore := hseen.used gv hstable.mem hconstant type hload inst hinst huses
          rw [hnot inst hinst] at hstore
          cases hstore
  rw [hsame.read_eq]
  exact h.memory gv hstable type hload c hc

lemma exists_constant {earlier : Replacements} {operands : List Operand} {consts : List Constant} {operand : Operand}
    (hconsts : (operands.map earlier.subst).mapM constantOf = some consts) (hoperand : operand ∈ operands) :
    ∃ c ∈ consts, constantOf (earlier.subst operand) = some c := by
  induction operands generalizing consts with
  | nil => cases hoperand
  | cons first rest ih =>
    simp only [List.map_cons, List.mapM_cons, Option.bind_eq_bind, Option.bind_eq_some_iff, Option.pure_def,
      Option.some.injEq] at hconsts
    obtain ⟨c, hc, cs, hcs, rfl⟩ := hconsts
    rcases List.mem_cons.1 hoperand with rfl | hrest
    · exact ⟨c, List.mem_cons_self, hc⟩
    · obtain ⟨c', hmem, hc'⟩ := ih hcs hrest
      exact ⟨c', List.mem_cons_of_mem _ hmem, hc'⟩

lemma HoldsConstants.result_step (h : HoldsConstants m layout replaced st) (hfold : FoldsResults lib layout ops)
    (hseen : UsesSeen m layout replaced) {act : ℕ} {inst : Inst} (hstep : Step m layout ops act inst st st')
    {c : Constant} (hentry : (inst.id, c) ∈ replaced) (hjustified : PropState.Justified m lib replaced inst.id c)
    {value : ℕ} (hvalue : st'.results act inst.id = some value) : value = c.bits layout := by
  obtain ⟨pass, inst', hkeeps, hsub, hinst', hid, found, hfound, hconvert⟩ := hjustified
  cases hstep with
  | @load st id type pointer address hinst haddress =>
    obtain rfl := m.unique inst' hinst' _ hinst hid
    obtain ⟨gv, hstable, hinit, hglobal⟩ := stable_of_constantFor hkeeps hfound
    have hload : ReplacedLoad m replaced gv.id type := ⟨id, c, pointer, _, hentry, hinst, hsub, hglobal⟩
    have hcoherent := m.coherent _ hinst pointer (by simp [Inst.operands])
    have hbase := h.results.eval_global hsub hcoherent hglobal haddress
    subst hbase
    have hread : value = st.memory.read (layout.base gv.id) type.size := by
      simpa [ExecState.setResult, Inst.id] using hvalue.symm
    have htype := hseen.types gv hstable.mem type hload found hinit
    rcases convert_eq hconvert with ⟨-, rfl⟩ | ⟨hne, -⟩
    · rw [hread, ← htype]
      exact h.memory gv hstable type hload c hinit
    · exact absurd htype hne
  | @store st id size value' pointer bits address hinst hbits haddress =>
    obtain rfl := m.unique inst' hinst' _ hinst hid
    cases hfound
  | @cast st id type operand bits hinst hbits =>
    obtain rfl := m.unique inst' hinst' _ hinst hid
    simp only [PropState.constantFor, Option.bind_eq_bind, Option.bind_eq_some_iff, Option.some.injEq] at hfound
    obtain ⟨operandConstant, hoperand, rfl⟩ := hfound
    have hresult : value = bits := by simpa [ExecState.setResult, Inst.id] using hvalue.symm
    rcases convert_eq hconvert with ⟨-, rfl⟩ | ⟨hne, -⟩
    · rw [hresult, h.results.eval_constant hsub hoperand hbits]
      rfl
    · exact absurd rfl hne
  | @operation st id type opcode operands bits memory result hinst hphi hbits hops =>
    obtain rfl := m.unique inst' hinst' _ hinst hid
    simp only [PropState.constantFor, Option.bind_eq_bind, Option.bind_eq_some_iff] at hfound
    obtain ⟨consts, hconsts, hfolded⟩ := hfound
    have hresult : value = result := by simpa [ExecState.setResult, Inst.id] using hvalue.symm
    rcases convert_eq hconvert with ⟨-, rfl⟩ | ⟨hne, -⟩
    · rw [hresult]
      apply hfold.effect _ _ _ _ hfolded hphi st.memory memory result
      rwa [← h.results.eval_constants hsub hconsts hbits]
    · exact absurd (hfold.type _ _ _ _ hfolded) hne
  | @phi st id type opcode operands operand bits hinst hphi hoperand hbits =>
    obtain rfl := m.unique inst' hinst' _ hinst hid
    simp only [PropState.constantFor, Option.bind_eq_bind, Option.bind_eq_some_iff] at hfound
    obtain ⟨consts, hconsts, hfolded⟩ := hfound
    obtain ⟨selected, hselected, hconstant⟩ := exists_constant hconsts hoperand
    have hresult : value = bits := by simpa [ExecState.setResult, Inst.id] using hvalue.symm
    rcases convert_eq hconvert with ⟨-, rfl⟩ | ⟨hne, -⟩
    · have hincoming : HoldsResults m layout replaced st.atEntry.results := h.incoming
      rw [hresult, hincoming.eval_constant hsub hconstant hbits]
      exact hfold.phi _ _ _ _ hfolded hphi selected hselected
    · exact absurd (hfold.type _ _ _ _ hfolded) hne

lemma HoldsConstants.cast_step (h : HoldsConstants m layout replaced st) {earlier : Replacements}
    (hsub : earlier ⊆ replaced)
    {act id : ℕ} {type : Ty} {operand : Operand} {inst : Inst} (hcast : .cast id type operand ∈ m.instructions)
    (hstep : Step m layout ops act inst st st') (hid : id = inst.id) {gid value : ℕ}
    (hglobal : globalOf (earlier.subst operand) = some gid) (hvalue : st'.results act id = some value) :
    value = layout.base gid := by
  cases hstep with
  | @cast st id' type' operand' bits hinst hbits =>
    cases m.unique _ hcast _ hinst hid
    have hresult : value = bits := by simpa [ExecState.setResult, Inst.id] using hvalue.symm
    rw [hresult]
    exact h.results.eval_global hsub (m.coherent _ hinst operand (by simp [Inst.operands])) hglobal hbits
  | load hinst _ => cases m.unique _ hcast _ hinst hid
  | store hinst _ _ => cases m.unique _ hcast _ hinst hid
  | operation hinst _ _ _ => cases m.unique _ hcast _ hinst hid
  | phi hinst _ _ _ => cases m.unique _ hcast _ hinst hid

lemma HoldsConstants.step (h : HoldsConstants m layout replaced st) (hfold : FoldsResults lib layout ops)
    (hjustified : ∀ id c, (id, c) ∈ replaced → PropState.Justified m lib replaced id c)
    (hseen : UsesSeen m layout replaced) {act : ℕ} {inst : Inst} (hstep : Step m layout ops act inst st st')
    (hkeeps : ∀ gv ∈ m.globals, gv.isConstant = true ∨ ¬AddressUsed m layout gv.id →
      KeepsGlobal layout gv st.memory st'.memory) : HoldsConstants m layout replaced st' := by
  refine ⟨fun gv hstable type hload c hc => h.memory_step hseen hkeeps gv hstable type hload c hc, ⟨?_, ?_⟩, ?_⟩
  · intro id c hentry act' value hvalue
    rcases hstep.results_cases hvalue with ⟨rfl, rfl⟩ | hbefore
    · exact h.result_step hfold hseen hstep hentry (hjustified _ c hentry) hvalue
    · exact h.results.constants id c hentry act' value hbefore
  · intro earlier hsub id type operand hcast gid hglobal act' value hvalue
    rcases hstep.results_cases hvalue with ⟨rfl, hid⟩ | hbefore
    · exact h.cast_step hsub hcast hstep hid hglobal hvalue
    · exact h.results.casts earlier hsub id type operand hcast gid hglobal act' value hbefore
  · rw [hstep.incoming_eq]
    exact h.incoming

lemma HoldsConstants.enterBlock (h : HoldsConstants m layout replaced st) (act : ℕ) :
    HoldsConstants m layout replaced (st.enterBlock act) := by
  refine ⟨h.memory, h.results, ⟨?_, ?_⟩⟩
  · intro id c hentry act' value hvalue
    rcases ExecState.enterBlock_cases hvalue with hresult | hincoming
    · exact h.results.constants id c hentry act' value hresult
    · exact h.incoming.constants id c hentry act' value hincoming
  · intro earlier hsub id type operand hcast gid hglobal act' value hvalue
    rcases ExecState.enterBlock_cases hvalue with hresult | hincoming
    · exact h.results.casts earlier hsub id type operand hcast gid hglobal act' value hresult
    · exact h.incoming.casts earlier hsub id type operand hcast gid hglobal act' value hincoming

lemma holdsResults_of_none (replaced : Replacements) {results : ℕ → ℕ → Option ℕ}
    (h : ∀ act id, results act id = none) : HoldsResults m layout replaced results := by
  constructor
  · intro id c hentry act value hvalue
    rw [h] at hvalue
    cases hvalue
  · intro earlier hsub id type operand hcast gid hglobal act value hvalue
    rw [h] at hvalue
    cases hvalue

lemma LLVM.Started.holdsConstants (h : Started m layout st) (replaced : Replacements) :
    HoldsConstants m layout replaced st :=
  ⟨fun gv hstable _ _ c hc => h.initialized gv hstable.mem c hc, holdsResults_of_none replaced h.results,
    holdsResults_of_none replaced h.incoming⟩

/-- By induction on the execution. -/
lemma LLVM.Run.holdsConstants {steps : List ExecStep} (hrun : Run m layout ops st steps st')
    (hstart : Started m layout st) (hfold : FoldsResults lib layout ops)
    (hjustified : ∀ id c, (id, c) ∈ replaced → PropState.Justified m lib replaced id c)
    (hseen : UsesSeen m layout replaced) : HoldsConstants m layout replaced st' := by
  induction hrun with
  | start => exact hstart.holdsConstants replaced
  | step hrun hstep hkeeps ih => exact ih.step hfold hjustified hseen hstep hkeeps
  | block act hrun ih => exact ih.enterBlock act
  | arguments arguments hrun ih => exact ⟨ih.memory, ih.results, ih.incoming⟩

end Steps

end Executions

def LoadsReturn (m : ModuleIR) (lib : ConstantFolding) (fuel : ℕ) (f : List Inst) (layout : Layout) (st : ExecState) :
    Prop :=
  ∀ id c type pointer, (id, c) ∈ (intraConstantProp m lib fuel f).replaced → .load id type pointer ∈ m.instructions →
    ∀ act value, st.results act id = some value → value = c.bits layout

namespace ByteStore

def x : GlobalVariable := { id := 0, initializer := some (.data (.integer 32) 5) }

def address : Constant := .global 0 (.pointer (.integer 32))

def loads : List Inst :=
  [.load 1 (.integer 32) (.constant address), .operation 2 (.integer 32) 0 [.result 1]]

def store : Inst :=
  .store 0 1 (.constant (.data (.integer 8) 7)) (.constant (.pointerCast address (.pointer (.integer 8))))

def moduleOf (f : List Inst) (unique : ∀ inst ∈ f, ∀ inst' ∈ f, inst.id = inst'.id → inst = inst')
    (coherent : ∀ inst ∈ f, ∀ operand ∈ inst.operands, operand.Coherent f) : ModuleIR where
  globals := [x]
  functions := [f]
  unique := by simpa using unique
  coherent := by simpa using coherent

lemma coherent (insts : List Inst) : ∀ inst ∈ store :: loads, ∀ operand ∈ inst.operands, operand.Coherent insts := by
  intro inst hinst operand hoperand
  simp only [loads, store, List.mem_cons, List.not_mem_nil, or_false] at hinst
  rcases hinst with rfl | rfl | rfl <;> simp only [Inst.operands, List.mem_cons, List.not_mem_nil, or_false] at hoperand
  · rcases hoperand with rfl | rfl <;> trivial
  · subst hoperand
    trivial
  · subst hoperand
    trivial

def stored : ModuleIR := moduleOf (store :: loads) (by decide) (coherent _)

def unstored : ModuleIR :=
  moduleOf loads (by decide) fun inst hinst => coherent loads inst (List.mem_cons_of_mem _ hinst)

def lib : ConstantFolding where
  fold := fun _ _ _ => none
  getFPToSI := fun c _ => c
  getSIToFP := fun c _ => c
  isRemovable := fun _ => false

def layout : Layout := ⟨fun _ => 0, fun _ => false, fun _ => 0, fun _ => []⟩

def ops : Operations := ⟨fun _ => false, fun _ => false, fun _ _ memory memory' _ => memory' = memory⟩

def start : ExecState := ⟨fun a => if a = 0 then 5 else 0, fun _ _ => none, fun _ _ => none, fun _ _ => 0⟩

lemma folds : FoldsResults lib layout ops := by
  constructor
  · intro type opcode consts c h
    cases h
  · intro type opcode consts c h
    cases h
  · intro type opcode consts c h
    cases h

lemma started (m : ModuleIR) (hglobals : m.globals = [x]) : Started m layout start := by
  refine ⟨fun _ _ => rfl, fun _ _ => rfl, fun gv hgv c hc => ?_⟩
  rw [hglobals, List.mem_singleton] at hgv
  subst hgv
  cases hc
  decide +kernel

lemma not_addressKept (m : ModuleIR) (hglobals : m.globals = [x]) : ¬AddressKept m layout 0 := by
  rintro (houtside | ⟨gv, hgv, c, hc, hrefers⟩)
  · cases houtside
  · rw [hglobals, List.mem_singleton] at hgv
    subst hgv
    cases hc
    cases hrefers

lemma unstored_usesSeen (replaced : Replacements) : UsesSeen unstored layout replaced := by
  have hx : ∀ gv ∈ unstored.globals, gv = x := by simp [unstored, moduleOf]
  constructor
  · intro gv hgv _ _ _
    rw [hx gv hgv]
    exact not_addressKept unstored rfl
  · intro gv hgv _ _ _
    rw [hx gv hgv]
    decide +kernel
  · rintro gv hgv type ⟨id, c, pointer, earlier, -, hload, -, -⟩ init hinit
    rw [hx gv hgv] at hinit
    cases hinit
    simp only [unstored, moduleOf, ModuleIR.instructions, loads, List.flatten_cons, List.flatten_nil, List.append_nil,
      List.mem_cons, List.not_mem_nil, or_false, Inst.load.injEq, reduceCtorEq] at hload
    exact hload.2.1.symm

end ByteStore

end OpenRace
