import OpenRace.PreProcessing.InsertFakeCallForGuardBlocks
import OpenRace.Library.Failure

/-! Who asks for the blocks that a branch guards, and what the search is asked for. -/

namespace OpenRace

open LLVM LLVM.CFGModule LanguageModel Library

/-- A user of a comparison's result; a branch is the one that ends the block. -/
inductive CmpUser where
  | branch (block : ℕ)
  | other
deriving DecidableEq

def CmpUser.branch? : CmpUser → Option ℕ
  | branch block => some block
  | other => none

/-- Users of a value, the most recent first, where comparisons have all their users. -/
inductive ValueUser where
  | load (users : List ValueUser)
  | cmp (isEq : Bool) (lhs rhs : Value) (users : List CmpUser)
  | other

namespace ValueUser

mutual

def toCallUser : ValueUser → CallUser
  | load users => .load (toCallUsers users)
  | cmp isEq lhs rhs users => .cmp isEq lhs rhs (users.filterMap CmpUser.branch?)
  | other => .other

def toCallUsers : List ValueUser → List CallUser
  | [] => []
  | user :: rest => user.toCallUser :: toCallUsers rest

end

mutual

def constCmp : ValueUser → List (List CmpUser × ℕ)
  | load users => constCmps users
  | cmp isEq lhs rhs users => if isEq then ((comparedConst lhs rhs).map fun value => (users, value)).toList else []
  | other => []

def constCmps : List ValueUser → List (List CmpUser × ℕ)
  | [] => []
  | user :: rest => constCmps rest ++ user.constCmp

end

end ValueUser

def isForStaticInitCall (call : CallBase) : Bool :=
  match call.getCalledFunction with
  | none => false
  | some f => f.hasName && OpenMPModel.isForStaticInit f.name

/-- The flag for the last iteration is the fourth argument of the call that starts a loop. -/
def isLastFlag : Instruction → Option Value
  | .call call => if isForStaticInitCall call then call.args[3]? else none
  | _ => none

/-- A call that starts a loop has a fourth argument, which is asserted where the argument is asked for. -/
def passesFlag : Instruction → Bool
  | .call call => !isForStaticInitCall call || decide (3 < call.args.length)
  | _ => true

structure UsedModule where
  module : CFGModule
  users : Value → List ValueUser
  flagged : ∀ block ∈ module.blocks, ∀ inst ∈ block.instructions, passesFlag inst = true
  agree : ∀ call, module.usersOf call = ValueUser.toCallUsers (users (.call call))
  conditional : ∀ value, ∀ cmp ∈ ValueUser.constCmps (users value), ∀ branch, .branch branch ∈ cmp.1 →
    ∃ block ∈ module.blocks, block.id = branch ∧ block.terminator.isConditional = true

def LLVM.CFGFunction.lastFlags (func : CFGFunction) : List Value :=
  func.blocks.flatMap fun block => block.instructions.filterMap isLastFlag

namespace UsedModule

variable (used : UsedModule) (fuel : ℕ)

/-- The branch is not asked for whether it is null. -/
def guardedBy (user : CmpUser) : Except GuardError BlockSet :=
  match user.branch? with
  | none => .error .notABranch
  | some branch => getGuardedBlocks used.module fuel branch false

def addLastprivate (blocks : BlockSet) (user : CmpUser) : Except GuardError BlockSet := do
  return (← used.guardedBy fuel user).elems.foldl OrderedSet.insert blocks

def addLastprivates (blocks : BlockSet) (cmp : List CmpUser × ℕ) : Except GuardError BlockSet :=
  if cmp.2 = 0 then cmp.1.foldlM (used.addLastprivate fuel) blocks else .ok blocks

def addFlag (blocks : BlockSet) (flag : Value) : Except GuardError BlockSet :=
  (ValueUser.constCmps (used.users flag)).foldlM (used.addLastprivates fuel) blocks

def computeLastprivateBlocks (func : CFGFunction) : Except GuardError BlockSet :=
  func.lastFlags.foldlM (used.addFlag fuel) .empty

def addFunction (blocks : BlockSet) (func : CFGFunction) : Except GuardError BlockSet := do
  return (← used.computeLastprivateBlocks fuel func).elems.foldl OrderedSet.insert blocks

def lastprivateBlocks : Except GuardError BlockSet :=
  used.module.functions.foldlM (used.addFunction fuel) .empty

/-- Of the pass; here a user that is no branch is passed over. -/
def addUser (call tid : ℕ) (state : GuardBlockState) (user : CmpUser) : Except GuardError GuardBlockState :=
  match user.branch? with
  | none => .ok state
  | some branch => state.addBranch used.module fuel call tid branch

def addUsers (call : ℕ) (state : GuardBlockState) (cmp : List CmpUser × ℕ) : Except GuardError GuardBlockState :=
  cmp.1.foldlM (used.addUser fuel call cmp.2) state

def computeGuardedBlocks (state : GuardBlockState) (call : ℕ) : Except GuardError GuardBlockState :=
  if call ∈ state.visited then .ok state
  else do
    let state ← (ValueUser.constCmps (used.users (.call call))).foldlM (used.addUsers fuel call) state
    return { state with visited := call :: state.visited }

def guardState : Except GuardError GuardBlockState :=
  used.module.getThreadNumCalls.foldlM (used.computeGuardedBlocks fuel) {}

end UsedModule

namespace ValueUser

mutual

lemma constCmpEq_toCallUser (user : ValueUser) :
    constCmpEq user.toCallUser = user.constCmp.map fun cmp => (cmp.1.filterMap CmpUser.branch?, cmp.2) := by
  cases user with
  | load users =>
    rw [toCallUser, constCmpEq, constCmp]
    exact getConstCmpEqInsts_toCallUsers users
  | cmp isEq lhs rhs users =>
    rw [toCallUser, constCmpEq, constCmp]
    cases isEq with
    | false => rfl
    | true => cases comparedConst lhs rhs <;> rfl
  | other => rfl

lemma getConstCmpEqInsts_toCallUsers (users : List ValueUser) : getConstCmpEqInsts (toCallUsers users) =
    (constCmps users).map fun cmp => (cmp.1.filterMap CmpUser.branch?, cmp.2) := by
  cases users with
  | nil => rfl
  | cons user rest =>
    rw [toCallUsers, getConstCmpEqInsts, constCmps, List.map_append, getConstCmpEqInsts_toCallUsers rest,
      constCmpEq_toCallUser user]

end

end ValueUser

namespace UsedModule

variable {used : UsedModule} {fuel : ℕ}

lemma addUsers_eq (call : ℕ) (state : GuardBlockState) (cmp : List CmpUser × ℕ) : used.addUsers fuel call state cmp =
    (cmp.1.filterMap CmpUser.branch?).foldlM (GuardBlockState.addBranch used.module fuel call cmp.2) state := by
  rw [addUsers, List.foldlM_filterMap]
  congr
  funext state user
  rw [addUser]
  cases user.branch? <;> rfl

lemma computeGuardedBlocks_eq (state : GuardBlockState) (call : ℕ) : used.computeGuardedBlocks fuel state call =
    GuardBlockState.computeGuardedBlocks used.module fuel state call := by
  rw [computeGuardedBlocks, GuardBlockState.computeGuardedBlocks, used.agree, ValueUser.getConstCmpEqInsts_toCallUsers,
    List.foldlM_map]
  congr
  funext state cmp
  exact addUsers_eq call state cmp

lemma guardState_eq : used.guardState fuel =
    used.module.getThreadNumCalls.foldlM (GuardBlockState.computeGuardedBlocks used.module fuel) {} := by
  rw [guardState]
  congr
  funext state call
  exact computeGuardedBlocks_eq state call

end UsedModule

/-- The worklist is popped only where it is not empty, and every branch is one. -/
def SearchSafe {α : Type} (answer : Except GuardError α) : Prop :=
  answer ≠ .error .emptyWorklist ∧ answer ≠ .error .notABranch

def LLVM.CFGModule.GoesOn (module : CFGModule) (branchInst : ℕ) (branch : Bool) : Prop :=
  ∀ id trueBlock falseBlock,
    (module.block? branchInst).map CFGBlock.terminator = some (.condBr id trueBlock falseBlock) →
    module.succ (if branch then trueBlock else falseBlock) ≠ []

section Search

variable {module : CFGModule} {search : GuardSearch} {fuel branchInst : ℕ} {branch : Bool} {blocks : BlockSet}

def GuardError.Misuse (error : GuardError) : Prop := error = .emptyWorklist ∨ error = .notABranch

lemma searchSafe_of_errsIn {α : Type} {answer : Except GuardError α} (h : ErrsIn (· = .outOfFuel) answer) :
    SearchSafe answer := by
  constructor
  · intro herror
    cases h _ herror
  · intro herror
    cases h _ herror

lemma SearchSafe.exists_ok {α : Type} {answer : Except GuardError α} (h : SearchSafe answer)
    (herrs : ErrsIn GuardError.Misuse answer) : ∃ a, answer = .ok a := by
  cases answer with
  | ok a => exact ⟨a, rfl⟩
  | error error =>
    rcases herrs error rfl with rfl | rfl
    · exact absurd rfl h.1
    · exact absurd rfl h.2

lemma errsIn_guardBlocks (hne : search.worklist ≠ []) : ErrsIn (· = .outOfFuel) (guardBlocks module fuel search) := by
  induction fuel generalizing search with
  | zero => exact errsIn_error rfl
  | succ fuel ih =>
    rw [guardBlocks]
    cases hw : search.worklist with
    | nil => exact absurd hw hne
    | cons currentBlock worklist =>
      dsimp only
      split
      · exact errsIn_ok _
      · rename_i hempty
        exact ih fun hnil => hempty (List.isEmpty_iff.mpr hnil)

lemma getGuardedBlocks_condBr {id trueBlock falseBlock : ℕ}
    (h : (module.block? branchInst).map CFGBlock.terminator = some (.condBr id trueBlock falseBlock)) :
    getGuardedBlocks module fuel branchInst branch =
      guardBlocks module fuel (.initial module (if branch then trueBlock else falseBlock)) := by
  rw [getGuardedBlocks, h]

lemma getGuardedBlocks_error (h : ∀ id trueBlock falseBlock,
    (module.block? branchInst).map CFGBlock.terminator ≠ some (.condBr id trueBlock falseBlock)) :
    getGuardedBlocks module fuel branchInst branch = .error .notABranch := by
  rw [getGuardedBlocks]
  split
  · rename_i id trueBlock falseBlock hterm
    exact absurd hterm (h id trueBlock falseBlock)
  · rfl

lemma initial_ne_nil {target : ℕ} (h : module.succ target ≠ []) :
    (GuardSearch.initial module target).worklist ≠ [] := by
  rw [GuardSearch.initial]
  simpa using h

lemma guardBlocks_initial_error {target : ℕ} (h : module.succ target = []) :
    guardBlocks module (fuel + 1) (.initial module target) = .error .emptyWorklist := by
  rw [guardBlocks, GuardSearch.initial, h]
  rfl

lemma exists_condBr (h : ∃ block ∈ module.blocks, block.id = branchInst ∧ block.terminator.isConditional = true) :
    ∃ id trueBlock falseBlock,
      (module.block? branchInst).map CFGBlock.terminator = some (.condBr id trueBlock falseBlock) := by
  obtain ⟨block, hblock, hid, hcond⟩ := h
  rw [module.block?_eq_some.mpr ⟨hblock, hid⟩]
  cases hterm : block.terminator with
  | condBr id trueBlock falseBlock => exact ⟨id, trueBlock, falseBlock, congrArg some hterm⟩
  | ret id =>
    rw [hterm] at hcond
    cases hcond
  | br id dest =>
    rw [hterm] at hcond
    cases hcond
  | other inst dests =>
    rw [hterm] at hcond
    cases hcond

lemma errsIn_getGuardedBlocks
    (hcond : ∃ block ∈ module.blocks, block.id = branchInst ∧ block.terminator.isConditional = true)
    (h : module.GoesOn branchInst branch) :
    ErrsIn (· = .outOfFuel) (getGuardedBlocks module fuel branchInst branch) := by
  obtain ⟨id, trueBlock, falseBlock, hterm⟩ := exists_condBr hcond
  rw [getGuardedBlocks_condBr hterm]
  exact errsIn_guardBlocks (initial_ne_nil (h id trueBlock falseBlock hterm))

lemma goesOn_of_ok (hok : getGuardedBlocks module fuel branchInst branch = .ok blocks) :
    module.GoesOn branchInst branch := by
  intro id trueBlock falseBlock hterm hnil
  rw [getGuardedBlocks_condBr hterm] at hok
  cases fuel with
  | zero => cases hok
  | succ fuel =>
    rw [guardBlocks_initial_error hnil] at hok
    cases hok

lemma getGuardedBlocks_settles (module : CFGModule) (branchInst : ℕ) (branch : Bool) :
    ∃ enough, ∀ fuel ≥ enough, ErrsIn GuardError.Misuse (getGuardedBlocks module fuel branchInst branch) := by
  by_cases hterm : ∃ id trueBlock falseBlock,
      (module.block? branchInst).map CFGBlock.terminator = some (.condBr id trueBlock falseBlock)
  · obtain ⟨id, trueBlock, falseBlock, hterm⟩ := hterm
    by_cases hnil : module.succ (if branch then trueBlock else falseBlock) = []
    · refine ⟨1, fun fuel hle => ?_⟩
      obtain ⟨fuel, rfl⟩ := Nat.exists_eq_add_of_le' hle
      rw [getGuardedBlocks_condBr hterm, guardBlocks_initial_error hnil]
      exact errsIn_error (Or.inl rfl)
    · obtain ⟨enough, blocks, hok⟩ := guardBlocks_ends (.initial module _) (initial_ne_nil hnil)
      refine ⟨enough, fun fuel hle => ?_⟩
      rw [getGuardedBlocks_condBr hterm, guardBlocks_mono hle hok]
      exact errsIn_ok blocks
  · refine ⟨0, fun fuel _ => ?_⟩
    rw [getGuardedBlocks_error fun id trueBlock falseBlock heq => hterm ⟨id, trueBlock, falseBlock, heq⟩]
    exact errsIn_error (Or.inr rfl)

lemma exists_fuel (module : CFGModule) :
    ∃ fuel, ∀ branchInst branch, ErrsIn GuardError.Misuse (getGuardedBlocks module fuel branchInst branch) := by
  choose enough henough using getGuardedBlocks_settles module
  let most (block : ℕ) : ℕ := max (enough block true) (enough block false)
  refine ⟨(module.blocks.map CFGBlock.id).toFinset.sup most, fun branchInst branch => ?_⟩
  by_cases hm : branchInst ∈ module.blocks.map CFGBlock.id
  · apply henough
    have hle : most branchInst ≤ (module.blocks.map CFGBlock.id).toFinset.sup most :=
      Finset.le_sup (List.mem_toFinset.mpr hm)
    cases branch with
    | true => exact (le_max_left _ _).trans hle
    | false => exact (le_max_right _ _).trans hle
  · have hnone : module.block? branchInst = none := by
      rw [block?, List.find?_eq_none]
      intro block hblock hid
      exact hm (List.mem_map.mpr ⟨block, hblock, of_decide_eq_true hid⟩)
    rw [getGuardedBlocks, hnone]
    exact errsIn_error (Or.inr rfl)

end Search

namespace UsedModule

variable {used : UsedModule} {fuel : ℕ}

/-- The users of the comparisons of the flags with zero are branches that lead on where the flag is set. -/
def FlagsGoOn (used : UsedModule) : Prop :=
  ∀ func ∈ used.module.functions, ∀ flag ∈ func.lastFlags, ∀ cmp ∈ ValueUser.constCmps (used.users flag), cmp.2 = 0 →
    ∀ user ∈ cmp.1, ∃ branch, user = .branch branch ∧ used.module.GoesOn branch false

/-- The branches on comparisons of the thread's number lead on where they are equal. -/
def TestsGoOn (used : UsedModule) : Prop :=
  ∀ call ∈ used.module.getThreadNumCalls, ∀ cmp ∈ ValueUser.constCmps (used.users (.call call)),
    ∀ branch, .branch branch ∈ cmp.1 → used.module.GoesOn branch true

section Lastprivate

lemma errsIn_guardedBy {errors : GuardError → Prop} {user : CmpUser} (hnone : user.branch? = none → errors .notABranch)
    (hsome : ∀ branch, user = .branch branch → ErrsIn errors (getGuardedBlocks used.module fuel branch false)) :
    ErrsIn errors (used.guardedBy fuel user) := by
  rw [guardedBy]
  cases user with
  | branch branch => exact hsome branch rfl
  | other => exact errsIn_error (hnone rfl)

lemma errsIn_lastprivateBlocks {errors : GuardError → Prop}
    (h : ∀ func ∈ used.module.functions, ∀ flag ∈ func.lastFlags, ∀ cmp ∈ ValueUser.constCmps (used.users flag),
      cmp.2 = 0 → ∀ user ∈ cmp.1, ErrsIn errors (used.guardedBy fuel user)) :
    ErrsIn errors (used.lastprivateBlocks fuel) := by
  apply errsIn_foldlM
  intro func hfunc blocks
  refine ErrsIn.bind ?_ fun found => errsIn_ok _
  apply errsIn_foldlM
  intro flag hflag blocks
  apply errsIn_foldlM
  intro cmp hcmp blocks
  rw [addLastprivates]
  split
  · rename_i hzero
    apply errsIn_foldlM
    intro user huser blocks
    exact (h func hfunc flag hflag cmp hcmp hzero user huser).bind fun found => errsIn_ok _
  · exact errsIn_ok blocks

lemma FlagsGoOn.errsIn (h : used.FlagsGoOn) : ErrsIn (· = .outOfFuel) (used.lastprivateBlocks fuel) := by
  apply errsIn_lastprivateBlocks
  intro func hfunc flag hflag cmp hcmp hzero user huser
  obtain ⟨branch, rfl, hgoes⟩ := h func hfunc flag hflag cmp hcmp hzero user huser
  refine errsIn_guardedBy (fun hnone => by cases hnone) ?_
  rintro _ ⟨⟩
  exact errsIn_getGuardedBlocks (used.conditional flag cmp hcmp branch huser) hgoes

lemma flagsGoOn_of_ok {blocks : BlockSet} (hok : used.lastprivateBlocks fuel = .ok blocks) : used.FlagsGoOn := by
  intro func hfunc flag hflag cmp hcmp hzero user huser
  obtain ⟨_, _, hadd⟩ := exists_of_foldlM hok func hfunc
  obtain ⟨_, hcompute, -⟩ := exists_of_bind hadd
  obtain ⟨_, _, hadd⟩ := exists_of_foldlM hcompute flag hflag
  obtain ⟨_, _, hadd⟩ := exists_of_foldlM hadd cmp hcmp
  rw [addLastprivates, if_pos hzero] at hadd
  obtain ⟨_, _, hadd⟩ := exists_of_foldlM hadd user huser
  obtain ⟨_, hguarded, -⟩ := exists_of_bind hadd
  cases user with
  | branch branch => exact ⟨branch, rfl, goesOn_of_ok hguarded⟩
  | other => cases hguarded

end Lastprivate

section Pass

lemma errsIn_addUser {errors : GuardError → Prop} {call tid : ℕ} {state : GuardBlockState} {user : CmpUser}
    (hsome : ∀ branch, user = .branch branch → ErrsIn errors (getGuardedBlocks used.module fuel branch true)) :
    ErrsIn errors (used.addUser fuel call tid state user) := by
  rw [addUser]
  cases user with
  | branch branch => exact (hsome branch rfl).bind fun guarded => errsIn_ok _
  | other => exact errsIn_ok state

lemma errsIn_guardState {errors : GuardError → Prop}
    (h : ∀ call ∈ used.module.getThreadNumCalls, ∀ cmp ∈ ValueUser.constCmps (used.users (.call call)),
      ∀ branch, .branch branch ∈ cmp.1 → ErrsIn errors (getGuardedBlocks used.module fuel branch true)) :
    ErrsIn errors (used.guardState fuel) := by
  apply errsIn_foldlM
  intro call hcall state
  rw [computeGuardedBlocks]
  split
  · exact errsIn_ok state
  · refine ErrsIn.bind ?_ fun state => errsIn_ok _
    apply errsIn_foldlM
    intro cmp hcmp state
    apply errsIn_foldlM
    intro user huser state
    apply errsIn_addUser
    rintro branch rfl
    exact h call hcall cmp hcmp branch huser

lemma TestsGoOn.errsIn (h : used.TestsGoOn) : ErrsIn (· = .outOfFuel) (used.guardState fuel) := by
  apply errsIn_guardState
  intro call hcall cmp hcmp branch hbranch
  exact errsIn_getGuardedBlocks (used.conditional (.call call) cmp hcmp branch hbranch)
    (h call hcall cmp hcmp branch hbranch)

lemma visited_addUsers {call : ℕ} {state state' : GuardBlockState} {cmp : List CmpUser × ℕ}
    (hok : used.addUsers fuel call state cmp = .ok state') : state'.visited = state.visited := by
  refine foldlM_keep (P := fun after => after.visited = state.visited) ?_ rfl hok
  intro before user after hbefore hadd
  rw [addUser] at hadd
  cases user with
  | branch branch =>
    obtain ⟨guarded, -, hadd⟩ := exists_of_bind hadd
    cases hadd
    exact hbefore
  | other =>
    cases hadd
    exact hbefore

/-- The induction is on the calls still to be looked at; one that is visited was looked at before. -/
lemma goesOn_of_foldlM {calls : List ℕ} {state state' : GuardBlockState}
    (hok : calls.foldlM (used.computeGuardedBlocks fuel) state = .ok state') :
    ∀ call ∈ calls, call ∉ state.visited → ∀ cmp ∈ ValueUser.constCmps (used.users (.call call)),
      ∀ branch, .branch branch ∈ cmp.1 → used.module.GoesOn branch true := by
  induction calls generalizing state with
  | nil => simp
  | cons first calls ih =>
    rw [List.foldlM_cons] at hok
    obtain ⟨next, hfirst, hrest⟩ := exists_of_bind hok
    rw [computeGuardedBlocks] at hfirst
    by_cases hvisited : first ∈ state.visited
    · rw [if_pos hvisited] at hfirst
      cases hfirst
      intro call hcall hnew
      rcases List.mem_cons.mp hcall with rfl | hcall
      · exact absurd hvisited hnew
      · exact ih hrest call hcall hnew
    · rw [if_neg hvisited] at hfirst
      obtain ⟨looked, hlook, hfirst⟩ := exists_of_bind hfirst
      cases hfirst
      intro call hcall hnew cmp hcmp branch hbranch
      by_cases heq : call = first
      · subst heq
        obtain ⟨_, _, hadd⟩ := exists_of_foldlM hlook cmp hcmp
        obtain ⟨_, _, hadd⟩ := exists_of_foldlM hadd _ hbranch
        obtain ⟨_, hguarded, -⟩ := exists_of_bind hadd
        exact goesOn_of_ok hguarded
      · have hsame : looked.visited = state.visited := by
          refine foldlM_keep (P := fun after => after.visited = state.visited) ?_ rfl hlook
          intro before cmp after hbefore hadd
          exact (visited_addUsers hadd).trans hbefore
        refine ih hrest call ((List.mem_cons.mp hcall).resolve_left heq) ?_ cmp hcmp branch hbranch
        rw [hsame, List.mem_cons, not_or]
        exact ⟨heq, hnew⟩

lemma testsGoOn_of_ok {state : GuardBlockState} (hok : used.guardState fuel = .ok state) : used.TestsGoOn :=
  fun call hcall => goesOn_of_foldlM hok call hcall List.not_mem_nil

end Pass

end UsedModule

/-- The searches of the analysis and of the pass are safe just where what they start from leads on, and the analysis
meets branches only. -/
theorem searchSafe_iff (used : UsedModule) :
    (∀ fuel, SearchSafe (used.lastprivateBlocks fuel) ∧ SearchSafe (used.guardState fuel)) ↔
      used.FlagsGoOn ∧ used.TestsGoOn := by
  constructor
  · intro h
    obtain ⟨fuel, hfuel⟩ := exists_fuel used.module
    have hflags : ErrsIn GuardError.Misuse (used.lastprivateBlocks fuel) :=
      UsedModule.errsIn_lastprivateBlocks fun _ _ _ _ _ _ _ _ _ =>
        UsedModule.errsIn_guardedBy (fun _ => Or.inr rfl) fun branch _ => hfuel branch false
    have htests : ErrsIn GuardError.Misuse (used.guardState fuel) :=
      UsedModule.errsIn_guardState fun _ _ _ _ branch _ => hfuel branch true
    obtain ⟨blocks, hblocks⟩ := (h fuel).1.exists_ok hflags
    obtain ⟨state, hstate⟩ := (h fuel).2.exists_ok htests
    exact ⟨UsedModule.flagsGoOn_of_ok hblocks, UsedModule.testsGoOn_of_ok hstate⟩
  · rintro ⟨hflags, htests⟩ fuel
    exact ⟨searchSafe_of_errsIn hflags.errsIn, searchSafe_of_errsIn htests.errsIn⟩

/-- The pass puts its calls in just where the branches it looks at lead on, and no block comes to go elsewhere. -/
theorem fakeCalls_inserted_iff (used : UsedModule) :
    (∃ fuel module', insertFakeCallForGuardBlocks fuel used.module = .ok module' ∧
      module'.graph = used.module.graph) ↔ used.TestsGoOn := by
  constructor
  · rintro ⟨fuel, module', hok, -⟩
    obtain ⟨state, hstate⟩ := insertFakeCallForGuardBlocks_ok_iff.mp ⟨module', hok⟩
    rw [← UsedModule.guardState_eq] at hstate
    exact UsedModule.testsGoOn_of_ok hstate
  · intro htests
    obtain ⟨fuel, hfuel⟩ := exists_fuel used.module
    have herrs : ErrsIn GuardError.Misuse (used.guardState fuel) :=
      UsedModule.errsIn_guardState fun _ _ _ _ branch _ => hfuel branch true
    obtain ⟨state, hstate⟩ := (searchSafe_of_errsIn htests.errsIn).exists_ok herrs
    rw [UsedModule.guardState_eq] at hstate
    obtain ⟨module', hok⟩ := insertFakeCallForGuardBlocks_ok_iff.mpr ⟨state, hstate⟩
    exact ⟨fuel, module', hok, insertFakeCallForGuardBlocks_graph hok⟩

namespace EarlyReturn

/-- Block 0 calls `omp_get_thread_num`, starts a loop with the flag 5, and returns early for thread 0. -/
def functions : List CFGFunction :=
  [⟨⟨101, "f", false, false⟩,
    [⟨0, [], [.call ⟨1, .function ⟨100, "omp_get_thread_num", false, false⟩, [], none⟩,
        .call ⟨2, .function ⟨102, "__kmpc_for_static_init_4", false, false⟩,
          [.undef, .constantInt 0, .constantInt 34, .alloca 5], none⟩], .condBr 3 10 20, []⟩,
      ⟨10, [], [], .ret 11, []⟩, ⟨20, [], [], .ret 21, []⟩]⟩]

def module : CFGModule where
  functions := functions
  users := [(1, [.cmp true (.call 1) (.constantInt 0) [0]])]
  nextId := 200
  distinct := by decide
  closed := by decide
  entered := by decide
  conditional := by decide

/-- The number is compared for the branch; the comparison of the flag is stored. -/
def users : Value → List ValueUser
  | .call call => if call = 1 then [.cmp true (.call 1) (.constantInt 0) [.branch 0]] else []
  | .alloca id => if id = 5 then [.load [.cmp true (.load 6 (.alloca 5)) (.constantInt 0) [.other]]] else []
  | _ => []

lemma agree (call : ℕ) : module.usersOf call = ValueUser.toCallUsers (users (.call call)) := by
  by_cases heq : call = 1
  · subst heq
    rfl
  · have hlookup : module.users.lookup call = none := List.lookup_eq_none_iff.mpr (by simpa [module] using heq)
    rw [usersOf, hlookup, users, if_neg heq]
    rfl

lemma conditional (value : Value) : ∀ cmp ∈ ValueUser.constCmps (users value), ∀ branch, .branch branch ∈ cmp.1 →
    ∃ block ∈ module.blocks, block.id = branch ∧ block.terminator.isConditional = true := by
  cases value with
  | call id =>
    rw [users]
    split
    · have hbranch : ∃ block ∈ module.blocks, block.id = 0 ∧ block.terminator.isConditional = true := by decide
      simpa [ValueUser.constCmps, ValueUser.constCmp, comparedConst, LLVM.Value.constant] using hbranch
    · simp [ValueUser.constCmps]
  | alloca id =>
    rw [users]
    split
    · simp [ValueUser.constCmps, ValueUser.constCmp, comparedConst, LLVM.Value.constant]
    · simp [ValueUser.constCmps]
  | _ => simp [users, ValueUser.constCmps]

def used : UsedModule := ⟨module, users, by decide, agree, conditional⟩

/-- The pass pops from an empty worklist, and the analysis asks for the blocks of a null branch. -/
theorem searches_misused : used.guardState 1 = .error .emptyWorklist ∧ used.lastprivateBlocks 1 = .error .notABranch ∧
    ¬ ∀ (used : UsedModule) fuel, SearchSafe (used.lastprivateBlocks fuel) ∧ SearchSafe (used.guardState fuel) := by
  have hpass : used.guardState 1 = .error .emptyWorklist := rfl
  have hflag : used.lastprivateBlocks 1 = .error .notABranch := rfl
  exact ⟨hpass, hflag, fun h => (h used 1).2.1 hpass⟩

end EarlyReturn

end OpenRace
