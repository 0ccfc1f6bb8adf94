import OpenRace.Trace.Event

/-! The filter that drops accesses which scoped noalias metadata keeps apart. -/

namespace OpenRace

open LLVM

structure AliasScope where
  id : ℕ
  domain : ℕ
deriving DecidableEq

structure AAMDNodes where
  scope : List AliasScope := []
  noAlias : List AliasScope := []
deriving DecidableEq

structure MemoryLocation where
  pointer : Value
  aaTags : AAMDNodes
deriving DecidableEq

inductive AliasResult
  | noAlias | mayAlias | partialAlias | mustAlias
deriving DecidableEq

/-- Some domain has scopes among the first, and all of these are among the second. -/
def Separates (scopes noAlias : List AliasScope) : Prop :=
  ∃ scope ∈ scopes, ∀ other ∈ scopes, other.domain = scope.domain → other ∈ noAlias

instance (scopes noAlias : List AliasScope) : Decidable (Separates scopes noAlias) :=
  inferInstanceAs (Decidable (∃ scope ∈ scopes, ∀ other ∈ scopes, _))

def MemoryLocation.Separated (a b : MemoryLocation) : Prop :=
  Separates a.aaTags.scope b.aaTags.noAlias ∨ Separates b.aaTags.scope a.aaTags.noAlias

instance (a b : MemoryLocation) : Decidable (a.Separated b) :=
  inferInstanceAs (Decidable (_ ∨ _))

structure SimpleAlias where
  getFunction : Instruction → Function
  getAAMetadata : Instruction → AAMDNodes
  getResult : Function → MemoryLocation → MemoryLocation → AliasResult

namespace SimpleAlias

variable (simpleAlias : SimpleAlias)

/-- Atomic updates have a location too, but no event is about one. -/
def getOrNone (inst : Instruction) : Option MemoryLocation :=
  match inst with
  | .load _ pointer _ _ => some ⟨pointer, simpleAlias.getAAMetadata inst⟩
  | .store _ pointer _ _ => some ⟨pointer, simpleAlias.getAAMetadata inst⟩
  | _ => none

variable {Ctx : Type}

def mustNotAlias (write other : Event Ctx) : Bool :=
  if simpleAlias.getFunction write.ir.inst = simpleAlias.getFunction other.ir.inst then false
  else
    match simpleAlias.getOrNone write.ir.inst, simpleAlias.getOrNone other.ir.inst with
    | some writeMemLoc, some otherMemLoc =>
      simpleAlias.getResult (simpleAlias.getFunction write.ir.inst) writeMemLoc otherMemLoc == .noAlias
    | _, _ => false

end SimpleAlias

structure RaceFilters (Ctx : Type) where
  areParallel : Event Ctx → Event Ctx → Bool
  sharesLock : Event Ctx → Event Ctx → Bool
  isThreadLocalAccess : Event Ctx → Event Ctx → Bool
  fromSameParallelRegion : Event Ctx → Event Ctx → Bool
  isNonOverlappingLoopAccess : Event Ctx → Event Ctx → Bool
  inSameSingleBlock : Event Ctx → Event Ctx → Bool
  inSameReduce : Event Ctx → Event Ctx → Bool
  insideCompatibleSections : Event Ctx → Event Ctx → Bool
  guardedBySameTID : Event Ctx → Event Ctx → Bool
  isInLastprivate : Event Ctx → Bool

variable {Ctx : Type}

def checkRace (filters : RaceFilters Ctx) (mustNotAlias : Event Ctx → Event Ctx → Bool)
    (write other : Event Ctx) : Bool :=
  if !filters.areParallel write other || filters.sharesLock write other then false
  else if filters.isThreadLocalAccess write other then false
  else if mustNotAlias write other then false
  else if filters.fromSameParallelRegion write other then
    if filters.isNonOverlappingLoopAccess write other then false
    else if filters.inSameSingleBlock write other || filters.inSameReduce write other ||
      filters.insideCompatibleSections write other then false
    else if filters.guardedBySameTID write other then false
    else !(filters.isInLastprivate write && filters.isInLastprivate other)
  else true

namespace SimpleAlias

section

variable (simpleAlias : SimpleAlias) (write other : Event Ctx)

/-- What scoped noalias analysis is for: it decides separation, in whatever function it is asked. -/
def DecidesSeparation : Prop :=
  ∀ f a b, simpleAlias.getResult f a b = .noAlias ↔ a.Separated b

def SameFunction : Prop := simpleAlias.getFunction write.ir.inst = simpleAlias.getFunction other.ir.inst

instance : Decidable (simpleAlias.SameFunction write other) :=
  inferInstanceAs (Decidable (_ = _))

def SeparatedAccesses : Prop :=
  ∃ writeMemLoc ∈ simpleAlias.getOrNone write.ir.inst, ∃ otherMemLoc ∈ simpleAlias.getOrNone other.ir.inst,
    writeMemLoc.Separated otherMemLoc

/-- Accesses are told apart inside one function only, and no race between functions is lost for it. -/
def FiltersSoundly : Prop :=
  (simpleAlias.mustNotAlias write other = true →
    simpleAlias.SameFunction write other ∧ simpleAlias.SeparatedAccesses write other) ∧
  (¬ simpleAlias.SameFunction write other → simpleAlias.mustNotAlias write other = false ∧
    ∀ filters, checkRace filters simpleAlias.mustNotAlias write other =
      checkRace filters (fun _ _ => false) write other)

end

section

variable {simpleAlias : SimpleAlias} {write other : Event Ctx}

lemma mustNotAlias_iff (h : simpleAlias.DecidesSeparation) : simpleAlias.mustNotAlias write other = true ↔
    ¬ simpleAlias.SameFunction write other ∧ simpleAlias.SeparatedAccesses write other := by
  rw [mustNotAlias, SameFunction, SeparatedAccesses]
  by_cases hsame : simpleAlias.getFunction write.ir.inst = simpleAlias.getFunction other.ir.inst
  · simp [hsame]
  · rw [if_neg hsame]
    cases simpleAlias.getOrNone write.ir.inst with
    | none => simp
    | some writeMemLoc =>
      cases simpleAlias.getOrNone other.ir.inst with
      | none => simp
      | some otherMemLoc =>
        have hresult := h (simpleAlias.getFunction write.ir.inst) writeMemLoc otherMemLoc
        simp [hsame, hresult]

lemma checkRace_of_false (h : simpleAlias.mustNotAlias write other = false) (filters : RaceFilters Ctx) :
    checkRace filters simpleAlias.mustNotAlias write other = checkRace filters (fun _ _ => false) write other := by
  rw [checkRace, checkRace, h]

end

end SimpleAlias

theorem filters_soundly_iff {simpleAlias : SimpleAlias} (h : simpleAlias.DecidesSeparation)
    (write other : Event Ctx) : simpleAlias.FiltersSoundly write other ↔
      simpleAlias.SameFunction write other ∨ ¬ simpleAlias.SeparatedAccesses write other := by
  constructor
  · rintro ⟨-, hcross⟩
    by_contra hwrong
    obtain ⟨hfunction, hseparated⟩ := not_or.mp hwrong
    have htrue := (SimpleAlias.mustNotAlias_iff h).mpr ⟨hfunction, not_not.mp hseparated⟩
    rw [(hcross hfunction).1] at htrue
    exact absurd htrue Bool.false_ne_true
  · intro hright
    have hfalse : simpleAlias.mustNotAlias write other = false := by
      rw [← Bool.not_eq_true, SimpleAlias.mustNotAlias_iff h]
      tauto
    exact ⟨fun htrue => absurd (hfalse.symm.trans htrue) Bool.false_ne_true,
      fun _ => ⟨hfalse, SimpleAlias.checkRace_of_false hfalse⟩⟩

namespace InlinedScopes

def scope : AliasScope := { id := 1, domain := 0 }

/-- Instruction 1 is in one function, instruction 2 in another. -/
def simpleAlias : SimpleAlias where
  getFunction inst := if inst.id = 1 then { id := 10, name := "writer" } else { id := 11, name := "reader" }
  getAAMetadata inst := if inst.id = 1 then { scope := [scope] } else { noAlias := [scope] }
  getResult _ a b := if a.Separated b then .noAlias else .mayAlias

def shared : Value := .globalVariable 20 false

def write : Event Unit := ⟨.write, 0, ⟨1, []⟩, (), ⟨.store, .store 1 shared false false, .other⟩, none⟩
def read : Event Unit := ⟨.read, 0, ⟨2, []⟩, (), ⟨.load, .load 2 shared false false, .other⟩, none⟩

lemma decidesSeparation : simpleAlias.DecidesSeparation := by
  intro f a b
  simp [simpleAlias]

theorem write_filtered_soundly : simpleAlias.FiltersSoundly write write :=
  (filters_soundly_iff decidesSeparation write write).mpr (Or.inl rfl)

/-- A write and a read of one global variable, from two functions. -/
theorem cross_function_dropped : simpleAlias.mustNotAlias write read = true ∧
    ¬ simpleAlias.FiltersSoundly write read := by
  have htrue : simpleAlias.mustNotAlias write read = true := by decide
  refine ⟨htrue, ?_⟩
  rintro ⟨honly, -⟩
  exact absurd (honly htrue).1 (by decide)

end InlinedScopes

end OpenRace
