import OpenRace.Analysis.JoinMatching

/-! The loop over phi nodes, round by round: the handle it looks at is never replaced by another. -/

namespace OpenRace

open LLVM

variable {Ctx : Type}

def orTryMore {ε α : Type} (first : Except ε (Option α)) (next : Option (Except ε (Option α))) :
    Option (Except ε (Option α)) :=
  match first with
  | .ok none => next
  | result => some result

/-- `none` when the rounds are used up. -/
def phiLoop (program : ProgramTrace Ctx) (joinHandle : Value) :
    ℕ → Option (Except GraphError (Option (Event Ctx)))
  | 0 => none
  | rounds + 1 =>
    match joinHandle with
    | .phi _ incoming =>
      orTryMore (if incoming.isCall then getForkWithHandleIn incoming program.threads else .ok none)
        (phiLoop program joinHandle rounds)
    | _ => some (.ok none)

/-- What is tried once no fork has the handle of the join itself. -/
def searchIndirectly (program : ProgramTrace Ctx) (thread : ThreadTrace Ctx) (join : Event Ctx) (rounds : ℕ) :
    Value → Option (Except GraphError (Option (Event Ctx)))
  | .load _ loadedHandle =>
    some <|
    orTry (getForkWithHandleIn loadedHandle program.threads) <|
    orTry (getForkWithStoredHandle program.threads (program.storeUsers loadedHandle)) <|
    .ok (nearestFork thread join)
  | joinHandle => (phiLoop program joinHandle rounds).map (orTry · (.ok (nearestFork thread join)))

def getForkOfHandleWithin (program : ProgramTrace Ctx) (thread : ThreadTrace Ctx) (join : Event Ctx)
    (joinHandle : Value) (rounds : ℕ) : Option (Except GraphError (Option (Event Ctx))) :=
  orTryMore (getForkWithHandle joinHandle thread) <|
  orTryMore (getForkWithHandleIn joinHandle program.threads) <|
  searchIndirectly program thread join rounds joinHandle

def getCorrespondingForkWithin (program : ProgramTrace Ctx) (thread : ThreadTrace Ctx) (join : Event Ctx)
    (rounds : ℕ) : Option (Except GraphError (Option (ForkEvent Ctx))) :=
  match join.forkEvent with
  | some fork => some (.ok (some fork))
  | none =>
    match join.ir.getThreadHandle with
    | none => some (.error .noThreadHandle)
    | some joinHandle => (getForkOfHandleWithin program thread join joinHandle rounds).map
        (fun found => do return (← found).map Event.asFork)

def SearchEnds (program : ProgramTrace Ctx) (thread : ThreadTrace Ctx) (join : Event Ctx) : Prop :=
  ∃ rounds, (getCorrespondingForkWithin program thread join rounds).isSome

def HandleFree (threads : List (ThreadTrace Ctx)) (handle : Value) : Prop :=
  ∀ t ∈ threads, ∀ fork ∈ t.getForkEvents, fork.ir.getThreadHandle.any (· ≠ handle)

instance (threads : List (ThreadTrace Ctx)) (handle : Value) : Decidable (HandleFree threads handle) :=
  inferInstanceAs (Decidable (∀ t ∈ threads, _))

/-- The join waits for a phi node that is no handle of a fork, and whose first incoming value is none either. -/
def JoinsDeadPhi (program : ProgramTrace Ctx) (thread : ThreadTrace Ctx) (join : Event Ctx) : Prop :=
  join.forkEvent = none ∧ ∃ id incoming, join.ir.getThreadHandle = some (.phi id incoming) ∧
    HandleFree (thread :: program.threads) (.phi id incoming) ∧
    (incoming.isCall → HandleFree program.threads incoming)

lemma orTryMore_none {ε α : Type} {first : Except ε (Option α)} {next : Option (Except ε (Option α))} :
    orTryMore first next = none ↔ first = .ok none ∧ next = none := by
  rcases first with _ | _ | _ <;> simp [orTryMore]

lemma orTry_of_more {ε α : Type} {first last found : Except ε (Option α)} {next : Option (Except ε (Option α))}
    (h : orTryMore first next = some found) (hlast : next = some found → last = found) :
    orTry first last = found := by
  rcases first with _ | _ | _
  · exact Option.some.inj h
  · exact hlast h
  · exact Option.some.inj h

lemma findForkWithHandle_none {handle : Value} {forks : List (Event Ctx)} :
    findForkWithHandle handle forks = .ok none ↔ ∀ fork ∈ forks, fork.ir.getThreadHandle.any (· ≠ handle) := by
  induction forks with
  | nil => simp [findForkWithHandle]
  | cons fork rest ih =>
    rw [List.forall_mem_cons, ← ih, findForkWithHandle]
    cases fork.ir.getThreadHandle with
    | none => simp
    | some other =>
      by_cases h : other = handle
      · simp [h]
      · simp [h]

lemma getForkWithHandleIn_none {handle : Value} {threads : List (ThreadTrace Ctx)} :
    getForkWithHandleIn handle threads = .ok none ↔ HandleFree threads handle := by
  induction threads with
  | nil => simp [getForkWithHandleIn, HandleFree]
  | cons thread rest ih =>
    rw [HandleFree, List.forall_mem_cons, ← HandleFree, ← ih, ← findForkWithHandle_none, getForkWithHandleIn,
      getForkWithHandle]
    rcases findForkWithHandle handle thread.getForkEvents with _ | _ | _ <;> simp [orTry]

section Rounds

variable {program : ProgramTrace Ctx} {thread : ThreadTrace Ctx} {join : Event Ctx}

lemma phiLoop_phi (id : ℕ) (incoming : Value) (rounds : ℕ) :
    phiLoop program (.phi id incoming) rounds = none ↔
      rounds = 0 ∨ (incoming.isCall → HandleFree program.threads incoming) := by
  induction rounds with
  | zero => simp [phiLoop]
  | succ rounds ih =>
    rw [phiLoop]
    by_cases hcall : incoming.isCall
    · by_cases hfree : HandleFree program.threads incoming
      · rw [if_pos hcall, getForkWithHandleIn_none.mpr hfree]
        exact ih.trans (by simp [hfree])
      · have hfound : getForkWithHandleIn incoming program.threads ≠ .ok none :=
          fun h => hfree (getForkWithHandleIn_none.mp h)
        rw [if_pos hcall]
        rcases hsearch : getForkWithHandleIn incoming program.threads with _ | _ | _
        · simp [orTryMore, hcall, hfree]
        · exact absurd hsearch hfound
        · simp [orTryMore, hcall, hfree]
    · rw [if_neg hcall]
      exact ih.trans (by simp [hcall])

lemma phiLoop_other {handle : Value} (h : ∀ id incoming, handle ≠ .phi id incoming) (rounds : ℕ) :
    phiLoop program handle (rounds + 1) = some (.ok none) := by
  cases handle with
  | phi id incoming => exact absurd rfl (h id incoming)
  | _ => rfl

lemma phiLoop_found {id : ℕ} {incoming : Value} {rounds : ℕ} {found : Except GraphError (Option (Event Ctx))}
    (h : phiLoop program (.phi id incoming) rounds = some found) :
    incoming.isCall ∧ getForkWithHandleIn incoming program.threads = found ∧ found ≠ .ok none := by
  induction rounds with
  | zero => simp [phiLoop] at h
  | succ rounds ih =>
    rw [phiLoop] at h
    by_cases hcall : incoming.isCall
    · rw [if_pos hcall] at h
      rcases hsearch : getForkWithHandleIn incoming program.threads with _ | _ | _
      · obtain rfl : Except.error _ = found := by simpa [hsearch, orTryMore] using h
        exact ⟨hcall, rfl, by simp⟩
      · rw [hsearch] at h
        exact hsearch ▸ ih h
      · obtain rfl : Except.ok (some _) = found := by simpa [hsearch, orTryMore] using h
        exact ⟨hcall, rfl, by simp⟩
    · rw [if_neg hcall] at h
      exact ih h

lemma getForkOfHandleWithin_some {handle : Value} {rounds : ℕ} {found : Except GraphError (Option (Event Ctx))}
    (h : getForkOfHandleWithin program thread join handle rounds = some found) :
    getForkOfHandle program thread join handle = found := by
  apply orTry_of_more h
  intro h
  apply orTry_of_more h
  intro h
  cases handle with
  | load id pointer => exact Option.some.inj h
  | phi id incoming =>
    obtain ⟨searched, hloop, rfl⟩ := Option.map_eq_some_iff.mp h
    obtain ⟨hcall, hsearch, hsome⟩ := phiLoop_found hloop
    rcases searched with _ | _ | _
    · simp [orTry, hcall, hsearch]
    · exact absurd rfl hsome
    · simp [orTry, hcall, hsearch]
  | _ =>
    obtain ⟨searched, hloop, rfl⟩ := Option.map_eq_some_iff.mp h
    cases rounds with
    | zero => simp [phiLoop] at hloop
    | succ rounds =>
      rw [phiLoop_other (by simp)] at hloop
      obtain rfl := Option.some.inj hloop
      rfl

lemma getCorrespondingForkWithin_some {rounds : ℕ} {found : Except GraphError (Option (ForkEvent Ctx))}
    (h : getCorrespondingForkWithin program thread join rounds = some found) :
    getCorrespondingFork program thread join = found := by
  rw [getCorrespondingForkWithin] at h
  rw [getCorrespondingFork]
  cases hfork : join.forkEvent with
  | some fork => simpa [hfork] using h
  | none =>
    rw [hfork] at h
    cases hhandle : join.ir.getThreadHandle with
    | none => simpa [hhandle] using h
    | some handle =>
      rw [hhandle] at h
      obtain ⟨searched, hsearch, rfl⟩ := Option.map_eq_some_iff.mp h
      dsimp only
      rw [getForkOfHandleWithin_some hsearch]

variable (program thread join) in
lemma getForkOfHandleWithin_phi (id : ℕ) (incoming : Value) (rounds : ℕ) :
    getForkOfHandleWithin program thread join (.phi id incoming) rounds = none ↔
      HandleFree (thread :: program.threads) (.phi id incoming) ∧
        (rounds = 0 ∨ (incoming.isCall → HandleFree program.threads incoming)) := by
  rw [getForkOfHandleWithin, orTryMore_none, orTryMore_none, HandleFree, List.forall_mem_cons, ← HandleFree,
    ← getForkWithHandleIn_none, ← findForkWithHandle_none, getForkWithHandle, and_assoc]
  refine and_congr_right fun _ => and_congr_right fun _ => ?_
  rw [searchIndirectly, Option.map_eq_none_iff, phiLoop_phi]
  simp

lemma getForkOfHandleWithin_other {handle : Value} (h : ∀ id incoming, handle ≠ .phi id incoming) :
    (getForkOfHandleWithin program thread join handle 1).isSome := by
  rw [Option.isSome_iff_ne_none, getForkOfHandleWithin, ne_eq, orTryMore_none, orTryMore_none]
  rintro ⟨-, -, hnone⟩
  cases handle with
  | load id pointer => simp [searchIndirectly] at hnone
  | phi id incoming => exact h id incoming rfl
  | _ => simp [searchIndirectly, phiLoop] at hnone

end Rounds

/-- The search ends but for a join of a phi node that is not resolved at once, and then it never does. -/
theorem search_ends_iff (program : ProgramTrace Ctx) (thread : ThreadTrace Ctx) (join : Event Ctx) :
    (SearchEnds program thread join ↔ ¬ JoinsDeadPhi program thread join) ∧
      ∀ rounds found, getCorrespondingForkWithin program thread join rounds = some found →
        getCorrespondingFork program thread join = found := by
  refine ⟨?_, fun _ _ h => getCorrespondingForkWithin_some h⟩
  constructor
  · rintro ⟨rounds, hends⟩ ⟨hfork, id, incoming, hhandle, hfree, hcall⟩
    have hnone := (getForkOfHandleWithin_phi program thread join id incoming rounds).mpr ⟨hfree, Or.inr hcall⟩
    rw [getCorrespondingForkWithin, hfork, hhandle] at hends
    simp [hnone] at hends
  · intro hlive
    refine ⟨1, ?_⟩
    rw [getCorrespondingForkWithin]
    cases hfork : join.forkEvent with
    | some fork => rfl
    | none =>
      cases hhandle : join.ir.getThreadHandle with
      | none => rfl
      | some handle =>
        rw [Option.isSome_map]
        by_cases hphi : ∃ id incoming, handle = .phi id incoming
        · obtain ⟨id, incoming, rfl⟩ := hphi
          rw [Option.isSome_iff_ne_none]
          intro hnone
          obtain ⟨hfree, hzero | hcall⟩ := (getForkOfHandleWithin_phi program thread join id incoming 1).mp hnone
          · exact absurd hzero one_ne_zero
          · exact hlive ⟨hfork, id, incoming, hhandle, hfree, hcall⟩
        · exact getForkOfHandleWithin_other fun id incoming h => hphi ⟨id, incoming, h⟩

namespace MergedHandle

def first : Value := .alloca 1

/-- A phi node of two loaded handles. -/
def merged : Value := .phi 3 (.load 2 first)

def create : IR :=
  ⟨.pthreadCreate, .call { id := 10, calledOperand := .undef, args := [first, .undef, .undef] }, .other⟩

def wait : IR :=
  ⟨.pthreadJoin, .call { id := 11, calledOperand := .undef, args := [merged] }, .other⟩

def main : ThreadRef Unit := ⟨0, []⟩

def fork : Event Unit := ⟨.fork, 0, main, (), create, none⟩
def join : Event Unit := ⟨.join, 1, main, (), wait, none⟩

def child : ThreadTrace Unit := .mk ⟨1, [fork.asFork]⟩ [] []

def mainTrace : ThreadTrace Unit := .mk main [fork, join] [child]

def program : ProgramTrace Unit := { threads := [mainTrace, child] }

/-- The join of either of two threads, chosen before. -/
theorem merged_never_found : ¬ SearchEnds program mainTrace join := by
  rintro ⟨rounds, hends⟩
  have hfree : HandleFree (mainTrace :: program.threads) merged := by decide
  have hnone := (getForkOfHandleWithin_phi program mainTrace join 3 (.load 2 first) rounds).mpr
    ⟨hfree, Or.inr (fun hcall => absurd hcall (by decide))⟩
  change ((getForkOfHandleWithin program mainTrace join merged rounds).map _).isSome at hends
  rw [Option.isSome_map] at hends
  exact Option.isSome_iff_ne_none.mp hends hnone

end MergedHandle

end OpenRace
