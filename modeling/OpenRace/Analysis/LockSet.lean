import OpenRace.Analysis.ThreadMatching
import OpenRace.Library.OrderedMap
import OpenRace.Library.OrderedMultiset
import Mathlib.SetTheory.Cardinal.Order

/-! The locks that are held at an event, and whether two events share one. -/

namespace OpenRace

open LLVM Library

inductive LockError
  | noLockValue
deriving DecidableEq

variable {Ctx : Type}

structure TraceEvent (program : ProgramTrace Ctx) where
  thread : ThreadTrace Ctx
  event : Event Ctx
  thread_mem : thread ∈ program.threads
  event_mem : event ∈ thread.events

def ProgramTrace.LocksNamed (program : ProgramTrace Ctx) : Prop :=
  ∀ t ∈ program.threads, ∀ e ∈ t.events, e.type = .lock ∨ e.type = .unlock → e.ir.getLockValue.isSome

def countStep (lock : Value) (count : ℕ) (event : Event Ctx) : ℕ :=
  if event.ir.getLockValue = some lock then
    match event.type with
    | .lock => count + 1
    | .unlock => count - 1
    | _ => count
  else count

def heldCount (lock : Value) (events : List (Event Ctx)) : ℕ := events.foldl (countStep lock) 0

def TraceEvent.Holds {program : ProgramTrace Ctx} (target : TraceEvent program) (lock : Value) : Prop :=
  ∃ before after, target.thread.events = before ++ target.event :: after ∧ 0 < heldCount lock before

section Locks

-- values are ordered as their addresses are
variable [LinearOrder Value]

def updateLocks (locks : OrderedMultiset Value) (event : Event Ctx) : Except LockError (OrderedMultiset Value) :=
  match event.type, event.ir.getLockValue with
  | .lock, some lock => .ok (locks.insert lock)
  | .unlock, some lock => .ok (locks.eraseOne lock)
  | .lock, none | .unlock, none => .error .noLockValue
  | _, _ => .ok locks

def locksUpTo (targetID : ℕ) : OrderedMultiset Value → List (Event Ctx) → Except LockError (OrderedMultiset Value)
  | locks, [] => .ok locks
  | locks, event :: rest =>
    if event.id = targetID then .ok locks else do locksUpTo targetID (← updateLocks locks event) rest

structure LockSet where
  /-- By the event, which its thread and its number on the thread tell from all others. -/
  cache : OrderedMap EventPID (OrderedMultiset Value) := .empty

namespace LockSet

variable {program : ProgramTrace Ctx}

def emplace (lockSet : LockSet) (pid : EventPID) (locks : OrderedMultiset Value) : LockSet :=
  { cache := lockSet.cache.insert pid locks }

def heldLocks (lockSet : LockSet) (target : TraceEvent program) :
    Except LockError (OrderedMultiset Value × LockSet) :=
  match lockSet.cache.find? target.event.pid with
  | some locks => .ok (locks, lockSet)
  | none => do
    let locks ← locksUpTo target.event.id .empty target.thread.events
    return (locks, lockSet.emplace target.event.pid locks)

def sharesLock (lockSet : LockSet) (lhs rhs : TraceEvent program) : Except LockError (Bool × LockSet) := do
  let (lhsLocks, lockSet) ← lockSet.heldLocks lhs
  let (rhsLocks, lockSet) ← lockSet.heldLocks rhs
  return (lhsLocks.meet rhsLocks, lockSet)

inductive Queried (program : ProgramTrace Ctx) : LockSet → Prop
  | start : Queried program {}
  | query {lockSet lockSet' : LockSet} {lhs rhs : TraceEvent program} {answer : Bool} :
    Queried program lockSet → lockSet.sharesLock lhs rhs = .ok (answer, lockSet') → Queried program lockSet'

end LockSet

section Count

variable {locks : OrderedMultiset Value} {event : Event Ctx}

lemma updateLocks_ok (locks : OrderedMultiset Value)
    (h : event.type = .lock ∨ event.type = .unlock → event.ir.getLockValue.isSome) :
    ∃ locks', updateLocks locks event = .ok locks' ∧
      ∀ lock, locks'.count lock = countStep lock (locks.count lock) event := by
  by_cases htype : event.type = .lock ∨ event.type = .unlock
  · obtain ⟨held, hheld⟩ := Option.isSome_iff_exists.mp (h htype)
    rcases htype with htype | htype
    · refine ⟨locks.insert held, by rw [updateLocks, htype, hheld], fun lock => ?_⟩
      rw [countStep, hheld, htype]
      by_cases heq : held = lock
      · rw [if_pos (congrArg some heq), heq, OrderedMultiset.count_insert_self]
      · rw [if_neg (fun h => heq (Option.some.inj h)), OrderedMultiset.count_insert_ne _ (Ne.symm heq)]
    · refine ⟨locks.eraseOne held, by rw [updateLocks, htype, hheld], fun lock => ?_⟩
      rw [countStep, hheld, htype]
      by_cases heq : held = lock
      · rw [if_pos (congrArg some heq), heq, OrderedMultiset.count_eraseOne_self]
      · rw [if_neg (fun h => heq (Option.some.inj h)), OrderedMultiset.count_eraseOne_ne _ (Ne.symm heq)]
  · obtain ⟨hlock, hunlock⟩ := not_or.mp htype
    refine ⟨locks, ?_, fun lock => ?_⟩
    · cases hevent : event.type with
      | lock => exact absurd hevent hlock
      | unlock => exact absurd hevent hunlock
      | _ => simp [updateLocks, hevent]
    · rw [countStep]
      split
      · cases hevent : event.type with
        | lock => exact absurd hevent hlock
        | unlock => exact absurd hevent hunlock
        | _ => rfl
      · rfl

lemma locksUpTo_ok {before : List (Event Ctx)} {target : Event Ctx} (after : List (Event Ctx))
    (locks : OrderedMultiset Value) (hids : ∀ event ∈ before, event.id ≠ target.id)
    (hnamed : ∀ event ∈ before, event.type = .lock ∨ event.type = .unlock → event.ir.getLockValue.isSome) :
    ∃ locks', locksUpTo target.id locks (before ++ target :: after) = .ok locks' ∧
      ∀ lock, locks'.count lock = before.foldl (countStep lock) (locks.count lock) := by
  induction before generalizing locks with
  | nil => exact ⟨locks, if_pos rfl, fun lock => rfl⟩
  | cons event rest ih =>
    obtain ⟨next, hnext, hcount⟩ := updateLocks_ok locks (hnamed event List.mem_cons_self)
    obtain ⟨locks', hlocks', hcount'⟩ := ih next (fun e he => hids e (List.mem_cons_of_mem _ he))
      (fun e he => hnamed e (List.mem_cons_of_mem _ he))
    refine ⟨locks', ?_, fun lock => ?_⟩
    · rw [List.cons_append, locksUpTo, if_neg (hids event List.mem_cons_self), hnext]
      exact hlocks'
    · rw [hcount' lock, hcount lock]
      rfl

end Count

section Queries

variable {program : ProgramTrace Ctx} (hw : program.WellFormed) (hnamed : program.LocksNamed)

include hw

omit [LinearOrder Value] in
lemma TraceEvent.ids_nodup (target : TraceEvent program) : (target.thread.events.map Event.id).Nodup :=
  hw.numbered _ target.thread_mem ▸ List.nodup_range

omit [LinearOrder Value] in
lemma TraceEvent.ids_before {target : TraceEvent program} {before after : List (Event Ctx)}
    (h : target.thread.events = before ++ target.event :: after) : ∀ event ∈ before, event.id ≠ target.event.id := by
  have hids := target.ids_nodup hw
  rw [h, List.map_append, List.nodup_append] at hids
  intro event he
  exact hids.2.2 event.id (List.mem_map_of_mem he) target.event.id (by simp)

omit [LinearOrder Value] in
lemma TraceEvent.eq_of_pid {target other : TraceEvent program} (h : target.event.pid = other.event.pid) :
    target.thread = other.thread ∧ target.event = other.event := by
  have htid : target.thread.id = other.thread.id := by
    have hpid := congrArg EventPID.tid h
    rwa [Event.pid, Event.pid, hw.located _ target.thread_mem _ target.event_mem,
      hw.located _ other.thread_mem _ other.event_mem] at hpid
  have hthread := List.inj_on_of_nodup_map hw.distinct target.thread_mem other.thread_mem htid
  exact ⟨hthread, List.inj_on_of_nodup_map (target.ids_nodup hw) target.event_mem (hthread ▸ other.event_mem)
    (congrArg EventPID.eid h)⟩

include hnamed

lemma TraceEvent.locksUpTo_ok (target : TraceEvent program) :
    ∃ locks : OrderedMultiset Value, locksUpTo target.event.id .empty target.thread.events = .ok locks ∧
      ∀ lock, 0 < locks.count lock ↔ target.Holds lock := by
  obtain ⟨before, after, hsplit⟩ := List.append_of_mem target.event_mem
  obtain ⟨locks, hlocks, hcount⟩ := OpenRace.locksUpTo_ok after .empty
    (target.ids_before hw hsplit) (fun event he => hnamed _ target.thread_mem event (by rw [hsplit]; simp [he]))
  refine ⟨locks, by rw [hsplit, hlocks], fun lock => ?_⟩
  rw [hcount lock, OrderedMultiset.count_empty, ← heldCount]
  constructor
  · intro hpos
    exact ⟨before, after, hsplit, hpos⟩
  · rintro ⟨before', after', hsplit', hpos⟩
    have hnodup := List.Nodup.of_map _ (target.ids_nodup hw)
    rw [hsplit, List.nodup_middle, List.nodup_cons, List.mem_append, not_or] at hnodup
    obtain ⟨rfl, -⟩ := (List.append_cons_inj_of_notMem hnodup.1.1 hnodup.1.2).mp (hsplit.symm.trans hsplit')
    exact hpos

def LockSet.Sound (program : ProgramTrace Ctx) (lockSet : LockSet) : Prop :=
  ∀ (target : TraceEvent program) (locks : OrderedMultiset Value),
    lockSet.cache.find? target.event.pid = some locks → ∀ lock, 0 < locks.count lock ↔ target.Holds lock

lemma LockSet.heldLocks_ok {lockSet : LockSet} (hs : lockSet.Sound program) (target : TraceEvent program) :
    ∃ locks lockSet', lockSet.heldLocks target = .ok (locks, lockSet') ∧ lockSet'.Sound program ∧
      ∀ lock, 0 < locks.count lock ↔ target.Holds lock := by
  cases hcache : lockSet.cache.find? target.event.pid with
  | some locks => exact ⟨locks, lockSet, by rw [heldLocks, hcache], hs, hs target locks hcache⟩
  | none =>
    obtain ⟨locks, hlocks, hholds⟩ := target.locksUpTo_ok hw hnamed
    refine ⟨locks, lockSet.emplace target.event.pid locks, ?_, ?_, hholds⟩
    · rw [heldLocks, hcache]
      dsimp only
      rw [hlocks]
      rfl
    · intro other locks' hfind
      rw [emplace] at hfind
      by_cases hpid : other.event.pid = target.event.pid
      · obtain ⟨hthread, hevent⟩ := TraceEvent.eq_of_pid hw hpid
        rw [hpid, OrderedMap.find?_insert] at hfind
        obtain rfl := Option.some.inj hfind
        intro lock
        rw [hholds lock, TraceEvent.Holds, TraceEvent.Holds, hthread, hevent]
      · rw [OrderedMap.find?_insert_ne _ hpid] at hfind
        exact hs other locks' hfind

lemma LockSet.sharesLock_ok {lockSet : LockSet} (hs : lockSet.Sound program) (lhs rhs : TraceEvent program) :
    ∃ answer lockSet', lockSet.sharesLock lhs rhs = .ok (answer, lockSet') ∧ lockSet'.Sound program ∧
      (answer = true ↔ ∃ lock, lhs.Holds lock ∧ rhs.Holds lock) := by
  obtain ⟨lhsLocks, lockSet₁, hlhs, hs₁, hholds₁⟩ := heldLocks_ok hw hnamed hs lhs
  obtain ⟨rhsLocks, lockSet₂, hrhs, hs₂, hholds₂⟩ := heldLocks_ok hw hnamed hs₁ rhs
  refine ⟨lhsLocks.meet rhsLocks, lockSet₂, ?_, hs₂, ?_⟩
  · rw [sharesLock, hlhs]
    change (do let (rhsLocks, lockSet) ← lockSet₁.heldLocks rhs; return (lhsLocks.meet rhsLocks, lockSet)) = _
    rw [hrhs]
    rfl
  · rw [OrderedMultiset.meet_iff]
    exact exists_congr fun lock => and_congr (hholds₁ lock) (hholds₂ lock)

lemma LockSet.Queried.sound {lockSet : LockSet} (h : Queried program lockSet) : lockSet.Sound program := by
  induction h with
  | start =>
    intro target locks hfind
    cases hfind
  | @query lockSet lockSet' lhs rhs answer _ hquery ih =>
    obtain ⟨_, _, hok, hs, -⟩ := sharesLock_ok hw hnamed ih lhs rhs
    rw [hok] at hquery
    cases hquery
    exact hs

end Queries

/-- Whatever was asked before, the answer is whether one lock is held at both events. -/
theorem shares_lock_iff {program : ProgramTrace Ctx} (hw : program.WellFormed) (hnamed : program.LocksNamed)
    {lockSet : LockSet} (hq : lockSet.Queried program) (lhs rhs : TraceEvent program) :
    ∃ answer lockSet', lockSet.sharesLock lhs rhs = .ok (answer, lockSet') ∧
      (answer = true ↔ ∃ lock, lhs.Holds lock ∧ rhs.Holds lock) := by
  obtain ⟨answer, lockSet', hok, -, hanswer⟩ := LockSet.sharesLock_ok hw hnamed (hq.sound hw hnamed) lhs rhs
  exact ⟨answer, lockSet', hok, hanswer⟩

end Locks

namespace SharedMutex

def mutex : Value := .globalVariable 30 false

def call (id : ℕ) (args : List Value) : Instruction := .call { id, calledOperand := .undef, args }

def create : IR := ⟨.pthreadCreate, call 10 [.alloca 1, .undef, .undef], .other⟩
def lock (id : ℕ) : IR := ⟨.pthreadMutexLock, call id [mutex], .other⟩
def unlock (id : ℕ) : IR := ⟨.pthreadMutexUnlock, call id [mutex], .other⟩

def main : ThreadRef Unit := ⟨0, []⟩

def fork : Event Unit := ⟨.fork, 0, main, (), create, none⟩
def write : Event Unit := ⟨.write, 2, main, (), ⟨.store, .other 20, .other⟩, none⟩

def worker : ThreadRef Unit := ⟨1, [fork.asFork]⟩

def read : Event Unit := ⟨.read, 1, worker, (), ⟨.load, .other 21, .other⟩, none⟩

def workerTrace : ThreadTrace Unit :=
  .mk worker [⟨.lock, 0, worker, (), lock 13, none⟩, read, ⟨.unlock, 2, worker, (), unlock 14, none⟩] []

def mainTrace : ThreadTrace Unit :=
  .mk main [fork, ⟨.lock, 1, main, (), lock 11, none⟩, write, ⟨.unlock, 3, main, (), unlock 12, none⟩] [workerTrace]

/-- A write and a read on two threads, with one mutex around each. -/
def program : ProgramTrace Unit := { threads := [mainTrace, workerTrace] }

lemma wellFormed : program.WellFormed where
  distinct := by decide
  numbered := by decide
  located := by decide
  handled := by decide
  spawned := by decide

lemma locksNamed : program.LocksNamed := by
  rw [ProgramTrace.LocksNamed]
  decide

def writeEvent : TraceEvent program := ⟨mainTrace, write, by simp [program], by simp [mainTrace, ThreadTrace.events]⟩

def readEvent : TraceEvent program := ⟨workerTrace, read, by simp [program], by simp [workerTrace, ThreadTrace.events]⟩

open scoped Classical in
noncomputable abbrev addressOrder : LinearOrder Value := linearOrderOfSTO WellOrderingRel

theorem write_shares_with_read : ∃ _ : LinearOrder Value, ∃ answer lockSet',
    ({} : LockSet).sharesLock writeEvent readEvent = .ok (answer, lockSet') ∧
      (answer = true ↔ ∃ lock, writeEvent.Holds lock ∧ readEvent.Holds lock) :=
  ⟨addressOrder, @shares_lock_iff _ addressOrder _ wellFormed locksNamed _ (@LockSet.Queried.start _ addressOrder _)
    writeEvent readEvent⟩

end SharedMutex

end OpenRace
