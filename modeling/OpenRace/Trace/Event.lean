import OpenRace.IR.Statement
import Mathlib.Data.Prod.Lex

/-! Events and the traces of threads. -/

namespace OpenRace

inductive EventType
  | read | write | fork | join | lock | unlock | barrier | call | callEnd | externCall
deriving DecidableEq

@[ext]
structure EventPID where
  tid : ℕ
  eid : ℕ
deriving DecidableEq

instance : LinearOrder EventPID :=
  LinearOrder.lift' (fun pid => toLex (pid.tid, pid.eid)) (fun a b h => by
    cases a
    cases b
    simpa using h)

lemma EventPID.lt_iff {a b : EventPID} :
    a < b ↔ a.tid < b.tid ∨ a.tid = b.tid ∧ a.eid < b.eid := by
  change toLex (a.tid, a.eid) < toLex (b.tid, b.eid) ↔ _
  exact Prod.Lex.lt_iff

lemma EventPID.le_iff_eid {a b : EventPID} (h : a.tid = b.tid) : a ≤ b ↔ a.eid ≤ b.eid := by
  rw [← not_lt, EventPID.lt_iff]
  omega

/-- A fork event as other threads and joins refer to it. -/
structure ForkEvent (Ctx : Type) where
  pid : EventPID
  context : Ctx
  ir : IR
deriving DecidableEq

structure ThreadRef (Ctx : Type) where
  id : ℕ
  /-- The thread's spawn site, then that of the thread it was forked on, up to the main thread. -/
  spawnSites : List (ForkEvent Ctx)
deriving DecidableEq

structure Event (Ctx : Type) where
  type : EventType
  id : ℕ
  thread : ThreadRef Ctx
  context : Ctx
  ir : IR
  forkEvent : Option (ForkEvent Ctx) := none
deriving DecidableEq

variable {Ctx : Type}

def ThreadRef.spawnSite (thread : ThreadRef Ctx) : Option (ForkEvent Ctx) := thread.spawnSites.head?

def Event.pid (event : Event Ctx) : EventPID := ⟨event.thread.id, event.id⟩

def Event.asFork (event : Event Ctx) : ForkEvent Ctx := ⟨event.pid, event.context, event.ir⟩

inductive ThreadTrace (Ctx : Type)
  | mk (thread : ThreadRef Ctx) (events : List (Event Ctx)) (childThreads : List (ThreadTrace Ctx))

namespace ThreadTrace

def thread : ThreadTrace Ctx → ThreadRef Ctx
  | mk thread _ _ => thread

def id (trace : ThreadTrace Ctx) : ℕ := trace.thread.id

def events : ThreadTrace Ctx → List (Event Ctx)
  | mk _ events _ => events

def childThreads : ThreadTrace Ctx → List (ThreadTrace Ctx)
  | mk _ _ childThreads => childThreads

def getForkEvents (trace : ThreadTrace Ctx) : List (Event Ctx) :=
  trace.events.filter (·.type = .fork)

end ThreadTrace

structure ProgramTrace (Ctx : Type) where
  threads : List (ThreadTrace Ctx)
  /-- Pointer operands of the stores among the users of a value. -/
  storeUsers : LLVM.Value → List LLVM.Value := fun _ => []

lemma id_of_split {events rest : List (Event Ctx)} {currEvent : Event Ctx} {before : List (Event Ctx)}
    (hn : events.map Event.id = List.range events.length)
    (h : events = before ++ currEvent :: rest) : currEvent.id = before.length := by
  have hget : (events.map Event.id)[before.length]? = some currEvent.id := by simp [h]
  rw [hn, List.getElem?_range (by simp [h])] at hget
  exact (Option.some.inj hget).symm

lemma lt_id_of_split {events rest : List (Event Ctx)} {event currEvent : Event Ctx} {before : List (Event Ctx)}
    (hn : events.map Event.id = List.range events.length)
    (h : events = before ++ currEvent :: rest) (hm : event ∈ rest) : before.length < event.id := by
  obtain ⟨front, later, rfl⟩ := List.append_of_mem hm
  have hid := @id_of_split _ events later event (before ++ currEvent :: front) hn (by rw [h]; simp)
  rw [hid, List.length_append, List.length_cons]
  omega

end OpenRace
