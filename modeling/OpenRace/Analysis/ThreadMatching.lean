import OpenRace.Trace.Event
import Mathlib.Data.List.Nodup
import Mathlib.Data.List.TakeWhile

/-! The thread a fork starts, and the fork a join waits for. -/

namespace OpenRace

open LLVM

inductive GraphError
  | noThreadHandle
  | forkWithoutThread
  /-- The loop over phi nodes never moves on to another value. -/
  | endlessPhi
  | notOpenMPBarrier
deriving DecidableEq

variable {Ctx : Type}

def getForkedThread [DecidableEq Ctx] (fork : ForkEvent Ctx) (program : ProgramTrace Ctx) :
    Except GraphError (ThreadTrace Ctx) :=
  match program.threads.find? (·.thread.spawnSite = some fork) with
  | some thread => .ok thread
  | none => .error .forkWithoutThread

def findForkWithHandle (handle : Value) : List (Event Ctx) → Except GraphError (Option (Event Ctx))
  | [] => .ok none
  | fork :: rest =>
    match fork.ir.getThreadHandle with
    | none => .error .noThreadHandle
    | some forkHandle =>
      if forkHandle = handle then .ok (some fork) else findForkWithHandle handle rest

def orTry {ε α : Type} (first next : Except ε (Option α)) : Except ε (Option α) :=
  match first with
  | .ok none => next
  | result => result

def getForkWithHandle (handle : Value) (thread : ThreadTrace Ctx) :
    Except GraphError (Option (Event Ctx)) :=
  findForkWithHandle handle thread.getForkEvents

def getForkWithHandleIn (handle : Value) :
    List (ThreadTrace Ctx) → Except GraphError (Option (Event Ctx))
  | [] => .ok none
  | thread :: rest => orTry (getForkWithHandle handle thread) (getForkWithHandleIn handle rest)

def getForkWithStoredHandle (threads : List (ThreadTrace Ctx)) :
    List Value → Except GraphError (Option (Event Ctx))
  | [] => .ok none
  | pointer :: rest =>
    orTry (getForkWithHandleIn pointer threads) (getForkWithStoredHandle threads rest)

/-- Heuristic of last resort. -/
def nearestFork (thread : ThreadTrace Ctx) (join : Event Ctx) : Option (Event Ctx) :=
  thread.getForkEvents.reverse.find? (·.id < join.id)

def getForkOfHandle (program : ProgramTrace Ctx) (thread : ThreadTrace Ctx) (join : Event Ctx)
    (joinHandle : Value) : Except GraphError (Option (Event Ctx)) :=
  orTry (getForkWithHandle joinHandle thread) <|
  orTry (getForkWithHandleIn joinHandle program.threads) <|
  match joinHandle with
  | .load _ loadedHandle =>
    orTry (getForkWithHandleIn loadedHandle program.threads) <|
    orTry (getForkWithStoredHandle program.threads (program.storeUsers loadedHandle)) <|
    .ok (nearestFork thread join)
  | .phi _ incoming =>
    if incoming.isCall then
      orTry (getForkWithHandleIn incoming program.threads) (.error .endlessPhi)
    else .error .endlessPhi
  | _ => .ok (nearestFork thread join)

def getCorrespondingFork (program : ProgramTrace Ctx) (thread : ThreadTrace Ctx)
    (join : Event Ctx) : Except GraphError (Option (ForkEvent Ctx)) :=
  match join.forkEvent with
  | some fork => .ok (some fork)
  | none =>
    match join.ir.getThreadHandle with
    | none => .error .noThreadHandle
    | some joinHandle => do return (← getForkOfHandle program thread join joinHandle).map Event.asFork

def getJoinedThread [DecidableEq Ctx] (program : ProgramTrace Ctx) (thread : ThreadTrace Ctx)
    (join : Event Ctx) : Except GraphError (Option (ThreadTrace Ctx)) := do
  match ← getCorrespondingFork program thread join with
  | none => return none
  | some fork => return some (← getForkedThread fork program)

structure ProgramTrace.WellFormed (program : ProgramTrace Ctx) : Prop where
  distinct : (program.threads.map ThreadTrace.id).Nodup
  numbered : ∀ t ∈ program.threads, t.events.map Event.id = List.range t.events.length
  located : ∀ t ∈ program.threads, ∀ e ∈ t.events, e.thread = t.thread
  handled : ∀ t ∈ program.threads, ∀ e ∈ t.events, e.type = .fork ∨ e.type = .join →
    e.ir.getThreadHandle.isSome
  spawned : ∀ t ∈ program.threads, ∀ e ∈ t.getForkEvents,
    ∃ s ∈ program.threads, s.thread.spawnSite = some e.asFork

def Event.hasHandle (handle : Value) (event : Event Ctx) : Bool :=
  event.ir.getThreadHandle = some handle

lemma mem_getForkEvents {thread : ThreadTrace Ctx} {e : Event Ctx} :
    e ∈ thread.getForkEvents ↔ e ∈ thread.events ∧ e.type = .fork := by
  simp [ThreadTrace.getForkEvents]

def forksThrough (handle : Value) (events : List (Event Ctx)) : List (Event Ctx) :=
  events.filter (fun event => decide (event.type = .fork) && event.hasHandle handle)

lemma mem_forksThrough {handle : Value} {events : List (Event Ctx)} {e : Event Ctx} :
    e ∈ forksThrough handle events ↔ e ∈ events ∧ e.type = .fork ∧ e.hasHandle handle := by
  simp [forksThrough]

lemma find_forksThrough (handle : Value) (thread : ThreadTrace Ctx) :
    thread.getForkEvents.find? (·.hasHandle handle) = (forksThrough handle thread.events).head? := by
  rw [ThreadTrace.getForkEvents, List.find?_filter, ← List.head?_filter, forksThrough]
  congr 2
  funext event
  simp

lemma findForkWithHandle_eq (handle : Value) (forks : List (Event Ctx))
    (h : ∀ e ∈ forks, e.ir.getThreadHandle.isSome) :
    findForkWithHandle handle forks = .ok (forks.find? (·.hasHandle handle)) := by
  induction forks with
  | nil => rfl
  | cons fork rest ih =>
    obtain ⟨forkHandle, hf⟩ := Option.isSome_iff_exists.mp (h fork List.mem_cons_self)
    have hrest := ih (fun e he => h e (List.mem_cons_of_mem _ he))
    by_cases heq : forkHandle = handle
    · simp [findForkWithHandle, hf, heq, Event.hasHandle]
    · simp [findForkWithHandle, hf, heq, Event.hasHandle, hrest]

def earlierThreads (program : ProgramTrace Ctx) (thread : ThreadTrace Ctx) : List (ThreadTrace Ctx) :=
  program.threads.takeWhile (·.id ≠ thread.id)

section WellFormed

variable {program : ProgramTrace Ctx}

lemma asFork_injective (hw : program.WellFormed) {thread : ThreadTrace Ctx}
    (ht : thread ∈ program.threads) {e f : Event Ctx} (he : e ∈ thread.events)
    (hf : f ∈ thread.events) (h : e.asFork = f.asFork) : e = f := by
  have hid : e.id = f.id := congrArg (fun fork => fork.pid.eid) h
  have hnd : (thread.events.map Event.id).Nodup := hw.numbered thread ht ▸ List.nodup_range
  exact List.inj_on_of_nodup_map hnd he hf hid

lemma asFork_tid (hw : program.WellFormed) {thread : ThreadTrace Ctx}
    (ht : thread ∈ program.threads) {e : Event Ctx} (he : e ∈ thread.events) :
    e.asFork.pid.tid = thread.id := by
  simp [Event.asFork, Event.pid, hw.located thread ht e he, ThreadTrace.id]

lemma getForkWithHandle_eq (hw : program.WellFormed) {thread : ThreadTrace Ctx}
    (ht : thread ∈ program.threads) (handle : Value) :
    getForkWithHandle handle thread = .ok (thread.getForkEvents.find? (·.hasHandle handle)) := by
  apply findForkWithHandle_eq
  intro e he
  obtain ⟨hm, htype⟩ := mem_getForkEvents.mp he
  exact hw.handled thread ht e hm (Or.inl htype)

lemma getForkWithHandleIn_eq (hw : program.WellFormed) (handle : Value)
    {threads : List (ThreadTrace Ctx)} (h : ∀ t ∈ threads, t ∈ program.threads) :
    getForkWithHandleIn handle threads =
      .ok (threads.findSome? (fun t => t.getForkEvents.find? (·.hasHandle handle))) := by
  induction threads with
  | nil => rfl
  | cons thread rest ih =>
    have hrest := ih (fun t ht => h t (List.mem_cons_of_mem _ ht))
    rw [getForkWithHandleIn, getForkWithHandle_eq hw (h thread List.mem_cons_self), hrest,
      List.findSome?_cons]
    cases thread.getForkEvents.find? (·.hasHandle handle) <;> rfl

lemma getForkedThread_spawned [DecidableEq Ctx] (hw : program.WellFormed) {thread : ThreadTrace Ctx}
    (ht : thread ∈ program.threads) {fork : Event Ctx} (hf : fork ∈ thread.getForkEvents) :
    ∃ s ∈ program.threads, getForkedThread fork.asFork program = .ok s ∧
      s.thread.spawnSite = some fork.asFork := by
  obtain ⟨t, htm, hts⟩ := hw.spawned thread ht fork hf
  cases hfind : program.threads.find? (·.thread.spawnSite = some fork.asFork) with
  | none => simpa [hts] using List.find?_eq_none.mp hfind t htm
  | some s =>
    refine ⟨s, List.mem_of_find?_eq_some hfind, ?_, ?_⟩
    · simp [getForkedThread, hfind]
    · simpa using List.find?_some hfind

lemma threads_split (hw : program.WellFormed) {thread : ThreadTrace Ctx}
    (ht : thread ∈ program.threads) :
    ∃ later, program.threads = earlierThreads program thread ++ thread :: later := by
  obtain ⟨earlier, later, hsplit⟩ := List.append_of_mem ht
  have hnd := hw.distinct
  rw [hsplit, List.map_append, List.map_cons, List.nodup_append] at hnd
  have hother : ∀ t ∈ earlier, (decide (t.id ≠ thread.id)) = true := by
    intro t h
    simpa using hnd.2.2 t.id (List.mem_map_of_mem h) thread.id List.mem_cons_self
  refine ⟨later, ?_⟩
  rw [earlierThreads, hsplit, List.takeWhile_append_of_pos hother]
  simp

lemma search_hits_iff (hw : program.WellFormed) {thread : ThreadTrace Ctx}
    (ht : thread ∈ program.threads) {handle : Value} {fork : Event Ctx}
    (hf : (forksThrough handle thread.events).head? = some fork) :
    ∃ found, getForkWithHandleIn handle program.threads = .ok (some found) ∧
      (∃ t ∈ program.threads, found ∈ t.getForkEvents) ∧
      (found.asFork.pid.tid = thread.id → ∀ earlier ∈ earlierThreads program thread,
        forksThrough handle earlier.events = []) ∧
      ((∀ earlier ∈ earlierThreads program thread, forksThrough handle earlier.events = []) →
        found = fork) := by
  obtain ⟨later, hsplit⟩ := threads_split hw ht
  have hforks : ∀ {t : ThreadTrace Ctx} {e : Event Ctx},
      (forksThrough handle t.events).head? = some e → e ∈ t.events ∧ e.type = .fork := by
    intro t e h
    obtain ⟨hm, htype, -⟩ := mem_forksThrough.mp (List.mem_of_mem_head? h)
    exact ⟨hm, htype⟩
  have hsearch := getForkWithHandleIn_eq hw handle (fun t (h : t ∈ program.threads) => h)
  simp only [find_forksThrough] at hsearch
  have hvalue : program.threads.findSome? (fun t => (forksThrough handle t.events).head?) =
      ((earlierThreads program thread).findSome?
        (fun t => (forksThrough handle t.events).head?)).or (some fork) := by
    rw [hsplit, List.findSome?_append, List.findSome?_cons, hf]
  rw [hvalue] at hsearch
  cases hpre : (earlierThreads program thread).findSome?
      (fun t => (forksThrough handle t.events).head?) with
  | none =>
    refine ⟨fork, by rw [hsearch, hpre]; rfl, ⟨thread, ht, mem_getForkEvents.mpr (hforks hf)⟩, ?_,
      fun _ => rfl⟩
    intro _ earlier he
    simpa using List.findSome?_eq_none_iff.mp hpre earlier he
  | some found =>
    obtain ⟨earlier, he, hfound⟩ := List.exists_of_findSome?_eq_some hpre
    have hem : earlier ∈ program.threads := by
      rw [hsplit]
      exact List.mem_append_left _ he
    refine ⟨found, by rw [hsearch, hpre]; rfl, ⟨earlier, hem, mem_getForkEvents.mpr (hforks hfound)⟩,
      ?_, ?_⟩
    · intro h
      have hne : earlier.id ≠ thread.id := by simpa using List.mem_takeWhile_imp he
      exact absurd ((asFork_tid hw hem (hforks hfound).1).symm.trans h) hne
    · intro h
      simp [h earlier he] at hfound

lemma found_exact (hw : program.WellFormed) {thread : ThreadTrace Ctx}
    (ht : thread ∈ program.threads) {join : Event Ctx} {handle : Value}
    (he : join.forkEvent = none) (hv : join.ir.getThreadHandle = some handle) {first : Event Ctx}
    (hf : (forksThrough handle thread.events).head? = some first) :
    getCorrespondingFork program thread join = .ok (some first.asFork) := by
  simp only [getCorrespondingFork, he, hv, getForkOfHandle, getForkWithHandle_eq hw ht,
    find_forksThrough, hf, orTry]
  rfl

end WellFormed

end OpenRace
