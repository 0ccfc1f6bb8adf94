import OpenRace.Library.OrderedMap
import OpenRace.Trace.Event

/-! Accesses by object and by thread, and the pairs of them that are checked for races. -/

namespace OpenRace

open Library

variable {Ctx Obj : Type} [LinearOrder Obj]

abbrev AccessTable (Ctx : Type) := OrderedMap ℕ (OrderedMap ℕ (List (Event Ctx)))

/-- Objects are ordered as their addresses are. -/
structure SharedMemory (Ctx Obj : Type) [LinearOrder Obj] where
  objIDs : OrderedMap Obj ℕ := .empty
  objReads : AccessTable Ctx := .empty
  objWrites : AccessTable Ctx := .empty

def AccessTable.add (table : AccessTable Ctx) (id tid : ℕ) (event : Event Ctx) : AccessTable Ctx :=
  table.modify id fun threads => (threads.getD .empty).modify tid fun events => events.getD [] ++ [event]

namespace SharedMemory

def getObjId (shared : SharedMemory Ctx Obj) (obj : Obj) : ℕ × SharedMemory Ctx Obj :=
  match shared.objIDs.find? obj with
  | some id => (id, shared)
  | none => (shared.objIDs.size, { shared with objIDs := shared.objIDs.insert obj shared.objIDs.size })

def addRead (tid : ℕ) (event : Event Ctx) (shared : SharedMemory Ctx Obj) (obj : Obj) : SharedMemory Ctx Obj :=
  let (id, shared) := shared.getObjId obj
  { shared with objReads := shared.objReads.add id tid event }

def addWrite (tid : ℕ) (event : Event Ctx) (shared : SharedMemory Ctx Obj) (obj : Obj) : SharedMemory Ctx Obj :=
  let (id, shared) := shared.getObjId obj
  { shared with objWrites := shared.objWrites.add id tid event }

def addEvent (getAccessedMemory : Event Ctx → List Obj) (tid : ℕ) (shared : SharedMemory Ctx Obj)
    (event : Event Ctx) : SharedMemory Ctx Obj :=
  match event.type with
  | .read => (getAccessedMemory event).foldl (addRead tid event) shared
  | .write => (getAccessedMemory event).foldl (addWrite tid event) shared
  | _ => shared

def build (program : ProgramTrace Ctx) (getAccessedMemory : Event Ctx → List Obj) : SharedMemory Ctx Obj :=
  program.threads.foldl (fun shared thread => thread.events.foldl (addEvent getAccessedMemory thread.id) shared) {}

def numThreadsWrite (shared : SharedMemory Ctx Obj) (id : ℕ) : ℕ :=
  match shared.objWrites.find? id with
  | none => 0
  | some threads => threads.size

def numThreadsRead (shared : SharedMemory Ctx Obj) (id : ℕ) : ℕ :=
  match shared.objReads.find? id with
  | none => 0
  | some threads => threads.size

def firstThread (table : AccessTable Ctx) (id : ℕ) : Option ℕ :=
  (table.find? id).bind fun threads => threads.entries.head?.map Prod.fst

def isShared (shared : SharedMemory Ctx Obj) (objID : ℕ) : Bool :=
  let nWriters := shared.numThreadsWrite objID
  let nReaders := shared.numThreadsRead objID
  if nWriters > 1 || nWriters == 1 && nReaders > 1 then true
  else nWriters == 1 && nReaders == 1 && firstThread shared.objWrites objID != firstThread shared.objReads objID

def getSharedObjects (shared : SharedMemory Ctx Obj) : List Obj :=
  (shared.objIDs.entries.filter fun entry => shared.isShared entry.2).map Prod.fst

def getThreaded (shared : SharedMemory Ctx Obj) (table : AccessTable Ctx) (obj : Obj) :
    List (ℕ × List (Event Ctx)) :=
  match shared.objIDs.find? obj with
  | none => []
  | some id => ((table.find? id).map OrderedMap.entries).getD []

def getThreadedReads (shared : SharedMemory Ctx Obj) (obj : Obj) : List (ℕ × List (Event Ctx)) :=
  shared.getThreaded shared.objReads obj

def getThreadedWrites (shared : SharedMemory Ctx Obj) (obj : Obj) : List (ℕ × List (Event Ctx)) :=
  shared.getThreaded shared.objWrites obj

end SharedMemory

/-- The calls of `checkRace` for one object; a write is checked against the reads of other threads and
against the writes of the threads that come after its own. -/
def checkObject (threadedReads : List (ℕ × List (Event Ctx))) :
    List (ℕ × List (Event Ctx)) → List (Event Ctx × Event Ctx)
  | [] => []
  | (wtid, writes) :: later =>
    (threadedReads.flatMap fun (rtid, reads) =>
      if wtid = rtid then [] else writes.flatMap fun write => reads.map (write, ·)) ++
    (later.flatMap fun (_, otherWrites) => writes.flatMap fun write => otherWrites.map (write, ·)) ++
    checkObject threadedReads later

def SharedMemory.checkedPairs (shared : SharedMemory Ctx Obj) : List (Event Ctx × Event Ctx) :=
  shared.getSharedObjects.flatMap fun sharedObj =>
    checkObject (shared.getThreadedReads sharedObj) (shared.getThreadedWrites sharedObj)

def detectRaces (program : ProgramTrace Ctx) (getAccessedMemory : Event Ctx → List Obj) :
    List (Event Ctx × Event Ctx) :=
  (SharedMemory.build program getAccessedMemory).checkedPairs

def AccessTable.Holds (table : AccessTable Ctx) (id tid : ℕ) (event : Event Ctx) : Prop :=
  ∃ threads events, table.find? id = some threads ∧ threads.find? tid = some events ∧ event ∈ events

def AccessTable.Filled (table : AccessTable Ctx) : Prop :=
  ∀ id threads tid events, table.find? id = some threads → threads.find? tid = some events → events ≠ []

namespace AccessTable

variable {table : AccessTable Ctx} {id tid : ℕ} {event : Event Ctx}

lemma find?_add : (table.add id tid event).find? id = some (((table.find? id).getD .empty).modify tid
    fun events => events.getD [] ++ [event]) := OrderedMap.find?_modify _ _ _

lemma find?_add_ne {other : ℕ} (hne : other ≠ id) : (table.add id tid event).find? other = table.find? other :=
  OrderedMap.find?_modify_ne _ hne _

lemma holds_add {id' tid' : ℕ} {event' : Event Ctx} : (table.add id tid event).Holds id' tid' event' ↔
    table.Holds id' tid' event' ∨ id' = id ∧ tid' = tid ∧ event' = event := by
  by_cases hid : id' = id
  · subst hid
    have hold : ∀ tid', (∃ events, ((table.find? id').getD .empty).find? tid' = some events ∧ event' ∈ events) ↔
        table.Holds id' tid' event' := by
      intro tid'
      constructor
      · rintro ⟨events, hevents, hm⟩
        cases hfind : table.find? id' with
        | none =>
          rw [hfind] at hevents
          cases hevents
        | some threads =>
          rw [hfind] at hevents
          exact ⟨threads, events, hfind, hevents, hm⟩
      · rintro ⟨threads, events, hfind, hevents, hm⟩
        rw [hfind]
        exact ⟨events, hevents, hm⟩
    have hnew : (table.add id' tid event).Holds id' tid' event' ↔ ∃ events,
        (((table.find? id').getD .empty).modify tid fun events => events.getD [] ++ [event]).find? tid' =
          some events ∧ event' ∈ events := by
      constructor
      · rintro ⟨threads, events, hfind, hevents, hm⟩
        rw [find?_add] at hfind
        cases hfind
        exact ⟨events, hevents, hm⟩
      · rintro ⟨events, hevents, hm⟩
        exact ⟨_, events, find?_add, hevents, hm⟩
    rw [hnew]
    by_cases htid : tid' = tid
    · subst htid
      rw [OrderedMap.find?_modify]
      constructor
      · rintro ⟨events, hevents, hm⟩
        cases hevents
        cases List.mem_append.mp hm with
        | inl hm =>
          refine Or.inl ((hold tid').mp ?_)
          cases hfind : ((table.find? id').getD .empty).find? tid' with
          | none =>
            rw [hfind] at hm
            exact absurd hm List.not_mem_nil
          | some events =>
            rw [hfind] at hm
            exact ⟨events, rfl, hm⟩
        | inr hm => exact Or.inr ⟨rfl, rfl, List.mem_singleton.mp hm⟩
      · rintro (h | ⟨-, -, rfl⟩)
        · obtain ⟨events, hevents, hm⟩ := (hold tid').mpr h
          refine ⟨_, rfl, List.mem_append_left _ ?_⟩
          rw [hevents]
          exact hm
        · exact ⟨_, rfl, List.mem_append_right _ List.mem_cons_self⟩
    · rw [OrderedMap.find?_modify_ne _ htid, hold tid']
      simp [htid]
  · have hsame : (table.add id tid event).Holds id' tid' event' ↔ table.Holds id' tid' event' := by
      rw [Holds, Holds, find?_add_ne hid]
    rw [hsame]
    simp [hid]

lemma filled_add (h : table.Filled) : (table.add id tid event).Filled := by
  intro id' threads tid' events hfind hevents
  by_cases hid : id' = id
  · subst hid
    rw [find?_add] at hfind
    cases hfind
    by_cases htid : tid' = tid
    · subst htid
      rw [OrderedMap.find?_modify] at hevents
      cases hevents
      simp
    · rw [OrderedMap.find?_modify_ne _ htid] at hevents
      cases hold : table.find? id' with
      | none =>
        rw [hold] at hevents
        cases hevents
      | some threads =>
        rw [hold] at hevents
        exact h id' threads tid' events hold hevents
  · rw [find?_add_ne hid] at hfind
    exact h id' threads tid' events hfind hevents

end AccessTable

abbrev ObjectAccess (Ctx Obj : Type) := ℕ × Event Ctx × Obj

structure AccessTable.Records (table : AccessTable Ctx) (objIDs : OrderedMap Obj ℕ)
    (isKind : Event Ctx → Prop) (done : List (ObjectAccess Ctx Obj)) : Prop where
  fresh : ∀ id, objIDs.size ≤ id → table.find? id = none
  filled : table.Filled
  holds : ∀ obj id, objIDs.find? obj = some id → ∀ tid event,
    table.Holds id tid event ↔ (tid, event, obj) ∈ done ∧ isKind event

structure Numbered (objIDs : OrderedMap Obj ℕ) (done : List (ObjectAccess Ctx Obj)) : Prop where
  known : ∀ obj, (objIDs.find? obj).isSome ↔ ∃ tid event, (tid, event, obj) ∈ done
  below : ∀ obj id, objIDs.find? obj = some id → id < objIDs.size
  injective : ∀ obj obj' id, objIDs.find? obj = some id → objIDs.find? obj' = some id → obj = obj'

structure SharedMemory.Records (shared : SharedMemory Ctx Obj) (done : List (ObjectAccess Ctx Obj)) : Prop where
  numbered : Numbered shared.objIDs done
  reads : shared.objReads.Records shared.objIDs (·.type = .read) done
  writes : shared.objWrites.Records shared.objIDs (·.type = .write) done

section Records

variable {objIDs : OrderedMap Obj ℕ} {table : AccessTable Ctx} {isKind : Event Ctx → Prop}
  {done : List (ObjectAccess Ctx Obj)} {obj : Obj} {id tid : ℕ} {event : Event Ctx}

lemma AccessTable.Holds.not_fresh (h : table.Holds id tid event) (hf : table.find? id = none) : False := by
  obtain ⟨threads, -, hfind, -⟩ := h
  rw [hf] at hfind
  cases hfind

lemma AccessTable.Records.insert (h : table.Records objIDs isKind done) (hn : Numbered objIDs done)
    (hnew : objIDs.find? obj = none) : table.Records (objIDs.insert obj objIDs.size) isKind done := by
  refine ⟨?_, h.filled, ?_⟩
  · intro id hid
    rw [OrderedMap.size_insert hnew] at hid
    exact h.fresh id (by omega)
  · intro obj' id' hfind tid event
    by_cases heq : obj' = obj
    · subst heq
      rw [OrderedMap.find?_insert] at hfind
      obtain rfl := Option.some.inj hfind
      constructor
      · intro hholds
        exact (hholds.not_fresh (h.fresh _ le_rfl)).elim
      · rintro ⟨hm, -⟩
        have hknown := (hn.known obj').mpr ⟨tid, event, hm⟩
        rw [hnew] at hknown
        cases hknown
    · rw [OrderedMap.find?_insert_ne _ heq] at hfind
      exact h.holds obj' id' hfind tid event

lemma AccessTable.Records.add (h : table.Records objIDs isKind done) (hid : objIDs.find? obj = some id)
    (hlt : id < objIDs.size) (hinj : ∀ obj', objIDs.find? obj' = some id → obj' = obj) (hk : isKind event) :
    (table.add id tid event).Records objIDs isKind (done ++ [(tid, event, obj)]) := by
  refine ⟨?_, filled_add h.filled, ?_⟩
  · intro other hother
    have hne : other ≠ id := (hlt.trans_le hother).ne'
    rw [find?_add_ne hne]
    exact h.fresh other hother
  · intro obj' id' hfind tid' event'
    rw [holds_add, h.holds obj' id' hfind, List.mem_append, List.mem_singleton]
    constructor
    · rintro (⟨hm, hkind⟩ | ⟨rfl, rfl, rfl⟩)
      · exact ⟨Or.inl hm, hkind⟩
      · exact ⟨Or.inr (by rw [hinj obj' hfind]), hk⟩
    · rintro ⟨hm | heq, hkind⟩
      · exact Or.inl ⟨hm, hkind⟩
      · obtain ⟨rfl, rfl, rfl⟩ : tid' = tid ∧ event' = event ∧ obj' = obj := by simpa using heq
        rw [hid] at hfind
        exact Or.inr ⟨(Option.some.inj hfind).symm, rfl, rfl⟩

lemma AccessTable.Records.skip (h : table.Records objIDs isKind done) (hk : ¬ isKind event) :
    table.Records objIDs isKind (done ++ [(tid, event, obj)]) := by
  refine ⟨h.fresh, h.filled, ?_⟩
  intro obj' id' hfind tid' event'
  rw [h.holds obj' id' hfind, List.mem_append, List.mem_singleton]
  constructor
  · rintro ⟨hm, hkind⟩
    exact ⟨Or.inl hm, hkind⟩
  · rintro ⟨hm | heq, hkind⟩
    · exact ⟨hm, hkind⟩
    · obtain ⟨rfl, rfl, rfl⟩ : tid' = tid ∧ event' = event ∧ obj' = obj := by simpa using heq
      exact absurd hkind hk

lemma Numbered.insert (h : Numbered objIDs done) (hnew : objIDs.find? obj = none) :
    (∀ obj' id, (objIDs.insert obj objIDs.size).find? obj' = some id → id < (objIDs.insert obj objIDs.size).size) ∧
      ∀ obj' obj'' id, (objIDs.insert obj objIDs.size).find? obj' = some id →
        (objIDs.insert obj objIDs.size).find? obj'' = some id → obj' = obj'' := by
  have hcases : ∀ obj' id, (objIDs.insert obj objIDs.size).find? obj' = some id →
      obj' = obj ∧ id = objIDs.size ∨ obj' ≠ obj ∧ objIDs.find? obj' = some id := by
    intro obj' id hfind
    by_cases heq : obj' = obj
    · rw [heq, OrderedMap.find?_insert] at hfind
      exact Or.inl ⟨heq, (Option.some.inj hfind).symm⟩
    · rw [OrderedMap.find?_insert_ne _ heq] at hfind
      exact Or.inr ⟨heq, hfind⟩
  constructor
  · intro obj' id hfind
    rw [OrderedMap.size_insert hnew]
    rcases hcases obj' id hfind with ⟨-, rfl⟩ | ⟨-, hold⟩
    · omega
    · have hlt := h.below obj' id hold
      omega
  · intro obj' obj'' id hfind hfind'
    rcases hcases obj' id hfind with ⟨rfl, rfl⟩ | ⟨-, hold⟩
    · rcases hcases obj'' _ hfind' with ⟨rfl, -⟩ | ⟨-, hold'⟩
      · rfl
      · exact absurd (h.below obj'' _ hold') (lt_irrefl _)
    · rcases hcases obj'' _ hfind' with ⟨rfl, rfl⟩ | ⟨-, hold'⟩
      · exact absurd (h.below obj' _ hold) (lt_irrefl _)
      · exact h.injective obj' obj'' id hold hold'

end Records

namespace SharedMemory

variable {shared : SharedMemory Ctx Obj} {done : List (ObjectAccess Ctx Obj)} {obj : Obj} {tid : ℕ}
  {event : Event Ctx}

structure Named (shared : SharedMemory Ctx Obj) (obj : Obj) (done : List (ObjectAccess Ctx Obj)) (id : ℕ) : Prop where
  found : shared.objIDs.find? obj = some id
  known : ∀ obj', (shared.objIDs.find? obj').isSome ↔ obj' = obj ∨ ∃ tid event, (tid, event, obj') ∈ done
  below : ∀ obj' id, shared.objIDs.find? obj' = some id → id < shared.objIDs.size
  injective : ∀ obj' obj'' id, shared.objIDs.find? obj' = some id → shared.objIDs.find? obj'' = some id → obj' = obj''
  reads : shared.objReads.Records shared.objIDs (·.type = .read) done
  writes : shared.objWrites.Records shared.objIDs (·.type = .write) done

lemma getObjId_named (h : shared.Records done) (obj : Obj) :
    (shared.getObjId obj).2.Named obj done (shared.getObjId obj).1 := by
  rw [getObjId]
  cases hfind : shared.objIDs.find? obj with
  | some id =>
    refine ⟨hfind, ?_, h.numbered.below, h.numbered.injective, h.reads, h.writes⟩
    intro obj'
    rw [h.numbered.known obj']
    constructor
    · exact Or.inr
    · rintro (rfl | hm)
      · exact (h.numbered.known obj').mp (by rw [hfind]; rfl)
      · exact hm
  | none =>
    obtain ⟨hbelow, hinjective⟩ := h.numbered.insert hfind
    refine ⟨OrderedMap.find?_insert _ _ _, ?_, hbelow, hinjective, h.reads.insert h.numbered hfind,
      h.writes.insert h.numbered hfind⟩
    intro obj'
    by_cases heq : obj' = obj
    · simp [heq]
    · rw [OrderedMap.find?_insert_ne _ heq, h.numbered.known obj']
      simp [heq]

lemma Named.numbered {id : ℕ} (h : shared.Named obj done id) :
    Numbered shared.objIDs (done ++ [(tid, event, obj)]) := by
  refine ⟨?_, h.below, h.injective⟩
  intro obj'
  rw [h.known obj']
  constructor
  · rintro (rfl | ⟨tid', event', hm⟩)
    · exact ⟨tid, event, by simp⟩
    · exact ⟨tid', event', List.mem_append_left _ hm⟩
  · rintro ⟨tid', event', hm⟩
    cases List.mem_append.mp hm with
    | inl hold => exact Or.inr ⟨tid', event', hold⟩
    | inr hnew =>
      rw [List.mem_singleton] at hnew
      exact Or.inl (congrArg (fun access => access.2.2) hnew)

lemma addRead_records (h : shared.Records done) (hk : event.type = .read) :
    (shared.addRead tid event obj).Records (done ++ [(tid, event, obj)]) := by
  have hn := getObjId_named h obj
  have hinj := fun obj' hfind => hn.injective obj' obj _ hfind hn.found
  exact ⟨hn.numbered, hn.reads.add hn.found (hn.below obj _ hn.found) hinj hk, hn.writes.skip (by simp [hk])⟩

lemma addWrite_records (h : shared.Records done) (hk : event.type = .write) :
    (shared.addWrite tid event obj).Records (done ++ [(tid, event, obj)]) := by
  have hn := getObjId_named h obj
  have hinj := fun obj' hfind => hn.injective obj' obj _ hfind hn.found
  exact ⟨hn.numbered, hn.reads.skip (by simp [hk]), hn.writes.add hn.found (hn.below obj _ hn.found) hinj hk⟩

def accessesOf (getAccessedMemory : Event Ctx → List Obj) (tid : ℕ) (event : Event Ctx) :
    List (ObjectAccess Ctx Obj) :=
  if event.type = .read ∨ event.type = .write then (getAccessedMemory event).map fun obj => (tid, event, obj)
  else []

lemma foldl_records {step : SharedMemory Ctx Obj → Obj → SharedMemory Ctx Obj}
    (hstep : ∀ shared done obj, shared.Records done → (step shared obj).Records (done ++ [(tid, event, obj)]))
    (objs : List Obj) (h : shared.Records done) :
    (objs.foldl step shared).Records (done ++ objs.map fun obj => (tid, event, obj)) := by
  induction objs generalizing shared done with
  | nil => simpa using h
  | cons obj objs ih =>
    rw [List.foldl_cons, List.map_cons, List.append_cons]
    exact ih (hstep shared done obj h)

lemma addEvent_records (getAccessedMemory : Event Ctx → List Obj) (h : shared.Records done) (tid : ℕ)
    (event : Event Ctx) : (shared.addEvent getAccessedMemory tid event).Records
      (done ++ accessesOf getAccessedMemory tid event) := by
  rw [addEvent, accessesOf]
  split
  · rename_i hread
    rw [if_pos (Or.inl hread)]
    exact foldl_records (fun _ _ _ h => addRead_records h hread) _ h
  · rename_i hwrite
    rw [if_pos (Or.inr hwrite)]
    exact foldl_records (fun _ _ _ h => addWrite_records h hwrite) _ h
  · rename_i hread hwrite
    have hnone : ¬ (event.type = .read ∨ event.type = .write) := fun h => h.elim hread hwrite
    rw [if_neg hnone, List.append_nil]
    exact h

lemma addEvents_records (getAccessedMemory : Event Ctx → List Obj) (tid : ℕ) (events : List (Event Ctx))
    (h : shared.Records done) : (events.foldl (addEvent getAccessedMemory tid) shared).Records
      (done ++ events.flatMap (accessesOf getAccessedMemory tid)) := by
  induction events generalizing shared done with
  | nil => simpa using h
  | cons event events ih =>
    rw [List.foldl_cons, List.flatMap_cons, ← List.append_assoc]
    exact ih (addEvent_records getAccessedMemory h tid event)

def accesses (program : ProgramTrace Ctx) (getAccessedMemory : Event Ctx → List Obj) :
    List (ObjectAccess Ctx Obj) :=
  program.threads.flatMap fun thread => thread.events.flatMap (accessesOf getAccessedMemory thread.id)

lemma addThreads_records (getAccessedMemory : Event Ctx → List Obj) (threads : List (ThreadTrace Ctx))
    (h : shared.Records done) :
    (threads.foldl (fun shared thread => thread.events.foldl (addEvent getAccessedMemory thread.id) shared)
      shared).Records (done ++ threads.flatMap fun thread =>
        thread.events.flatMap (accessesOf getAccessedMemory thread.id)) := by
  induction threads generalizing shared done with
  | nil => simpa using h
  | cons thread threads ih =>
    rw [List.foldl_cons, List.flatMap_cons, ← List.append_assoc]
    exact ih (addEvents_records getAccessedMemory thread.id thread.events h)

lemma initial_records : ({} : SharedMemory Ctx Obj).Records [] := by
  have htable : ∀ isKind : Event Ctx → Prop, AccessTable.Records (.empty : AccessTable Ctx)
      (.empty : OrderedMap Obj ℕ) isKind [] := fun isKind =>
    ⟨fun _ _ => rfl, fun _ _ _ _ h => (by cases h), fun _ _ h => (by cases h)⟩
  have hnumbered : Numbered (.empty : OrderedMap Obj ℕ) ([] : List (ObjectAccess Ctx Obj)) := by
    refine ⟨fun obj => ?_, fun _ _ h => (by cases h), fun _ _ _ h => (by cases h)⟩
    have hnone : (OrderedMap.empty : OrderedMap Obj ℕ).find? obj = none := rfl
    simp [hnone]
  exact ⟨hnumbered, htable _, htable _⟩

theorem build_records (program : ProgramTrace Ctx) (getAccessedMemory : Event Ctx → List Obj) :
    (build program getAccessedMemory).Records (accesses program getAccessedMemory) := by
  have h := addThreads_records getAccessedMemory program.threads initial_records
  rw [List.nil_append] at h
  exact h

omit [LinearOrder Obj] in
lemma mem_accesses_iff {program : ProgramTrace Ctx} {getAccessedMemory : Event Ctx → List Obj} :
    (tid, event, obj) ∈ accesses program getAccessedMemory ↔ ∃ thread ∈ program.threads, event ∈ thread.events ∧
      thread.id = tid ∧ (event.type = .read ∨ event.type = .write) ∧ obj ∈ getAccessedMemory event := by
  simp only [accesses, List.mem_flatMap, accessesOf]
  constructor
  · rintro ⟨thread, hthread, event', hevent, hm⟩
    split at hm
    · rename_i htype
      obtain ⟨obj', hobj, heq⟩ := List.mem_map.mp hm
      obtain ⟨rfl, rfl, rfl⟩ : thread.id = tid ∧ event' = event ∧ obj' = obj := by simpa using heq
      exact ⟨thread, hthread, hevent, rfl, htype, hobj⟩
    · exact absurd hm List.not_mem_nil
  · rintro ⟨thread, hthread, hevent, rfl, htype, hobj⟩
    refine ⟨thread, hthread, event, hevent, ?_⟩
    rw [if_pos htype]
    exact List.mem_map_of_mem hobj

lemma mem_getThreaded {table : AccessTable Ctx} {isKind : Event Ctx → Prop} (hn : Numbered shared.objIDs done)
    (h : table.Records shared.objIDs isKind done) :
    (∃ events, (tid, events) ∈ shared.getThreaded table obj ∧ event ∈ events) ↔
      (tid, event, obj) ∈ done ∧ isKind event := by
  cases hid : shared.objIDs.find? obj with
  | none =>
    rw [getThreaded, hid]
    constructor
    · rintro ⟨events, hm, -⟩
      exact absurd hm List.not_mem_nil
    · rintro ⟨hm, -⟩
      have hknown := (hn.known obj).mpr ⟨tid, event, hm⟩
      rw [hid] at hknown
      cases hknown
  | some id =>
    have hlisted : shared.getThreaded table obj = ((table.find? id).map OrderedMap.entries).getD [] := by
      rw [getThreaded, hid]
    rw [hlisted, ← h.holds obj id hid tid event, AccessTable.Holds]
    cases hfind : table.find? id with
    | none => simp
    | some threads => simp [OrderedMap.mem_entries_iff]

end SharedMemory

section Pairs

variable {threadedReads threadedWrites : List (ℕ × List (Event Ctx))} {write other : Event Ctx}

lemma mem_checkObject : (write, other) ∈ checkObject threadedReads threadedWrites ↔
    (∃ wtid writes rtid reads, (wtid, writes) ∈ threadedWrites ∧ (rtid, reads) ∈ threadedReads ∧
      wtid ≠ rtid ∧ write ∈ writes ∧ other ∈ reads) ∨
    ∃ front wtid writes later otid otherWrites, threadedWrites = front ++ (wtid, writes) :: later ∧
      (otid, otherWrites) ∈ later ∧ write ∈ writes ∧ other ∈ otherWrites := by
  induction threadedWrites with
  | nil => simp [checkObject]
  | cons head later ih =>
    obtain ⟨wtid, writes⟩ := head
    rw [checkObject, List.mem_append, List.mem_append, ih]
    constructor
    · rintro ((hread | hwrite) | hrest)
      · obtain ⟨⟨rtid, reads⟩, hreads, hm⟩ := List.mem_flatMap.mp hread
        dsimp only at hm
        split at hm
        · exact absurd hm List.not_mem_nil
        · rename_i hne
          obtain ⟨write', hw, hm⟩ := List.mem_flatMap.mp hm
          obtain ⟨other', ho, heq⟩ := List.mem_map.mp hm
          cases heq
          exact Or.inl ⟨wtid, writes, rtid, reads, List.mem_cons_self, hreads, hne, hw, ho⟩
      · obtain ⟨⟨otid, otherWrites⟩, hlater, hm⟩ := List.mem_flatMap.mp hwrite
        obtain ⟨write', hw, hm⟩ := List.mem_flatMap.mp hm
        obtain ⟨other', ho, heq⟩ := List.mem_map.mp hm
        cases heq
        exact Or.inr ⟨[], wtid, writes, later, otid, otherWrites, rfl, hlater, hw, ho⟩
      · rcases hrest with ⟨wtid', writes', rtid, reads, hm, h⟩ | ⟨front, wtid', writes', later', otid, others, heq, h⟩
        · exact Or.inl ⟨wtid', writes', rtid, reads, List.mem_cons_of_mem _ hm, h⟩
        · exact Or.inr ⟨(wtid, writes) :: front, wtid', writes', later', otid, others, by rw [heq]; rfl, h⟩
    · rintro (⟨wtid', writes', rtid, reads, hm, hreads, hne, hw, ho⟩ |
        ⟨front, wtid', writes', later', otid, others, heq, hlater, hw, ho⟩)
      · cases List.mem_cons.mp hm with
        | inl heq =>
          cases heq
          refine Or.inl (Or.inl (List.mem_flatMap.mpr ⟨(rtid, reads), hreads, ?_⟩))
          dsimp only
          rw [if_neg hne]
          exact List.mem_flatMap.mpr ⟨write, hw, List.mem_map_of_mem ho⟩
        | inr hm => exact Or.inr (Or.inl ⟨wtid', writes', rtid, reads, hm, hreads, hne, hw, ho⟩)
      · cases front with
        | nil =>
          obtain ⟨heq, rfl⟩ := List.cons.inj heq
          cases heq
          exact Or.inl (Or.inr (List.mem_flatMap.mpr ⟨(otid, others), hlater,
            List.mem_flatMap.mpr ⟨write, hw, List.mem_map_of_mem ho⟩⟩))
        | cons head' front =>
          obtain ⟨-, heq⟩ := List.cons.inj heq
          exact Or.inr (Or.inr ⟨front, wtid', writes', later', otid, others, heq, hlater, hw, ho⟩)

lemma entries_in_order {α : Type} {l : List α} {a b : α} (ha : a ∈ l) (hb : b ∈ l) (hne : a ≠ b) :
    ∃ front later, l = front ++ a :: later ∧ b ∈ later ∨ l = front ++ b :: later ∧ a ∈ later := by
  obtain ⟨front, later, rfl⟩ := List.append_of_mem ha
  rcases List.mem_append.mp hb with hfront | hlater
  · obtain ⟨front', later', rfl⟩ := List.append_of_mem hfront
    exact ⟨front', later' ++ a :: later, Or.inr ⟨by simp, by simp⟩⟩
  · cases List.mem_cons.mp hlater with
    | inl heq => exact absurd heq.symm hne
    | inr hm => exact ⟨front, later, Or.inl ⟨rfl, hm⟩⟩

end Pairs

namespace SharedMemory

variable {shared : SharedMemory Ctx Obj} {done : List (ObjectAccess Ctx Obj)} {obj : Obj} {tid otid : ℕ}
  {write other : Event Ctx}

lemma getThreaded_sorted (shared : SharedMemory Ctx Obj) (table : AccessTable Ctx) (obj : Obj) :
    (shared.getThreaded table obj).Pairwise (·.1 < ·.1) := by
  rw [getThreaded]
  split
  · exact List.Pairwise.nil
  · rename_i id _
    cases table.find? id with
    | none => exact List.Pairwise.nil
    | some threads => exact threads.sorted

lemma mem_getSharedObjects :
    obj ∈ shared.getSharedObjects ↔ ∃ id, shared.objIDs.find? obj = some id ∧ shared.isShared id = true := by
  rw [getSharedObjects, List.mem_map]
  constructor
  · rintro ⟨⟨obj', id⟩, hm, rfl⟩
    obtain ⟨hm, hshared⟩ := List.mem_filter.mp hm
    exact ⟨id, (shared.objIDs.mem_entries_iff).mp hm, hshared⟩
  · rintro ⟨id, hfind, hshared⟩
    exact ⟨(obj, id), List.mem_filter.mpr ⟨(shared.objIDs.mem_entries_iff).mpr hfind, hshared⟩, rfl⟩

lemma Records.listed_writes (h : shared.Records done) :
    (∃ events, (tid, events) ∈ shared.getThreadedWrites obj ∧ write ∈ events) ↔
      (tid, write, obj) ∈ done ∧ write.type = .write := mem_getThreaded h.numbered h.writes

lemma Records.listed_reads (h : shared.Records done) :
    (∃ events, (tid, events) ∈ shared.getThreadedReads obj ∧ other ∈ events) ↔
      (tid, other, obj) ∈ done ∧ other.type = .read := mem_getThreaded h.numbered h.reads

lemma Records.isShared (h : shared.Records done) (hwrite : (tid, write, obj) ∈ done) (hw : write.type = .write)
    (hother : (otid, other, obj) ∈ done) (ho : other.type = .read ∨ other.type = .write) (hne : tid ≠ otid) :
    obj ∈ shared.getSharedObjects := by
  have hknown : (shared.objIDs.find? obj).isSome := (h.numbered.known obj).mpr ⟨tid, write, hwrite⟩
  obtain ⟨id, hid⟩ := Option.isSome_iff_exists.mp hknown
  refine mem_getSharedObjects.mpr ⟨id, hid, ?_⟩
  obtain ⟨writers, events, hwriters, hfirst, -⟩ := (h.writes.holds obj id hid tid write).mpr ⟨hwrite, hw⟩
  have hcount : shared.numThreadsWrite id = writers.size := by rw [numThreadsWrite, hwriters]
  have hwriter : (writers.find? tid).isSome := by rw [hfirst]; rfl
  have hpos := OrderedMap.size_pos hwriter
  rw [SharedMemory.isShared, hcount]
  cases ho with
  | inr ho =>
    obtain ⟨writers', events', hwriters', hsecond, -⟩ := (h.writes.holds obj id hid otid other).mpr ⟨hother, ho⟩
    rw [hwriters] at hwriters'
    obtain rfl := Option.some.inj hwriters'
    have hmany := OrderedMap.one_lt_size hne hwriter (by rw [hsecond]; rfl)
    simp [hmany]
  | inl ho =>
    obtain ⟨readers, events', hreaders, hsecond, -⟩ := (h.reads.holds obj id hid otid other).mpr ⟨hother, ho⟩
    have hcount' : shared.numThreadsRead id = readers.size := by rw [numThreadsRead, hreaders]
    have hreader : (readers.find? otid).isSome := by rw [hsecond]; rfl
    have hpos' := OrderedMap.size_pos hreader
    rw [hcount']
    by_cases hmany : writers.size > 1
    · simp [hmany]
    · have hone : writers.size = 1 := by omega
      by_cases hmany' : readers.size > 1
      · simp [hone, hmany']
      · -- One writer and one reader, so the threads of the two accesses are the ones compared.
        have hone' : readers.size = 1 := by omega
        have hfirstWriter : firstThread shared.objWrites id = some tid := by
          rw [firstThread, hwriters]
          exact OrderedMap.head_of_size hwriter hone
        have hfirstReader : firstThread shared.objReads id = some otid := by
          rw [firstThread, hreaders]
          exact OrderedMap.head_of_size hreader hone'
        simp [hone, hone', hfirstWriter, hfirstReader, hne]

lemma Records.of_checkedPairs (h : shared.Records done) (hm : (write, other) ∈ shared.checkedPairs) :
    ∃ obj tid otid, tid ≠ otid ∧ (tid, write, obj) ∈ done ∧ (otid, other, obj) ∈ done ∧ write.type = .write ∧
      (other.type = .read ∨ other.type = .write) := by
  obtain ⟨obj, -, hchecked⟩ := List.mem_flatMap.mp hm
  rcases mem_checkObject.mp hchecked with ⟨tid, writes, otid, reads, hwrites, hreads, hne, hw, ho⟩ |
    ⟨front, tid, writes, later, otid, others, hentries, hlater, hw, ho⟩
  · obtain ⟨hwrite, hwtype⟩ := h.listed_writes.mp ⟨writes, hwrites, hw⟩
    obtain ⟨hother, hotype⟩ := h.listed_reads.mp ⟨reads, hreads, ho⟩
    exact ⟨obj, tid, otid, hne, hwrite, hother, hwtype, Or.inl hotype⟩
  · have hwrites : (tid, writes) ∈ shared.getThreadedWrites obj := by rw [hentries]; simp
    have hothers : (otid, others) ∈ shared.getThreadedWrites obj := by rw [hentries]; simp [hlater]
    obtain ⟨hwrite, hwtype⟩ := h.listed_writes.mp ⟨writes, hwrites, hw⟩
    obtain ⟨hother, hotype⟩ := h.listed_writes.mp ⟨others, hothers, ho⟩
    have hsorted : (shared.getThreadedWrites obj).Pairwise (·.1 < ·.1) := getThreaded_sorted _ _ _
    rw [hentries] at hsorted
    have hlt : tid < otid := (List.pairwise_cons.mp (List.pairwise_append.mp hsorted).2.1).1 _ hlater
    exact ⟨obj, tid, otid, hlt.ne, hwrite, hother, hwtype, Or.inr hotype⟩

lemma Records.checkedPairs (h : shared.Records done) (hne : tid ≠ otid) (hwrite : (tid, write, obj) ∈ done)
    (hother : (otid, other, obj) ∈ done) (hw : write.type = .write) (ho : other.type = .read ∨ other.type = .write) :
    (write, other) ∈ shared.checkedPairs ∨ (other, write) ∈ shared.checkedPairs := by
  have hshared := h.isShared hwrite hw hother ho hne
  obtain ⟨writes, hwrites, hmw⟩ := h.listed_writes.mpr ⟨hwrite, hw⟩
  cases ho with
  | inl ho =>
    obtain ⟨reads, hreads, hmo⟩ := h.listed_reads.mpr ⟨hother, ho⟩
    have hchecked := mem_checkObject.mpr (Or.inl ⟨tid, writes, otid, reads, hwrites, hreads, hne, hmw, hmo⟩)
    exact Or.inl (List.mem_flatMap.mpr ⟨obj, hshared, hchecked⟩)
  | inr ho =>
    obtain ⟨others, hothers, hmo⟩ := h.listed_writes.mpr ⟨hother, ho⟩
    have hentries : (tid, writes) ≠ (otid, others) := fun heq => hne (congrArg Prod.fst heq)
    obtain ⟨front, later, ⟨heq, hlater⟩ | ⟨heq, hlater⟩⟩ := entries_in_order hwrites hothers hentries
    · have hchecked : (write, other) ∈ checkObject (shared.getThreadedReads obj) (shared.getThreadedWrites obj) :=
        mem_checkObject.mpr (Or.inr ⟨front, tid, writes, later, otid, others, heq, hlater, hmw, hmo⟩)
      exact Or.inl (List.mem_flatMap.mpr ⟨obj, hshared, hchecked⟩)
    · have hchecked : (other, write) ∈ checkObject (shared.getThreadedReads obj) (shared.getThreadedWrites obj) :=
        mem_checkObject.mpr (Or.inr ⟨front, otid, others, later, tid, writes, heq, hlater, hmo, hmw⟩)
      exact Or.inr (List.mem_flatMap.mpr ⟨obj, hshared, hchecked⟩)

end SharedMemory

/-- The pairs that are checked are those of two accesses of one object on different threads, one of
them a write. -/
theorem detectRaces_iff (program : ProgramTrace Ctx) (getAccessedMemory : Event Ctx → List Obj)
    (event1 event2 : Event Ctx) :
    ((event1, event2) ∈ detectRaces program getAccessedMemory ∨
        (event2, event1) ∈ detectRaces program getAccessedMemory) ↔
      ∃ thread1 ∈ program.threads, ∃ thread2 ∈ program.threads,
        event1 ∈ thread1.events ∧ event2 ∈ thread2.events ∧ thread1.id ≠ thread2.id ∧
        (event1.type = .write ∧ (event2.type = .read ∨ event2.type = .write) ∨
          event2.type = .write ∧ (event1.type = .read ∨ event1.type = .write)) ∧
        ∃ obj, obj ∈ getAccessedMemory event1 ∧ obj ∈ getAccessedMemory event2 := by
  have h := SharedMemory.build_records program getAccessedMemory
  constructor
  · rintro (hm | hm)
    · obtain ⟨obj, tid, otid, hne, h1, h2, hw, ho⟩ := h.of_checkedPairs hm
      obtain ⟨thread1, ht1, he1, rfl, -, hobj1⟩ := SharedMemory.mem_accesses_iff.mp h1
      obtain ⟨thread2, ht2, he2, rfl, -, hobj2⟩ := SharedMemory.mem_accesses_iff.mp h2
      exact ⟨thread1, ht1, thread2, ht2, he1, he2, hne, Or.inl ⟨hw, ho⟩, obj, hobj1, hobj2⟩
    · obtain ⟨obj, tid, otid, hne, h2, h1, hw, ho⟩ := h.of_checkedPairs hm
      obtain ⟨thread1, ht1, he1, rfl, -, hobj1⟩ := SharedMemory.mem_accesses_iff.mp h1
      obtain ⟨thread2, ht2, he2, rfl, -, hobj2⟩ := SharedMemory.mem_accesses_iff.mp h2
      exact ⟨thread1, ht1, thread2, ht2, he1, he2, hne.symm, Or.inr ⟨hw, ho⟩, obj, hobj1, hobj2⟩
  · rintro ⟨thread1, ht1, thread2, ht2, he1, he2, hne, ⟨hw, ho⟩ | ⟨hw, ho⟩, obj, hobj1, hobj2⟩
    · have h1 := SharedMemory.mem_accesses_iff.mpr ⟨thread1, ht1, he1, rfl, Or.inr hw, hobj1⟩
      have h2 := SharedMemory.mem_accesses_iff.mpr ⟨thread2, ht2, he2, rfl, ho, hobj2⟩
      exact h.checkedPairs hne h1 h2 hw ho
    · have h1 := SharedMemory.mem_accesses_iff.mpr ⟨thread1, ht1, he1, rfl, ho, hobj1⟩
      have h2 := SharedMemory.mem_accesses_iff.mpr ⟨thread2, ht2, he2, rfl, Or.inr hw, hobj2⟩
      exact (h.checkedPairs hne.symm h2 h1 hw ho).symm

end OpenRace
