import OpenRace.Analysis.GraphConstruction

/-! Joins matched to forks through handles, and when the search for a fork finds the right one. -/

namespace OpenRace

open LLVM

variable {Ctx : Type}

def ProgramTrace.usesHandle (program : ProgramTrace Ctx) (handle : Value) : Bool :=
  program.threads.any (fun thread => thread.getForkEvents.any (·.hasHandle handle))

/-- A join names the handle itself, or a value loaded from it. -/
def throughHandle (program : ProgramTrace Ctx) (join : Event Ctx) : Option Value :=
  match join.ir.getThreadHandle with
  | some (.load id pointer) =>
    if program.usesHandle (.load id pointer) then some (.load id pointer) else some pointer
  | handle => handle

section Search

variable {program : ProgramTrace Ctx} {thread : ThreadTrace Ctx} {join : Event Ctx} {handle : Value}

lemma throughHandle_cases (h : throughHandle program join = some handle) :
    join.ir.getThreadHandle = some handle ∨
      ∃ id, join.ir.getThreadHandle = some (.load id handle) ∧ program.usesHandle (.load id handle) = false := by
  rw [throughHandle] at h
  split at h
  · rename_i id pointer hload
    split at h
    · exact Or.inl (hload.trans h)
    · rename_i hunused
      obtain rfl : pointer = handle := by simpa using h
      exact Or.inr ⟨id, hload, by simpa using hunused⟩
  · exact Or.inl h

lemma unused_not_found (hw : program.WellFormed) (hu : program.usesHandle handle = false) :
    getForkWithHandleIn handle program.threads = .ok none ∧
      ∀ t ∈ program.threads, getForkWithHandle handle t = .ok none := by
  have hnone : ∀ t ∈ program.threads, t.getForkEvents.find? (·.hasHandle handle) = none := by
    intro t ht
    rw [List.find?_eq_none]
    intro e he hh
    have huse : program.usesHandle handle = true :=
      List.any_eq_true.mpr ⟨t, ht, List.any_eq_true.mpr ⟨e, he, hh⟩⟩
    simp [hu] at huse
  constructor
  · rw [getForkWithHandleIn_eq hw handle (fun t h => h), List.findSome?_eq_none_iff.mpr hnone]
  · intro t ht
    rw [getForkWithHandle_eq hw ht, hnone t ht]

lemma found_loaded (hw : program.WellFormed) (ht : thread ∈ program.threads)
    (he : join.forkEvent = none) {id : ℕ} (hv : join.ir.getThreadHandle = some (.load id handle))
    (hu : program.usesHandle (.load id handle) = false) {found : Event Ctx}
    (hf : getForkWithHandleIn handle program.threads = .ok (some found)) :
    getCorrespondingFork program thread join = .ok (some found.asFork) := by
  obtain ⟨hprogram, hthreads⟩ := unused_not_found hw hu
  simp only [getCorrespondingFork, he, hv, getForkOfHandle, hthreads thread ht, hprogram, hf, orTry]
  rfl

end Search

variable [DecidableEq Ctx]

def stepOpenForks (program : ProgramTrace Ctx) (opened : List (Event Ctx)) (event : Event Ctx) :
    List (Event Ctx) :=
  match event.type with
  | .fork => event :: opened
  | .join =>
    match event.forkEvent with
    | some fork => opened.filter (·.asFork ≠ fork)
    | none =>
      match throughHandle program event with
      | some handle => opened.eraseP (·.hasHandle handle)
      | none => opened
  | _ => opened

def openForks (program : ProgramTrace Ctx) (before : List (Event Ctx)) : List (Event Ctx) :=
  before.foldl (stepOpenForks program) []

def mostRecentOpenFork (program : ProgramTrace Ctx) (before : List (Event Ctx)) (handle : Value) :
    Option (Event Ctx) :=
  (openForks program before).find? (·.hasHandle handle)

/-- The join gets its edge from the thread of the most recent open fork with its handle. -/
def JoinMatched (program : ProgramTrace Ctx) (thread : ThreadTrace Ctx) (before : List (Event Ctx))
    (join : Event Ctx) : Prop :=
  ∃ handle fork spawned, throughHandle program join = some handle ∧
    mostRecentOpenFork program before handle = some fork ∧ fork ∈ before ∧
    spawned ∈ program.threads ∧ spawned.thread.spawnSite = some fork.asFork ∧
    getJoinedThread program thread join = .ok (some spawned) ∧
    joinEdge program thread join = .ok (spawned.events.getLast?.map (fun last => (last.pid, join.pid)))

/-- Of the forks with the handle, the oldest alone is open; and where the handle is reached through
a load, no thread listed earlier forks with it. -/
def OldestAloneOpen (program : ProgramTrace Ctx) (thread : ThreadTrace Ctx)
    (before : List (Event Ctx)) (join : Event Ctx) : Prop :=
  ∃ handle fork, throughHandle program join = some handle ∧
    (forksThrough handle before).head? = some fork ∧
    (openForks program before).filter (·.hasHandle handle) = [fork] ∧
    (join.hasHandle handle = false → ∀ earlier ∈ earlierThreads program thread,
      forksThrough handle earlier.events = [])

section Open

variable (program : ProgramTrace Ctx)

lemma stepOpenForks_fork {opened : List (Event Ctx)} {event : Event Ctx} (h : event.type = .fork) :
    stepOpenForks program opened event = event :: opened := by
  simp [stepOpenForks, h]

lemma stepOpenForks_sublist (opened : List (Event Ctx)) (event : Event Ctx) (h : event.type ≠ .fork) :
    (stepOpenForks program opened event).Sublist opened := by
  rw [stepOpenForks]
  split
  · rename_i hf
    exact absurd hf h
  · split
    · exact List.filter_sublist
    · split
      · exact List.eraseP_sublist
      · exact List.Sublist.refl _
  · exact List.Sublist.refl _

lemma openForks_sublist (before : List (Event Ctx)) :
    (openForks program before).Sublist (before.filter (·.type = .fork)).reverse := by
  induction before using List.reverseRecOn with
  | nil => exact List.Sublist.refl _
  | append_singleton before event ih =>
    rw [openForks, List.foldl_append, List.foldl_cons, List.foldl_nil, ← openForks,
      List.filter_append, List.reverse_append]
    by_cases h : event.type = .fork
    · rw [stepOpenForks_fork program h]
      simpa [h] using ih
    · have hs := (stepOpenForks_sublist program (openForks program before) event h).trans ih
      simpa [h] using hs

lemma openForks_through (handle : Value) (before : List (Event Ctx)) :
    ((openForks program before).filter (·.hasHandle handle)).Sublist
      (forksThrough handle before).reverse := by
  have hs := (openForks_sublist program before).filter (·.hasHandle handle)
  rw [List.filter_reverse, List.filter_filter] at hs
  simpa [forksThrough, Bool.and_comm] using hs

lemma oldest_open_alone {handle : Value} {before : List (Event Ctx)} (hn : before.Nodup)
    {fork : Event Ctx} (hold : (forksThrough handle before).head? = some fork) :
    mostRecentOpenFork program before handle = some fork ↔
      (openForks program before).filter (·.hasHandle handle) = [fork] := by
  have hs := openForks_through program handle before
  rw [mostRecentOpenFork, ← List.head?_filter]
  constructor
  · intro hrec
    cases hopen : (openForks program before).filter (·.hasHandle handle) with
    | nil => simp [hopen] at hrec
    | cons top rest =>
      cases hall : forksThrough handle before with
      | nil => simp [hall] at hold
      | cons oldest later =>
        simp only [hopen, List.head?_cons, Option.some.injEq] at hrec
        simp only [hall, List.head?_cons, Option.some.injEq] at hold
        subst hrec hold
        have hnd : (oldest :: later).Nodup := hall ▸ hn.filter _
        rw [hopen, hall, List.reverse_cons] at hs
        -- nothing can stand after the oldest in a sublist of the reversed list
        obtain ⟨front, back, heq, hfront, hback⟩ := List.sublist_append_iff.mp hs
        have hlater : oldest ∉ later.reverse := by simpa using (List.nodup_cons.mp hnd).1
        cases front with
        | nil =>
          simp only [List.nil_append] at heq
          rw [← heq] at hback
          have hle := hback.length_le
          simp only [List.length_cons, List.length_nil] at hle
          have hrest : rest = [] := List.eq_nil_of_length_eq_zero (by omega)
          rw [hrest]
        | cons first front =>
          simp only [List.cons_append, List.cons.injEq] at heq
          exact absurd (hfront.subset (heq.1 ▸ List.mem_cons_self)) hlater
  · intro halone
    simp [halone]

end Open

lemma mostRecent_through {program : ProgramTrace Ctx} {before : List (Event Ctx)} {handle : Value}
    {fork : Event Ctx} (h : mostRecentOpenFork program before handle = some fork) :
    fork ∈ forksThrough handle before := by
  have hm : fork ∈ (openForks program before).filter (·.hasHandle handle) :=
    List.mem_filter.mpr ⟨List.mem_of_find?_eq_some h, List.find?_some h⟩
  simpa using (openForks_through program handle before).subset hm

section Matched

variable {program : ProgramTrace Ctx} {thread : ThreadTrace Ctx} {before : List (Event Ctx)}
  {join : Event Ctx} {handle : Value}

lemma joinMatched_of_found (hw : program.WellFormed) (hvia : throughHandle program join = some handle)
    {found : Event Ctx} (hfound : ∃ t ∈ program.threads, found ∈ t.getForkEvents)
    (hcode : getCorrespondingFork program thread join = .ok (some found.asFork)) :
    JoinMatched program thread before join ↔
      ∃ fork, mostRecentOpenFork program before handle = some fork ∧ found.asFork = fork.asFork := by
  obtain ⟨t, htm, hft⟩ := hfound
  obtain ⟨spawned, hsm, hforked, hsite⟩ := getForkedThread_spawned hw htm hft
  have hjoined : getJoinedThread program thread join = .ok (some spawned) := by
    rw [getJoinedThread, hcode]
    change (do return some (← getForkedThread found.asFork program)) = _
    rw [hforked]
    rfl
  constructor
  · rintro ⟨handle', fork, spawned', hvia', hrec, _, _, hsite', hjoined', _⟩
    obtain rfl : handle = handle' := by simpa [hvia] using hvia'
    obtain rfl : spawned = spawned' := by simpa [hjoined] using hjoined'
    exact ⟨fork, hrec, by simpa [hsite] using hsite'⟩
  · rintro ⟨fork, hrec, heq⟩
    refine ⟨handle, fork, spawned, hvia, hrec, (mem_forksThrough.mp (mostRecent_through hrec)).1, hsm,
      hsite.trans (congrArg some heq), hjoined, ?_⟩
    rw [joinEdge, hjoined]
    rfl

variable {after : List (Event Ctx)} (hw : program.WellFormed) (ht : thread ∈ program.threads)
  (hsplit : thread.events = before ++ join :: after) (he : join.forkEvent = none)

include hw ht hsplit

omit [DecidableEq Ctx] in
lemma before_nodup : before.Nodup := by
  have hids : (thread.events.map Event.id).Nodup := hw.numbered thread ht ▸ List.nodup_range
  have hev := List.Nodup.of_map _ hids
  rw [hsplit] at hev
  exact (List.nodup_append.mp hev).1

lemma recent_iff_alone {oldest found : Event Ctx}
    (hold : (forksThrough handle before).head? = some oldest) (hfound : found = oldest) :
    (∃ fork, mostRecentOpenFork program before handle = some fork ∧ found.asFork = fork.asFork) ↔
      (openForks program before).filter (·.hasHandle handle) = [oldest] := by
  have hin : ∀ e ∈ forksThrough handle before, e ∈ thread.events := by
    intro e h
    rw [hsplit]
    exact List.mem_append_left _ (mem_forksThrough.mp h).1
  rw [← oldest_open_alone program (before_nodup hw ht hsplit) hold]
  constructor
  · rintro ⟨fork, hrec, heq⟩
    have hsame : oldest = fork := asFork_injective hw ht (hin _ (List.mem_of_mem_head? hold))
      (hin _ (mostRecent_through hrec)) (hfound ▸ heq)
    exact hsame ▸ hrec
  · intro hrec
    exact ⟨oldest, hrec, by rw [hfound]⟩

include he

lemma matched_iff_alone (hvia : throughHandle program join = some handle) {oldest : Event Ctx}
    (hold : (forksThrough handle before).head? = some oldest) :
    JoinMatched program thread before join ↔
      (openForks program before).filter (·.hasHandle handle) = [oldest] ∧
        (join.hasHandle handle = false → ∀ earlier ∈ earlierThreads program thread,
          forksThrough handle earlier.events = []) := by
  have hfirst : (forksThrough handle thread.events).head? = some oldest := by
    rw [hsplit, forksThrough, List.filter_append, List.head?_append, ← forksThrough, hold]
    rfl
  have hom : oldest ∈ thread.getForkEvents := by
    obtain ⟨hm, htype, -⟩ := mem_forksThrough.mp (List.mem_of_mem_head? hfirst)
    exact mem_getForkEvents.mpr ⟨hm, htype⟩
  rcases throughHandle_cases hvia with hv | ⟨id, hv, hu⟩
  · have hcode := found_exact hw ht he hv hfirst
    rw [joinMatched_of_found hw hvia ⟨thread, ht, hom⟩ hcode,
      recent_iff_alone hw ht hsplit hold rfl]
    simp [Event.hasHandle, hv]
  · obtain ⟨found, hsearch, hmem, hown, hclear⟩ := search_hits_iff hw ht hfirst
    have hloaded : join.hasHandle handle = false := by
      have hne : Value.load id handle ≠ handle := by
        intro h
        have hsize := congrArg sizeOf h
        simp at hsize
      simpa [Event.hasHandle, hv] using hne
    rw [joinMatched_of_found hw hvia hmem (found_loaded hw ht he hv hu hsearch)]
    simp only [hloaded, forall_const]
    constructor
    · rintro ⟨fork, hrec, heq⟩
      have hfork : fork ∈ thread.events := by
        rw [hsplit]
        exact List.mem_append_left _ (mem_forksThrough.mp (mostRecent_through hrec)).1
      have hnone := hown (by rw [heq, asFork_tid hw ht hfork])
      exact ⟨(recent_iff_alone hw ht hsplit hold (hclear hnone)).mp ⟨fork, hrec, heq⟩, hnone⟩
    · rintro ⟨halone, hnone⟩
      exact (recent_iff_alone hw ht hsplit hold (hclear hnone)).mpr halone

lemma joinMatched_iff :
    JoinMatched program thread before join ↔ OldestAloneOpen program thread before join := by
  constructor
  · intro h
    have hm := h
    obtain ⟨handle, fork, _, hvia, hrec, _⟩ := hm
    cases hold : (forksThrough handle before).head? with
    | none =>
      have hm := mostRecent_through hrec
      rw [List.head?_eq_none_iff.mp hold] at hm
      exact absurd hm List.not_mem_nil
    | some oldest =>
      obtain ⟨halone, hnone⟩ := (matched_iff_alone hw ht hsplit he hvia hold).mp h
      exact ⟨handle, oldest, hvia, hold, halone, hnone⟩
  · rintro ⟨handle, oldest, hvia, hold, halone, hnone⟩
    exact (matched_iff_alone hw ht hsplit he hvia hold).mpr ⟨halone, hnone⟩

end Matched

/-- The joins of a thread all get the right edge exactly when no handle is used again too early. -/
theorem joins_matched_iff {program : ProgramTrace Ctx} {thread : ThreadTrace Ctx}
    (hw : program.WellFormed) (ht : thread ∈ program.threads) :
    (∀ before join after, thread.events = before ++ join :: after → join.type = .join →
        join.forkEvent = none → JoinMatched program thread before join) ↔
      ∀ before join after, thread.events = before ++ join :: after → join.type = .join →
        join.forkEvent = none → OldestAloneOpen program thread before join := by
  constructor
  · intro h before join after hsplit htype he
    exact (joinMatched_iff hw ht hsplit he).mp (h before join after hsplit htype he)
  · intro h before join after hsplit htype he
    exact (joinMatched_iff hw ht hsplit he).mpr (h before join after hsplit htype he)

namespace ReusedHandle

def handle : Value := .alloca 1

def create (id : ℕ) : IR :=
  ⟨.pthreadCreate, .call { id, calledOperand := .undef, args := [handle, .undef, .undef] }, .other⟩

def wait (id : ℕ) : IR :=
  ⟨.pthreadJoin, .call { id, calledOperand := .undef, args := [.load id handle] }, .other⟩

def main : ThreadRef Unit := ⟨0, []⟩

def fork₁ : Event Unit := ⟨.fork, 0, main, (), create 10, none⟩
def join₁ : Event Unit := ⟨.join, 1, main, (), wait 11, none⟩
def fork₂ : Event Unit := ⟨.fork, 2, main, (), create 12, none⟩
def join₂ : Event Unit := ⟨.join, 3, main, (), wait 13, none⟩

def child (id : ℕ) (fork : Event Unit) : ThreadTrace Unit :=
  let thread : ThreadRef Unit := ⟨id, [fork.asFork]⟩
  .mk thread [⟨.read, 0, thread, (), ⟨.load, .other 20, .other⟩, none⟩] []

def mainTrace : ThreadTrace Unit :=
  .mk main [fork₁, join₁, fork₂, join₂] [child 1 fork₁, child 2 fork₂]

/-- A handle forked, joined, and both again. -/
def program : ProgramTrace Unit := { threads := [mainTrace, child 1 fork₁, child 2 fork₂] }

lemma wellFormed : program.WellFormed where
  distinct := by decide
  numbered := by decide
  located := by decide
  handled := by decide
  spawned := by decide

theorem joins_matched_iff_reused :
    (∀ before join after, mainTrace.events = before ++ join :: after → join.type = .join →
        join.forkEvent = none → JoinMatched program mainTrace before join) ↔
      ∀ before join after, mainTrace.events = before ++ join :: after → join.type = .join →
        join.forkEvent = none → OldestAloneOpen program mainTrace before join :=
  joins_matched_iff wellFormed List.mem_cons_self

/-- The second join gets its edge from the thread that the first join waited for. -/
theorem second_join_mismatched :
    ¬ ∀ before join after, mainTrace.events = before ++ join :: after → join.type = .join →
      join.forkEvent = none → JoinMatched program mainTrace before join := by
  intro h
  obtain ⟨handle', fork, spawned, hvia, hrec, _, _, hsite, hjoined, _⟩ :=
    h [fork₁, join₁, fork₂] join₂ [] rfl rfl rfl
  have hvia' : throughHandle program join₂ = some handle := by decide
  obtain rfl : handle = handle' := by simpa [hvia'] using hvia
  have hrec' : mostRecentOpenFork program [fork₁, join₁, fork₂] handle = some fork₂ := by decide
  obtain rfl : fork₂ = fork := by simpa [hrec'] using hrec
  have hjoined' : getJoinedThread program mainTrace join₂ = .ok (some (child 1 fork₁)) := rfl
  obtain rfl : child 1 fork₁ = spawned := by simpa [hjoined'] using hjoined
  exact absurd hsite (by decide)

end ReusedHandle

end OpenRace
