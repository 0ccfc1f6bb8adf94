import OpenRace.Analysis.ReduceBlocks
import OpenRace.Trace.Event

/-! Events in the code of one reduction. -/

namespace OpenRace

open LLVM LLVM.CFGModule Library

abbrev ReduceCache := List (Instruction × List ℕ)

variable {Ctx : Type}

namespace SwitchModule

variable (code : SwitchModule) (fuel : ℕ)

def computeGuardedBlocks (reduceBlocks : ReduceCache) (reduce : Instruction) :
    Except ReduceError (List ℕ × ReduceCache) :=
  if (reduceBlocks.lookup reduce).isSome then .error .alreadyComputed
  else do
    let blocks ← code.guardedBlocks fuel reduce
    return (blocks, (reduce, blocks) :: reduceBlocks)

def getReduceBlocks (reduceBlocks : ReduceCache) (reduce : Instruction) : Except ReduceError (List ℕ × ReduceCache) :=
  match reduceBlocks.lookup reduce with
  | some blocks => .ok (blocks, reduceBlocks)
  | none => code.computeGuardedBlocks fuel reduceBlocks reduce

def reduceContains (reduceBlocks : ReduceCache) (reduce inst : Instruction) :
    Except ReduceError (Bool × ReduceCache) := do
  let (blocks, reduceBlocks) ← code.getReduceBlocks fuel reduceBlocks reduce
  return (blocks.any fun block => (code.module.getParent inst).map CFGBlock.id = some block, reduceBlocks)

def scanReduces (event1 event2 : Event Ctx) : List (Event Ctx) → ReduceCache → Except ReduceError (Bool × ReduceCache)
  | [], reduceBlocks => .ok (false, reduceBlocks)
  | event :: events, reduceBlocks =>
    if event.id = event1.id then .ok (false, reduceBlocks)
    else if event.ir.type = .openMPReduce then do
      let (contains1, reduceBlocks) ← code.reduceContains fuel reduceBlocks event.ir.inst event1.ir.inst
      let (contains2, reduceBlocks) ← code.reduceContains fuel reduceBlocks event.ir.inst event2.ir.inst
      if contains1 && contains2 then return (true, reduceBlocks)
      else if contains1 || contains2 then return (false, reduceBlocks)
      else scanReduces event1 event2 events reduceBlocks
    else scanReduces event1 event2 events reduceBlocks

def inSameReduce (reduceBlocks : ReduceCache) (thread1 : ThreadTrace Ctx) (event1 event2 : Event Ctx) :
    Except ReduceError (Bool × ReduceCache) :=
  code.scanReduces fuel event1 event2 thread1.events reduceBlocks

inductive Queried (code : SwitchModule) : ReduceCache → Prop
  | empty : Queried code []
  | query {Ctx : Type} {fuel : ℕ} {before after : ReduceCache} {thread1 : ThreadTrace Ctx} {event1 event2 : Event Ctx}
      {answer : Bool} (h : Queried code before)
      (hquery : code.inSameReduce fuel before thread1 event1 event2 = .ok (answer, after)) : Queried code after

def Contains (reduce inst : Instruction) : Prop :=
  ∃ block, (code.module.getParent inst).map CFGBlock.id = some block ∧ code.Reduces reduce block

/-- Of two reductions the blocks are disjoint or nested, and one that encloses another comes before it. -/
structure WellNested (events : List (Event Ctx)) : Prop where
  nested : ∀ event ∈ events, ∀ other ∈ events, event.ir.type = .openMPReduce → other.ir.type = .openMPReduce →
    (∀ b, code.Reduces event.ir.inst b → ¬ code.Reduces other.ir.inst b) ∨
      (∀ b, code.Reduces event.ir.inst b → code.Reduces other.ir.inst b) ∨
      ∀ b, code.Reduces other.ir.inst b → code.Reduces event.ir.inst b
  first : ∀ front event back, events = front ++ event :: back → event.ir.type = .openMPReduce →
    ∀ other ∈ events, other.ir.type = .openMPReduce →
      (∀ b, code.Reduces event.ir.inst b → code.Reduces other.ir.inst b) →
        ¬ (∀ b, code.Reduces other.ir.inst b → code.Reduces event.ir.inst b) →
          ∃ earlier ∈ front, earlier.ir.type = .openMPReduce ∧ earlier.ir.inst = other.ir.inst

section Cache

variable {code} {fuel} {reduceBlocks after : ReduceCache} {reduce inst : Instruction}

def Valid (code : SwitchModule) (reduceBlocks : ReduceCache) : Prop :=
  ∀ reduce blocks, reduceBlocks.lookup reduce = some blocks → ∃ fuel, code.guardedBlocks fuel reduce = .ok blocks

def Enough (code : SwitchModule) (reduce : Instruction) (fuel : ℕ) : Prop :=
  ∃ blocks, (∀ more ≥ fuel, code.guardedBlocks more reduce = .ok blocks) ∧ ∀ b, b ∈ blocks ↔ code.Reduces reduce b

lemma Enough.mono {more : ℕ} (h : code.Enough reduce fuel) (hle : fuel ≤ more) : code.Enough reduce more := by
  obtain ⟨blocks, hok, hmem⟩ := h
  exact ⟨blocks, fun further hfurther => hok further (hle.trans hfurther), hmem⟩

lemma Valid.getReduceBlocks {blocks : List ℕ} (h : code.Valid reduceBlocks)
    (hok : code.getReduceBlocks fuel reduceBlocks reduce = .ok (blocks, after)) :
    code.Valid after ∧ ∃ fuel, code.guardedBlocks fuel reduce = .ok blocks := by
  rw [SwitchModule.getReduceBlocks] at hok
  cases hlookup : reduceBlocks.lookup reduce with
  | some cached =>
    rw [hlookup] at hok
    cases hok
    exact ⟨h, h reduce blocks hlookup⟩
  | none =>
    rw [hlookup] at hok
    dsimp only at hok
    rw [computeGuardedBlocks, hlookup] at hok
    obtain ⟨computed, hcompute, hsame⟩ := exists_of_bind hok
    cases hsame
    refine ⟨fun other known hknown => ?_, fuel, hcompute⟩
    rw [List.lookup_cons] at hknown
    split at hknown
    · rename_i heq
      cases hknown
      rw [beq_iff_eq.mp heq]
      exact ⟨fuel, hcompute⟩
    · exact h other known hknown

lemma Valid.reduceContains {answer : Bool} (h : code.Valid reduceBlocks)
    (hok : code.reduceContains fuel reduceBlocks reduce inst = .ok (answer, after)) : code.Valid after := by
  obtain ⟨⟨blocks, cached⟩, hblocks, hsame⟩ := exists_of_bind hok
  cases hsame
  exact (h.getReduceBlocks hblocks).1

lemma Valid.scanReduces {event1 event2 : Event Ctx} {events : List (Event Ctx)} {answer : Bool}
    (h : code.Valid reduceBlocks)
    (hok : code.scanReduces fuel event1 event2 events reduceBlocks = .ok (answer, after)) : code.Valid after := by
  induction events generalizing reduceBlocks with
  | nil =>
    cases hok
    exact h
  | cons event events ih =>
    rw [SwitchModule.scanReduces] at hok
    split at hok
    · cases hok
      exact h
    · split at hok
      · obtain ⟨⟨contains1, first⟩, hfirst, hok⟩ := exists_of_bind hok
        obtain ⟨⟨contains2, second⟩, hsecond, hok⟩ := exists_of_bind hok
        have hvalid := (h.reduceContains hfirst).reduceContains hsecond
        dsimp only at hok
        split at hok
        · cases hok
          exact hvalid
        · split at hok
          · cases hok
            exact hvalid
          · exact ih hvalid hok
      · exact ih h hok

lemma Queried.valid (h : code.Queried reduceBlocks) : code.Valid reduceBlocks := by
  induction h with
  | empty => rintro reduce blocks ⟨⟩
  | query _ hquery ih => exact ih.scanReduces hquery

lemma Valid.getReduceBlocks_spec (h : code.Valid reduceBlocks) (he : code.Enough reduce fuel) :
    ∃ blocks after, code.getReduceBlocks fuel reduceBlocks reduce = .ok (blocks, after) ∧ code.Valid after ∧
      ∀ b, b ∈ blocks ↔ code.Reduces reduce b := by
  obtain ⟨blocks, hok, hmem⟩ := he
  have hget : ∃ known after, code.getReduceBlocks fuel reduceBlocks reduce = .ok (known, after) := by
    rw [SwitchModule.getReduceBlocks]
    cases hlookup : reduceBlocks.lookup reduce with
    | some cached => exact ⟨cached, reduceBlocks, rfl⟩
    | none =>
      refine ⟨blocks, (reduce, blocks) :: reduceBlocks, ?_⟩
      dsimp only
      rw [computeGuardedBlocks, hlookup, hok fuel le_rfl]
      rfl
  obtain ⟨known, after, hget⟩ := hget
  obtain ⟨hvalid, spent, hspent⟩ := h.getReduceBlocks hget
  have hsame := (hok _ (le_max_left fuel spent)).symm.trans (guardedBlocks_mono (le_max_right fuel spent) hspent)
  cases hsame
  exact ⟨blocks, after, hget, hvalid, hmem⟩

lemma Valid.reduceContains_spec (h : code.Valid reduceBlocks) (he : code.Enough reduce fuel) (inst : Instruction) :
    ∃ answer after, code.reduceContains fuel reduceBlocks reduce inst = .ok (answer, after) ∧ code.Valid after ∧
      (answer = true ↔ code.Contains reduce inst) := by
  obtain ⟨blocks, after, hget, hvalid, hmem⟩ := h.getReduceBlocks_spec he
  refine ⟨blocks.any fun block => (code.module.getParent inst).map CFGBlock.id = some block, after, ?_, hvalid, ?_⟩
  · rw [SwitchModule.reduceContains, hget]
    rfl
  · simp only [List.any_eq_true, decide_eq_true_eq, hmem, Contains, and_comm]

end Cache

section Scan

variable {code} {fuel} {events before after : List (Event Ctx)} {event1 event2 : Event Ctx}

/-- The first reduction with one of the events has both. -/
def FirstContains (code : SwitchModule) (event1 event2 : Event Ctx) (events : List (Event Ctx)) : Prop :=
  ∃ front event back, events = front ++ event :: back ∧ event.ir.type = .openMPReduce ∧
    code.Contains event.ir.inst event1.ir.inst ∧ code.Contains event.ir.inst event2.ir.inst ∧
    ∀ other ∈ front, other.ir.type = .openMPReduce →
      ¬ code.Contains other.ir.inst event1.ir.inst ∧ ¬ code.Contains other.ir.inst event2.ir.inst

lemma not_firstContains_nil : ¬ code.FirstContains event1 event2 [] := by
  rintro ⟨front, event, back, h, -⟩
  simp at h

lemma firstContains_cons {event : Event Ctx} : code.FirstContains event1 event2 (event :: events) ↔
    event.ir.type = .openMPReduce ∧ code.Contains event.ir.inst event1.ir.inst ∧
        code.Contains event.ir.inst event2.ir.inst ∨
      (event.ir.type = .openMPReduce →
        ¬ code.Contains event.ir.inst event1.ir.inst ∧ ¬ code.Contains event.ir.inst event2.ir.inst) ∧
        code.FirstContains event1 event2 events := by
  constructor
  · rintro ⟨front, reduce, back, heq, htype, h1, h2, hfront⟩
    cases front with
    | nil =>
      obtain ⟨rfl, rfl⟩ := List.cons.inj heq
      exact Or.inl ⟨htype, h1, h2⟩
    | cons first front =>
      obtain ⟨rfl, rfl⟩ := List.cons.inj heq
      rw [List.forall_mem_cons] at hfront
      exact Or.inr ⟨hfront.1, front, reduce, back, rfl, htype, h1, h2, hfront.2⟩
  · rintro (⟨htype, h1, h2⟩ | ⟨hno, front, reduce, back, rfl, htype, h1, h2, hfront⟩)
    · exact ⟨[], event, events, rfl, htype, h1, h2, by simp⟩
    · exact ⟨event :: front, reduce, back, rfl, htype, h1, h2, List.forall_mem_cons.mpr ⟨hno, hfront⟩⟩

/-- The induction is on the events before the first of the two, at which the loop ends. -/
lemma Valid.scanReduces_spec {reduceBlocks : ReduceCache} (h : code.Valid reduceBlocks)
    (hids : ∀ event ∈ before, event.id ≠ event1.id)
    (henough : ∀ event ∈ before, event.ir.type = .openMPReduce → code.Enough event.ir.inst fuel) :
    ∃ answer known, code.scanReduces fuel event1 event2 (before ++ event1 :: after) reduceBlocks = .ok (answer, known) ∧
      (answer = true ↔ code.FirstContains event1 event2 before) := by
  induction before generalizing reduceBlocks with
  | nil =>
    refine ⟨false, reduceBlocks, ?_, iff_of_false (by simp) not_firstContains_nil⟩
    rw [List.nil_append, SwitchModule.scanReduces, if_pos rfl]
  | cons event before ih =>
    rw [List.forall_mem_cons] at hids henough
    rw [List.cons_append, SwitchModule.scanReduces, if_neg hids.1, firstContains_cons]
    by_cases htype : event.ir.type = .openMPReduce
    · obtain ⟨contains1, first, hfirst, hvalid, hiff1⟩ := h.reduceContains_spec (henough.1 htype) event1.ir.inst
      obtain ⟨contains2, second, hsecond, hvalid, hiff2⟩ := hvalid.reduceContains_spec (henough.1 htype) event2.ir.inst
      have hstep : ∀ events, (do
          let (contains1, reduceBlocks) ← code.reduceContains fuel reduceBlocks event.ir.inst event1.ir.inst
          let (contains2, reduceBlocks) ← code.reduceContains fuel reduceBlocks event.ir.inst event2.ir.inst
          if contains1 && contains2 then return (true, reduceBlocks)
          else if contains1 || contains2 then return (false, reduceBlocks)
          else code.scanReduces fuel event1 event2 events reduceBlocks) =
            if contains1 && contains2 then Except.ok (true, second)
            else if contains1 || contains2 then .ok (false, second)
            else code.scanReduces fuel event1 event2 events second := by
        intro events
        rw [hfirst]
        change (do
          let (contains2, reduceBlocks) ← code.reduceContains fuel first event.ir.inst event2.ir.inst
          if contains1 && contains2 then return (true, reduceBlocks)
          else if contains1 || contains2 then return (false, reduceBlocks)
          else code.scanReduces fuel event1 event2 events reduceBlocks) = _
        rw [hsecond]
        rfl
      rw [if_pos htype, hstep, ← hiff1, ← hiff2]
      cases contains1 with
      | true =>
        cases contains2 with
        | true => exact ⟨true, second, rfl, by simp [htype]⟩
        | false => exact ⟨false, second, rfl, by simp [htype]⟩
      | false =>
        cases contains2 with
        | true => exact ⟨false, second, rfl, by simp [htype]⟩
        | false =>
          obtain ⟨answer, known, hok, hiff⟩ := ih hvalid hids.2 henough.2
          exact ⟨answer, known, hok, hiff.trans (by simp [htype])⟩
    · obtain ⟨answer, known, hok, hiff⟩ := ih h hids.2 henough.2
      rw [if_neg htype]
      exact ⟨answer, known, hok, hiff.trans (by simp [htype])⟩

lemma exists_enough (h : ∀ event ∈ events, event.ir.type = .openMPReduce → code.Followed event.ir.inst) :
    ∃ fuel, ∀ event ∈ events, event.ir.type = .openMPReduce → code.Enough event.ir.inst fuel := by
  induction events with
  | nil => exact ⟨0, by simp⟩
  | cons event events ih =>
    rw [List.forall_mem_cons] at h
    obtain ⟨rest, hrest⟩ := ih h.2
    by_cases htype : event.ir.type = .openMPReduce
    · obtain ⟨first, hfirst⟩ := guardedBlocks_ends (h.1 htype)
      refine ⟨max first rest, List.forall_mem_cons.mpr ⟨fun _ => ?_, fun other hother hreduce => ?_⟩⟩
      · exact Enough.mono hfirst (le_max_left first rest)
      · exact (hrest other hother hreduce).mono (le_max_right first rest)
    · exact ⟨rest, List.forall_mem_cons.mpr ⟨fun hreduce => absurd hreduce htype, hrest⟩⟩

lemma Contains.of_subset {reduce other inst : Instruction} (h : code.Contains reduce inst)
    (hsub : ∀ b, code.Reduces reduce b → code.Reduces other b) : code.Contains other inst := by
  obtain ⟨block, hparent, hreduces⟩ := h
  exact ⟨block, hparent, hsub block hreduces⟩

lemma Contains.meets {reduce other inst : Instruction} (h : code.Contains reduce inst) (h' : code.Contains other inst) :
    ¬ ∀ b, code.Reduces reduce b → ¬ code.Reduces other b := by
  obtain ⟨block, hparent, hreduces⟩ := h
  obtain ⟨block', hparent', hreduces'⟩ := h'
  obtain rfl := Option.some.inj (hparent.symm.trans hparent')
  exact fun hdisjoint => hdisjoint block hreduces hreduces'

lemma WellNested.firstContains_iff (h : code.WellNested (before ++ after)) :
    code.FirstContains event1 event2 before ↔ ∃ event ∈ before, event.ir.type = .openMPReduce ∧
      code.Contains event.ir.inst event1.ir.inst ∧ code.Contains event.ir.inst event2.ir.inst := by
  constructor
  · rintro ⟨front, event, back, rfl, htype, h1, h2, -⟩
    exact ⟨event, by simp, htype, h1, h2⟩
  · rintro ⟨event, hevent, htype, h1, h2⟩
    classical
    let touches (other : Event Ctx) : Prop := other.ir.type = .openMPReduce ∧
      (code.Contains other.ir.inst event1.ir.inst ∨ code.Contains other.ir.inst event2.ir.inst)
    have hsome : (before.find? (touches ·)).isSome :=
      List.find?_isSome.mpr ⟨event, hevent, decide_eq_true ⟨htype, Or.inl h1⟩⟩
    obtain ⟨first, hfirst⟩ := Option.isSome_iff_exists.mp hsome
    obtain ⟨htouches, front, back, rfl, hfront⟩ := List.find?_eq_some_iff_append.mp hfirst
    simp only [decide_eq_true_eq, Bool.not_eq_true', decide_eq_false_iff_not] at htouches hfront
    obtain ⟨hreduce, htouches⟩ := htouches
    have hmeets : ¬ ∀ b, code.Reduces first.ir.inst b → ¬ code.Reduces event.ir.inst b := by
      rcases htouches with h' | h'
      · exact h'.meets h1
      · exact h'.meets h2
    have hinside : ∀ b, code.Reduces event.ir.inst b → code.Reduces first.ir.inst b := by
      rcases h.nested first (by simp) event (List.mem_append_left _ hevent) hreduce htype with hno | hsub | hsub
      · exact absurd hno hmeets
      · by_contra hproper
        obtain ⟨earlier, hearlier, htype', hinst⟩ := h.first front first (back ++ after) (by simp) hreduce event
          (List.mem_append_left _ hevent) htype hsub hproper
        exact hfront earlier hearlier ⟨htype', Or.inl (hinst ▸ h1)⟩
      · exact hsub
    refine ⟨front, first, back, rfl, hreduce, h1.of_subset hinside, h2.of_subset hinside, fun other hother htype' => ?_⟩
    have hno := hfront other hother
    exact ⟨fun h' => hno ⟨htype', Or.inl h'⟩, fun h' => hno ⟨htype', Or.inr h'⟩⟩

end Scan

/-- The search for the blocks of a reduction ends, with the blocks that are reached before the default destination;
and whatever was asked before, two events are found in one reduction just where one before the first has both. -/
theorem inSameReduce_exact (code : SwitchModule) :
    (∀ reduce reduceBlocks, code.Followed reduce → reduceBlocks.lookup reduce = none →
      ∃ fuel blocks, (∀ more ≥ fuel, code.computeGuardedBlocks more reduceBlocks reduce =
          .ok (blocks, (reduce, blocks) :: reduceBlocks)) ∧ ∀ b, b ∈ blocks ↔ code.Reduces reduce b) ∧
      ∀ (thread1 : ThreadTrace Ctx) before event1 after event2 reduceBlocks,
        thread1.events.map Event.id = List.range thread1.events.length →
        thread1.events = before ++ event1 :: after →
        (∀ event ∈ thread1.events, event.ir.type = .openMPReduce → code.Followed event.ir.inst) →
        code.WellNested thread1.events → code.Queried reduceBlocks →
        ∃ fuel, ∀ more ≥ fuel, ∃ answer known,
          code.inSameReduce more reduceBlocks thread1 event1 event2 = .ok (answer, known) ∧
            (answer = true ↔ ∃ event ∈ before, event.ir.type = .openMPReduce ∧
              code.Contains event.ir.inst event1.ir.inst ∧ code.Contains event.ir.inst event2.ir.inst) := by
  constructor
  · intro reduce reduceBlocks hfollowed hnew
    obtain ⟨fuel, blocks, hok, hmem⟩ := guardedBlocks_ends hfollowed
    refine ⟨fuel, blocks, fun more hle => ?_, hmem⟩
    rw [computeGuardedBlocks, hnew, hok more hle]
    rfl
  · intro thread1 before event1 after event2 reduceBlocks hn hsplit hfollowed hnested hqueried
    have hbefore : ∀ event ∈ before, event ∈ thread1.events := by
      intro event hevent
      rw [hsplit]
      exact List.mem_append_left _ hevent
    have hids : ∀ event ∈ before, event.id ≠ event1.id := by
      intro event hevent
      obtain ⟨front, back, rfl⟩ := List.append_of_mem hevent
      have hid := id_of_split hn hsplit
      have hid' := id_of_split hn (hsplit.trans (List.append_assoc front (event :: back) (event1 :: after)))
      rw [List.length_append, List.length_cons] at hid
      omega
    obtain ⟨fuel, henough⟩ := exists_enough fun event hevent => hfollowed event (hbefore event hevent)
    refine ⟨fuel, fun more hle => ?_⟩
    obtain ⟨answer, known, hok, hiff⟩ : ∃ answer known,
        code.scanReduces more event1 event2 (before ++ event1 :: after) reduceBlocks = .ok (answer, known) ∧
          (answer = true ↔ code.FirstContains event1 event2 before) :=
      hqueried.valid.scanReduces_spec hids fun event hevent htype => (henough event hevent htype).mono hle
    refine ⟨answer, known, ?_, ?_⟩
    · rw [inSameReduce, hsplit]
      exact hok
    · rw [hsplit] at hnested
      exact hiff.trans hnested.firstContains_iff

end SwitchModule

namespace LoopReduction

def reduce : Instruction := .call ⟨1, .function ⟨100, "__kmpc_reduce", false, false⟩, [], none⟩

def store (id : ℕ) : Instruction := .store id (.globalVariable 50 false) false false

/-- The code of a reduction: a switch to the blocks 10, which loops, and 20, with the default 30. -/
def module : CFGModule where
  functions := [⟨⟨101, ".omp_outlined.", false, false⟩,
    [⟨0, [], [reduce], .other (.other 2) [30, 10, 20], []⟩, ⟨10, [], [store 11], .condBr 12 10 30, []⟩,
      ⟨20, [], [store 21], .br 22 30, []⟩, ⟨30, [], [], .ret 31, []⟩]⟩]
  users := []
  nextId := 200
  distinct := by decide
  closed := by decide
  entered := by decide
  conditional := by decide

def code : SwitchModule := ⟨module, fun inst => if inst = .other 2 then some 30 else none⟩

def thread : ThreadRef Unit := ⟨1, []⟩

def reduceEvent : Event Unit :=
  { type := .externCall, id := 0, thread, context := (), ir := ⟨.openMPReduce, reduce, .other⟩ }

def storeEvent (id : ℕ) (thread : ThreadRef Unit) : Event Unit :=
  { type := .write, id := 1, thread, context := (), ir := ⟨.store, store id, .other⟩ }

lemma nextSwitch_reduce : code.nextSwitch reduce = some ⟨[30, 10, 20], 30⟩ := by decide +kernel

lemma block_of_inReduce {b : ℕ} (h : InReduce module ⟨[30, 10, 20], 30⟩ b) : b = 10 ∨ b = 20 := by
  have hten : module.succ 10 = [10, 30] := by decide +kernel
  have htwenty : module.succ 20 = [30] := by decide +kernel
  induction h with
  | entry hs hne =>
    simp only [List.mem_cons, List.not_mem_nil, or_false] at hs hne
    omega
  | next _ he hne ih =>
    rcases ih with rfl | rfl
    · rw [Edge, hten] at he
      simp only [List.mem_cons, List.not_mem_nil, or_false] at he hne
      omega
    · rw [Edge, htwenty] at he
      exact absurd (List.mem_singleton.mp he) hne

lemma followed_reduce : code.Followed reduce := by
  refine ⟨_, nextSwitch_reduce, fun b hb => ?_⟩
  have hten : module.succ 10 ≠ [] := by decide +kernel
  have htwenty : module.succ 20 ≠ [] := by decide +kernel
  rcases block_of_inReduce hb with rfl | rfl
  · exact hten
  · exact htwenty

lemma reduce_of_mem {event : Event Unit} (h : event ∈ [reduceEvent, storeEvent 11 thread])
    (htype : event.ir.type = .openMPReduce) : event = reduceEvent := by
  rcases List.mem_cons.mp h with rfl | h
  · rfl
  · rw [List.mem_singleton.mp h] at htype
    cases htype

lemma wellNested : code.WellNested [reduceEvent, storeEvent 11 thread] := by
  constructor
  · intro event hevent other hother htype htype'
    rw [reduce_of_mem hevent htype, reduce_of_mem hother htype']
    exact Or.inr (Or.inl fun b h => h)
  · intro front event back heq htype other hother htype' _ hproper
    have hevent : event ∈ [reduceEvent, storeEvent 11 thread] := by
      rw [heq]
      simp
    rw [reduce_of_mem hevent htype, reduce_of_mem hother htype'] at hproper
    exact absurd (fun b h => h) hproper

theorem inSameReduce_exact_loop :
    (∃ fuel blocks, (∀ more ≥ fuel, code.computeGuardedBlocks more [] reduce = .ok (blocks, [(reduce, blocks)])) ∧
        ∀ b, b ∈ blocks ↔ code.Reduces reduce b) ∧
      ∃ fuel, ∀ more ≥ fuel, ∃ answer known,
        code.inSameReduce more [] (.mk thread [reduceEvent, storeEvent 11 thread] []) (storeEvent 11 thread)
            (storeEvent 21 ⟨2, []⟩) = .ok (answer, known) ∧
          (answer = true ↔ ∃ event ∈ [reduceEvent], event.ir.type = .openMPReduce ∧
            code.Contains event.ir.inst (store 11) ∧ code.Contains event.ir.inst (store 21)) := by
  obtain ⟨hblocks, hquery⟩ := @SwitchModule.inSameReduce_exact Unit code
  refine ⟨hblocks reduce [] followed_reduce rfl, hquery (.mk thread [reduceEvent, storeEvent 11 thread] [])
    [reduceEvent] (storeEvent 11 thread) [] (storeEvent 21 ⟨2, []⟩) [] rfl rfl ?_ wellNested .empty⟩
  intro event hevent htype
  rw [reduce_of_mem hevent htype]
  exact followed_reduce

end LoopReduction

end OpenRace
