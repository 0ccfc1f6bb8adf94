import OpenRace.Analysis.Sections

/-! The same two loops with what they read checked: an event past the last one, or a section past the last one. -/

namespace OpenRace

open LLVM LanguageModel

inductive SectionFault
  | pastEvents | pastSections
deriving DecidableEq

variable {Ctx : Type} (getParent : Instruction → ParentBlock)

/-- `*currSec` is read only for the event with the id. -/
def readSection (id : ℕ) (currEvent : Event Ctx) (currSec : List (Event Ctx)) (evsec : Option (Event Ctx)) :
    Except SectionFault (Option (Event Ctx)) :=
  if id = currEvent.id then
    match currSec with
    | [] => .error .pastSections
    | section' :: _ => .ok (some section')
  else .ok evsec

variable [DecidableEq Ctx]

local instance lawfulEvents : LawfulBEq (Event Ctx) := inferInstance

def scanSectionsChecked (id1 id2 lastID : ℕ) (sections : List (Event Ctx)) :
    List (Event Ctx) → List (Event Ctx) → Option (Event Ctx) → Option (Event Ctx) → Except SectionFault Bool
  | [], _, _, _ => .error .pastEvents
  | currEvent :: rest, currSec, ev1sec, ev2sec => do
    let ev1sec ← readSection id1 currEvent currSec ev1sec
    let ev2sec ← readSection id2 currEvent currSec ev2sec
    match compareSections ev1sec ev2sec with
    | some answer => return answer
    | none =>
      match rest with
      | [] => .error .pastEvents
      | next :: _ =>
        if next ∈ sections then
          if next.id ≤ lastID then scanSectionsChecked id1 id2 lastID sections rest currSec.tail ev1sec ev2sec
          else return false
        else scanSectionsChecked id1 id2 lastID sections rest currSec ev1sec ev2sec

def insideCompatibleSectionsChecked (thread1 : ThreadTrace Ctx) (event1 event2 : Event Ctx) :
    Except SectionFault Bool :=
  let lastID := max event1.id event2.id
  let sections := collectSections getParent lastID none thread1.events
  match sections with
  | [] => return false
  | first :: _ =>
    match thread1.events.dropWhile (· != first) with
    | [] => .error .pastEvents
    | currEvent :: rest =>
      if currEvent.id ≤ lastID then
        scanSectionsChecked event1.id event2.id lastID sections (currEvent :: rest) sections none none
      else return false

def BothInSections (events : List (Event Ctx)) (id1 id2 : ℕ) : Prop :=
  (sectionAt getParent events id1).isSome ∧ (sectionAt getParent events id2).isSome ∧ id2 < events.length

/-- A section begins right behind the id. -/
def SectionBehind (events : List (Event Ctx)) (id : ℕ) : Prop :=
  ∃ next, events[id + 1]? = some next ∧ entersSection getParent (sectionAt getParent events id) next = true

section Step

variable {getParent}

omit [DecidableEq Ctx] in
lemma readSection_ne {id : ℕ} {currEvent : Event Ctx} {currSec : List (Event Ctx)} {evsec : Option (Event Ctx)}
    (h : id ≠ currEvent.id) : readSection id currEvent currSec evsec = .ok evsec := if_neg h

omit [DecidableEq Ctx] in
lemma readSection_cons (id : ℕ) (currEvent section' : Event Ctx) (later : List (Event Ctx))
    (evsec : Option (Event Ctx)) : readSection id currEvent (section' :: later) evsec =
      .ok (if id = currEvent.id then some section' else evsec) := by
  by_cases h : id = currEvent.id
  · exact (if_pos h).trans (by rw [if_pos h])
  · rw [readSection_ne h, if_neg h]

variable {id1 id2 lastID : ℕ} {sections currSec rest : List (Event Ctx)} {currEvent next : Event Ctx}
  {ev1sec ev2sec ev1sec' ev2sec' : Option (Event Ctx)}
  (h1 : readSection id1 currEvent currSec ev1sec = .ok ev1sec')
  (h2 : readSection id2 currEvent currSec ev2sec = .ok ev2sec')

include h1 h2

lemma scanSectionsChecked_answer {answer : Bool} (h : compareSections ev1sec' ev2sec' = some answer) :
    scanSectionsChecked id1 id2 lastID sections (currEvent :: rest) currSec ev1sec ev2sec = .ok answer := by
  rw [scanSectionsChecked.eq_def]
  dsimp only
  rw [h1, h2]
  dsimp only [bind, Except.bind]
  rw [h]
  rfl

variable (h : compareSections ev1sec' ev2sec' = none)

include h

lemma scanSectionsChecked_last :
    scanSectionsChecked id1 id2 lastID sections [currEvent] currSec ev1sec ev2sec = .error .pastEvents := by
  rw [scanSectionsChecked.eq_def]
  dsimp only
  rw [h1, h2]
  dsimp only [bind, Except.bind]
  rw [h]

lemma scanSectionsChecked_stay (hnext : next ∉ sections) :
    scanSectionsChecked id1 id2 lastID sections (currEvent :: next :: rest) currSec ev1sec ev2sec =
      scanSectionsChecked id1 id2 lastID sections (next :: rest) currSec ev1sec' ev2sec' := by
  rw [scanSectionsChecked.eq_def]
  dsimp only
  rw [h1, h2]
  dsimp only [bind, Except.bind]
  rw [h]
  exact if_neg hnext

lemma scanSectionsChecked_enter (hnext : next ∈ sections) :
    scanSectionsChecked id1 id2 lastID sections (currEvent :: next :: rest) currSec ev1sec ev2sec =
      if next.id ≤ lastID then
        scanSectionsChecked id1 id2 lastID sections (next :: rest) currSec.tail ev1sec' ev2sec'
      else .ok false := by
  rw [scanSectionsChecked.eq_def]
  dsimp only
  rw [h1, h2]
  dsimp only [bind, Except.bind]
  rw [h]
  exact if_pos hnext

end Step

section Scan

variable {getParent} {events rest sections : List (Event Ctx)} {currEvent section' : Event Ctx} {lastID id1 id2 : ℕ}

lemma scanSectionsChecked_past {currSec : List (Event Ctx)} {ev1sec ev2sec : Option (Event Ctx)}
    (hids : ∀ event ∈ events, lastID < event.id) (hsec : ∀ event ∈ events, event ∉ sections) (h1 : id1 ≤ lastID)
    (h2 : id2 ≤ lastID) (hnone : ev1sec = none ∨ ev2sec = none) :
    scanSectionsChecked id1 id2 lastID sections events currSec ev1sec ev2sec = .error .pastEvents := by
  induction events with
  | nil => rfl
  | cons currEvent rest ih =>
    have hcurr := hids currEvent List.mem_cons_self
    have hread1 : readSection id1 currEvent currSec ev1sec = .ok ev1sec := readSection_ne (by omega)
    have hread2 : readSection id2 currEvent currSec ev2sec = .ok ev2sec := readSection_ne (by omega)
    have hcompare := compareSections_none hnone
    cases rest with
    | nil => exact scanSectionsChecked_last hread1 hread2 hcompare
    | cons next rest =>
      rw [scanSectionsChecked_stay hread1 hread2 hcompare (hsec next (by simp))]
      exact ih (fun event hm => hids event (List.mem_cons_of_mem _ hm))
        (fun event hm => hsec event (List.mem_cons_of_mem _ hm))

/-- The loops are at an event of the thread, in a section that it belongs to, and know the sections to come. -/
structure AtSection (getParent : Instruction → ParentBlock) (events sections : List (Event Ctx)) (lastID : ℕ)
    (before : List (Event Ctx)) (currEvent : Event Ctx) (rest : List (Event Ctx)) (section' : Event Ctx) : Prop where
  split : events = before ++ currEvent :: rest
  numbered : events.map Event.id = List.range events.length
  current : sectionAt getParent events before.length = some section'
  coming : ∀ event ∈ rest, event ∈ sections ↔ event ∈ collectSections getParent lastID (some section') rest

namespace AtSection

variable {before : List (Event Ctx)} {next : Event Ctx}

omit [DecidableEq Ctx]

lemma id_eq (h : AtSection getParent events sections lastID before currEvent rest section') :
    currEvent.id = before.length := id_of_split h.numbered h.split

lemma read (h : AtSection getParent events sections lastID before currEvent rest section')
    (later : List (Event Ctx)) (id : ℕ) :
    readSection id currEvent (section' :: later) (recorded getParent events id before.length) =
      .ok (recorded getParent events id (before.length + 1)) := by
  rw [readSection_cons, h.id_eq, recorded_succ h.current]

variable (h : AtSection getParent events sections lastID before currEvent (next :: rest) section')

include h

lemma split_next : events = (before ++ [currEvent]) ++ next :: rest := by
  rw [h.split]
  simp

lemma next_id : next.id = before.length + 1 := by
  rw [id_of_split h.numbered h.split_next]
  simp

lemma ne_next : ∀ event ∈ rest, event ≠ next := by
  rintro event hm rfl
  have hlt := lt_id_of_split h.numbered h.split_next hm
  rw [h.next_id, List.length_append, List.length_singleton] at hlt
  omega

lemma next_current : sectionAt getParent events (before ++ [currEvent]).length =
    enter getParent (some section') next := by
  rw [sectionAt_split h.split_next, List.foldl_append, ← h.current, sectionAt_split h.split]
  rfl

lemma mem_iff : next ∈ sections ↔ entersSection getParent (some section') next = true := by
  rw [h.coming next List.mem_cons_self, collectSections]
  constructor
  · intro hm
    by_contra henter
    rw [if_neg henter] at hm
    split at hm
    · cases hm
    · exact h.ne_next next (collectSections_subset hm) rfl
  · intro henter
    rw [if_pos henter]
    exact List.mem_cons_self

lemma enter (hlast : next.id ≤ lastID) (henter : entersSection getParent (some section') next = true) :
    AtSection getParent events sections lastID (before ++ [currEvent]) next rest next ∧
      collectSections getParent lastID (some section') (next :: rest) =
        next :: collectSections getParent lastID (some next) rest := by
  have hcollect : collectSections getParent lastID (some section') (next :: rest) =
      next :: collectSections getParent lastID (some next) rest := by
    rw [collectSections, if_pos henter, if_neg (by omega)]
  refine ⟨⟨h.split_next, h.numbered, ?_, fun event hm => ?_⟩, hcollect⟩
  · rw [h.next_current, OpenRace.enter, if_pos henter]
  · rw [h.coming event (List.mem_cons_of_mem _ hm), hcollect, List.mem_cons, or_iff_right (h.ne_next event hm)]

lemma stay (hlast : next.id ≤ lastID) (henter : ¬ entersSection getParent (some section') next = true) :
    AtSection getParent events sections lastID (before ++ [currEvent]) next rest section' ∧
      collectSections getParent lastID (some section') (next :: rest) =
        collectSections getParent lastID (some section') rest := by
  have hcollect : collectSections getParent lastID (some section') (next :: rest) =
      collectSections getParent lastID (some section') rest := by
    rw [collectSections, if_neg henter, if_neg (by omega)]
  refine ⟨⟨h.split_next, h.numbered, ?_, fun event hm => ?_⟩, hcollect⟩
  · rw [h.next_current, OpenRace.enter, if_neg henter]
  · rw [h.coming event (List.mem_cons_of_mem _ hm), hcollect]

lemma none_behind (hlast : lastID < next.id) (henter : ¬ entersSection getParent (some section') next = true) :
    ∀ event ∈ next :: rest, event ∉ sections := by
  intro event hm
  rw [h.coming event hm, collectSections, if_neg henter, if_pos hlast]
  exact List.not_mem_nil

end AtSection

lemma some_of_compareSections {ev1sec ev2sec : Option (Event Ctx)} {answer : Bool}
    (h : compareSections ev1sec ev2sec = some answer) :
    ∃ section1 section2, ev1sec = some section1 ∧ ev2sec = some section2 := by
  cases ev1sec with
  | none => cases h
  | some section1 =>
    cases ev2sec with
    | none => cases h
    | some section2 => exact ⟨section1, section2, rfl, rfl⟩

/-- An answer if the condition holds, else the loops run past the last event. -/
def AnswersIf (condition : Prop) (result : Except SectionFault Bool) : Prop :=
  condition ∧ (∃ answer, result = .ok answer) ∨ ¬ condition ∧ result = .error .pastEvents

omit [DecidableEq Ctx] in
lemma bothInSections_of_recorded {index : ℕ} {section1 section2 : Event Ctx} (hindex : index ≤ events.length)
    (h1 : recorded getParent events id1 index = some section1)
    (h2 : recorded getParent events id2 index = some section2) : BothInSections getParent events id1 id2 := by
  obtain ⟨-, hs1⟩ := recorded_some h1
  obtain ⟨hlt, hs2⟩ := recorded_some h2
  exact ⟨by rw [hs1]; rfl, by rw [hs2]; rfl, hlt.trans_le hindex⟩

omit [DecidableEq Ctx] in
lemma not_bothInSections {index : ℕ} (h1 : id1 < index) (h2 : id2 < events.length → id2 < index)
    (hnone : recorded getParent events id1 index = none ∨ recorded getParent events id2 index = none) :
    ¬ BothInSections getParent events id1 id2 := by
  rintro ⟨hs1, hs2, hlt⟩
  rcases hnone with h | h
  · rw [recorded_none h h1] at hs1
    cases hs1
  · rw [recorded_none h (h2 hlt)] at hs2
    cases hs2

lemma scanSectionsChecked_answers {before : List (Event Ctx)}
    (h : AtSection getParent events sections (max id1 id2) before currEvent rest section')
    (hle : before.length ≤ max id1 id2) (hid1 : id1 < events.length) :
    AnswersIf (BothInSections getParent events id1 id2 ∨ SectionBehind getParent events (max id1 id2))
      (scanSectionsChecked id1 id2 (max id1 id2) sections (currEvent :: rest)
        (section' :: collectSections getParent (max id1 id2) (some section') rest)
        (recorded getParent events id1 before.length) (recorded getParent events id2 before.length)) := by
  induction rest generalizing before currEvent section' with
  | nil =>
    have hlen : events.length = before.length + 1 := by rw [h.split]; simp
    have hread := h.read (collectSections getParent (max id1 id2) (some section') [])
    cases hcompare : compareSections (recorded getParent events id1 (before.length + 1))
        (recorded getParent events id2 (before.length + 1)) with
    | some answer =>
      obtain ⟨section1, section2, hs1, hs2⟩ := some_of_compareSections hcompare
      exact Or.inl ⟨Or.inl (bothInSections_of_recorded hlen.ge hs1 hs2), answer,
        scanSectionsChecked_answer (hread id1) (hread id2) hcompare⟩
    | none =>
      refine Or.inr ⟨?_, scanSectionsChecked_last (hread id1) (hread id2) hcompare⟩
      rintro (hboth | ⟨next, hnext, -⟩)
      · exact not_bothInSections (by omega) (by omega) (none_of_compareSections hcompare) hboth
      · rw [List.getElem?_eq_none (by omega)] at hnext
        cases hnext
  | cons next rest ih =>
    have hlen : before.length + 1 < events.length := by rw [h.split]; simp
    have hread := h.read (collectSections getParent (max id1 id2) (some section') (next :: rest))
    cases hcompare : compareSections (recorded getParent events id1 (before.length + 1))
        (recorded getParent events id2 (before.length + 1)) with
    | some answer =>
      obtain ⟨section1, section2, hs1, hs2⟩ := some_of_compareSections hcompare
      exact Or.inl ⟨Or.inl (bothInSections_of_recorded hlen.le hs1 hs2), answer,
        scanSectionsChecked_answer (hread id1) (hread id2) hcompare⟩
    | none =>
      have hnext := h.next_id
      have hlength : (before ++ [currEvent]).length = before.length + 1 := by simp
      by_cases hlast : next.id ≤ max id1 id2
      · by_cases henter : entersSection getParent (some section') next = true
        · obtain ⟨hnew, hcollect⟩ := h.enter hlast henter
          rw [scanSectionsChecked_enter (hread id1) (hread id2) hcompare (h.mem_iff.mpr henter), if_pos hlast,
            hcollect, List.tail_cons, ← hlength]
          exact ih hnew (by omega)
        · obtain ⟨hnew, hcollect⟩ := h.stay hlast henter
          rw [scanSectionsChecked_stay (hread id1) (hread id2) hcompare (mt h.mem_iff.mp henter), hcollect, ← hlength]
          exact ih hnew (by omega)
      · -- both ids have been passed, and one of them comes before the first section
        have hnot : ¬ BothInSections getParent events id1 id2 :=
          not_bothInSections (by omega) (by omega) (none_of_compareSections hcompare)
        have hindex : max id1 id2 = before.length := by omega
        have hbehind : SectionBehind getParent events (max id1 id2) ↔
            entersSection getParent (some section') next = true := by
          have hget : events[before.length + 1]? = some next := by rw [h.split]; simp
          rw [SectionBehind, hindex, h.current, hget]
          simp
        by_cases henter : entersSection getParent (some section') next = true
        · refine Or.inl ⟨Or.inr (hbehind.mpr henter), false, ?_⟩
          rw [scanSectionsChecked_enter (hread id1) (hread id2) hcompare (h.mem_iff.mpr henter), if_neg hlast]
        · refine Or.inr ⟨not_or.mpr ⟨hnot, mt hbehind.mp henter⟩, ?_⟩
          have hnone := h.none_behind (by omega) henter
          rw [scanSectionsChecked_stay (hread id1) (hread id2) hcompare (hnone next List.mem_cons_self)]
          refine scanSectionsChecked_past ?_ hnone (le_max_left _ _) (le_max_right _ _)
            (none_of_compareSections hcompare)
          intro event hm
          have hlt := lt_id_of_split h.numbered h.split hm
          omega

omit [DecidableEq Ctx] in
lemma readSection_ok {id : ℕ} {currSec : List (Event Ctx)} {evsec evsec' : Option (Event Ctx)}
    (h : readSection id currEvent currSec evsec = .ok evsec') :
    (if id = currEvent.id then currSec.head? else evsec) = evsec' := by
  cases currSec with
  | nil =>
    by_cases hid : id = currEvent.id
    · have hfault : readSection id currEvent [] evsec = .error .pastSections := if_pos hid
      rw [hfault] at h
      cases h
    · rw [readSection_ne hid] at h
      rw [if_neg hid]
      exact Except.ok.inj h
  | cons section' later =>
    rw [readSection_cons] at h
    exact Except.ok.inj h

lemma scanSections_of_checked {currSec : List (Event Ctx)} {ev1sec ev2sec : Option (Event Ctx)} {answer : Bool}
    (h : scanSectionsChecked id1 id2 lastID sections events currSec ev1sec ev2sec = .ok answer) :
    scanSections id1 id2 lastID sections events currSec ev1sec ev2sec = some answer := by
  induction events generalizing currSec ev1sec ev2sec with
  | nil => cases h
  | cons currEvent rest ih =>
    cases hread1 : readSection id1 currEvent currSec ev1sec with
    | error fault =>
      rw [scanSectionsChecked.eq_def] at h
      dsimp only at h
      rw [hread1] at h
      cases h
    | ok ev1sec' =>
      cases hread2 : readSection id2 currEvent currSec ev2sec with
      | error fault =>
        rw [scanSectionsChecked.eq_def] at h
        dsimp only at h
        rw [hread1, hread2] at h
        cases h
      | ok ev2sec' =>
        rw [scanSections.eq_def]
        dsimp only
        rw [readSection_ok hread1, readSection_ok hread2]
        cases hcompare : compareSections ev1sec' ev2sec' with
        | some answer' =>
          rw [scanSectionsChecked_answer hread1 hread2 hcompare] at h
          exact congrArg some (Except.ok.inj h)
        | none =>
          cases rest with
          | nil =>
            rw [scanSectionsChecked_last hread1 hread2 hcompare] at h
            cases h
          | cons next rest =>
            dsimp only
            by_cases hnext : next ∈ sections
            · rw [scanSectionsChecked_enter hread1 hread2 hcompare hnext] at h
              rw [if_pos hnext]
              split at h
              · rw [if_pos ‹_›]
                exact ih h
              · rw [if_neg ‹_›]
                exact congrArg some (Except.ok.inj h)
            · rw [scanSectionsChecked_stay hread1 hread2 hcompare hnext] at h
              rw [if_neg hnext]
              exact ih h

omit [DecidableEq Ctx] in
lemma foldl_enter_isSome {back : Option (Event Ctx)} (h : back.isSome) :
    (events.foldl (enter getParent) back).isSome := by
  induction events generalizing back with
  | nil => exact h
  | cons event rest ih =>
    apply ih
    rw [enter]
    split
    · rfl
    · exact h

omit [DecidableEq Ctx] in
lemma sectionAt_isSome {before : List (Event Ctx)} {id : ℕ} (h : events = before ++ currEvent :: rest)
    (hsection : sectionAt getParent events before.length = some section') (hid : before.length ≤ id) :
    (sectionAt getParent events id).isSome := by
  obtain ⟨n, rfl⟩ := Nat.exists_eq_add_of_le hid
  have htake : events.take (before.length + n + 1) = events.take (before.length + 1) ++ rest.take n := by
    rw [h, show before.length + n + 1 = before.length + (n + 1) by omega, List.take_length_add_append,
      List.take_length_add_append]
    simp
  rw [sectionAt, htake, List.foldl_append, ← sectionAt, hsection]
  exact foldl_enter_isSome rfl

end Scan

/-- There is no section up to the later of the two ids, both are in sections, or one begins right behind them. -/
def SearchStays (events : List (Event Ctx)) (id1 id2 : ℕ) : Prop :=
  sectionAt getParent events (max id1 id2) = none ∨ BothInSections getParent events id1 id2 ∨
    SectionBehind getParent events (max id1 id2)

variable {getParent}

lemma insideCompatibleSectionsChecked_answers {thread1 : ThreadTrace Ctx} {event1 event2 : Event Ctx}
    (hn : thread1.events.map Event.id = List.range thread1.events.length) (h1 : event1 ∈ thread1.events) :
    AnswersIf (SearchStays getParent thread1.events event1.id event2.id)
      (insideCompatibleSectionsChecked getParent thread1 event1 event2) := by
  have hid1 : event1.id < thread1.events.length := by
    have hm := List.mem_map_of_mem (f := Event.id) h1
    rw [hn] at hm
    exact List.mem_range.mp hm
  rw [insideCompatibleSectionsChecked]
  cases hsections : collectSections getParent (max event1.id event2.id) none thread1.events with
  | nil => exact Or.inl ⟨Or.inl (sectionAt_nil hn hsections le_rfl), false, rfl⟩
  | cons first later =>
    obtain ⟨before, rest, hsplit, hids, hnone, hfirst, rfl⟩ := collectSections_first hsections
    have hfirstID := id_of_split hn hsplit
    have hsection : sectionAt getParent thread1.events before.length = some first := by
      rw [sectionAt_split hsplit, foldl_enter_none hnone, enter, if_pos hfirst]
    dsimp only
    rw [dropWhile_first hsplit hnone hfirst]
    dsimp only
    by_cases hle : first.id ≤ max event1.id event2.id
    · have hrecorded : ∀ id, recorded getParent thread1.events id before.length = none := by
        intro id
        rw [recorded]
        split
        · exact sectionAt_before hsplit hnone ‹_›
        · rfl
      have hat : AtSection getParent thread1.events
          (first :: collectSections getParent (max event1.id event2.id) (some first) rest)
          (max event1.id event2.id) before first rest first := by
        refine ⟨hsplit, hn, hsection, fun event hm => ?_⟩
        have hlt := lt_id_of_split hn hsplit hm
        have hne : event ≠ first := by
          rintro rfl
          omega
        rw [List.mem_cons, or_iff_right hne]
      have hanswers := scanSectionsChecked_answers hat (by omega) hid1
      rw [hrecorded, hrecorded] at hanswers
      have hsome := sectionAt_isSome hsplit hsection (hfirstID ▸ hle)
      rw [if_pos hle, if_neg (by omega), SearchStays, or_iff_right (Option.isSome_iff_ne_none.mp hsome)]
      exact hanswers
    · rw [if_neg hle]
      exact Or.inl ⟨Or.inl (sectionAt_before hsplit hnone (by omega)), false, rfl⟩

lemma insideCompatibleSections_of_checked {thread1 : ThreadTrace Ctx} {event1 event2 : Event Ctx} {answer : Bool}
    (h : insideCompatibleSectionsChecked getParent thread1 event1 event2 = .ok answer) :
    insideCompatibleSections getParent thread1 event1 event2 = some answer := by
  rw [insideCompatibleSectionsChecked] at h
  rw [insideCompatibleSections]
  cases hsections : collectSections getParent (max event1.id event2.id) none thread1.events with
  | nil =>
    rw [hsections] at h
    exact congrArg some (Except.ok.inj h)
  | cons first later =>
    rw [hsections] at h
    dsimp only at h ⊢
    cases hdrop : thread1.events.dropWhile (· != first) with
    | nil =>
      rw [hdrop] at h
      cases h
    | cons currEvent rest =>
      rw [hdrop] at h
      dsimp only at h ⊢
      split at h
      · rw [if_pos ‹_›]
        exact scanSections_of_checked h
      · rw [if_neg ‹_›]
        exact congrArg some (Except.ok.inj h)

/-- Sections are never read past the last one; events are, unless the search stays among them. -/
theorem search_stays_iff {thread1 : ThreadTrace Ctx} {event1 event2 : Event Ctx}
    (hn : thread1.events.map Event.id = List.range thread1.events.length) (h1 : event1 ∈ thread1.events) :
    ((∃ answer, insideCompatibleSectionsChecked getParent thread1 event1 event2 = .ok answer) ↔
        SearchStays getParent thread1.events event1.id event2.id) ∧
      insideCompatibleSectionsChecked getParent thread1 event1 event2 ≠ .error .pastSections ∧
      ∀ answer, insideCompatibleSectionsChecked getParent thread1 event1 event2 = .ok answer →
        insideCompatibleSections getParent thread1 event1 event2 = some answer := by
  refine ⟨?_, ?_, fun answer => insideCompatibleSections_of_checked⟩
  · rcases insideCompatibleSectionsChecked_answers hn h1 with ⟨hstays, hanswer⟩ | ⟨hleaves, hfault⟩
    · exact iff_of_true hanswer hstays
    · rw [hfault]
      exact iff_of_false (by simp) hleaves
  · rcases insideCompatibleSectionsChecked_answers hn h1 with ⟨-, answer, hanswer⟩ | ⟨-, hfault⟩
    · rw [hanswer]
      simp
    · rw [hfault]
      simp

namespace BeforeSections

def parentBlock (inst : Instruction) : ParentBlock :=
  if inst.id = 0 then ⟨0, "entry"⟩ else ⟨1, ".omp.sections.case"⟩

def store (id : ℕ) : Event Unit := ⟨.write, id, ⟨1, []⟩, (), ⟨.store, .store id .undef false false, .other⟩, none⟩

/-- A store before the construct, and two in its only section. -/
def thread : ThreadTrace Unit := .mk ⟨1, []⟩ [store 0, store 1, store 2] []

theorem within_section_stays :
    ((∃ answer, insideCompatibleSectionsChecked parentBlock thread (store 1) (store 2) = .ok answer) ↔
        SearchStays parentBlock thread.events 1 2) ∧
      insideCompatibleSectionsChecked parentBlock thread (store 1) (store 2) ≠ .error .pastSections ∧
      ∀ answer, insideCompatibleSectionsChecked parentBlock thread (store 1) (store 2) = .ok answer →
        insideCompatibleSections parentBlock thread (store 1) (store 2) = some answer :=
  search_stays_iff (by decide) (by decide +kernel)

theorem search_leaves : insideCompatibleSectionsChecked parentBlock thread (store 0)
    (store 1) = .error .pastEvents := by
  decide +kernel

end BeforeSections

end OpenRace
