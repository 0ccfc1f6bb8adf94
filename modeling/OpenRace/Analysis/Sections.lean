import OpenRace.LanguageModel.OpenMP
import OpenRace.Trace.Event

/-! Whether two events are in one section of a sections construct. -/

namespace OpenRace

open LLVM LanguageModel

structure ParentBlock where
  id : ℕ
  name : String
deriving DecidableEq

def ParentBlock.isSectionsCase (block : ParentBlock) : Bool :=
  block.name != "" && startsWith block.name ".omp.sections.case"

variable {Ctx : Type} (getParent : Instruction → ParentBlock)

def entersSection (back : Option (Event Ctx)) (event : Event Ctx) : Bool :=
  let block := getParent event.ir.inst
  (match back with
    | none => true
    | some section' => block != getParent section'.ir.inst) && block.isSectionsCase

/-- The events that enter a section, up to the first event past the last id. -/
def collectSections (lastID : ℕ) : Option (Event Ctx) → List (Event Ctx) → List (Event Ctx)
  | _, [] => []
  | back, event :: rest =>
    if entersSection getParent back event then
      event :: if event.id > lastID then [] else collectSections lastID (some event) rest
    else if event.id > lastID then [] else collectSections lastID back rest

variable [DecidableEq Ctx]

def compareSections (ev1sec ev2sec : Option (Event Ctx)) : Option Bool :=
  match ev1sec, ev2sec with
  | some section1, some section2 => some (section1 == section2)
  | _, _ => none

/-- The two loops over the events, from one of the sections on; `currSec` starts with the current section. There
is no answer where the loops run past the last event. -/
def scanSections (id1 id2 lastID : ℕ) (sections : List (Event Ctx)) :
    List (Event Ctx) → List (Event Ctx) → Option (Event Ctx) → Option (Event Ctx) → Option Bool
  | [], _, _, _ => none
  | currEvent :: rest, currSec, ev1sec, ev2sec =>
    let ev1sec := if id1 = currEvent.id then currSec.head? else ev1sec
    let ev2sec := if id2 = currEvent.id then currSec.head? else ev2sec
    match compareSections ev1sec ev2sec with
    | some answer => some answer
    | none =>
      match rest with
      | [] => none
      | next :: _ =>
        if next ∈ sections then
          if next.id ≤ lastID then scanSections id1 id2 lastID sections rest currSec.tail ev1sec ev2sec
          else some false
        else scanSections id1 id2 lastID sections rest currSec ev1sec ev2sec

def insideCompatibleSections (thread1 : ThreadTrace Ctx) (event1 event2 : Event Ctx) : Option Bool :=
  let lastID := max event1.id event2.id
  let sections := collectSections getParent lastID none thread1.events
  match sections with
  | [] => some false
  | first :: _ =>
    match thread1.events.dropWhile (· != first) with
    | [] => none
    | currEvent :: rest =>
      if currEvent.id ≤ lastID then
        scanSections event1.id event2.id lastID sections (currEvent :: rest) sections none none
      else some false

def enter (back : Option (Event Ctx)) (event : Event Ctx) : Option (Event Ctx) :=
  if entersSection getParent back event then some event else back

def sectionAt (events : List (Event Ctx)) (id : ℕ) : Option (Event Ctx) :=
  (events.take (id + 1)).foldl (enter getParent) none

/-- Both ids are in one section, as far as the events tell that enter sections. -/
def Together (events : List (Event Ctx)) (id1 id2 : ℕ) : Prop :=
  id2 < events.length ∧ ∃ section', sectionAt getParent events id1 = some section' ∧
    sectionAt getParent events id2 = some section'

section Scan

variable {getParent} {events rest : List (Event Ctx)} {event currEvent next section' : Event Ctx} {lastID id1 id2 : ℕ}
  {back : Option (Event Ctx)}

omit [DecidableEq Ctx] in
lemma collectSections_subset : event ∈ collectSections getParent lastID back events → event ∈ events := by
  induction events generalizing back with
  | nil => exact fun h => h
  | cons first rest ih =>
    intro h
    rw [collectSections] at h
    split at h
    · cases List.mem_cons.mp h with
      | inl heq => exact heq ▸ List.mem_cons_self
      | inr hm =>
        split at hm
        · exact absurd hm List.not_mem_nil
        · exact List.mem_cons_of_mem _ (ih hm)
    · split at h
      · exact absurd h List.not_mem_nil
      · exact List.mem_cons_of_mem _ (ih h)

lemma compareSections_none {ev1sec ev2sec : Option (Event Ctx)} (h : ev1sec = none ∨ ev2sec = none) :
    compareSections ev1sec ev2sec = none := by
  rcases h with rfl | rfl
  · rfl
  · cases ev1sec <;> rfl

lemma scanSections_past {sections currSec : List (Event Ctx)} {ev1sec ev2sec : Option (Event Ctx)}
    (hids : ∀ event ∈ events, lastID < event.id) (h1 : id1 ≤ lastID) (h2 : id2 ≤ lastID)
    (hnone : ev1sec = none ∨ ev2sec = none) :
    scanSections id1 id2 lastID sections events currSec ev1sec ev2sec ≠ some true := by
  induction events generalizing currSec with
  | nil => simp [scanSections]
  | cons currEvent rest ih =>
    have hcurr := hids currEvent List.mem_cons_self
    have hrest : ∀ event ∈ rest, lastID < event.id := fun event hm => hids event (List.mem_cons_of_mem _ hm)
    rw [scanSections.eq_def]
    dsimp only
    rw [if_neg (by omega), if_neg (by omega), compareSections_none hnone]
    cases rest with
    | nil => simp
    | cons next rest =>
      dsimp only
      split
      · rw [if_neg (by have hnext := hrest next List.mem_cons_self; omega)]
        simp
      · exact ih hrest

omit [DecidableEq Ctx] in
lemma sectionAt_split {before : List (Event Ctx)} (h : events = before ++ currEvent :: rest) :
    sectionAt getParent events before.length = enter getParent (before.foldl (enter getParent) none) currEvent := by
  have htake : events.take (before.length + 1) = before ++ [currEvent] := by
    rw [h, List.take_append, List.take_of_length_le (by omega)]
    simp
  rw [sectionAt, htake, List.foldl_append]
  rfl

def recorded (getParent : Instruction → ParentBlock) (events : List (Event Ctx)) (id index : ℕ) :
    Option (Event Ctx) :=
  if id < index then sectionAt getParent events id else none

omit [DecidableEq Ctx] in
lemma recorded_succ {id index : ℕ} (h : sectionAt getParent events index = some section') :
    (if id = index then some section' else recorded getParent events id index) =
      recorded getParent events id (index + 1) := by
  rw [recorded, recorded]
  by_cases hid : id = index
  · rw [if_pos hid, if_pos (by omega), hid, h]
  · rw [if_neg hid]
    by_cases hlt : id < index
    · rw [if_pos hlt, if_pos (by omega)]
    · rw [if_neg hlt, if_neg (by omega)]

omit [DecidableEq Ctx] in
lemma recorded_none {id index : ℕ} (h : recorded getParent events id index = none) (hid : id < index) :
    sectionAt getParent events id = none := by
  rw [recorded, if_pos hid] at h
  exact h

omit [DecidableEq Ctx] in
lemma not_together {index : ℕ} (h1 : id1 < index) (h2 : id2 < events.length → id2 < index)
    (hnone : recorded getParent events id1 index = none ∨ recorded getParent events id2 index = none) :
    ¬ Together getParent events id1 id2 := by
  rintro ⟨hlt, section', hs1, hs2⟩
  rcases hnone with h | h
  · rw [recorded_none h h1] at hs1
    cases hs1
  · rw [recorded_none h (h2 hlt)] at hs2
    cases hs2

omit [DecidableEq Ctx] in
lemma recorded_some {id index : ℕ} (h : recorded getParent events id index = some section') :
    id < index ∧ sectionAt getParent events id = some section' := by
  rw [recorded] at h
  split at h
  · exact ⟨‹_›, h⟩
  · cases h

lemma compareSections_recorded {index : ℕ} {answer : Bool} (hindex : index ≤ events.length)
    (h : compareSections (recorded getParent events id1 index) (recorded getParent events id2 index) = some answer) :
    some answer = some true ↔ Together getParent events id1 id2 := by
  cases h1 : recorded getParent events id1 index with
  | none =>
    rw [h1, compareSections_none (Or.inl rfl)] at h
    cases h
  | some section1 =>
    cases h2 : recorded getParent events id2 index with
    | none =>
      rw [h2, compareSections_none (Or.inr rfl)] at h
      cases h
    | some section2 =>
      rw [h1, h2] at h
      obtain ⟨-, hs1⟩ := recorded_some h1
      obtain ⟨hlt, hs2⟩ := recorded_some h2
      rw [← h, compareSections, Option.some.injEq, beq_iff_eq]
      constructor
      · rintro rfl
        exact ⟨hlt.trans_le hindex, section1, hs1, hs2⟩
      · rintro ⟨-, section', hs1', hs2'⟩
        rw [hs1] at hs1'
        rw [hs2] at hs2'
        rw [Option.some.inj hs1', Option.some.inj hs2']

lemma none_of_compareSections {ev1sec ev2sec : Option (Event Ctx)} (h : compareSections ev1sec ev2sec = none) :
    ev1sec = none ∨ ev2sec = none := by
  cases ev1sec with
  | none => exact Or.inl rfl
  | some section1 =>
    cases ev2sec with
    | none => exact Or.inr rfl
    | some section2 => cases h

lemma scanSections_iff {before sections : List (Event Ctx)} (hn : events.map Event.id = List.range events.length)
    (hsplit : events = before ++ currEvent :: rest)
    (hc : sectionAt getParent events before.length = some section') (hle : before.length ≤ max id1 id2)
    (hid1 : id1 < events.length)
    (hsec : ∀ event ∈ rest, event ∈ sections ↔ event ∈ collectSections getParent (max id1 id2) (some section') rest) :
    scanSections id1 id2 (max id1 id2) sections (currEvent :: rest)
        (section' :: collectSections getParent (max id1 id2) (some section') rest)
        (recorded getParent events id1 before.length) (recorded getParent events id2 before.length) = some true ↔
      Together getParent events id1 id2 := by
  induction rest generalizing before currEvent section' with
  | nil =>
    have hlen : events.length = before.length + 1 := by rw [hsplit]; simp
    rw [scanSections.eq_def]
    dsimp only
    rw [id_of_split hn hsplit, List.head?_cons, recorded_succ hc, recorded_succ hc]
    cases hcompare : compareSections (recorded getParent events id1 (before.length + 1))
        (recorded getParent events id2 (before.length + 1)) with
    | some answer => exact compareSections_recorded hlen.ge hcompare
    | none =>
      have hnot := not_together (by omega) (by omega) (none_of_compareSections hcompare)
      simp [hnot]
  | cons next rest ih =>
    have hlen : before.length + 1 < events.length := by rw [hsplit]; simp
    have hsplit' : events = (before ++ [currEvent]) ++ next :: rest := by rw [hsplit]; simp
    have hlength : (before ++ [currEvent]).length = before.length + 1 := by simp
    have hnext : next.id = before.length + 1 := by rw [id_of_split hn hsplit', hlength]
    have hafter : sectionAt getParent events (before.length + 1) = enter getParent (some section') next := by
      rw [← hlength, sectionAt_split hsplit', List.foldl_append, ← hc, sectionAt_split hsplit]
      rfl
    rw [scanSections.eq_def]
    dsimp only
    rw [id_of_split hn hsplit, List.head?_cons, recorded_succ hc, recorded_succ hc]
    cases hcompare : compareSections (recorded getParent events id1 (before.length + 1))
        (recorded getParent events id2 (before.length + 1)) with
    | some answer => exact compareSections_recorded hlen.le hcompare
    | none =>
      dsimp only
      have hnone := none_of_compareSections hcompare
      by_cases hlast : before.length + 1 ≤ max id1 id2
      · have hlater : ∀ event ∈ rest, event ≠ next := by
          intro event hm heq
          have hlt := lt_id_of_split hn hsplit' hm
          rw [heq, hnext, hlength] at hlt
          omega
        rw [← hlength] at hafter hlast
        by_cases henter : entersSection getParent (some section') next = true
        · have hcollect : collectSections getParent (max id1 id2) (some section') (next :: rest) =
              next :: collectSections getParent (max id1 id2) (some next) rest := by
            rw [collectSections, if_pos henter, if_neg (by omega)]
          rw [enter, if_pos henter] at hafter
          rw [if_pos ((hsec next List.mem_cons_self).mpr (by rw [hcollect]; exact List.mem_cons_self)),
            if_pos (by omega), hcollect, List.tail_cons, ← hlength]
          refine ih hsplit' hafter hlast fun event hm => ?_
          rw [hsec event (List.mem_cons_of_mem _ hm), hcollect, List.mem_cons, or_iff_right (hlater event hm)]
        · have hcollect : collectSections getParent (max id1 id2) (some section') (next :: rest) =
              collectSections getParent (max id1 id2) (some section') rest := by
            rw [collectSections, if_neg henter, if_neg (by omega)]
          rw [enter, if_neg henter] at hafter
          have hnext' : next ∉ sections := by
            rw [hsec next List.mem_cons_self, hcollect]
            exact fun hm => hlater next (collectSections_subset hm) rfl
          rw [if_neg hnext', hcollect, ← hlength]
          refine ih hsplit' hafter hlast fun event hm => ?_
          rw [hsec event (List.mem_cons_of_mem _ hm), hcollect]
      · -- Both ids have been passed, and one of them comes before the first section.
        have hnot := not_together (by omega) (by omega) hnone
        have hpast : scanSections id1 id2 (max id1 id2) sections (next :: rest)
            (section' :: collectSections getParent (max id1 id2) (some section') (next :: rest))
            (recorded getParent events id1 (before.length + 1))
            (recorded getParent events id2 (before.length + 1)) ≠ some true := by
          refine scanSections_past ?_ (le_max_left _ _) (le_max_right _ _) hnone
          intro event hm
          have hlt := lt_id_of_split hn hsplit hm
          omega
        split
        · rw [if_neg (by omega)]
          simp [hnot]
        · simp [hnot, hpast]

omit [DecidableEq Ctx] in
lemma collectSections_first {first : Event Ctx} {later : List (Event Ctx)}
    (h : collectSections getParent lastID none events = first :: later) :
    ∃ before rest, events = before ++ first :: rest ∧ (∀ event ∈ before, event.id ≤ lastID) ∧
      (∀ event ∈ before, entersSection getParent none event = false) ∧
      entersSection getParent none first = true ∧
      later = if first.id > lastID then [] else collectSections getParent lastID (some first) rest := by
  induction events with
  | nil => cases h
  | cons event rest ih =>
    rw [collectSections] at h
    by_cases henter : entersSection getParent none event = true
    · rw [if_pos henter] at h
      obtain ⟨rfl, rfl⟩ := List.cons.inj h
      exact ⟨[], rest, rfl, by simp, by simp, henter, rfl⟩
    · rw [if_neg henter] at h
      by_cases hid : event.id > lastID
      · rw [if_pos hid] at h
        cases h
      · rw [if_neg hid] at h
        obtain ⟨before, rest', rfl, hids, hnone, hfirst, hlater⟩ := ih h
        refine ⟨event :: before, rest', rfl, ?_, ?_, hfirst, hlater⟩
        · intro e hm
          cases List.mem_cons.mp hm with
          | inl heq => exact heq ▸ Nat.le_of_not_lt hid
          | inr hm => exact hids e hm
        · intro e hm
          cases List.mem_cons.mp hm with
          | inl heq => exact heq ▸ Bool.eq_false_iff.mpr henter
          | inr hm => exact hnone e hm

omit [DecidableEq Ctx] in
lemma foldl_enter_none (h : ∀ event ∈ events, entersSection getParent none event = false) :
    events.foldl (enter getParent) none = none := by
  induction events with
  | nil => rfl
  | cons event rest ih =>
    rw [List.foldl_cons, enter, if_neg (by rw [h event List.mem_cons_self]; simp)]
    exact ih fun e hm => h e (List.mem_cons_of_mem _ hm)

omit [DecidableEq Ctx] in
lemma sectionAt_before {before : List (Event Ctx)} {id : ℕ} (h : events = before ++ rest)
    (hnone : ∀ event ∈ before, entersSection getParent none event = false) (hid : id < before.length) :
    sectionAt getParent events id = none := by
  rw [sectionAt, h, List.take_append_of_le_length (by omega)]
  exact foldl_enter_none fun event hm => hnone event (List.mem_of_mem_take hm)

omit [DecidableEq Ctx] in
lemma collectSections_nil (h : collectSections getParent lastID none events = []) :
    ∃ before rest, events = before ++ rest ∧ (∀ event ∈ before, entersSection getParent none event = false) ∧
      (rest = [] ∨ ∃ event ∈ before, lastID < event.id) := by
  induction events with
  | nil => exact ⟨[], [], rfl, by simp, Or.inl rfl⟩
  | cons event rest ih =>
    rw [collectSections] at h
    by_cases henter : entersSection getParent none event = true
    · rw [if_pos henter] at h
      cases h
    · rw [if_neg henter] at h
      have hevent := Bool.eq_false_iff.mpr henter
      by_cases hid : event.id > lastID
      · exact ⟨[event], rest, rfl, by simp [hevent], Or.inr ⟨event, List.mem_cons_self, hid⟩⟩
      · rw [if_neg hid] at h
        obtain ⟨before, rest', rfl, hnone, hend⟩ := ih h
        refine ⟨event :: before, rest', rfl, ?_, hend.imp_right ?_⟩
        · simpa [hevent] using hnone
        · rintro ⟨e, hm, hlt⟩
          exact ⟨e, List.mem_cons_of_mem _ hm, hlt⟩

omit [DecidableEq Ctx] in
lemma sectionAt_nil {id : ℕ} (hn : events.map Event.id = List.range events.length)
    (h : collectSections getParent lastID none events = []) (hid : id ≤ lastID) :
    sectionAt getParent events id = none := by
  obtain ⟨before, rest, heq, hnone, hend⟩ := collectSections_nil h
  rcases hend with rfl | ⟨event, hm, hlt⟩
  · rw [List.append_nil] at heq
    subst heq
    exact foldl_enter_none fun event hm => hnone event (List.mem_of_mem_take hm)
  · obtain ⟨front, later, rfl⟩ := List.append_of_mem hm
    have hindex := @id_of_split _ events (later ++ rest) event front hn (by rw [heq]; simp)
    refine sectionAt_before heq hnone ?_
    rw [List.length_append, List.length_cons]
    omega

lemma dropWhile_first {before : List (Event Ctx)} {first : Event Ctx} (h : events = before ++ first :: rest)
    (hnone : ∀ event ∈ before, entersSection getParent none event = false)
    (hfirst : entersSection getParent none first = true) : events.dropWhile (· != first) = first :: rest := by
  have hbefore : ∀ event ∈ before, (event != first) = true := by
    intro event hm
    rw [bne_iff_ne]
    rintro rfl
    cases (hnone event hm).symm.trans hfirst
  rw [h, List.dropWhile_append_of_pos hbefore]
  simp

/-- The answer is yes for two ids that no event entering a section separates, and that come after such an event. -/
theorem insideCompatibleSections_together {thread1 : ThreadTrace Ctx} {event1 event2 : Event Ctx}
    (hn : thread1.events.map Event.id = List.range thread1.events.length) (h1 : event1 ∈ thread1.events) :
    insideCompatibleSections getParent thread1 event1 event2 = some true ↔
      Together getParent thread1.events event1.id event2.id := by
  have hid1 : event1.id < thread1.events.length := by
    have hm := List.mem_map_of_mem (f := Event.id) h1
    rw [hn] at hm
    exact List.mem_range.mp hm
  rw [insideCompatibleSections]
  cases hsections : collectSections getParent (max event1.id event2.id) none thread1.events with
  | nil =>
    have hnone := sectionAt_nil hn hsections (le_max_left _ _)
    have hnot : ¬ Together getParent thread1.events event1.id event2.id := by
      rintro ⟨-, section', hs, -⟩
      rw [hnone] at hs
      cases hs
    simp [hnot]
  | cons first later =>
    obtain ⟨before, rest, hsplit, hids, hnone, hfirst, rfl⟩ := collectSections_first hsections
    have hfirstID := id_of_split hn hsplit
    dsimp only
    rw [dropWhile_first hsplit hnone hfirst]
    dsimp only
    have hsection : sectionAt getParent thread1.events before.length = some first := by
      rw [sectionAt_split hsplit, foldl_enter_none hnone, enter, if_pos hfirst]
    by_cases hle : first.id ≤ max event1.id event2.id
    · rw [if_pos hle, if_neg (by omega)]
      have hrecorded : ∀ id, recorded getParent thread1.events id before.length = none := by
        intro id
        rw [recorded]
        split
        · exact sectionAt_before hsplit hnone ‹_›
        · rfl
      have hscan := @scanSections_iff _ getParent _ thread1.events rest first first event1.id event2.id before
        (first :: collectSections getParent (max event1.id event2.id) (some first) rest) hn hsplit hsection
        (by omega) hid1 ?_
      · rw [hrecorded, hrecorded] at hscan
        exact hscan
      · intro event hm
        have hlt := lt_id_of_split hn hsplit hm
        have hne : event ≠ first := by
          rintro rfl
          omega
        rw [List.mem_cons, or_iff_right hne]
    · have hnot : ¬ Together getParent thread1.events event1.id event2.id := by
        rintro ⟨-, section', hs, -⟩
        rw [sectionAt_before hsplit hnone (by omega)] at hs
        cases hs
      rw [if_neg hle]
      simp [hnot]

end Scan

end OpenRace
