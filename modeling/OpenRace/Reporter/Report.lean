import OpenRace.Library.Failure
import OpenRace.Library.OrderedSet
import OpenRace.Trace.Event
import Mathlib.Data.String.Basic
import Mathlib.Order.WithBot

/-! Accesses and races as they are reported, and the set of a report's races. -/

namespace OpenRace

open Library

/-- `lexicalBlock` is the line and the column of the scope, where that is a lexical block. -/
structure DILocation where
  filename : String
  directory : String
  line : ℕ
  column : ℕ
  lexicalBlock : Option (ℕ × ℕ)

structure SourceLoc where
  filename : String
  directory : String := ""
  line : ℕ
  col : ℕ

namespace SourceLoc

def ofDILocation (loc : DILocation) : SourceLoc := ⟨loc.filename, loc.directory, loc.line, loc.column⟩

instance : BEq SourceLoc :=
  ⟨fun loc other => loc.filename == other.filename && loc.line == other.line && loc.col == other.col⟩

def lt (loc other : SourceLoc) : Bool :=
  if loc.filename != other.filename then loc.filename < other.filename
  else if loc.line != other.line then loc.line < other.line
  else loc.col < other.col

/-- What the comparisons look at; the directory is not part of it. -/
def key (loc : SourceLoc) : String ×ₗ (ℕ ×ₗ ℕ) := toLex (loc.filename, toLex (loc.line, loc.col))

lemma beq_iff {loc other : SourceLoc} : (loc == other) = true ↔ loc.key = other.key := by
  change (loc.filename == other.filename && loc.line == other.line && loc.col == other.col) = true ↔ _
  simp [key, and_assoc]

lemma lt_iff {loc other : SourceLoc} : loc.lt other = true ↔ loc.key < other.key := by
  rw [lt, key, key, Prod.Lex.toLex_lt_toLex, Prod.Lex.toLex_lt_toLex]
  by_cases hfile : loc.filename = other.filename
  · by_cases hline : loc.line = other.line
    · simp [hfile, hline]
    · simp [hfile, hline]
  · simp [hfile]

end SourceLoc

/-- Comparison of optionals: an empty one comes before all others. -/
def optionLt {α : Type} (lt : α → α → Bool) : Option α → Option α → Bool
  | _, none => false
  | none, some _ => true
  | some a, some b => lt a b

variable {Inst : Type} [LinearOrder Inst]

/-- Instructions are ordered as their addresses are. -/
structure RaceAccess (Inst : Type) where
  location : Option SourceLoc
  type : EventType
  inst : Inst

namespace RaceAccess

instance : BEq (RaceAccess Inst) :=
  ⟨fun access other => access.location == other.location && access.inst == other.inst⟩

def lt (access other : RaceAccess Inst) : Bool :=
  if access.location != other.location then optionLt SourceLoc.lt access.location other.location
  else access.inst < other.inst

def locationKey : Option SourceLoc → WithBot (String ×ₗ (ℕ ×ₗ ℕ))
  | none => ⊥
  | some loc => loc.key

def key (access : RaceAccess Inst) : WithBot (String ×ₗ (ℕ ×ₗ ℕ)) ×ₗ Inst :=
  toLex (locationKey access.location, access.inst)

lemma location_beq_iff {location other : Option SourceLoc} :
    (location == other) = true ↔ locationKey location = locationKey other := by
  cases location with
  | none => cases other <;> simp [locationKey]
  | some location =>
    cases other with
    | none => simp [locationKey]
    | some other => exact SourceLoc.beq_iff.trans WithBot.coe_inj.symm

lemma location_lt_iff {location other : Option SourceLoc} :
    optionLt SourceLoc.lt location other = true ↔ locationKey location < locationKey other := by
  cases other with
  | none => cases location <;> simp [optionLt, locationKey]
  | some other =>
    cases location with
    | none => exact ⟨fun _ => WithBot.bot_lt_coe other.key, fun _ => rfl⟩
    | some location => exact SourceLoc.lt_iff.trans WithBot.coe_lt_coe.symm

lemma beq_iff {access other : RaceAccess Inst} : (access == other) = true ↔ access.key = other.key := by
  change (access.location == other.location && access.inst == other.inst) = true ↔ _
  rw [Bool.and_eq_true, location_beq_iff, beq_iff_eq, key, key, toLex_inj, Prod.mk.injEq]

lemma lt_iff {access other : RaceAccess Inst} : access.lt other = true ↔ access.key < other.key := by
  rw [lt, key, key, Prod.Lex.toLex_lt_toLex]
  by_cases hloc : (access.location == other.location) = true
  · have heq := location_beq_iff.mp hloc
    rw [if_neg (by simp [bne, hloc]), heq]
    simp
  · have hne := mt location_beq_iff.mpr hloc
    rw [if_pos (by simp [bne, hloc]), location_lt_iff]
    simp [hne]

end RaceAccess

structure Race (Inst : Type) where
  first : RaceAccess Inst
  second : RaceAccess Inst

namespace Race

/-- The constructor; the names in its body are its parameters', from which the members are already made. -/
def ofAccesses (first second : RaceAccess Inst) : Race Inst :=
  let race : Race Inst := ⟨first, second⟩
  let (_first, _second) := if second.lt first then (second, first) else (first, second)
  race

def missingLocation (race : Race Inst) : Bool := !race.first.location.isSome || !race.second.location.isSome

instance : BEq (Race Inst) := ⟨fun race other => race.first == other.first && race.second == other.second⟩

def lt (race other : Race Inst) : Bool :=
  if race.first != other.first then race.first.lt other.first else race.second.lt other.second

def key (race : Race Inst) : (WithBot (String ×ₗ (ℕ ×ₗ ℕ)) ×ₗ Inst) ×ₗ (WithBot (String ×ₗ (ℕ ×ₗ ℕ)) ×ₗ Inst) :=
  toLex (race.first.key, race.second.key)

lemma beq_iff {race other : Race Inst} : (race == other) = true ↔ race.key = other.key := by
  change (race.first == other.first && race.second == other.second) = true ↔ _
  rw [Bool.and_eq_true, RaceAccess.beq_iff, RaceAccess.beq_iff, key, key, toLex_inj, Prod.mk.injEq]

lemma lt_iff {race other : Race Inst} : race.lt other = true ↔ race.key < other.key := by
  rw [lt, key, key, Prod.Lex.toLex_lt_toLex]
  by_cases hfirst : (race.first == other.first) = true
  · have heq := RaceAccess.beq_iff.mp hfirst
    rw [if_neg (by simp [bne, hfirst]), heq, RaceAccess.lt_iff]
    simp
  · have hne := mt RaceAccess.beq_iff.mpr hfirst
    rw [if_pos (by simp [bne, hfirst]), RaceAccess.lt_iff]
    simp [hne]

def Less (race other : Race Inst) : Prop := race.lt other = true

instance : DecidableRel (Less : Race Inst → Race Inst → Prop) := fun race other =>
  inferInstanceAs (Decidable (race.lt other = true))

instance : IsTrans (Race Inst) Less :=
  ⟨fun _ _ _ hab hbc => lt_iff.mpr ((lt_iff.mp hab).trans (lt_iff.mp hbc))⟩

instance : Std.Irrefl (Less : Race Inst → Race Inst → Prop) := ⟨fun _ h => lt_irrefl _ (lt_iff.mp h)⟩

lemma beq_of_not_less {race other : Race Inst} (h : ¬ Less race other) (h' : ¬ Less other race) :
    (race == other) = true :=
  beq_iff.mpr (le_antisymm (not_lt.mp (mt lt_iff.mpr h')) (not_lt.mp (mt lt_iff.mpr h)))

end Race

structure MemAccessEvent (Inst : Type) where
  type : EventType
  inst : Inst
  isAccess : type = .read ∨ type = .write

abbrev WriteEvent (Inst : Type) := { event : MemAccessEvent Inst // event.type = .write }

/-- What may be absent where it is read: the location of the access, or the debug location of its instruction. -/
inductive AbsentRead where
  | location
  | debugLoc
deriving DecidableEq, Repr

variable (getDebugLoc : Inst → Option DILocation)

namespace RaceAccess

/-- The location is read before it is known to be there. -/
def updateMisleadingDebugLoc (access : RaceAccess Inst) : Except AbsentRead (RaceAccess Inst) :=
  match access.location with
  | none => .error .location
  | some location =>
    if location.line != 0 then .ok access
    else match getDebugLoc access.inst with
      | none => .error .debugLoc
      | some loc => match loc.lexicalBlock with
        | some (line, col) => .ok { access with location := some { filename := loc.filename, line, col } }
        | none => .ok access

def readEvent (event : MemAccessEvent Inst) : Except AbsentRead (RaceAccess Inst) :=
  updateMisleadingDebugLoc getDebugLoc
    ⟨(getDebugLoc event.inst).map SourceLoc.ofDILocation, event.type, event.inst⟩

end RaceAccess

def readRace (racepair : WriteEvent Inst × MemAccessEvent Inst) : Except AbsentRead (Race Inst) := do
  let first ← RaceAccess.readEvent getDebugLoc racepair.1
  let second ← RaceAccess.readEvent getDebugLoc racepair.2
  return Race.ofAccesses first second

def addReadRace (races : OrderedSet (Race Inst) Race.Less) (racepair : WriteEvent Inst × MemAccessEvent Inst) :
    Except AbsentRead (OrderedSet (Race Inst) Race.Less) := do
  let race ← readRace getDebugLoc racepair
  return if race.missingLocation then races else races.insert race

/-- The races of the report on a list of race pairs, up to the first read of what is absent. -/
def readReport (racepairs : List (WriteEvent Inst × MemAccessEvent Inst)) :
    Except AbsentRead (OrderedSet (Race Inst) Race.Less) :=
  racepairs.foldlM (addReadRace getDebugLoc) .empty

def Located (racepair : WriteEvent Inst × MemAccessEvent Inst) : Prop :=
  (getDebugLoc racepair.1.val.inst).isSome ∧ (getDebugLoc racepair.2.inst).isSome

instance : DecidablePred (Located getDebugLoc) := fun _ => inferInstanceAs (Decidable (_ ∧ _))

section Read

variable {getDebugLoc} {event event' : MemAccessEvent Inst} {access access' : RaceAccess Inst}

namespace RaceAccess

omit [LinearOrder Inst] in
lemma readEvent_of_none (h : getDebugLoc event.inst = none) : readEvent getDebugLoc event = .error .location := by
  rw [readEvent, updateMisleadingDebugLoc, h]
  rfl

omit [LinearOrder Inst] in
lemma readEvent_of_isSome (h : (getDebugLoc event.inst).isSome) : ∃ access, readEvent getDebugLoc event = .ok access ∧
    access.inst = event.inst ∧ access.location.isSome := by
  obtain ⟨loc, hloc⟩ := Option.isSome_iff_exists.mp h
  rw [readEvent, updateMisleadingDebugLoc]
  simp only [hloc, Option.map_some]
  split
  · exact ⟨_, rfl, rfl, rfl⟩
  · cases loc.lexicalBlock <;> exact ⟨_, rfl, rfl, rfl⟩

omit [LinearOrder Inst] in
lemma isSome_of_readEvent (h : readEvent getDebugLoc event = .ok access) : (getDebugLoc event.inst).isSome := by
  cases hloc : getDebugLoc event.inst with
  | some loc => rfl
  | none =>
    rw [readEvent_of_none hloc] at h
    cases h

omit [LinearOrder Inst] in
lemma fields_of_readEvent (h : readEvent getDebugLoc event = .ok access) :
    access.inst = event.inst ∧ access.location.isSome := by
  obtain ⟨access', hread, hfields⟩ := readEvent_of_isSome (isSome_of_readEvent h)
  cases h.symm.trans hread
  exact hfields

omit [LinearOrder Inst] in
lemma location_of_readEvent (hinst : event.inst = event'.inst) (h : readEvent getDebugLoc event = .ok access)
    (h' : readEvent getDebugLoc event' = .ok access') : access.location = access'.location := by
  obtain ⟨loc, hloc⟩ := Option.isSome_iff_exists.mp (isSome_of_readEvent h)
  rw [readEvent, updateMisleadingDebugLoc] at h h'
  rw [← hinst] at h'
  simp only [hloc, Option.map_some] at h h'
  split at h
  · rename_i hline
    rw [if_pos hline] at h'
    cases h
    cases h'
    rfl
  · rename_i hline
    rw [if_neg hline] at h'
    revert h h'
    cases loc.lexicalBlock <;> rintro ⟨⟩ ⟨⟩ <;> rfl

lemma readEvent_beq_iff (h : readEvent getDebugLoc event = .ok access)
    (h' : readEvent getDebugLoc event' = .ok access') : (access == access') = true ↔ event.inst = event'.inst := by
  rw [beq_iff, key, key, toLex_inj, Prod.mk.injEq, (fields_of_readEvent h).1, (fields_of_readEvent h').1]
  constructor
  · exact fun heq => heq.2
  · exact fun heq => ⟨congrArg _ (location_of_readEvent heq h h'), heq⟩

end RaceAccess

variable {racepairs : List (WriteEvent Inst × MemAccessEvent Inst)}
  {racepair racepair' : WriteEvent Inst × MemAccessEvent Inst} {races races' : OrderedSet (Race Inst) Race.Less}
  {race race' : Race Inst}

lemma readRace_parts (h : readRace getDebugLoc racepair = .ok race) :
    RaceAccess.readEvent getDebugLoc racepair.1.val = .ok race.first ∧
      RaceAccess.readEvent getDebugLoc racepair.2 = .ok race.second := by
  rw [readRace] at h
  obtain ⟨first, hfirst, h⟩ := exists_of_bind h
  obtain ⟨second, hsecond, h⟩ := exists_of_bind h
  cases h
  exact ⟨hfirst, hsecond⟩

lemma located_of_readRace (h : readRace getDebugLoc racepair = .ok race) : Located getDebugLoc racepair :=
  ⟨RaceAccess.isSome_of_readEvent (readRace_parts h).1, RaceAccess.isSome_of_readEvent (readRace_parts h).2⟩

lemma readRace_of_located (h : Located getDebugLoc racepair) : ∃ race, readRace getDebugLoc racepair = .ok race := by
  obtain ⟨first, hfirst, -⟩ := RaceAccess.readEvent_of_isSome h.1
  obtain ⟨second, hsecond, -⟩ := RaceAccess.readEvent_of_isSome h.2
  rw [readRace, hfirst, hsecond]
  exact ⟨_, rfl⟩

lemma insts_of_readRace (h : readRace getDebugLoc racepair = .ok race) :
    race.first.inst = racepair.1.val.inst ∧ race.second.inst = racepair.2.inst :=
  ⟨(RaceAccess.fields_of_readEvent (readRace_parts h).1).1, (RaceAccess.fields_of_readEvent (readRace_parts h).2).1⟩

lemma missingLocation_of_readRace (h : readRace getDebugLoc racepair = .ok race) : race.missingLocation = false := by
  rw [Race.missingLocation, (RaceAccess.fields_of_readEvent (readRace_parts h).1).2,
    (RaceAccess.fields_of_readEvent (readRace_parts h).2).2]
  rfl

lemma readRace_beq_iff (h : readRace getDebugLoc racepair = .ok race) (h' : readRace getDebugLoc racepair' = .ok race') :
    (race == race') = true ↔ racepair.1.val.inst = racepair'.1.val.inst ∧ racepair.2.inst = racepair'.2.inst := by
  change (_ == _ && _ == _) = true ↔ _
  rw [Bool.and_eq_true]
  exact and_congr (RaceAccess.readEvent_beq_iff (readRace_parts h).1 (readRace_parts h').1)
    (RaceAccess.readEvent_beq_iff (readRace_parts h).2 (readRace_parts h').2)

lemma addReadRace_cases (h : addReadRace getDebugLoc races racepair = .ok races') :
    ∃ race, readRace getDebugLoc racepair = .ok race ∧ races' = races.insert race := by
  rw [addReadRace] at h
  obtain ⟨race, hrace, h⟩ := exists_of_bind h
  rw [missingLocation_of_readRace hrace] at h
  cases h
  exact ⟨race, hrace, rfl⟩

lemma addReadRace_of_located (h : Located getDebugLoc racepair) (races : OrderedSet (Race Inst) Race.Less) :
    ∃ races', addReadRace getDebugLoc races racepair = .ok races' := by
  obtain ⟨race, hrace⟩ := readRace_of_located h
  rw [addReadRace, hrace]
  exact ⟨_, rfl⟩

lemma foldlM_addReadRace_of_located (h : ∀ racepair ∈ racepairs, Located getDebugLoc racepair)
    (races : OrderedSet (Race Inst) Race.Less) :
    ∃ races', racepairs.foldlM (addReadRace getDebugLoc) races = .ok races' := by
  induction racepairs generalizing races with
  | nil => exact ⟨races, rfl⟩
  | cons racepair racepairs ih =>
    rw [List.forall_mem_cons] at h
    obtain ⟨next, hnext⟩ := addReadRace_of_located h.1 races
    rw [List.foldlM_cons, hnext]
    exact ih h.2 next

lemma of_mem_foldlM (h : racepairs.foldlM (addReadRace getDebugLoc) races = .ok races') (hm : race ∈ races') :
    race ∈ races ∨ ∃ racepair ∈ racepairs, readRace getDebugLoc racepair = .ok race := by
  induction racepairs generalizing races with
  | nil =>
    cases h
    exact Or.inl hm
  | cons racepair racepairs ih =>
    rw [List.foldlM_cons] at h
    obtain ⟨next, hnext, h⟩ := exists_of_bind h
    obtain ⟨added, hadded, rfl⟩ := addReadRace_cases hnext
    rcases ih h with hm | ⟨racepair', hm', hrace⟩
    · refine (OrderedSet.of_mem_insert hm).symm.imp_right ?_
      rintro rfl
      exact ⟨racepair, List.mem_cons_self, hadded⟩
    · exact Or.inr ⟨racepair', List.mem_cons_of_mem _ hm', hrace⟩

lemma mem_of_foldlM (h : racepairs.foldlM (addReadRace getDebugLoc) races = .ok races') (hm : race ∈ races) :
    race ∈ races' := by
  refine foldlM_keep (P := fun races => race ∈ races) (fun races racepair next hm hnext => ?_) hm h
  obtain ⟨added, -, rfl⟩ := addReadRace_cases hnext
  exact OrderedSet.mem_insert_of_mem hm

lemma located_of_readReport (h : readReport getDebugLoc racepairs = .ok races) :
    ∀ racepair ∈ racepairs, Located getDebugLoc racepair := by
  intro racepair hracepair
  obtain ⟨before, after, hadd⟩ := exists_of_foldlM h racepair hracepair
  obtain ⟨race, hrace, -⟩ := addReadRace_cases hadd
  exact located_of_readRace hrace

lemma readReport_of_located (h : ∀ racepair ∈ racepairs, Located getDebugLoc racepair) :
    ∃ races, readReport getDebugLoc racepairs = .ok races :=
  foldlM_addReadRace_of_located h .empty

lemma of_mem_readReport (h : readReport getDebugLoc racepairs = .ok races) (hm : race ∈ races) :
    ∃ racepair ∈ racepairs, readRace getDebugLoc racepair = .ok race :=
  (of_mem_foldlM h hm).resolve_left (OrderedSet.not_mem_empty race)

/-- Of races that are equal, the first is kept. -/
lemma exists_mem_readReport (h : readReport getDebugLoc racepairs = .ok races) (hm : racepair ∈ racepairs) :
    ∃ race ∈ races, ∃ race', readRace getDebugLoc racepair = .ok race' ∧ (race == race') = true := by
  obtain ⟨front, rest, rfl⟩ := List.append_of_mem hm
  rw [readReport, List.foldlM_append] at h
  obtain ⟨before, -, h⟩ := exists_of_bind h
  rw [List.foldlM_cons] at h
  obtain ⟨next, hnext, h⟩ := exists_of_bind h
  obtain ⟨added, hadded, rfl⟩ := addReadRace_cases hnext
  obtain ⟨race, hrace, hle, hge⟩ := before.exists_mem_insert added
  exact ⟨race, mem_of_foldlM h hrace, added, hadded, Race.beq_of_not_less hle hge⟩

end Read

end OpenRace
