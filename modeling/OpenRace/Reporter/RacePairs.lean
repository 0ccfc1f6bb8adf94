import OpenRace.Reporter.Report
import Mathlib.Data.List.Forall2

/-! What the order of the race pairs, and of the accesses in them, does to a report. -/

namespace OpenRace

open Library

variable {Inst : Type} [LinearOrder Inst]

/-- A pair whose other access is a write too may be given either way round. -/
def KeptOrSwapped (racepair racepair' : WriteEvent Inst × MemAccessEvent Inst) : Prop :=
  racepair' = racepair ∨ racepair'.1.val = racepair.2 ∧ racepair'.2 = racepair.1.val

def Rearranged (racepairs racepairs' : List (WriteEvent Inst × MemAccessEvent Inst)) : Prop :=
  ∃ swapped, List.Forall₂ KeptOrSwapped racepairs swapped ∧ swapped.Perm racepairs'

def SameRaces (races races' : OrderedSet (Race Inst) Race.Less) : Prop :=
  (∀ race ∈ races, ∃ race' ∈ races', (race == race') = true) ∧
    ∀ race' ∈ races', ∃ race ∈ races, (race == race') = true

def NoReversed (races : OrderedSet (Race Inst) Race.Less) : Prop :=
  ∀ race ∈ races, ∀ race' ∈ races, (race.first == race'.second) = true → (race.second == race'.first) = true →
    (race == race') = true

/-- A pair of two instructions is a write against a read, and is not listed the other way round. -/
def OneWayRound (racepairs : List (WriteEvent Inst × MemAccessEvent Inst)) : Prop :=
  ∀ racepair ∈ racepairs, racepair.1.val.inst ≠ racepair.2.inst → racepair.2.type = .read ∧
    ∀ racepair' ∈ racepairs, ¬ (racepair'.1.val.inst = racepair.2.inst ∧ racepair'.2.inst = racepair.1.val.inst)

def Reports (racepairs : List (WriteEvent Inst × MemAccessEvent Inst)) (first second : Inst) : Prop :=
  ∃ racepair ∈ racepairs, racepair.1.val.inst = first ∧ racepair.2.inst = second

section Report

variable {getDebugLoc : Inst → Option DILocation} {racepairs racepairs' : List (WriteEvent Inst × MemAccessEvent Inst)}
  {races races' : OrderedSet (Race Inst) Race.Less} {race race' : Race Inst} {first second : Inst}

lemma Reports.exists_race (hread : readReport getDebugLoc racepairs = .ok races) (h : Reports racepairs first second) :
    ∃ race ∈ races, race.first.inst = first ∧ race.second.inst = second := by
  obtain ⟨racepair, hm, rfl, rfl⟩ := h
  obtain ⟨race, hrace, race', hrace', hbeq⟩ := exists_mem_readReport hread hm
  obtain ⟨racepair', -, hrace''⟩ := of_mem_readReport hread hrace
  obtain ⟨hfirst, hsecond⟩ := insts_of_readRace hrace''
  obtain ⟨heq, heq'⟩ := (readRace_beq_iff hrace'' hrace').mp hbeq
  exact ⟨race, hrace, hfirst.trans heq, hsecond.trans heq'⟩

lemma reports_of_mem (hread : readReport getDebugLoc racepairs = .ok races) (hm : race ∈ races) :
    Reports racepairs race.first.inst race.second.inst := by
  obtain ⟨racepair, hm, hrace⟩ := of_mem_readReport hread hm
  obtain ⟨hfirst, hsecond⟩ := insts_of_readRace hrace
  exact ⟨racepair, hm, hfirst.symm, hsecond.symm⟩

lemma beq_iff_of_mem (hread : readReport getDebugLoc racepairs = .ok races)
    (hread' : readReport getDebugLoc racepairs' = .ok races') (hm : race ∈ races) (hm' : race' ∈ races') :
    ((race.first == race'.first) = true ↔ race.first.inst = race'.first.inst) ∧
      ((race.first == race'.second) = true ↔ race.first.inst = race'.second.inst) ∧
        ((race.second == race'.first) = true ↔ race.second.inst = race'.first.inst) ∧
          ((race.second == race'.second) = true ↔ race.second.inst = race'.second.inst) := by
  obtain ⟨racepair, -, hrace⟩ := of_mem_readReport hread hm
  obtain ⟨racepair', -, hrace'⟩ := of_mem_readReport hread' hm'
  obtain ⟨hfirst, hsecond⟩ := readRace_parts hrace
  obtain ⟨hfirst', hsecond'⟩ := readRace_parts hrace'
  obtain ⟨hinst, hinst'⟩ := insts_of_readRace hrace
  obtain ⟨hother, hother'⟩ := insts_of_readRace hrace'
  rw [hinst, hinst', hother, hother']
  exact ⟨RaceAccess.readEvent_beq_iff hfirst hfirst', RaceAccess.readEvent_beq_iff hfirst hsecond',
    RaceAccess.readEvent_beq_iff hsecond hfirst', RaceAccess.readEvent_beq_iff hsecond hsecond'⟩

lemma race_beq_iff_of_mem (hread : readReport getDebugLoc racepairs = .ok races)
    (hread' : readReport getDebugLoc racepairs' = .ok races') (hm : race ∈ races) (hm' : race' ∈ races') :
    (race == race') = true ↔ race.first.inst = race'.first.inst ∧ race.second.inst = race'.second.inst := by
  obtain ⟨hfirst, -, -, hsecond⟩ := beq_iff_of_mem hread hread' hm hm'
  change (_ == _ && _ == _) = true ↔ _
  rw [Bool.and_eq_true, hfirst, hsecond]

lemma sameRaces_iff (hread : readReport getDebugLoc racepairs = .ok races)
    (hread' : readReport getDebugLoc racepairs' = .ok races') : SameRaces races races' ↔
      ∀ first second, Reports racepairs first second ↔ Reports racepairs' first second := by
  constructor
  · rintro ⟨hleft, hright⟩ first second
    constructor
    · intro h
      obtain ⟨race, hrace, rfl, rfl⟩ := h.exists_race hread
      obtain ⟨race', hrace', hbeq⟩ := hleft race hrace
      obtain ⟨heq, heq'⟩ := (race_beq_iff_of_mem hread hread' hrace hrace').mp hbeq
      rw [heq, heq']
      exact reports_of_mem hread' hrace'
    · intro h
      obtain ⟨race', hrace', rfl, rfl⟩ := h.exists_race hread'
      obtain ⟨race, hrace, hbeq⟩ := hright race' hrace'
      obtain ⟨heq, heq'⟩ := (race_beq_iff_of_mem hread hread' hrace hrace').mp hbeq
      rw [← heq, ← heq']
      exact reports_of_mem hread hrace
  · intro h
    constructor
    · intro race hrace
      obtain ⟨race', hrace', heq, heq'⟩ := ((h _ _).mp (reports_of_mem hread hrace)).exists_race hread'
      exact ⟨race', hrace', (race_beq_iff_of_mem hread hread' hrace hrace').mpr ⟨heq.symm, heq'.symm⟩⟩
    · intro race' hrace'
      obtain ⟨race, hrace, heq, heq'⟩ := ((h _ _).mpr (reports_of_mem hread' hrace')).exists_race hread
      exact ⟨race, hrace, (race_beq_iff_of_mem hread hread' hrace hrace').mpr ⟨heq, heq'⟩⟩

lemma noReversed_iff (hread : readReport getDebugLoc racepairs = .ok races) : NoReversed races ↔
    ∀ first second, Reports racepairs first second → Reports racepairs second first → first = second := by
  constructor
  · intro h first second hfirst hsecond
    obtain ⟨race, hrace, rfl, rfl⟩ := hfirst.exists_race hread
    obtain ⟨race', hrace', heq, heq'⟩ := hsecond.exists_race hread
    obtain ⟨-, hcross, hcross', -⟩ := beq_iff_of_mem hread hread hrace hrace'
    have hbeq := h race hrace race' hrace' (hcross.mpr heq'.symm) (hcross'.mpr heq.symm)
    exact ((race_beq_iff_of_mem hread hread hrace hrace').mp hbeq).1.trans heq
  · intro h race hrace race' hrace' hbeq hbeq'
    obtain ⟨-, hcross, hcross', -⟩ := beq_iff_of_mem hread hread hrace hrace'
    have hreports := reports_of_mem hread hrace'
    rw [← hcross.mp hbeq, ← hcross'.mp hbeq'] at hreports
    have hsame := h _ _ (reports_of_mem hread hrace) hreports
    exact (race_beq_iff_of_mem hread hread hrace hrace').mpr
      ⟨hsame.trans (hcross'.mp hbeq'), hsame.symm.trans (hcross.mp hbeq)⟩

omit [LinearOrder Inst] in
lemma OneWayRound.keptOrSwapped {racepair racepair' : WriteEvent Inst × MemAccessEvent Inst}
    (h : OneWayRound racepairs) (hm : racepair ∈ racepairs) (hswap : KeptOrSwapped racepair racepair') :
    racepair'.1.val.inst = racepair.1.val.inst ∧ racepair'.2.inst = racepair.2.inst := by
  rcases hswap with rfl | ⟨heq, heq'⟩
  · exact ⟨rfl, rfl⟩
  · have hsame : racepair.1.val.inst = racepair.2.inst := by
      by_contra hne
      have hread := (h racepair hm hne).1
      have hwrite : racepair.2.type = .write := heq ▸ racepair'.1.property
      rw [hwrite] at hread
      cases hread
    rw [heq, heq']
    exact ⟨hsame.symm, hsame⟩

lemma exists_of_forall₂ {α β : Type} {R : α → β → Prop} {l : List α} {l' : List β} (h : List.Forall₂ R l l') {a : α}
    (hm : a ∈ l) : ∃ b ∈ l', R a b := by
  induction h with
  | nil => exact absurd hm List.not_mem_nil
  | cons hab _ ih =>
    cases List.mem_cons.mp hm with
    | inl heq => exact ⟨_, List.mem_cons_self, heq ▸ hab⟩
    | inr hm =>
      obtain ⟨b, hb, hr⟩ := ih hm
      exact ⟨b, List.mem_cons_of_mem _ hb, hr⟩

omit [LinearOrder Inst] in
lemma Rearranged.of_mem (h : Rearranged racepairs racepairs') {racepair' : WriteEvent Inst × MemAccessEvent Inst}
    (hm : racepair' ∈ racepairs') : ∃ racepair ∈ racepairs, KeptOrSwapped racepair racepair' := by
  obtain ⟨swapped, hswapped, hperm⟩ := h
  exact exists_of_forall₂ hswapped.flip (hperm.mem_iff.mpr hm)

omit [LinearOrder Inst] in
lemma Rearranged.exists_mem (h : Rearranged racepairs racepairs') {racepair : WriteEvent Inst × MemAccessEvent Inst}
    (hm : racepair ∈ racepairs) : ∃ racepair' ∈ racepairs', KeptOrSwapped racepair racepair' := by
  obtain ⟨swapped, hswapped, hperm⟩ := h
  obtain ⟨racepair', hm', hswap⟩ := exists_of_forall₂ hswapped hm
  exact ⟨racepair', hperm.mem_iff.mp hm', hswap⟩

omit [LinearOrder Inst] in
lemma Rearranged.located (h : Rearranged racepairs racepairs')
    (hlocated : ∀ racepair ∈ racepairs, Located getDebugLoc racepair) :
    ∀ racepair' ∈ racepairs', Located getDebugLoc racepair' := by
  intro racepair' hm'
  obtain ⟨racepair, hm, rfl | ⟨heq, heq'⟩⟩ := h.of_mem hm'
  · exact hlocated racepair' hm
  · obtain ⟨hfirst, hsecond⟩ := hlocated racepair hm
    rw [Located, heq, heq']
    exact ⟨hsecond, hfirst⟩

omit [LinearOrder Inst] in
lemma OneWayRound.reports_iff (h : OneWayRound racepairs) (hr : Rearranged racepairs racepairs') (first second : Inst) :
    Reports racepairs first second ↔ Reports racepairs' first second := by
  constructor
  · rintro ⟨racepair, hm, rfl, rfl⟩
    obtain ⟨racepair', hm', hswap⟩ := hr.exists_mem hm
    exact ⟨racepair', hm', h.keptOrSwapped hm hswap⟩
  · rintro ⟨racepair', hm', rfl, rfl⟩
    obtain ⟨racepair, hm, hswap⟩ := hr.of_mem hm'
    obtain ⟨heq, heq'⟩ := h.keptOrSwapped hm hswap
    exact ⟨racepair, hm, heq.symm, heq'.symm⟩

omit [LinearOrder Inst] in
lemma Reports.swapped {racepair : WriteEvent Inst × MemAccessEvent Inst} (hm : racepair ∈ racepairs)
    (hwrite : racepair.2.type = .write) : ∃ racepairs', Rearranged racepairs racepairs' ∧
      Reports racepairs' racepair.2.inst racepair.1.val.inst := by
  obtain ⟨front, rest, rfl⟩ := List.append_of_mem hm
  let racepair' : WriteEvent Inst × MemAccessEvent Inst := (⟨racepair.2, hwrite⟩, racepair.1.val)
  have hkept : ∀ racepairs : List (WriteEvent Inst × MemAccessEvent Inst),
      List.Forall₂ KeptOrSwapped racepairs racepairs :=
    fun racepairs => List.forall₂_same.mpr fun _ _ => Or.inl rfl
  refine ⟨front ++ racepair' :: rest, ⟨_, ?_, List.Perm.refl _⟩, racepair', by simp, rfl, rfl⟩
  exact List.rel_append (hkept front) (List.Forall₂.cons (Or.inr ⟨rfl, rfl⟩) (hkept rest))

end Report

/-- A report is made, does not depend on the order of its race pairs and of their accesses, and has no race in both
orders, just where all accesses have a location, and every pair of two instructions is of a write and a read and is
given one way round. -/
theorem report_orderFree_iff (getDebugLoc : Inst → Option DILocation)
    (racepairs : List (WriteEvent Inst × MemAccessEvent Inst)) :
    (∃ races, readReport getDebugLoc racepairs = .ok races ∧ NoReversed races ∧
        ∀ racepairs', Rearranged racepairs racepairs' →
          ∃ races', readReport getDebugLoc racepairs' = .ok races' ∧ SameRaces races races') ↔
      (∀ racepair ∈ racepairs, Located getDebugLoc racepair) ∧ OneWayRound racepairs := by
  constructor
  · rintro ⟨races, hread, hnone, hsame⟩
    refine ⟨located_of_readReport hread, fun racepair hm hne => ?_⟩
    rw [noReversed_iff hread] at hnone
    have hreports : Reports racepairs racepair.1.val.inst racepair.2.inst := ⟨racepair, hm, rfl, rfl⟩
    constructor
    · refine racepair.2.isAccess.resolve_right fun hwrite => ?_
      obtain ⟨racepairs', hr, hreports'⟩ := Reports.swapped hm hwrite
      obtain ⟨races', hread', hraces⟩ := hsame racepairs' hr
      have hback := ((sameRaces_iff hread hread').mp hraces _ _).mpr hreports'
      exact hne (hnone _ _ hreports hback)
    · rintro racepair' hm' ⟨heq, heq'⟩
      exact hne (hnone _ _ hreports ⟨racepair', hm', heq, heq'⟩)
  · rintro ⟨hlocated, h⟩
    obtain ⟨races, hread⟩ := readReport_of_located hlocated
    refine ⟨races, hread, (noReversed_iff hread).mpr ?_, fun racepairs' hr => ?_⟩
    · rintro first second ⟨racepair, hm, rfl, rfl⟩ ⟨racepair', hm', heq, heq'⟩
      by_contra hne
      exact (h racepair hm hne).2 racepair' hm' ⟨heq, heq'⟩
    · obtain ⟨races', hread'⟩ := readReport_of_located (hr.located hlocated)
      exact ⟨races', hread', (sameRaces_iff hread hread').mpr (h.reports_iff hr)⟩

namespace TwoWrites

/-- Two stores, on lines 1 and 2 of one file. -/
def debugLoc (inst : ℕ) : Option DILocation := some ⟨"main.c", "", inst, 1, none⟩

def write (inst : ℕ) : WriteEvent ℕ := ⟨⟨.write, inst, Or.inr rfl⟩, rfl⟩

def reported (racepairs : List (WriteEvent ℕ × MemAccessEvent ℕ)) : Except AbsentRead (List (ℕ × ℕ)) :=
  (readReport debugLoc racepairs).map fun races => races.elems.map fun race => (race.first.inst, race.second.inst)

/-- The two threads of a region both do `x = 1; x = 2`. -/
theorem report_reversed :
    reported [(write 1, (write 2).val), (write 2, (write 1).val)] = .ok [(1, 2), (2, 1)] ∧
      (∀ races, readReport debugLoc [(write 1, (write 2).val), (write 2, (write 1).val)] = .ok races →
        ¬ NoReversed races) ∧
      ∀ races races', readReport debugLoc [(write 1, (write 2).val)] = .ok races →
        readReport debugLoc [(write 2, (write 1).val)] = .ok races' → ¬ SameRaces races races' := by
  have hreports : ∀ first second rest, Reports ((write first, (write second).val) :: rest) first second :=
    fun first second rest => ⟨_, List.mem_cons_self, rfl, rfl⟩
  refine ⟨by decide +kernel, fun races hread h => ?_, fun races races' hread hread' h => ?_⟩
  · have hback : Reports [(write 1, (write 2).val), (write 2, (write 1).val)] 2 1 :=
      ⟨(write 2, (write 1).val), by simp, rfl, rfl⟩
    cases (noReversed_iff hread).mp h 1 2 (hreports 1 2 _) hback
  · obtain ⟨racepair, hm, hfirst, -⟩ := ((sameRaces_iff hread hread').mp h 1 2).mp (hreports 1 2 [])
    obtain rfl := List.mem_singleton.mp hm
    cases hfirst

end TwoWrites

end OpenRace
