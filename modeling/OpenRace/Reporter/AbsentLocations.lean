import OpenRace.Reporter.Report

/-! Which reads of a location that is not there a report does. -/

namespace OpenRace

open Library

variable {Inst : Type} [LinearOrder Inst] (getDebugLoc : Inst → Option DILocation)

/-- The report is read to its end, with exactly the races of the located pairs, each as if it had only those. -/
structure KeepsLocated (racepairs : List (WriteEvent Inst × MemAccessEvent Inst))
    (races : OrderedSet (Race Inst) Race.Less) : Prop where
  read : readReport getDebugLoc racepairs = .ok races
  of_mem : ∀ race ∈ races, ∃ racepair ∈ racepairs, Located getDebugLoc racepair ∧
    readRace getDebugLoc racepair = .ok race
  kept : ∀ racepair ∈ racepairs, Located getDebugLoc racepair → ∃ race ∈ races, ∃ race',
    readRace getDebugLoc racepair = .ok race' ∧ (race == race') = true
  unaffected : readReport getDebugLoc (racepairs.filter (Located getDebugLoc ·)) = .ok races

/-- A report reads no absent location, and keeps the located pairs, just where no access is without debug location:
the line of a location is read before it is known to be there. -/
theorem keepsLocated_iff (getDebugLoc : Inst → Option DILocation)
    (racepairs : List (WriteEvent Inst × MemAccessEvent Inst)) :
    (∃ races, KeepsLocated getDebugLoc racepairs races) ↔
      ∀ racepair ∈ racepairs, (getDebugLoc racepair.1.val.inst).isSome ∧ (getDebugLoc racepair.2.inst).isSome := by
  constructor
  · rintro ⟨races, hkeeps⟩
    exact located_of_readReport hkeeps.read
  · intro h
    obtain ⟨races, hread⟩ := readReport_of_located h
    have hall : racepairs.filter (Located getDebugLoc ·) = racepairs :=
      List.filter_eq_self.mpr fun racepair hm => decide_eq_true (h racepair hm)
    refine ⟨races, hread, ?_, ?_, hall.symm ▸ hread⟩
    · intro race hrace
      obtain ⟨racepair, hm, hracepair⟩ := of_mem_readReport hread hrace
      exact ⟨racepair, hm, h racepair hm, hracepair⟩
    · exact fun racepair hm _ => exists_mem_readReport hread hm

namespace CompilerGenerated

/-- Of three instructions the second has no debug location, and the third is on a line 0. -/
def debugLoc : ℕ → Option DILocation
  | 0 => some ⟨"main.c", "", 7, 3, none⟩
  | 1 => none
  | _ => some ⟨"main.c", "", 0, 0, some (9, 1)⟩

lemma write_isAccess : EventType.write = .read ∨ EventType.write = .write := Or.inr rfl

lemma write_isWrite (inst : ℕ) : MemAccessEvent.type ⟨.write, inst, write_isAccess⟩ = .write := rfl

def write (inst : ℕ) : WriteEvent ℕ := ⟨⟨.write, inst, write_isAccess⟩, write_isWrite inst⟩

/-- The line 0 is corrected, and the pair without location stops the report instead of being skipped. -/
theorem readReport_stops :
    ((readReport debugLoc [(write 0, (write 2).val)]).map fun races =>
        races.elems.map fun race => race.second.location.map fun loc => (loc.line, loc.col)) = .ok [some (9, 1)] ∧
      ¬ ∃ races, KeepsLocated debugLoc [(write 0, (write 2).val), (write 0, (write 1).val)] races := by
  refine ⟨by decide +kernel, ?_⟩
  rintro ⟨races, hkeeps⟩
  have hread : readReport debugLoc [(write 0, (write 2).val), (write 0, (write 1).val)] = .error .location := rfl
  cases hread.symm.trans hkeeps.read

end CompilerGenerated

end OpenRace
