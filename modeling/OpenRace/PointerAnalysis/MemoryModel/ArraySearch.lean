import OpenRace.PointerAnalysis.MemoryModel.MarkedOffsets

/-! The search for an array at an offset among the nested arrays of a type. -/

namespace OpenRace

namespace ArrayLayout

def getSubArrayMap : ArrayLayout → SubArrays
  | mk _ _ _ subArrays => subArrays

end ArrayLayout

namespace SubArrays

def entries : SubArrays → List (ℕ × ArrayLayout)
  | nil => []
  | cons offset layout rest => (offset, layout) :: rest.entries

lemma sizeOf_lt_of_mem {entry : ℕ × ArrayLayout} : ∀ {arrays : SubArrays}, entry ∈ arrays.entries →
    sizeOf entry.2.getSubArrayMap < sizeOf arrays
  | nil, hm => absurd hm List.not_mem_nil
  | cons offset (.mk _ _ _ subArrays) rest, hm => by
    rw [SubArrays.cons.sizeOf_spec, ArrayLayout.mk.sizeOf_spec]
    rcases List.mem_cons.mp hm with rfl | hm
    · rw [ArrayLayout.getSubArrayMap]
      omega
    · have hlt := sizeOf_lt_of_mem hm
      omega

def mightNest (pOffset elementSize : ℕ) (entry : ℕ × ArrayLayout) : Bool :=
  entry.1 < pOffset && elementSize ≤ entry.1 + entry.2.getArraySize

def isArrayExistAtOffset (arrays : SubArrays) (pOffset elementSize : ℕ) : Bool :=
  match _hfound : arrays.entries.find? fun entry => entry.1 = pOffset with
  | some entry =>
    if entry.2.elementSize = elementSize then true
    else if entry.2.elementSize < elementSize then entry.2.elementSize = 1
    else isArrayExistAtOffset entry.2.getSubArrayMap 0 elementSize
  | none =>
    match _hnested : arrays.entries.find? (mightNest pOffset elementSize) with
    | some entry => isArrayExistAtOffset entry.2.getSubArrayMap (pOffset - entry.1) elementSize
    | none => false
termination_by arrays
decreasing_by
  · exact sizeOf_lt_of_mem (List.mem_of_find?_eq_some _hfound)
  · exact sizeOf_lt_of_mem (List.mem_of_find?_eq_some _hnested)

/-- An array at any depth, with its position summed along the arrays around it. -/
inductive HasArray : SubArrays → ℕ → ArrayLayout → Prop
  | here {arrays : SubArrays} {entry : ℕ × ArrayLayout} (h : entry ∈ arrays.entries) :
    HasArray arrays entry.1 entry.2
  | inside {arrays : SubArrays} {entry : ℕ × ArrayLayout} {offset : ℕ} {layout : ArrayLayout}
    (h : entry ∈ arrays.entries) (inner : HasArray entry.2.getSubArrayMap offset layout) :
    HasArray arrays (entry.1 + offset) layout

end SubArrays

/-- The arrays a step of this size goes through; a byte array takes steps of any size. -/
def ArrayLayout.HasStep (layout : ArrayLayout) (elementSize : ℕ) : Prop :=
  layout.elementSize = elementSize ∨ layout.elementSize = 1 ∧ 1 < elementSize

instance (layout : ArrayLayout) (elementSize : ℕ) : Decidable (layout.HasStep elementSize) :=
  inferInstanceAs (Decidable (_ ∨ _))

/-- An array around an offset, where the array before it in its map ends and how far inside the offset lies. -/
structure Enclosing where
  previousEnd : ℕ
  start : ℕ
  layout : ArrayLayout
  inner : ℕ

namespace Enclosing

def Hit (array : Enclosing) (elementSize : ℕ) : Prop := array.inner = 0 ∧ array.layout.HasStep elementSize

instance (array : Enclosing) (elementSize : ℕ) : Decidable (array.Hit elementSize) :=
  inferInstanceAs (Decidable (_ ∧ _))

/-- An array before the offset is looked into when it is the first in its map to end at `elementSize` or later. -/
def Passed (array : Enclosing) (elementSize : ℕ) : Prop :=
  if array.inner = 0 then elementSize < array.layout.elementSize
  else array.previousEnd < elementSize ∧ elementSize ≤ array.start + array.layout.getArraySize

end Enclosing

namespace SubArrays

mutual
def around : SubArrays → (previousEnd pOffset : ℕ) → List Enclosing
  | .nil, _, _ => []
  | .cons start layout rest, previousEnd, pOffset =>
    if pOffset < start then []
    else if pOffset < start + layout.getArraySize then
      ⟨previousEnd, start, layout, pOffset - start⟩ :: aroundIn layout (pOffset - start)
    else around rest (start + layout.getArraySize) pOffset

def aroundIn : ArrayLayout → ℕ → List Enclosing
  | .mk _ _ _ subArrays, pOffset => around subArrays 0 pOffset
end

def FindsArray (arrays : SubArrays) (pOffset elementSize : ℕ) : Prop :=
  arrays.isArrayExistAtOffset pOffset elementSize = true ↔
    ∃ layout, HasArray arrays pOffset layout ∧ layout.HasStep elementSize

/-- Every array around the offset lets the search through to the outermost one that it looks for. -/
def Unobstructed (arrays : SubArrays) (pOffset elementSize : ℕ) : Prop :=
  (∃ array ∈ arrays.around 0 pOffset, array.Hit elementSize) →
    ∀ array ∈ (arrays.around 0 pOffset).takeWhile fun array => ¬ array.Hit elementSize, array.Passed elementSize

mutual
/-- Arrays one after the other between two offsets, and the arrays of each element inside the element. -/
def Nests : SubArrays → (start stop : ℕ) → Prop
  | .nil, _, _ => True
  | .cons offset layout rest, start, stop =>
    start ≤ offset ∧ NestsIn layout ∧ offset + layout.getArraySize ≤ stop ∧
      Nests rest (offset + layout.getArraySize) stop

def NestsIn : ArrayLayout → Prop
  | .mk elementNum elementSize layoutSize subArrays =>
    0 < elementSize ∧ elementSize ≤ (ArrayLayout.mk elementNum elementSize layoutSize subArrays).getArraySize ∧
      Nests subArrays 0 elementSize
end

lemma NestsIn.sub {layout : ArrayLayout} (h : NestsIn layout) :
    0 < layout.getArraySize ∧ ∃ stop ≤ layout.getArraySize, layout.getSubArrayMap.Nests 0 stop := by
  cases layout with
  | mk elementNum elementSize layoutSize subArrays =>
    obtain ⟨hpos, hle, hsub⟩ := h
    exact ⟨hpos.trans_le hle, elementSize, hle, hsub⟩

lemma Nests.entry {entry : ℕ × ArrayLayout} : ∀ {arrays : SubArrays} {start stop : ℕ}, arrays.Nests start stop →
    entry ∈ arrays.entries → start ≤ entry.1 ∧ NestsIn entry.2 ∧ entry.1 + entry.2.getArraySize ≤ stop
  | nil, _, _, _, hm => absurd hm List.not_mem_nil
  | cons offset layout rest, start, stop, ⟨hstart, hlayout, hstop, hrest⟩, hm => by
    rcases List.mem_cons.mp hm with rfl | hm
    · exact ⟨hstart, hlayout, hstop⟩
    · obtain ⟨hle, hentry⟩ := hrest.entry hm
      exact ⟨by omega, hentry⟩

lemma HasArray.lt {arrays : SubArrays} {offset : ℕ} {layout : ArrayLayout} (h : HasArray arrays offset layout) :
    ∀ {start stop : ℕ}, arrays.Nests start stop → offset < stop := by
  induction h with
  | here hm =>
    intro start stop hn
    obtain ⟨-, hlayout, hstop⟩ := hn.entry hm
    have hpos := hlayout.sub.1
    omega
  | inside hm _ ih =>
    intro start stop hn
    obtain ⟨-, hlayout, hstop⟩ := hn.entry hm
    obtain ⟨-, size, hle, hsub⟩ := hlayout.sub
    have hlt := ih hsub
    omega

section Search

variable {arrays : SubArrays} {pOffset elementSize : ℕ} {entry : ℕ × ArrayLayout}

lemma search_found (h : (arrays.entries.find? fun entry => entry.1 = pOffset) = some entry) :
    arrays.isArrayExistAtOffset pOffset elementSize =
      if entry.2.elementSize = elementSize then true
      else if entry.2.elementSize < elementSize then entry.2.elementSize = 1
      else entry.2.getSubArrayMap.isArrayExistAtOffset 0 elementSize := by
  rw [isArrayExistAtOffset]
  split
  · next other hother =>
    obtain rfl : entry = other := Option.some.inj (h.symm.trans hother)
    rfl
  · next hnone =>
    rw [h] at hnone
    cases hnone

lemma search_nested (h : (arrays.entries.find? fun entry => entry.1 = pOffset) = none)
    (hn : arrays.entries.find? (mightNest pOffset elementSize) = some entry) :
    arrays.isArrayExistAtOffset pOffset elementSize =
      entry.2.getSubArrayMap.isArrayExistAtOffset (pOffset - entry.1) elementSize := by
  rw [isArrayExistAtOffset]
  split
  · next other hother =>
    rw [h] at hother
    cases hother
  · split
    · next other hother =>
      obtain rfl : entry = other := Option.some.inj (hn.symm.trans hother)
      rfl
    · next hnone =>
      rw [hn] at hnone
      cases hnone

lemma search_none (h : (arrays.entries.find? fun entry => entry.1 = pOffset) = none)
    (hn : arrays.entries.find? (mightNest pOffset elementSize) = none) :
    arrays.isArrayExistAtOffset pOffset elementSize = false := by
  rw [isArrayExistAtOffset]
  split
  · next other hother =>
    rw [h] at hother
    cases hother
  · split
    · next other hother =>
      rw [hn] at hother
      cases hother
    · rfl

end Search

theorem exists_of_search {arrays : SubArrays} {pOffset elementSize : ℕ}
    (h : arrays.isArrayExistAtOffset pOffset elementSize = true) :
    ∃ layout, HasArray arrays pOffset layout ∧ layout.HasStep elementSize := by
  induction arrays, pOffset using isArrayExistAtOffset.induct elementSize with
  | case1 arrays pOffset entry hfound heq =>
    obtain rfl : entry.1 = pOffset := by simpa using List.find?_some hfound
    exact ⟨entry.2, .here (List.mem_of_find?_eq_some hfound), .inl heq⟩
  | case2 arrays pOffset entry hfound hne hlt =>
    obtain rfl : entry.1 = pOffset := by simpa using List.find?_some hfound
    rw [search_found hfound, if_neg hne, if_pos hlt] at h
    have hbyte : entry.2.elementSize = 1 := of_decide_eq_true h
    exact ⟨entry.2, .here (List.mem_of_find?_eq_some hfound), .inr ⟨hbyte, by omega⟩⟩
  | case3 arrays pOffset entry hfound hne hge ih =>
    obtain rfl : entry.1 = pOffset := by simpa using List.find?_some hfound
    rw [search_found hfound, if_neg hne, if_neg hge] at h
    obtain ⟨layout, hinner, hstep⟩ := ih h
    exact ⟨layout, .inside (List.mem_of_find?_eq_some hfound) hinner, hstep⟩
  | case4 arrays pOffset hfound entry hnested ih =>
    rw [search_nested hfound hnested] at h
    obtain ⟨layout, hinner, hstep⟩ := ih h
    have hbefore := List.find?_some hnested
    rw [mightNest, Bool.and_eq_true, decide_eq_true_iff] at hbefore
    have hsum : entry.1 + (pOffset - entry.1) = pOffset := by omega
    exact ⟨layout, hsum ▸ .inside (List.mem_of_find?_eq_some hnested) hinner, hstep⟩
  | case5 arrays pOffset hfound hnested =>
    rw [search_none hfound hnested] at h
    cases h

structure Stands (arrays : SubArrays) (previousEnd pOffset : ℕ) (array : Enclosing) : Prop where
  split : ∃ before after, arrays.entries = before ++ (array.start, array.layout) :: after ∧
    (∀ entry ∈ before, entry.1 + entry.2.getArraySize ≤ array.previousEnd) ∧
    (array.previousEnd = previousEnd ∨ ∃ entry ∈ before, entry.1 + entry.2.getArraySize = array.previousEnd) ∧
    ∀ entry ∈ after, pOffset < entry.1
  previous : array.previousEnd ≤ array.start
  offset : pOffset = array.start + array.inner
  inside : array.inner < array.layout.getArraySize

lemma aroundIn_eq (layout : ArrayLayout) (pOffset : ℕ) :
    aroundIn layout pOffset = layout.getSubArrayMap.around 0 pOffset := by
  cases layout
  rw [aroundIn, ArrayLayout.getSubArrayMap]

lemma around_cases {pOffset : ℕ} : ∀ {arrays : SubArrays} {previousEnd stop : ℕ}, arrays.Nests previousEnd stop →
    (arrays.around previousEnd pOffset = [] ∧
        ∀ entry ∈ arrays.entries, pOffset < entry.1 ∨ entry.1 + entry.2.getArraySize ≤ pOffset) ∨
      ∃ array, arrays.around previousEnd pOffset =
          array :: array.layout.getSubArrayMap.around 0 array.inner ∧ Stands arrays previousEnd pOffset array
  | nil, _, _, _ => .inl ⟨rfl, fun _ hm => absurd hm List.not_mem_nil⟩
  | cons start layout rest, previousEnd, stop, ⟨hstart, hlayout, hstop, hrest⟩ => by
    have hlater : ∀ entry ∈ rest.entries, start + layout.getArraySize ≤ entry.1 :=
      fun entry hm => (hrest.entry hm).1
    rw [around]
    split
    · next hbefore =>
      refine .inl ⟨rfl, fun entry hm => .inl ?_⟩
      rcases List.mem_cons.mp hm with rfl | hm
      · exact hbefore
      · have hle := hlater entry hm
        omega
    · next hge =>
      split
      · next hlt =>
        refine .inr ⟨⟨previousEnd, start, layout, pOffset - start⟩, by rw [aroundIn_eq], ?_, hstart, ?_, ?_⟩
        · refine ⟨[], rest.entries, rfl, fun _ hm => absurd hm List.not_mem_nil, .inl rfl, fun entry hm => ?_⟩
          have hle := hlater entry hm
          omega
        · dsimp only
          omega
        · dsimp only
          omega
      · next hpast =>
        rcases around_cases hrest with ⟨hnone, hout⟩ | ⟨array, heq, ⟨before, after, hsplit, hends, hprev, hafter⟩, hle,
          hoffset, hinside⟩
        · refine .inl ⟨hnone, fun entry hm => ?_⟩
          rcases List.mem_cons.mp hm with rfl | hm
          · exact .inr (Nat.le_of_not_lt hpast)
          · exact hout entry hm
        · have hleast : start + layout.getArraySize ≤ array.previousEnd := by
            rcases hprev with hfirst | ⟨entry, hm, hend⟩
            · omega
            · have hin : entry ∈ rest.entries := hsplit ▸ List.mem_append_left _ hm
              have := hlater entry hin
              omega
          refine .inr ⟨array, heq, ⟨(start, layout) :: before, after, ?_, ?_, .inr ?_, hafter⟩, hle, hoffset, hinside⟩
          · rw [entries, hsplit, List.cons_append]
          · exact List.forall_mem_cons.mpr ⟨hleast, hends⟩
          · rcases hprev with hfirst | ⟨entry, hm, hend⟩
            · exact ⟨(start, layout), List.mem_cons_self, hfirst.symm⟩
            · exact ⟨entry, List.mem_cons_of_mem _ hm, hend⟩

section Stands

variable {arrays : SubArrays} {pOffset stop : ℕ} {array : Enclosing}

lemma Stands.mem (h : Stands arrays 0 pOffset array) : (array.start, array.layout) ∈ arrays.entries := by
  obtain ⟨before, after, hsplit, -⟩ := h.split
  rw [hsplit]
  exact List.mem_append_right _ List.mem_cons_self

lemma Stands.eq_of_mem (h : Stands arrays 0 pOffset array) {entry : ℕ × ArrayLayout}
    (hm : entry ∈ arrays.entries) (hle : entry.1 ≤ pOffset) (hlt : pOffset < entry.1 + entry.2.getArraySize) :
    entry = (array.start, array.layout) := by
  obtain ⟨before, after, hsplit, hends, -, hafter⟩ := h.split
  have hoffset := h.offset
  have hprevious := h.previous
  rw [hsplit, List.mem_append, List.mem_cons] at hm
  rcases hm with hm | hm | hm
  · have hend := hends entry hm
    omega
  · exact hm
  · have hgt := hafter entry hm
    omega

lemma Stands.passed_of_nested (h : Stands arrays 0 pOffset array) (hn : arrays.Nests 0 stop) {elementSize : ℕ}
    (hpos : 0 < elementSize) (hinner : array.inner ≠ 0) {entry : ℕ × ArrayLayout}
    (hfind : arrays.entries.find? (mightNest pOffset elementSize) = some entry) :
    entry = (array.start, array.layout) ∧ array.Passed elementSize ∨
      entry.1 + entry.2.getArraySize ≤ pOffset ∧ ¬ array.Passed elementSize := by
  obtain ⟨before, after, hsplit, hends, hprevious, hafter⟩ := h.split
  have hoffset := h.offset
  have hle := h.previous
  have hmight := List.find?_some hfind
  rw [mightNest, Bool.and_eq_true, decide_eq_true_iff, decide_eq_true_iff] at hmight
  rw [Enclosing.Passed, if_neg hinner]
  rw [hsplit, List.find?_append] at hfind
  cases hbefore : before.find? (mightNest pOffset elementSize) with
  | some other =>
    rw [hbefore, Option.some_or] at hfind
    cases hfind
    have hend := hends entry (List.mem_of_find?_eq_some hbefore)
    exact .inr ⟨by omega, by omega⟩
  | none =>
    rw [hbefore, Option.none_or, List.find?_cons] at hfind
    split at hfind
    · cases hfind
      refine .inl ⟨rfl, ?_, hmight.2⟩
      rcases hprevious with hfirst | ⟨other, hm, hend⟩
      · omega
      · have hout := List.find?_eq_none.mp hbefore other hm
        have hother := hn.entry (hsplit ▸ List.mem_append_left _ hm)
        have hsize := hother.2.1.sub.1
        rw [mightNest, Bool.and_eq_true, decide_eq_true_iff, decide_eq_true_iff] at hout
        omega
    · have hgt := hafter entry (List.mem_of_find?_eq_some hfind)
      omega

lemma Stands.sub (h : Stands arrays 0 pOffset array) (hn : arrays.Nests 0 stop) :
    ∃ size, array.layout.getSubArrayMap.Nests 0 size := by
  obtain ⟨-, size, -, hsub⟩ := (hn.entry h.mem).2.1.sub
  exact ⟨size, hsub⟩

end Stands

lemma around_start {arrays : SubArrays} {stop : ℕ} {entry : ℕ × ArrayLayout} (hn : arrays.Nests 0 stop)
    (hm : entry ∈ arrays.entries) :
    ∃ array, arrays.around 0 entry.1 = array :: array.layout.getSubArrayMap.around 0 0 ∧
      Stands arrays 0 entry.1 array ∧ array.layout = entry.2 ∧ array.inner = 0 := by
  have hsize := (hn.entry hm).2.1.sub.1
  rcases @around_cases entry.1 _ _ _ hn with ⟨-, hout⟩ | ⟨array, heq, hstands⟩
  · have hentry := hout entry hm
    omega
  · have hsame := hstands.eq_of_mem hm le_rfl (by omega)
    have hoffset := hstands.offset
    have hinner : array.inner = 0 := by
      rw [hsame] at hoffset
      omega
    exact ⟨array, by rw [heq, hinner], hstands, by rw [hsame], hinner⟩

lemma hit_of_hasArray {arrays : SubArrays} {pOffset elementSize : ℕ} {layout : ArrayLayout}
    (h : HasArray arrays pOffset layout) (hs : layout.HasStep elementSize) : ∀ {stop : ℕ}, arrays.Nests 0 stop →
    ∃ array ∈ arrays.around 0 pOffset, array.Hit elementSize := by
  induction h with
  | @here arrays entry hm =>
    intro stop hn
    obtain ⟨array, heq, -, hlayout, hinner⟩ := around_start hn hm
    refine ⟨array, ?_, hinner, hlayout ▸ hs⟩
    rw [heq]
    exact List.mem_cons_self
  | @inside arrays entry offset layout hm hinner ih =>
    intro stop hn
    obtain ⟨-, hlayout, -⟩ := hn.entry hm
    obtain ⟨-, size, hle, hsub⟩ := hlayout.sub
    have hlt := hinner.lt hsub
    rcases @around_cases (entry.1 + offset) _ _ _ hn with ⟨-, hout⟩ | ⟨array, heq, hstands⟩
    · have hentry := hout entry hm
      omega
    · have hsame := hstands.eq_of_mem hm (Nat.le_add_right _ _) (by omega)
      have hoffset := hstands.offset
      obtain ⟨found, hmem, hhit⟩ := ih hs hsub
      have hplace : array.inner = offset := by
        rw [hsame] at hoffset
        omega
      rw [hsame] at hmem
      refine ⟨found, ?_, hhit⟩
      rw [heq, hplace]
      exact List.mem_cons_of_mem _ hmem

lemma hasArray_of_hit {arrays : SubArrays} {pOffset stop : ℕ} (hn : arrays.Nests 0 stop) {found : Enclosing}
    {elementSize : ℕ} (hm : found ∈ arrays.around 0 pOffset) (hhit : found.Hit elementSize) :
    ∃ layout, HasArray arrays pOffset layout ∧ layout.HasStep elementSize := by
  rcases around_cases hn with ⟨hnone, -⟩ | ⟨array, heq, hstands⟩
  · rw [hnone] at hm
    cases hm
  · have hsize := sizeOf_lt_of_mem hstands.mem
    obtain ⟨size, hsub⟩ := hstands.sub hn
    rw [heq] at hm
    rw [hstands.offset]
    rcases List.mem_cons.mp hm with rfl | hm
    · rw [hhit.1]
      exact ⟨found.layout, .here hstands.mem, hhit.2⟩
    · obtain ⟨layout, hinner, hstep⟩ := hasArray_of_hit hsub hm hhit
      exact ⟨layout, .inside hstands.mem hinner, hstep⟩
termination_by arrays

lemma around_of_found {arrays : SubArrays} {pOffset stop : ℕ} {entry : ℕ × ArrayLayout} (hn : arrays.Nests 0 stop)
    (h : (arrays.entries.find? fun entry => entry.1 = pOffset) = some entry) :
    ∃ array, arrays.around 0 pOffset = array :: array.layout.getSubArrayMap.around 0 0 ∧
      Stands arrays 0 pOffset array ∧ array.layout = entry.2 ∧ array.inner = 0 := by
  have hm := List.mem_of_find?_eq_some h
  obtain rfl : entry.1 = pOffset := by simpa using List.find?_some h
  exact around_start hn hm

lemma not_search_beyond {layout : ArrayLayout} (h : NestsIn layout) {pOffset : ℕ}
    (hle : layout.getArraySize ≤ pOffset) (elementSize : ℕ) :
    ¬ layout.getSubArrayMap.isArrayExistAtOffset pOffset elementSize = true := by
  intro hsearch
  obtain ⟨-, size, hsize, hsub⟩ := h.sub
  obtain ⟨found, hfound, -⟩ := exists_of_search hsearch
  have hlt := hfound.lt hsub
  omega

lemma Stands.inner_ne_zero {arrays : SubArrays} {pOffset : ℕ} {array : Enclosing}
    (hs : Stands arrays 0 pOffset array) (h : (arrays.entries.find? fun entry => entry.1 = pOffset) = none) :
    array.inner ≠ 0 := by
  intro hz
  have hne := List.find?_eq_none.mp h _ hs.mem
  have hoffset := hs.offset
  simp at hne
  omega

def Leads (elementSize : ℕ) (way : List Enclosing) : Prop :=
  (∃ array ∈ way, array.Hit elementSize) ∧
    ∀ array ∈ way.takeWhile fun array => ¬ array.Hit elementSize, array.Passed elementSize

lemma not_leads_nil (elementSize : ℕ) : ¬ Leads elementSize [] := fun h => by simpa using h.1

lemma leads_of_hit {elementSize : ℕ} {array : Enclosing} (h : array.Hit elementSize) (way : List Enclosing) :
    Leads elementSize (array :: way) := by
  refine ⟨⟨array, List.mem_cons_self, h⟩, ?_⟩
  rw [List.takeWhile_cons_of_neg (by simpa using h)]
  exact fun _ hm => absurd hm List.not_mem_nil

lemma leads_cons {elementSize : ℕ} {array : Enclosing} (h : ¬ array.Hit elementSize) (way : List Enclosing) :
    Leads elementSize (array :: way) ↔ array.Passed elementSize ∧ Leads elementSize way := by
  rw [Leads, Leads, List.takeWhile_cons_of_pos (by simpa using h), List.forall_mem_cons]
  simp only [List.exists_mem_cons_iff, h, false_or]
  exact and_left_comm

theorem search_iff {arrays : SubArrays} {pOffset elementSize : ℕ} (hpos : 0 < elementSize) :
    ∀ {stop : ℕ}, arrays.Nests 0 stop →
    (arrays.isArrayExistAtOffset pOffset elementSize = true ↔ Leads elementSize (arrays.around 0 pOffset)) := by
  induction arrays, pOffset using isArrayExistAtOffset.induct elementSize with
  | case1 arrays pOffset entry hfound heq =>
    intro stop hn
    obtain ⟨array, haround, -, hlayout, hinner⟩ := around_of_found hn hfound
    rw [search_found hfound, if_pos heq, haround]
    exact iff_of_true rfl (leads_of_hit ⟨hinner, .inl (hlayout ▸ heq)⟩ _)
  | case2 arrays pOffset entry hfound hne hlt =>
    intro stop hn
    obtain ⟨array, haround, -, hlayout, hinner⟩ := around_of_found hn hfound
    rw [search_found hfound, if_neg hne, if_pos hlt, haround, decide_eq_true_iff]
    by_cases hbyte : entry.2.elementSize = 1
    · exact iff_of_true hbyte (leads_of_hit ⟨hinner, .inr ⟨hlayout ▸ hbyte, by omega⟩⟩ _)
    · have hmiss : ¬ array.Hit elementSize := by
        rintro ⟨-, hsame | ⟨hone, -⟩⟩
        · exact hne (hlayout ▸ hsame)
        · exact hbyte (hlayout ▸ hone)
      rw [leads_cons hmiss, Enclosing.Passed, if_pos hinner, hlayout]
      exact iff_of_false hbyte fun h => Nat.lt_asymm hlt h.1
  | case3 arrays pOffset entry hfound hne hge ih =>
    intro stop hn
    obtain ⟨array, haround, hstands, hlayout, hinner⟩ := around_of_found hn hfound
    obtain ⟨size, hsub⟩ := hstands.sub hn
    have hmiss : ¬ array.Hit elementSize := by
      rintro ⟨-, hsame | ⟨hone, hlt⟩⟩
      · exact hne (hlayout ▸ hsame)
      · rw [hlayout] at hone
        omega
    rw [hlayout] at hsub haround
    rw [search_found hfound, if_neg hne, if_neg hge, ih hsub, haround, leads_cons hmiss, Enclosing.Passed,
      if_pos hinner, hlayout]
    exact (and_iff_right (by omega)).symm
  | case4 arrays pOffset hfound entry hnested ih =>
    intro stop hn
    rw [search_nested hfound hnested]
    have hm := List.mem_of_find?_eq_some hnested
    have hlayout := (hn.entry hm).2.1
    have hmight := List.find?_some hnested
    rw [mightNest, Bool.and_eq_true, decide_eq_true_iff] at hmight
    rcases around_cases hn with ⟨hnone, hout⟩ | ⟨array, haround, hstands⟩
    · have hentry := hout entry hm
      rw [hnone]
      exact iff_of_false (not_search_beyond hlayout (by omega) _) (not_leads_nil _)
    · have hinner := hstands.inner_ne_zero hfound
      have hmiss : ¬ array.Hit elementSize := fun h => hinner h.1
      rw [haround, leads_cons hmiss]
      rcases hstands.passed_of_nested hn hpos hinner hnested with ⟨hsame, hpassed⟩ | ⟨hend, hblocked⟩
      · obtain ⟨size, hsub⟩ := hstands.sub hn
        have hplace : pOffset - entry.1 = array.inner := by
          have hoffset := hstands.offset
          rw [hsame]
          omega
        rw [hplace, hsame] at ih ⊢
        rw [ih hsub]
        exact (and_iff_right hpassed).symm
      · exact iff_of_false (not_search_beyond hlayout (by omega) _) fun h => hblocked h.1
  | case5 arrays pOffset hfound hnested =>
    intro stop hn
    rw [search_none hfound hnested]
    rcases around_cases hn with ⟨hnone, -⟩ | ⟨array, haround, hstands⟩
    · rw [hnone]
      exact iff_of_false Bool.false_ne_true (not_leads_nil _)
    · have hinner := hstands.inner_ne_zero hfound
      have hmiss : ¬ array.Hit elementSize := fun h => hinner h.1
      have hout := List.find?_eq_none.mp hnested _ hstands.mem
      have hoffset := hstands.offset
      rw [mightNest, Bool.and_eq_true, decide_eq_true_iff, decide_eq_true_iff] at hout
      rw [haround, leads_cons hmiss, Enclosing.Passed, if_neg hinner]
      exact iff_of_false Bool.false_ne_true fun h => hout ⟨by omega, h.1.2⟩

theorem findsArray_iff {arrays : SubArrays} {stop : ℕ} (hn : arrays.Nests 0 stop) (pOffset : ℕ) {elementSize : ℕ}
    (hpos : 0 < elementSize) : arrays.FindsArray pOffset elementSize ↔ arrays.Unobstructed pOffset elementSize := by
  have hexists : (∃ layout, HasArray arrays pOffset layout ∧ layout.HasStep elementSize) ↔
      ∃ array ∈ arrays.around 0 pOffset, array.Hit elementSize := by
    constructor
    · rintro ⟨layout, harray, hstep⟩
      exact hit_of_hasArray harray hstep hn
    · rintro ⟨array, hm, hhit⟩
      exact hasArray_of_hit hn hm hhit
  rw [FindsArray, Unobstructed, search_iff hpos hn, hexists, Leads]
  exact and_iff_left_iff_imp

lemma Nests.mono {start start' stop stop' : ℕ} (hs : start' ≤ start) (he : stop ≤ stop') :
    ∀ {arrays : SubArrays}, arrays.Nests start stop → arrays.Nests start' stop'
  | nil, _ => trivial
  | cons _ _ _, ⟨hstart, hlayout, hstop, hrest⟩ =>
    ⟨hs.trans hstart, hlayout, hstop.trans he, hrest.mono le_rfl he⟩

lemma Nests.shift (n : ℕ) : ∀ {arrays : SubArrays} {start stop : ℕ}, arrays.Nests start stop →
    (arrays.shift n).Nests (start + n) (stop + n)
  | nil, _, _, _ => trivial
  | cons _ _ _, _, _, ⟨hstart, hlayout, hstop, hrest⟩ =>
    ⟨Nat.add_le_add_right hstart n, hlayout, by omega, (hrest.shift n).mono (by omega) le_rfl⟩

lemma Nests.append {middle stop : ℕ} {arrays' : SubArrays} (h' : arrays'.Nests middle stop) (he : middle ≤ stop) :
    ∀ {arrays : SubArrays} {start : ℕ}, arrays.Nests start middle → start ≤ middle →
    (arrays.append arrays').Nests start stop
  | nil, _, _, hs => h'.mono hs le_rfl
  | cons _ _ _, _, ⟨hstart, hlayout, hstop, hrest⟩, _ =>
    ⟨hstart, hlayout, hstop.trans he, h'.append he hrest hstop⟩

end SubArrays

namespace LLVMType

open SubArrays

mutual
theorem arrays_nests : ∀ {type : LLVMType}, type.WellFormed → type.allocSize < UInt64.size →
    type.arrays.Nests 0 type.allocSize
  | scalar .., _, _ => trivial
  | array numElements element, hw, hb => by
    have helement : element.WellFormed := hw
    rw [arrays]
    split
    · trivial
    · next hp =>
      have hpos := Nat.pos_of_ne_zero hp
      have hnum : 0 < numElements := Nat.pos_of_mul_pos_right hpos
      have hle : element.allocSize ≤ numElements * element.allocSize := Nat.le_mul_of_pos_left _ hnum
      have hsize := getArraySize_eq element.foldedSize element.arrays hb hpos
      have hinner := arrays_nests helement (hle.trans_lt hb)
      refine ⟨le_rfl, ⟨Nat.pos_of_mul_pos_left hpos, ?_, hinner⟩, ?_, trivial⟩
      · rw [hsize]
        exact hle
      · rw [hsize, allocSize, Nat.zero_add]
  | struct _ fields size, hw, hb => by
    rw [arrays]
    split
    · trivial
    · exact fieldArrays_nests hw hb

theorem fieldArrays_nests : ∀ {fields : StructFields} {start size : ℕ}, FieldsFrom start size fields →
    size < UInt64.size → (fieldArrays fields).Nests start size
  | .nil, _, _, _, _ => trivial
  | .cons offset field rest, start, size, ⟨hstart, hfield, hrest⟩, hb => by
    have hle := le_of_fieldsFrom hrest
    have hinner := (arrays_nests hfield (by omega)).shift offset
    rw [fieldArrays]
    exact (fieldArrays_nests hrest hb).append hle (hinner.mono (by omega) (by omega)) (by omega)
end

end LLVMType

open MemLayoutManager

/-- In the layouts of any types, the search is right where no array obstructs it. -/
theorem getLayouts_findsArray_iff (requests : List AggregateType) :
    ∃ layouts, getLayouts (requests.map (·.type)) [] = some layouts ∧
      List.Forall₂ (fun layout _ => ∀ pOffset, ∀ elementSize > 0,
        (layout.subArrays.FindsArray pOffset elementSize ↔ layout.subArrays.Unobstructed pOffset elementSize))
        layouts requests := by
  obtain ⟨layouts, heq, hall⟩ := getLayouts_laid requests known_nil allLaid_nil
  refine ⟨layouts, heq, hall.imp ?_⟩
  intro layout request ⟨_, hlaid⟩ pOffset elementSize hpos
  rw [hlaid.arrays]
  exact SubArrays.findsArray_iff (LLVMType.arrays_nests request.wellFormed request.bounded) pOffset hpos

namespace SiblingArrays

def word : LLVMType := .scalar false "i32" 4

def record : LLVMType := .struct "record" (.cons 0 word (.cons 4 (.array 2 word) .nil)) 12

/-- Ten words, then five records of a word and an array of two words. -/
def siblings : LLVMType := .struct "siblings" (.cons 0 (.array 10 word) (.cons 40 (.array 5 record) .nil)) 100

/-- The search for the array of words in the first record goes into the ten words. -/
theorem siblings_not_found : siblings.Canonical 44 ∧ ∃ layout, getLayouts [siblings] [] = some [layout] ∧
    ¬ layout.subArrays.FindsArray 44 4 := by
  refine ⟨by simp [siblings, record, word, LLVMType.Canonical, LLVMType.CanonicalAmong, LLVMType.allocSize],
    _, rfl, fun h => ?_⟩
  have hrecords : (40, ArrayLayout.mk 5 12 8 record.arrays) ∈ siblings.arrays.entries :=
    List.mem_cons_of_mem _ List.mem_cons_self
  have hwords : (4, ArrayLayout.mk 2 4 4 .nil) ∈ record.arrays.entries := List.mem_cons_self
  have hsearch : siblings.arrays.isArrayExistAtOffset 44 4 = false := by
    rw [SubArrays.search_nested rfl rfl]
    exact SubArrays.search_none rfl rfl
  have hfound := h.mpr ⟨_, .inside hrecords (.here hwords), .inl rfl⟩
  exact Bool.false_ne_true (hsearch.symm.trans hfound)

end SiblingArrays

end OpenRace
