import OpenRace.PointerAnalysis.MemoryModel.LayoutFolding

/-! Folding commutes with additions that leave no array around the offset. -/

namespace OpenRace

namespace LLVMType

abbrev ArrayInstance := ℕ × ℕ

def ArrayInstance.shift (n : ℕ) (array : ArrayInstance) : ArrayInstance := (array.1 + n, array.2 + n)

mutual
def arraysAround : LLVMType → ℕ → List ArrayInstance
  | scalar .., _ => []
  | array numElements element, offset =>
    (0, numElements * element.allocSize) ::
      (element.arraysAround (offset % element.allocSize)).map
        (ArrayInstance.shift (offset / element.allocSize * element.allocSize))
  | struct _ fields _, offset => arraysAmong fields offset

def arraysAmong : StructFields → ℕ → List ArrayInstance
  | .nil, _ => []
  | .cons start field rest, offset =>
    if offset < start then []
    else if offset < start + field.allocSize then
      (field.arraysAround (offset - start)).map (ArrayInstance.shift start)
    else arraysAmong rest offset
end

def Inside (arrays : List ArrayInstance) (offset : ℕ) : Prop :=
  ∀ array ∈ arrays, array.1 ≤ offset ∧ offset < array.2

/-- Moving on by `b` leaves none of the arrays around the offset. -/
def SameArrays (type : LLVMType) (offset b : ℕ) : Prop := Inside (type.arraysAround offset) (offset + b)

lemma Inside.of_shift {arrays : List ArrayInstance} {n offset : ℕ}
    (h : Inside (arrays.map (ArrayInstance.shift n)) (n + offset)) : Inside arrays offset := by
  intro array hm
  obtain ⟨hstart, hend⟩ := h _ (List.mem_map_of_mem hm)
  dsimp only [ArrayInstance.shift] at hstart hend
  omega

mutual
theorem arraysAround_le : ∀ {type : LLVMType} {offset : ℕ}, type.WellFormed → offset < type.allocSize →
    ∀ array ∈ type.arraysAround offset, array.2 ≤ type.allocSize
  | scalar .., _, _, _ => by simp [arraysAround]
  | array numElements element, offset, hw, h => by
    obtain ⟨-, hlt, hdiv⟩ := element_pos h
    have helement : element.WellFormed := hw
    intro array hm
    rw [arraysAround, List.mem_cons] at hm
    rcases hm with rfl | hm
    · exact le_rfl
    · obtain ⟨inner, hin, rfl⟩ := List.mem_map.mp hm
      have hle := arraysAround_le helement hlt inner hin
      calc inner.2 + offset / element.allocSize * element.allocSize
          ≤ element.allocSize + offset / element.allocSize * element.allocSize := Nat.add_le_add_right hle _
        _ = (offset / element.allocSize + 1) * element.allocSize := by rw [Nat.succ_mul, Nat.add_comm]
        _ ≤ numElements * element.allocSize := Nat.mul_le_mul_right _ hdiv
  | struct _ fields size, offset, hw, _ => by
    rw [arraysAround, allocSize]
    exact arraysAmong_le hw

theorem arraysAmong_le : ∀ {fields : StructFields} {start size offset : ℕ}, FieldsFrom start size fields →
    ∀ array ∈ arraysAmong fields offset, array.2 ≤ size
  | .nil, _, _, _, _ => by simp [arraysAmong]
  | .cons start field rest, _, size, offset, ⟨_, hfield, hrest⟩ => by
    rw [arraysAmong]
    split
    · simp
    · split
      · intro array hm
        obtain ⟨inner, hin, rfl⟩ := List.mem_map.mp hm
        have hle := arraysAround_le hfield (by omega) inner hin
        have hend := le_of_fieldsFrom hrest
        dsimp only [ArrayInstance.shift]
        omega
      · exact arraysAmong_le hrest
end

mutual
theorem fold_of_no_arrays : ∀ {type : LLVMType} {offset : ℕ}, type.arraysAround offset = [] →
    type.fold offset = offset
  | scalar .., _, _ => by simp [fold]
  | array _ _, _, h => by simp [arraysAround] at h
  | struct _ fields _, _, h => by
    rw [fold]
    rw [arraysAround] at h
    exact foldAmong_of_no_arrays h

theorem foldAmong_of_no_arrays : ∀ {fields : StructFields} {offset : ℕ}, arraysAmong fields offset = [] →
    foldAmong fields offset = offset
  | .nil, _, _ => by simp [foldAmong]
  | .cons start field rest, offset, h => by
    rw [arraysAmong] at h
    rw [foldAmong]
    split
    · rfl
    · next hge =>
      rw [if_neg hge] at h
      split
      · next hlt =>
        rw [if_pos hlt, List.map_eq_nil_iff] at h
        rw [fold_of_no_arrays h]
        omega
      · next hout =>
        rw [if_neg hout] at h
        exact foldAmong_of_no_arrays h
end

lemma SameArrays.cases {type : LLVMType} {offset b : ℕ} (hw : type.WellFormed) (hlt : offset < type.allocSize)
    (h : type.SameArrays offset b) : type.fold offset = offset ∨ offset + b < type.allocSize := by
  cases harrays : type.arraysAround offset with
  | nil => exact .inl (fold_of_no_arrays harrays)
  | cons array rest =>
    have hm : array ∈ type.arraysAround offset := harrays ▸ List.mem_cons_self
    exact .inr ((h array hm).2.trans_le (arraysAround_le hw hlt array hm))

mutual
theorem fold_add : ∀ {type : LLVMType} {offset b : ℕ}, type.WellFormed → offset < type.allocSize →
    type.SameArrays offset b → type.fold (type.fold offset + b) = type.fold (offset + b)
  | scalar .., _, _, _, _, _ => by simp [fold]
  | array _ element, offset, b, hw, h, hs => by
    obtain ⟨-, hlt, -⟩ := element_pos h
    have helement : element.WellFormed := hw
    have hsum := Nat.div_add_mod' offset element.allocSize
    have hinner : element.SameArrays (offset % element.allocSize) b := by
      rw [SameArrays, arraysAround, ← hsum, Nat.add_assoc, hsum] at hs
      exact Inside.of_shift fun array hm => hs array (List.mem_cons_of_mem _ hm)
    rw [fold, fold, fold, ← Nat.mod_add_mod offset]
    rcases hinner.cases helement hlt with hsame | hstays
    · rw [hsame]
    · have hle := fold_le element (offset % element.allocSize)
      rw [Nat.mod_eq_of_lt hstays, Nat.mod_eq_of_lt (by omega)]
      exact fold_add helement hlt hinner
  | struct _ fields _, _, _, hw, _, hs => by
    rw [fold, fold, fold]
    exact foldAmong_add hw hs

theorem foldAmong_add : ∀ {fields : StructFields} {start size offset b : ℕ}, FieldsFrom start size fields →
    Inside (arraysAmong fields offset) (offset + b) →
    foldAmong fields (foldAmong fields offset + b) = foldAmong fields (offset + b)
  | .nil, _, _, _, _, _, _ => by simp [foldAmong]
  | .cons start field rest, _, _, offset, b, ⟨_, hfield, hrest⟩, hs => by
    by_cases hpad : offset < start
    · have hsame : foldAmong (.cons start field rest) offset = offset := by rw [foldAmong, if_pos hpad]
      rw [hsame]
    · by_cases hin : offset < start + field.allocSize
      · have hfold : foldAmong (.cons start field rest) offset = start + field.fold (offset - start) := by
          rw [foldAmong, if_neg hpad, if_pos hin]
        have hle := fold_le field (offset - start)
        have hinner : field.SameArrays (offset - start) b := by
          have hmove : offset + b = start + (offset - start + b) := by omega
          rw [arraysAmong, if_neg hpad, if_pos hin, hmove] at hs
          exact Inside.of_shift hs
        rcases hinner.cases hfield (by omega) with hsame | hstays
        · rw [hfold, hsame, Nat.add_sub_of_le (Nat.le_of_not_lt hpad)]
        · have hsub : start + field.fold (offset - start) + b - start = field.fold (offset - start) + b := by omega
          have hsub' : offset + b - start = offset - start + b := by omega
          rw [hfold, foldAmong, foldAmong, if_neg (by omega), if_pos (by omega), if_neg (by omega),
            if_pos (by omega), hsub, hsub', fold_add hfield (by omega) hinner]
      · have hge := le_foldAmong (Nat.le_of_not_lt hin) hrest
        have hfold : foldAmong (.cons start field rest) offset = foldAmong rest offset := by
          rw [foldAmong, if_neg hpad, if_neg hin]
        rw [arraysAmong, if_neg hpad, if_neg hin] at hs
        rw [hfold, foldAmong, foldAmong, if_neg (by omega), if_neg (by omega), if_neg (by omega),
          if_neg (by omega)]
        exact foldAmong_add hrest hs
end

/-- Leaving an inner array for the next element of the outer one is lost. -/
example :
    let inner := array 2 (scalar false "i32" 4)
    let outer := array 2 (struct "S" (.cons 0 (scalar false "i32" 4) (.cons 4 inner .nil)) 12)
    outer.fold (outer.fold 8 + 4) ≠ outer.fold (8 + 4) := by decide

lemma foldedOffset_add {type : LLVMType} {offset b : ℕ} (hw : type.WellFormed) (hlt : offset + b < type.allocSize)
    (hs : type.SameArrays offset b) : type.foldedOffset (type.fold offset + b) = type.foldedOffset (offset + b) := by
  have hle := fold_le type offset
  rw [← foldedOffset_fold hw hlt, ← fold_add hw (by omega) hs, foldedOffset_fold hw (by omega)]

end LLVMType

namespace MemLayoutManager

lemma LayoutOf.index_add {layout : MemLayout} {type : LLVMType} (h : LayoutOf layout type)
    (hw : type.WellFormed) {pOffset b : ℕ} (hlt : pOffset < type.allocSize) (hs : type.SameArrays pOffset b) :
    layout.indexPhysicalOffset (type.fold pOffset + b) = layout.indexPhysicalOffset (pOffset + b) := by
  rcases hs.cases hw hlt with hsame | hstays
  · rw [hsame]
  · have hle := LLVMType.fold_le type pOffset
    rw [h.index hstays, h.index (by omega), LLVMType.fold_add hw hlt hs, LLVMType.foldedOffset_add hw hstays hs]

end MemLayoutManager

end OpenRace
