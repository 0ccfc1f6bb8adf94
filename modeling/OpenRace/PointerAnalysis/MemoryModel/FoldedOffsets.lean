import OpenRace.LLVM.DataLayout
import Mathlib.Algebra.Order.Group.Nat

/-! Folding every array of a type onto its first element, and numbering the offsets that remain. -/

namespace OpenRace

namespace LLVMType

mutual
def fold : LLVMType → ℕ → ℕ
  | scalar .., offset => offset
  | array _ element, offset => element.fold (offset % element.allocSize)
  | struct _ fields _, offset => foldAmong fields offset

def foldAmong : StructFields → ℕ → ℕ
  | .nil, offset => offset
  | .cons start field rest, offset =>
    if offset < start then offset
    else if offset < start + field.allocSize then start + field.fold (offset - start)
    else foldAmong rest offset
end

mutual
def foldedSize : LLVMType → ℕ
  | scalar _ _ size => size
  | array numElements element => if numElements * element.allocSize = 0 then 0 else element.foldedSize
  | struct _ fields size => foldedEnd size fields 0 0

def foldedEnd (size : ℕ) : StructFields → (folded start : ℕ) → ℕ
  | .nil, folded, start => folded + (size - start)
  | .cons offset field rest, folded, start =>
    foldedEnd size rest (folded + (offset - start) + field.foldedSize) (offset + field.allocSize)
end

mutual
def foldedOffset : LLVMType → ℕ → ℕ
  | scalar .., offset => offset
  | array _ element, offset => element.foldedOffset (offset % element.allocSize)
  | struct _ fields _, offset => foldedAmong fields 0 0 offset

def foldedAmong : StructFields → (folded start offset : ℕ) → ℕ
  | .nil, folded, start, offset => folded + (offset - start)
  | .cons fieldOffset field rest, folded, start, offset =>
    if offset < fieldOffset then folded + (offset - start)
    else if offset < fieldOffset + field.allocSize then
      folded + (fieldOffset - start) + field.foldedOffset (offset - fieldOffset)
    else foldedAmong rest (folded + (fieldOffset - start) + field.foldedSize) (fieldOffset + field.allocSize) offset
end

mutual
theorem fold_le : ∀ (type : LLVMType) (offset : ℕ), type.fold offset ≤ offset
  | scalar .., offset => by simp [fold]
  | array _ element, offset => by
    rw [fold]
    exact (fold_le element _).trans (Nat.mod_le _ _)
  | struct _ fields _, offset => by
    rw [fold]
    exact foldAmong_le fields offset

theorem foldAmong_le : ∀ (fields : StructFields) (offset : ℕ), foldAmong fields offset ≤ offset
  | .nil, offset => by simp [foldAmong]
  | .cons start field rest, offset => by
    have hfield := fold_le field (offset - start)
    have hrest := foldAmong_le rest offset
    rw [foldAmong]
    split
    · exact le_rfl
    · split <;> omega
end

lemma element_pos {numElements size offset : ℕ} (h : offset < numElements * size) :
    0 < size ∧ offset % size < size ∧ offset / size < numElements := by
  have hpos : 0 < size := Nat.pos_of_mul_pos_left (Nat.zero_lt_of_lt h)
  exact ⟨hpos, Nat.mod_lt _ hpos, (Nat.div_lt_iff_lt_mul hpos).mpr h⟩

lemma le_foldAmong {start size offset : ℕ} (h : start ≤ offset) : ∀ {fields : StructFields},
    FieldsFrom start size fields → start ≤ foldAmong fields offset
  | .nil, _ => by simpa [foldAmong] using h
  | .cons fieldOffset field rest, hw => by
    obtain ⟨hstart, -, hrest⟩ := hw
    rw [foldAmong]
    split
    · exact h
    · next hge =>
      split
      · omega
      · next hend =>
        have hle := le_foldAmong (Nat.le_of_not_lt hend) hrest
        omega

mutual
theorem canonical_fold : ∀ {type : LLVMType} {offset : ℕ}, type.WellFormed → offset < type.allocSize →
    type.Canonical (type.fold offset)
  | scalar .., offset, _, _ => by simp [Canonical]
  | array _ element, offset, hw, h => by
    obtain ⟨-, hlt, -⟩ := element_pos h
    rw [fold, Canonical]
    exact ⟨(fold_le element _).trans_lt hlt, canonical_fold hw hlt⟩
  | struct _ fields _, offset, hw, _ => by
    rw [fold, Canonical]
    exact canonicalAmong_fold hw

theorem canonicalAmong_fold : ∀ {fields : StructFields} {start size offset : ℕ}, FieldsFrom start size fields →
    CanonicalAmong fields (foldAmong fields offset)
  | .nil, _, _, offset, _ => by simp [CanonicalAmong]
  | .cons start field rest, _, _, offset, ⟨_, hfield, hrest⟩ => by
    rw [foldAmong]
    split
    · next h => rw [CanonicalAmong, if_pos h]; trivial
    · split
      · next h hlt =>
        have hfold := fold_le field (offset - start)
        rw [CanonicalAmong, if_neg (by omega), if_pos (by omega), Nat.add_sub_cancel_left]
        exact canonical_fold hfield (by omega)
      · next h hlt =>
        have hge := le_foldAmong (Nat.le_of_not_lt hlt) hrest
        rw [CanonicalAmong, if_neg (by omega), if_neg (by omega)]
        exact canonicalAmong_fold hrest
end

mutual
theorem fold_of_canonical : ∀ {type : LLVMType} {offset : ℕ}, type.Canonical offset → type.fold offset = offset
  | scalar .., _, _ => by simp [fold]
  | array _ element, offset, ⟨hlt, hc⟩ => by
    rw [fold, Nat.mod_eq_of_lt hlt]
    exact fold_of_canonical hc
  | struct _ fields _, offset, hc => by
    rw [fold]
    exact foldAmong_of_canonical hc

theorem foldAmong_of_canonical : ∀ {fields : StructFields} {offset : ℕ}, CanonicalAmong fields offset →
    foldAmong fields offset = offset
  | .nil, _, _ => by simp [foldAmong]
  | .cons start field rest, offset, hc => by
    rw [CanonicalAmong] at hc
    rw [foldAmong]
    split
    · rfl
    · next hge =>
      rw [if_neg hge] at hc
      split
      · next hlt =>
        rw [if_pos hlt] at hc
        rw [fold_of_canonical hc]
        omega
      · next hend =>
        rw [if_neg hend] at hc
        exact foldAmong_of_canonical hc
end

mutual
theorem byteAt_fold : ∀ {type : LLVMType} {offset : ℕ}, type.WellFormed → offset < type.allocSize →
    type.byteAt (type.fold offset) = type.byteAt offset
  | scalar .., _, _, _ => by simp [fold]
  | array numElements element, offset, hw, h => by
    obtain ⟨hpos, hlt, hdiv⟩ := element_pos h
    have hfold := (fold_le element (offset % element.allocSize)).trans_lt hlt
    have hnum : 0 < numElements := Nat.zero_lt_of_lt hdiv
    rw [fold, byteAt, byteAt, if_pos hdiv, Nat.div_eq_of_lt hfold, if_pos hnum, Nat.mod_eq_of_lt hfold]
    exact byteAt_fold hw hlt
  | struct _ fields _, offset, hw, _ => by
    rw [fold, byteAt, byteAt]
    exact byteAmong_fold hw

theorem byteAmong_fold : ∀ {fields : StructFields} {start size offset : ℕ}, FieldsFrom start size fields →
    byteAmong fields (foldAmong fields offset) = byteAmong fields offset
  | .nil, _, _, _, _ => by simp [foldAmong]
  | .cons start field rest, _, _, offset, ⟨_, hfield, hrest⟩ => by
    rw [foldAmong]
    split
    · rfl
    · split
      · next h hlt =>
        have hfold := fold_le field (offset - start)
        rw [byteAmong, byteAmong, if_neg (by omega), if_pos (by omega), if_neg h, if_pos hlt,
          Nat.add_sub_cancel_left]
        exact byteAt_fold hfield (by omega)
      · next h hlt =>
        have hge := le_foldAmong (Nat.le_of_not_lt hlt) hrest
        rw [byteAmong, byteAmong, if_neg (by omega), if_neg (by omega), if_neg h, if_neg hlt]
        exact byteAmong_fold hrest
end

mutual
theorem foldedOffset_fold : ∀ {type : LLVMType} {offset : ℕ}, type.WellFormed → offset < type.allocSize →
    type.foldedOffset (type.fold offset) = type.foldedOffset offset
  | scalar .., _, _, _ => by simp [fold]
  | array numElements element, offset, hw, h => by
    obtain ⟨-, hlt, -⟩ := element_pos h
    have hfold := (fold_le element (offset % element.allocSize)).trans_lt hlt
    rw [fold, foldedOffset, foldedOffset, Nat.mod_eq_of_lt hfold]
    exact foldedOffset_fold hw hlt
  | struct _ fields _, offset, hw, _ => by
    rw [fold, foldedOffset, foldedOffset]
    exact foldedAmong_fold hw

theorem foldedAmong_fold : ∀ {fields : StructFields} {start size folded first offset : ℕ},
    FieldsFrom start size fields →
    foldedAmong fields folded first (foldAmong fields offset) = foldedAmong fields folded first offset
  | .nil, _, _, _, _, _, _ => by simp [foldAmong]
  | .cons start field rest, _, _, _, _, offset, ⟨_, hfield, hrest⟩ => by
    rw [foldAmong]
    split
    · rfl
    · split
      · next h hlt =>
        have hfold := fold_le field (offset - start)
        rw [foldedAmong, foldedAmong, if_neg (by omega), if_pos (by omega), if_neg h, if_pos hlt,
          Nat.add_sub_cancel_left, foldedOffset_fold hfield (by omega)]
      · next h hlt =>
        have hge := le_foldAmong (Nat.le_of_not_lt hlt) hrest
        rw [foldedAmong, foldedAmong, if_neg (by omega), if_neg (by omega), if_neg h, if_neg hlt]
        exact foldedAmong_fold hrest
end

mutual
theorem foldedSize_le : ∀ {type : LLVMType}, type.WellFormed → type.foldedSize ≤ type.allocSize
  | scalar .., _ => by simp [foldedSize, allocSize]
  | array numElements element, hw => by
    have helement : element.foldedSize ≤ element.allocSize := foldedSize_le hw
    rw [foldedSize, allocSize]
    split
    · exact Nat.zero_le _
    · next hne =>
      have hnum : 0 < numElements := Nat.pos_of_ne_zero fun h => hne (by rw [h, Nat.zero_mul])
      exact helement.trans (Nat.le_mul_of_pos_left _ hnum)
  | struct _ fields size, hw => by
    rw [foldedSize, allocSize]
    exact foldedEnd_le hw (Nat.le_refl 0)

theorem foldedEnd_le : ∀ {fields : StructFields} {start size folded : ℕ}, FieldsFrom start size fields →
    folded ≤ start → foldedEnd size fields folded start ≤ size
  | .nil, start, size, folded, hw, h => by
    have hle : start ≤ size := hw
    rw [foldedEnd]
    omega
  | .cons offset field rest, start, size, folded, ⟨hstart, hfield, hrest⟩, h => by
    have hle := foldedSize_le hfield
    rw [foldedEnd]
    exact foldedEnd_le hrest (by omega)
end

lemma le_foldedEnd (size : ℕ) : ∀ (fields : StructFields) (folded start : ℕ),
    folded ≤ foldedEnd size fields folded start
  | .nil, folded, start => Nat.le_add_right _ _
  | .cons offset field rest, folded, start => by
    have hrest := le_foldedEnd size rest (folded + (offset - start) + field.foldedSize) (offset + field.allocSize)
    rw [foldedEnd]
    omega

lemma le_foldedAmong (offset : ℕ) : ∀ (fields : StructFields) (folded start : ℕ),
    folded ≤ foldedAmong fields folded start offset
  | .nil, folded, start => Nat.le_add_right _ _
  | .cons fieldOffset field rest, folded, start => by
    have hrest := le_foldedAmong offset rest (folded + (fieldOffset - start) + field.foldedSize)
      (fieldOffset + field.allocSize)
    rw [foldedAmong]
    split
    · omega
    · split <;> omega

mutual
theorem foldedOffset_lt : ∀ {type : LLVMType} {offset : ℕ}, type.WellFormed → offset < type.allocSize →
    type.foldedOffset offset < type.foldedSize
  | scalar .., _, _, h => by simpa [foldedOffset, foldedSize, allocSize] using h
  | array numElements element, offset, hw, h => by
    obtain ⟨-, hlt, -⟩ := element_pos h
    have hne : numElements * element.allocSize ≠ 0 := Nat.ne_of_gt (Nat.zero_lt_of_lt h)
    rw [foldedOffset, foldedSize, if_neg hne]
    exact foldedOffset_lt hw hlt
  | struct _ fields size, offset, hw, h => by
    rw [foldedOffset, foldedSize]
    exact foldedAmong_lt hw (Nat.zero_le _) h

theorem foldedAmong_lt : ∀ {fields : StructFields} {start size folded offset : ℕ}, FieldsFrom start size fields →
    start ≤ offset → offset < size → foldedAmong fields folded start offset < foldedEnd size fields folded start
  | .nil, start, size, folded, offset, _, hs, hlt => by
    rw [foldedAmong, foldedEnd]
    omega
  | .cons fieldOffset field rest, start, size, folded, offset, ⟨hstart, hfield, hrest⟩, hs, hlt => by
    have hend := le_foldedEnd size rest (folded + (fieldOffset - start) + field.foldedSize)
      (fieldOffset + field.allocSize)
    rw [foldedAmong, foldedEnd]
    split
    · omega
    · split
      · next hge hin =>
        have hsub : offset - fieldOffset < field.allocSize := by omega
        have hin' := foldedOffset_lt hfield hsub
        omega
      · next hge hout => exact foldedAmong_lt hrest (Nat.le_of_not_lt hout) hlt
end

mutual
theorem foldedOffset_le : ∀ {type : LLVMType}, type.WellFormed → ∀ offset, type.foldedOffset offset ≤ offset
  | scalar .., _, offset => by rw [foldedOffset]
  | array _ element, hw, offset => by
    have helement : element.WellFormed := hw
    rw [foldedOffset]
    exact (foldedOffset_le helement _).trans (Nat.mod_le _ _)
  | struct _ fields _, hw, offset => by
    rw [foldedOffset]
    exact foldedAmong_le hw le_rfl (Nat.zero_le offset)

theorem foldedAmong_le : ∀ {fields : StructFields} {start size folded offset : ℕ}, FieldsFrom start size fields →
    folded ≤ start → start ≤ offset → foldedAmong fields folded start offset ≤ offset
  | .nil, start, size, folded, offset, _, hf, hs => by
    rw [foldedAmong]
    omega
  | .cons fieldOffset field rest, start, size, folded, offset, ⟨hstart, hfield, hrest⟩, hf, hs => by
    have hsize := foldedSize_le hfield
    have hin := foldedOffset_le hfield (offset - fieldOffset)
    rw [foldedAmong]
    split
    · omega
    · split
      · omega
      · next hout => exact foldedAmong_le hrest (by omega) (Nat.le_of_not_lt hout)
end

mutual
theorem foldedOffset_strictMono : ∀ {type : LLVMType} {offset offset' : ℕ}, type.WellFormed →
    type.Canonical offset → type.Canonical offset' → offset < offset' → offset' < type.allocSize →
    type.foldedOffset offset < type.foldedOffset offset'
  | scalar .., _, _, _, _, _, h, _ => by simpa [foldedOffset] using h
  | array _ element, offset, offset', hw, ⟨hlt, hc⟩, ⟨hlt', hc'⟩, h, _ => by
    rw [foldedOffset, foldedOffset, Nat.mod_eq_of_lt hlt, Nat.mod_eq_of_lt hlt']
    exact foldedOffset_strictMono hw hc hc' h hlt'
  | struct _ fields size, offset, offset', hw, hc, hc', h, hs => by
    rw [foldedOffset, foldedOffset]
    exact foldedAmong_strictMono hw hc hc' (Nat.zero_le _) h

theorem foldedAmong_strictMono : ∀ {fields : StructFields} {start size folded offset offset' : ℕ},
    FieldsFrom start size fields → CanonicalAmong fields offset → CanonicalAmong fields offset' →
    start ≤ offset → offset < offset' →
    foldedAmong fields folded start offset < foldedAmong fields folded start offset'
  | .nil, start, size, folded, offset, offset', _, _, _, hs, h => by
    rw [foldedAmong, foldedAmong]
    omega
  | .cons fieldOffset field rest, start, size, folded, offset, offset', ⟨hstart, hfield, hrest⟩, hc, hc', hs, h => by
    have hend := le_foldedAmong offset' rest (folded + (fieldOffset - start) + field.foldedSize)
      (fieldOffset + field.allocSize)
    rw [CanonicalAmong] at hc hc'
    rw [foldedAmong, foldedAmong]
    by_cases hpad : offset < fieldOffset
    · rw [if_pos hpad]
      split
      · omega
      · split <;> omega
    · have hpad' : ¬ offset' < fieldOffset := by omega
      rw [if_neg hpad] at hc ⊢
      rw [if_neg hpad'] at hc' ⊢
      by_cases hin : offset < fieldOffset + field.allocSize
      · have hsub : offset - fieldOffset < field.allocSize := by omega
        have hlt := foldedOffset_lt hfield hsub
        rw [if_pos hin] at hc ⊢
        split
        · next hin' =>
          rw [if_pos hin'] at hc'
          have hmono := foldedOffset_strictMono hfield hc hc' (by omega) (by omega)
          omega
        · omega
      · have hin' : ¬ offset' < fieldOffset + field.allocSize := by omega
        rw [if_neg hin] at hc ⊢
        rw [if_neg hin'] at hc' ⊢
        exact foldedAmong_strictMono hrest hc hc' (Nat.le_of_not_lt hin) h
end

lemma foldedOffset_inj {type : LLVMType} (hw : type.WellFormed) {offset offset' : ℕ}
    (hc : type.Canonical offset) (hc' : type.Canonical offset') (hs : offset < type.allocSize)
    (hs' : offset' < type.allocSize) : type.foldedOffset offset = type.foldedOffset offset' ↔ offset = offset' := by
  constructor
  · intro heq
    rcases Nat.lt_trichotomy offset offset' with hlt | rfl | hlt
    · have hmono := foldedOffset_strictMono hw hc hc' hlt hs'
      omega
    · rfl
    · have hmono := foldedOffset_strictMono hw hc' hc hlt hs
      omega
  · intro heq
    rw [heq]

end LLVMType

end OpenRace
