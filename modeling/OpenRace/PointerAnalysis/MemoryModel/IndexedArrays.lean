import OpenRace.PointerAnalysis.MemoryModel.FoldedOffsets
import OpenRace.PointerAnalysis.MemoryModel.Layouts

/-! What indexing between the arrays of a type computes: the folded offset and its number. -/

namespace OpenRace

namespace SubArrays

def append : SubArrays → SubArrays → SubArrays
  | nil, arrays => arrays
  | cons offset layout rest, arrays => cons offset layout (rest.append arrays)

def shift (amount : ℕ) : SubArrays → SubArrays
  | nil => nil
  | cons offset layout rest => cons (offset + amount) layout (rest.shift amount)

@[simp] lemma append_nil : ∀ arrays : SubArrays, arrays.append nil = arrays
  | nil => rfl
  | cons offset layout rest => congrArg (cons offset layout) (append_nil rest)

lemma append_assoc (arrays arrays' arrays'' : SubArrays) :
    (arrays.append arrays').append arrays'' = arrays.append (arrays'.append arrays'') := by
  match arrays with
  | nil => rfl
  | cons offset layout rest => exact congrArg (cons offset layout) (append_assoc rest arrays' arrays'')

@[simp] lemma shift_zero : ∀ arrays : SubArrays, arrays.shift 0 = arrays
  | nil => rfl
  | cons offset layout rest => congrArg (cons offset layout) (shift_zero rest)

lemma shift_append (n : ℕ) : ∀ arrays arrays' : SubArrays,
    (arrays.append arrays').shift n = (arrays.shift n).append (arrays'.shift n)
  | nil, _ => rfl
  | cons offset layout rest, arrays' => congrArg (cons (offset + n) layout) (shift_append n rest arrays')

lemma shift_shift (m n : ℕ) : ∀ arrays : SubArrays, (arrays.shift m).shift n = arrays.shift (n + m)
  | nil => rfl
  | cons offset layout rest => by
    rw [shift, shift, shift, shift_shift m n rest, Nat.add_assoc, Nat.add_comm m n]

def From (start : ℕ) : SubArrays → Prop
  | nil => True
  | cons offset _ _ => start ≤ offset

def Within (start stop : ℕ) : SubArrays → Prop
  | nil => True
  | cons offset _ rest => start ≤ offset ∧ offset < stop ∧ rest.Within (offset + 1) stop

lemma Within.mono {start start' stop stop' : ℕ} (hs : start' ≤ start) (he : stop ≤ stop') :
    ∀ {arrays : SubArrays}, arrays.Within start stop → arrays.Within start' stop'
  | nil, _ => trivial
  | cons _ _ _, ⟨hstart, hstop, hrest⟩ => ⟨hs.trans hstart, hstop.trans_le he, hrest.mono le_rfl he⟩

lemma Within.shift {start stop : ℕ} (n : ℕ) : ∀ {arrays : SubArrays}, arrays.Within start stop →
    (arrays.shift n).Within (start + n) (stop + n)
  | nil, _ => trivial
  | cons _ _ _, ⟨hstart, hstop, hrest⟩ =>
    ⟨Nat.add_le_add_right hstart n, Nat.add_lt_add_right hstop n,
      (hrest.shift n).mono (by omega) le_rfl⟩

lemma Within.append {middle middle' stop : ℕ} {arrays' : SubArrays} (h' : arrays'.Within middle' stop)
    (hm : middle ≤ middle') (he : middle ≤ stop) : ∀ {arrays : SubArrays} {start : ℕ}, arrays.Within start middle →
    start ≤ middle' → (arrays.append arrays').Within start stop
  | nil, _, _, hs => h'.mono hs le_rfl
  | cons _ _ _, _, ⟨hstart, hstop, hrest⟩, _ =>
    ⟨hstart, hstop.trans_le he, h'.append hm he hrest (Nat.lt_of_lt_of_le hstop hm)⟩

lemma Within.from {start stop : ℕ} : ∀ {arrays : SubArrays}, arrays.Within start stop → arrays.From start
  | nil, _ => trivial
  | cons _ _ _, ⟨hstart, _, _⟩ => hstart

lemma From.mono {start start' : ℕ} {arrays : SubArrays} (h : arrays.From start) (hle : start' ≤ start) :
    arrays.From start' := by
  cases arrays with
  | nil => trivial
  | cons offset layout rest => exact hle.trans h

lemma from_append {start : ℕ} {arrays arrays' : SubArrays} (h : arrays.From start) (h' : arrays'.From start) :
    (arrays.append arrays').From start := by
  cases arrays with
  | nil => exact h'
  | cons offset layout rest => exact h

lemma insert_of_within {start offset : ℕ} (layout : ArrayLayout) : ∀ {arrays : SubArrays},
    arrays.Within start offset → arrays.insert offset layout = arrays.append (cons offset layout nil)
  | nil, _ => rfl
  | cons other old rest, ⟨_, hlt, hrest⟩ => by
    rw [insert, if_neg (by omega), if_pos hlt, insert_of_within layout hrest]
    rfl

lemma insertAll_eq {start stop n : ℕ} : ∀ {arrays into : SubArrays} {first : ℕ}, arrays.Within first stop →
    into.Within start (first + n) → start ≤ first + n → arrays.insertAll n into = into.append (arrays.shift n)
  | nil, into, _, _, _, _ => by rw [insertAll, shift, append_nil]
  | cons offset layout rest, into, first, ⟨hfirst, hstop, hrest⟩, hinto, hs => by
    have hin : into.Within start (offset + n) := hinto.mono le_rfl (Nat.add_le_add_right hfirst n)
    have hlast : (cons (offset + n) layout nil).Within (offset + n) (offset + 1 + n) := ⟨le_rfl, by omega, trivial⟩
    have hnew : (into.append (cons (offset + n) layout nil)).Within start (offset + 1 + n) :=
      hlast.append le_rfl (by omega) hin (by omega)
    rw [insertAll, insert_of_within layout hin, insertAll_eq hrest hnew (by omega), append_assoc]
    rfl

lemma index_before {arrays : SubArrays} {pOffset : ℕ} (h : arrays.From pOffset) (lOffset curOffset : ℕ) :
    indexBetweenArrays arrays lOffset curOffset pOffset = some (lOffset + (pOffset - curOffset), pOffset) := by
  cases arrays with
  | nil => rw [indexBetweenArrays]
  | cons offset layout rest =>
    have hle : pOffset ≤ offset := h
    rw [indexBetweenArrays, if_pos hle]

/-- From `start` to `size`, the arrays give each offset its number and fold it, whatever arrays follow, and
walking past them counts up to `stop`. The numbering has given `folded` to `start`. -/
structure Indexes (arrays : SubArrays) (start size folded stop : ℕ) (number fold : ℕ → ℕ) : Prop where
  within : arrays.Within start size
  inside : ∀ {origin base lOffset curOffset pOffset : ℕ} {rest : SubArrays}, curOffset ≤ origin + start →
    lOffset + (origin + start - curOffset) = base + folded → rest.From (origin + size) → origin + start ≤ pOffset →
    pOffset < origin + size →
    indexBetweenArrays ((arrays.shift origin).append rest) lOffset curOffset pOffset =
      some (base + number (pOffset - origin), origin + fold (pOffset - origin))
  beyond : ∀ {origin base lOffset curOffset pOffset : ℕ} {rest : SubArrays}, curOffset ≤ origin + start →
    lOffset + (origin + start - curOffset) = base + folded → origin + size ≤ pOffset →
    ∃ lOffset' curOffset', curOffset' ≤ origin + size ∧ lOffset' + (origin + size - curOffset') = base + stop ∧
      indexBetweenArrays ((arrays.shift origin).append rest) lOffset curOffset pOffset =
        indexBetweenArrays rest lOffset' curOffset' pOffset

lemma indexes_nil {start size folded : ℕ} (h : start ≤ size) :
    Indexes nil start size folded (folded + (size - start)) (fun offset => folded + (offset - start)) id where
  within := trivial
  inside := by
    intro origin base lOffset curOffset pOffset rest hcur hl hrest hstart hlt
    have hfrom : rest.From pOffset := by
      cases rest with
      | nil => trivial
      | cons offset _ _ => exact hlt.le.trans hrest
    rw [shift, append, index_before hfrom, id]
    congr 2 <;> omega
  beyond := by
    intro origin base lOffset curOffset pOffset rest hcur hl hge
    exact ⟨lOffset, curOffset, by omega, by omega, rfl⟩

lemma Indexes.congr {arrays : SubArrays} {start size folded stop stop' : ℕ} {number number' fold fold' : ℕ → ℕ}
    (h : Indexes arrays start size folded stop number fold) (hstop : stop = stop')
    (hsame : ∀ offset, start ≤ offset → offset < size → number offset = number' offset ∧ fold offset = fold' offset) :
    Indexes arrays start size folded stop' number' fold' where
  within := h.within
  inside := by
    intro origin base lOffset curOffset pOffset rest hcur hl hrest hstart hlt
    obtain ⟨hnumber, hfold⟩ := hsame (pOffset - origin) (by omega) (by omega)
    rw [h.inside hcur hl hrest hstart hlt, hnumber, hfold]
  beyond := by
    subst hstop
    exact h.beyond

end SubArrays

namespace LLVMType

open SubArrays

abbrev Describes (arrays : SubArrays) (type : LLVMType) : Prop :=
  Indexes arrays 0 type.allocSize 0 type.foldedSize type.foldedOffset type.fold

abbrev DescribesFields (arrays : SubArrays) (fields : StructFields) (start size folded : ℕ) : Prop :=
  Indexes arrays start size folded (foldedEnd size fields folded start) (foldedAmong fields folded start)
    (foldAmong fields)

mutual
theorem foldedOffset_zero : ∀ {type : LLVMType}, type.WellFormed → type.foldedOffset 0 = 0
  | scalar .., _ => by rw [foldedOffset]
  | array _ element, hw => by
    rw [foldedOffset, Nat.zero_mod]
    exact foldedOffset_zero hw
  | struct _ fields _, hw => by
    rw [foldedOffset]
    exact foldedAmong_zero hw

theorem foldedAmong_zero : ∀ {fields : StructFields} {size : ℕ}, FieldsFrom 0 size fields →
    foldedAmong fields 0 0 0 = 0
  | .nil, _, _ => by rw [foldedAmong]
  | .cons offset field rest, size, ⟨_, hfield, hrest⟩ => by
    rw [foldedAmong]
    split
    · rfl
    · next hoffset =>
      have hz : offset = 0 := by omega
      subst hz
      split
      · rw [foldedOffset_zero hfield]
      · next hsize =>
        have hle := foldedSize_le hfield
        have hempty : field.allocSize = 0 := by omega
        rw [hempty] at hrest hle ⊢
        rw [Nat.le_zero.mp hle]
        exact foldedAmong_zero hrest
end

lemma getArraySize_eq {numElements elementSize : ℕ} (layoutSize : ℕ) (subArrays : SubArrays)
    (hb : numElements * elementSize < UInt64.size) (hp : 0 < numElements * elementSize) :
    (ArrayLayout.mk numElements elementSize layoutSize subArrays).getArraySize = numElements * elementSize := by
  rw [ArrayLayout.getArraySize]
  split
  · next hnum =>
    -- so many elements fit only when each takes a single byte
    have hone : elementSize = 1 := by
      rw [hnum, unbounded] at hb hp
      have hpos : 0 < elementSize := Nat.pos_of_mul_pos_left hp
      by_contra hne
      have htwo : (UInt64.size - 1) * 2 ≤ (UInt64.size - 1) * elementSize := Nat.mul_le_mul_left _ (by omega)
      have hsize : UInt64.size = 18446744073709551616 := rfl
      omega
    rw [hone, Nat.mul_one]
    exact hnum.symm
  · rfl

lemma index_element {numElements : ℕ} {element : LLVMType} {subArrays : SubArrays} (h : Describes subArrays element)
    {offset : ℕ} (hb : numElements * element.allocSize < UInt64.size)
    (hlt : offset < numElements * element.allocSize) :
    (ArrayLayout.mk numElements element.allocSize element.foldedSize subArrays).indexPhysicalOffset offset =
      some (element.foldedOffset (offset % element.allocSize), element.fold (offset % element.allocSize)) := by
  obtain ⟨-, hmod, -⟩ := element_pos hlt
  have hin : indexBetweenArrays subArrays 0 0 (offset % element.allocSize) =
      some (element.foldedOffset (offset % element.allocSize), element.fold (offset % element.allocSize)) := by
    have hi : indexBetweenArrays ((subArrays.shift 0).append .nil) 0 0 (offset % element.allocSize) =
        some (0 + element.foldedOffset (offset % element.allocSize - 0),
          0 + element.fold (offset % element.allocSize - 0)) :=
      h.inside (Nat.zero_le 0) rfl trivial (Nat.zero_le _) (by rwa [Nat.zero_add])
    simpa using hi
  rw [ArrayLayout.indexPhysicalOffset]
  cases subArrays with
  | nil =>
    have hsize := getArraySize_eq element.foldedSize .nil hb (Nat.zero_lt_of_lt hlt)
    rw [indexBetweenArrays] at hin
    rw [hsize, if_neg (by simp [isEmpty]), if_neg (by omega), ← hin]
    simp
  | cons start layout rest => simpa [isEmpty] using hin

lemma describes_array {numElements : ℕ} {element : LLVMType} {subArrays : SubArrays} (hw : element.WellFormed)
    (h : Describes subArrays element) (hp : numElements * element.allocSize ≠ 0)
    (hb : numElements * element.allocSize < UInt64.size) :
    Describes (.cons 0 (.mk numElements element.allocSize element.foldedSize subArrays) .nil)
      (array numElements element) where
  within := ⟨le_rfl, Nat.pos_of_ne_zero hp, trivial⟩
  inside := by
    intro origin base lOffset curOffset pOffset rest hcur hl _ hstart hlt
    have hsize := getArraySize_eq element.foldedSize subArrays hb
      (Nat.pos_of_ne_zero hp)
    have hlt' : pOffset < origin + numElements * element.allocSize := hlt
    rw [shift, shift, append, append, indexBetweenArrays, hsize, Nat.zero_add]
    split
    · next hle =>
      have heq : pOffset = origin := by omega
      have hzero := fold_le (array numElements element) 0
      have hnumber : (array numElements element).foldedOffset 0 = 0 := foldedOffset_zero hw
      rw [heq, Nat.sub_self, hnumber, Nat.le_zero.mp hzero]
      congr 2
    · next hgt =>
      rw [if_neg (by omega), if_neg (by omega), index_element h hb (by omega), Option.map_some, foldedOffset, fold]
      congr 2
      omega
  beyond := by
    intro origin base lOffset curOffset pOffset rest hcur hl hge
    have hpos := Nat.pos_of_ne_zero hp
    have hsize := getArraySize_eq element.foldedSize subArrays hb hpos
    have hge' : origin + numElements * element.allocSize ≤ pOffset := hge
    obtain ⟨hel, -, -⟩ := element_pos hpos
    have hfolded : element.foldedSize ≠ 0 := Nat.ne_of_gt (Nat.zero_lt_of_lt (foldedOffset_lt hw hel))
    refine ⟨lOffset + (origin - curOffset) + element.foldedSize, origin + numElements * element.allocSize, le_rfl,
      ?_, ?_⟩
    · rw [foldedSize, if_neg hp, allocSize]
      omega
    · rw [shift, shift, append, append, indexBetweenArrays, hsize, Nat.zero_add, ArrayLayout.layoutSize,
        if_neg (by omega), if_neg (by omega), if_pos hge', if_neg hfolded]

lemma describes_scalar (pointer : Bool) (name : String) (size : ℕ) : Describes .nil (scalar pointer name size) := by
  refine (indexes_nil (Nat.zero_le size)).congr ?_ ?_
  · rw [foldedSize]
    omega
  · intro offset _ _
    rw [foldedOffset, fold]
    exact ⟨by omega, rfl⟩

lemma describes_empty {type : LLVMType} (hw : type.WellFormed) (hz : type.allocSize = 0) : Describes .nil type := by
  refine (indexes_nil (Nat.zero_le _)).congr ?_ ?_
  · have hle := foldedSize_le hw
    omega
  · intro offset _ hlt
    omega

lemma describesFields_nil {start size : ℕ} (h : start ≤ size) (folded : ℕ) :
    DescribesFields .nil .nil start size folded := by
  refine (indexes_nil h).congr (by rw [foldedEnd]) ?_
  intro offset _ _
  rw [foldedAmong, foldAmong]
  exact ⟨rfl, rfl⟩

lemma describesFields_cons {arrays rest : SubArrays} {field : LLVMType} {fields : StructFields}
    {start size folded offset : ℕ} (hs : start ≤ offset) (he : offset + field.allocSize ≤ size)
    (h : Describes arrays field) (hr : DescribesFields rest fields (offset + field.allocSize) size
      (folded + (offset - start) + field.foldedSize)) :
    DescribesFields ((arrays.shift offset).append rest) (.cons offset field fields) start size folded where
  within := by
    have hfield := h.within.shift offset
    exact hr.within.append (by omega) he (hfield.mono (by omega) (by omega)) (by omega)
  inside := by
    intro origin base lOffset curOffset pOffset more hcur hl hmore hstart hlt
    have hbehind : ((rest.shift origin).append more).From (origin + offset + field.allocSize) :=
      from_append ((hr.within.shift origin).from.mono (by omega)) (hmore.mono (by omega))
    have hall : (((arrays.shift offset).append rest).shift origin).append more =
        (arrays.shift (origin + offset)).append ((rest.shift origin).append more) := by
      rw [shift_append, shift_shift, append_assoc]
    have hfrom : ((arrays.shift (origin + offset)).append ((rest.shift origin).append more)).From
        (origin + offset) :=
      from_append ((h.within.shift (origin + offset)).from.mono (by omega)) (hbehind.mono (by omega))
    rw [hall, foldedAmong, foldAmong]
    by_cases hpad : pOffset - origin < offset
    · rw [if_pos hpad, if_pos hpad, index_before (hfrom.mono (by omega))]
      congr 2 <;> omega
    · rw [if_neg hpad, if_neg hpad]
      have hcur' : curOffset ≤ origin + offset + 0 := by omega
      have hl' : lOffset + (origin + offset + 0 - curOffset) = base + folded + (offset - start) + 0 := by omega
      by_cases hin : pOffset - origin < offset + field.allocSize
      · rw [if_pos hin, if_pos hin, h.inside hcur' hl' hbehind (by omega) (by omega)]
        have hsub : pOffset - (origin + offset) = pOffset - origin - offset := by omega
        rw [hsub]
        congr 2 <;> omega
      · have hpast : origin + offset + field.allocSize ≤ pOffset := by omega
        obtain ⟨lNext, curNext, hcurNext, hlNext, heq⟩ := h.beyond hcur' hl' hpast
        rw [if_neg hin, if_neg hin, heq]
        exact hr.inside (by omega) (by omega) hmore (by omega) hlt
  beyond := by
    intro origin base lOffset curOffset pOffset more hcur hl hge
    have hall : (((arrays.shift offset).append rest).shift origin).append more =
        (arrays.shift (origin + offset)).append ((rest.shift origin).append more) := by
      rw [shift_append, shift_shift, append_assoc]
    have hcur' : curOffset ≤ origin + offset + 0 := by omega
    have hl' : lOffset + (origin + offset + 0 - curOffset) = base + folded + (offset - start) + 0 := by omega
    have hpast : origin + offset + field.allocSize ≤ pOffset := by omega
    obtain ⟨lNext, curNext, hcurNext, hlNext, heq⟩ := h.beyond hcur' hl' hpast
    rw [hall, heq, foldedEnd]
    exact hr.beyond (by omega) (by omega) hge

end LLVMType

end OpenRace
