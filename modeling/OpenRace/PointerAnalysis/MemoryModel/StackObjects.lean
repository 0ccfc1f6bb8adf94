import OpenRace.PointerAnalysis.MemoryModel.LargeArrays
import OpenRace.PointerAnalysis.MemoryModel.MemBlock

/-! Objects on the stack: the type that an allocation is given, and how the offsets of its elements are indexed. -/

namespace OpenRace

open LLVMType MemLayoutManager

inductive ArraySize
  | constant (width : ℕ) (value : BitVec width)
  | unknown

structure AllocaInst where
  elementType : LLVMType
  arraySize : ArraySize

/-- The type of the object. A constant that is negative as a signed number leaves it unset. -/
def AllocaInst.objectType (inst : AllocaInst) : Option LLVMType :=
  match inst.arraySize with
  | .constant _ value =>
    let elementNum := value.toInt
    if 0 ≤ elementNum then
      let eleNum := elementNum.toNat % 2 ^ 32
      if eleNum = 1 then some inst.elementType else some (.array eleNum inst.elementType)
    else none
  | .unknown => some (.array unbounded inst.elementType)

def allocStackObj (inst : AllocaInst) (cache : CollapsedLayoutMap) : Option (MemLayout × CollapsedLayoutMap) :=
  inst.objectType.bind fun type => getLayoutForType64 type cache

def AllocaInst.Contains (inst : AllocaInst) (pOffset : ℕ) : Prop :=
  match inst.arraySize with
  | .constant _ value => pOffset < value.toNat * inst.elementType.allocSize
  | .unknown => True

/-- The offset gets its place in the first element, as in the layout of an array that just contains it. -/
def MemLayout.IndexesElement (layout : MemLayout) (element : LLVMType) (pOffset : ℕ) : Prop :=
  ∃ lOffset folded, layout.indexPhysicalOffset64 pOffset = some (lOffset, folded) ∧ lOffset ≠ unbounded ∧
    folded < element.allocSize ∧ element.Canonical folded ∧
    element.byteAt folded = element.byteAt (pOffset % element.allocSize) ∧
    ∃ small cache, getLayoutForType64 (.array (pOffset / element.allocSize + 1) element) [] = some (small, cache) ∧
      small.indexPhysicalOffset64 pOffset = some (lOffset, folded)

def AllocaInst.IndexesElements (inst : AllocaInst) (cache : CollapsedLayoutMap) : Prop :=
  ∃ layout cache', allocStackObj inst cache = some (layout, cache') ∧
    ∀ pOffset < 2 ^ 63, inst.Contains pOffset → layout.IndexesElement inst.elementType pOffset

/-- The size that is left of a constant number of elements covers what can be indexed of them. A layout without
size folds nothing, which is right only inside an element that is larger and has nothing to fold. -/
def AllocaInst.KeepsElements (inst : AllocaInst) : Prop :=
  match inst.arraySize with
  | .constant _ value =>
    let size := value.toNat % 2 ^ 32 * inst.elementType.allocSize % UInt64.size
    0 ≤ value.toInt ∧ (value.toNat % 2 ^ 32 = 1 → inst.elementType.isAggregateType) ∧
      (min (value.toNat * inst.elementType.allocSize) (2 ^ 63) ≤ size ∨
        size = 0 ∧ 2 ^ 63 ≤ inst.elementType.allocSize ∧ ∀ pOffset < 2 ^ 63, inst.elementType.Canonical pOffset)
  | .unknown => True

/-- An allocation of elements that take room; a single scalar gets no layout. -/
structure StackObject where
  inst : AllocaInst
  wellFormed : inst.elementType.WellFormed
  positive : 0 < inst.elementType.allocSize
  bounded : inst.elementType.allocSize < UInt64.size
  width : ∀ width value, inst.arraySize = .constant width value → width ≤ 64
  laidOut : inst.elementType.isAggregateType ∨
    ∀ width value, inst.arraySize = .constant width value → value.toNat ≠ 1

section Elements

variable {element : LLVMType} {layout : MemLayout} {pOffset : ℕ}

def firstPlace (element : LLVMType) (pOffset : ℕ) : ℕ × ℕ :=
  (element.foldedOffset (pOffset % element.allocSize), element.fold (pOffset % element.allocSize))

lemma firstPlace_lt (hw : element.WellFormed) (hpos : 0 < element.allocSize) (pOffset : ℕ) :
    (firstPlace element pOffset).1 < element.allocSize ∧ (firstPlace element pOffset).2 < element.allocSize := by
  have hmod := Nat.mod_lt pOffset hpos
  exact ⟨(foldedOffset_le hw _).trans_lt hmod, (fold_le element _).trans_lt hmod⟩

lemma firstPlace_of_lt (hlt : pOffset < element.allocSize) :
    firstPlace element pOffset = (element.foldedOffset pOffset, element.fold pOffset) := by
  rw [firstPlace, Nat.mod_eq_of_lt hlt]

lemma foldedOffset_eq (hw : element.WellFormed) (hc : ∀ pOffset < 2 ^ 63, element.Canonical pOffset)
    (hb : 2 ^ 63 ≤ element.allocSize) : ∀ pOffset < 2 ^ 63, element.foldedOffset pOffset = pOffset := by
  intro pOffset
  induction pOffset with
  | zero => exact fun _ => foldedOffset_zero hw
  | succ pOffset ih =>
    intro hlt
    have hmono := foldedOffset_strictMono hw (hc pOffset (by omega)) (hc (pOffset + 1) hlt) (Nat.lt_succ_self _)
      (by omega)
    have hle := foldedOffset_le hw (pOffset + 1)
    have hsame := ih (by omega)
    omega

lemma index_small (hw : element.WellFormed) (hpos : 0 < element.allocSize) (hb : element.allocSize < UInt64.size)
    (hp : pOffset < 2 ^ 63) :
    ∃ small cache, getLayoutForType64 (.array (pOffset / element.allocSize + 1) element) [] = some (small, cache) ∧
      small.indexPhysicalOffset64 pOffset = some (firstPlace element pOffset) := by
  obtain ⟨small, cache, heq, hl, -⟩ := array_held hw hpos hb (pOffset / element.allocSize + 1) held_nil
  have hsize : (pOffset / element.allocSize + 1) * element.allocSize =
      pOffset / element.allocSize * element.allocSize + element.allocSize := Nat.succ_mul _ _
  have hle := Nat.div_mul_le_self pOffset element.allocSize
  have hlt : pOffset < (pOffset / element.allocSize + 1) * element.allocSize := by
    rw [hsize]
    exact Nat.lt_div_mul_add hpos
  have hfits : (pOffset / element.allocSize + 1) * element.allocSize < UInt64.size := by
    have hmax : UInt64.size = 2 ^ 64 := rfl
    rw [hsize]
    rcases Nat.lt_or_ge pOffset element.allocSize with hin | hout
    · rw [Nat.div_eq_of_lt hin]
      omega
    · omega
  have hin : ¬ arrayEnd (pOffset / element.allocSize + 1) element.allocSize ≤ pOffset := by
    have hmax : unbounded = 2 ^ 64 - 1 := rfl
    rw [arrayEnd, Nat.mod_eq_of_lt hfits]
    split
    · omega
    · omega
  refine ⟨small, cache, heq, ?_⟩
  rw [hl.index hw hb (by rw [Nat.mod_eq_of_lt hfits]; omega), if_neg hin, firstPlace]

lemma indexesElement_iff (hw : element.WellFormed) (hpos : 0 < element.allocSize)
    (hb : element.allocSize < UInt64.size) (hp : pOffset < 2 ^ 63) :
    layout.IndexesElement element pOffset ↔
      layout.indexPhysicalOffset64 pOffset = some (firstPlace element pOffset) := by
  obtain ⟨small, cache, hsmall, hindex⟩ := index_small hw hpos hb hp
  constructor
  · rintro ⟨lOffset, folded, heq, -, -, -, -, small', cache', hsmall', hindex'⟩
    rw [hsmall] at hsmall'
    cases hsmall'
    rw [heq, ← hindex', hindex]
  · intro heq
    have hmod := Nat.mod_lt pOffset hpos
    obtain ⟨hnumber, hplace⟩ := firstPlace_lt hw hpos pOffset
    refine ⟨(firstPlace element pOffset).1, (firstPlace element pOffset).2, heq, ?_, hplace, canonical_fold hw hmod,
      byteAt_fold hw hmod, small, cache, hsmall, hindex⟩
    have hmax : unbounded = UInt64.size - 1 := rfl
    omega

lemma unbounded_ne_firstPlace (hw : element.WellFormed) (hpos : 0 < element.allocSize)
    (hb : element.allocSize < UInt64.size) (pOffset stop : ℕ) : (unbounded, stop) ≠ firstPlace element pOffset := by
  intro heq
  have hmax : unbounded = UInt64.size - 1 := rfl
  have hnumber := (firstPlace_lt hw hpos pOffset).1
  rw [← heq] at hnumber
  dsimp only at hnumber
  omega

lemma self_ne_firstPlace (hw : element.WellFormed) (hpos : 0 < element.allocSize) :
    (element.allocSize, element.allocSize) ≠ firstPlace element element.allocSize := by
  intro heq
  have hplace := (firstPlace_lt hw hpos element.allocSize).2
  rw [← heq] at hplace
  exact Nat.lt_irrefl _ hplace

section Limit

variable {limit : ℕ} (hw : element.WellFormed) (hpos : 0 < element.allocSize) (hb : element.allocSize < UInt64.size)

include hw hpos hb

lemma indexes_iff_of_stop {stop : ℕ}
    (hin : ∀ pOffset < stop, layout.indexPhysicalOffset64 pOffset = some (firstPlace element pOffset))
    (hstop : layout.indexPhysicalOffset64 stop ≠ some (firstPlace element stop)) :
    (∀ pOffset < 2 ^ 63, pOffset < limit → layout.IndexesElement element pOffset) ↔ min limit (2 ^ 63) ≤ stop := by
  constructor
  · intro h
    by_contra hlt
    have hsmall : stop < 2 ^ 63 := by omega
    exact hstop ((indexesElement_iff hw hpos hb hsmall).mp (h stop hsmall (by omega)))
  · intro hle pOffset hp hlimit
    exact (indexesElement_iff hw hpos hb hp).mpr (hin pOffset (by omega))

lemma indexes_iff_of_array {numElements : ℕ} (hl : ArrayLaid layout numElements element)
    (hp : numElements * element.allocSize % UInt64.size ≠ 0) :
    (∀ pOffset < 2 ^ 63, pOffset < limit → layout.IndexesElement element pOffset) ↔
      min limit (2 ^ 63) ≤ arrayEnd numElements element.allocSize := by
  refine indexes_iff_of_stop hw hpos hb (fun pOffset hlt => ?_) fun heq => ?_
  · rw [hl.index hw hb hp, if_neg (Nat.not_le_of_lt hlt), firstPlace]
  · rw [hl.index hw hb hp, if_pos le_rfl] at heq
    exact unbounded_ne_firstPlace hw hpos hb _ _ (Option.some.inj heq)

lemma indexes_iff_of_layoutOf (hl : LayoutOf layout element) (hm : Laid layout element) :
    (∀ pOffset < 2 ^ 63, pOffset < limit → layout.IndexesElement element pOffset) ↔
      min limit (2 ^ 63) ≤ element.allocSize := by
  refine indexes_iff_of_stop hw hpos hb (fun pOffset hlt => ?_) fun heq => ?_
  · rw [index64_of_laid hw hb hm, hl.index hlt, firstPlace_of_lt hlt]
  · rw [index64_of_laid hw hb hm] at heq
    obtain ⟨lOffset, hend, hlost | hnone⟩ := hl.index_beyond le_rfl
    · rw [hend, hlost] at heq
      exact unbounded_ne_firstPlace hw hpos hb _ _ (Option.some.inj heq)
    · rw [index_no_array hnone] at heq
      exact self_ne_firstPlace hw hpos (Option.some.inj heq)

lemma indexes_iff_of_no_array (hl : layout.hasArray = false) (hlimit : element.allocSize < limit) :
    (∀ pOffset < 2 ^ 63, pOffset < limit → layout.IndexesElement element pOffset) ↔
      2 ^ 63 ≤ element.allocSize ∧ ∀ pOffset < 2 ^ 63, element.Canonical pOffset := by
  have hindex : ∀ pOffset, layout.indexPhysicalOffset64 pOffset = some (pOffset, pOffset) := fun pOffset => by
    rw [MemLayout.indexPhysicalOffset64, hl]
    rfl
  constructor
  · intro h
    have hlarge : 2 ^ 63 ≤ element.allocSize := by
      by_contra hlt
      have hend := (indexesElement_iff hw hpos hb (by omega)).mp (h element.allocSize (by omega) hlimit)
      rw [hindex] at hend
      exact self_ne_firstPlace hw hpos (Option.some.inj hend)
    refine ⟨hlarge, fun pOffset hp => ?_⟩
    have hlt : pOffset < element.allocSize := hp.trans_le hlarge
    have hplace := (indexesElement_iff hw hpos hb hp).mp (h pOffset hp (hlt.trans hlimit))
    rw [hindex, firstPlace_of_lt hlt] at hplace
    have hfold : pOffset = element.fold pOffset := congrArg Prod.snd (Option.some.inj hplace)
    rw [hfold]
    exact canonical_fold hw hlt
  · rintro ⟨hlarge, hc⟩ pOffset hp -
    have hlt : pOffset < element.allocSize := hp.trans_le hlarge
    refine (indexesElement_iff hw hpos hb hp).mpr ?_
    rw [hindex, firstPlace_of_lt hlt, foldedOffset_eq hw hc hlarge pOffset hp, fold_of_canonical (hc pOffset hp)]

lemma indexes_iff_of_count {count : ℕ} (hl : ArrayLaid layout count element) (hcount : count < 2 ^ 32)
    (hlimit : limit = 0 ∨ element.allocSize < limit) :
    (∀ pOffset < 2 ^ 63, pOffset < limit → layout.IndexesElement element pOffset) ↔
      min limit (2 ^ 63) ≤ count * element.allocSize % UInt64.size ∨
        count * element.allocSize % UInt64.size = 0 ∧ 2 ^ 63 ≤ element.allocSize ∧
          ∀ pOffset < 2 ^ 63, element.Canonical pOffset := by
  by_cases hz : count * element.allocSize % UInt64.size = 0
  · have hnone : layout.hasArray = false := by
      rw [MemLayout.hasArray, hl.arrays, if_pos hz]
      rfl
    rw [hz, and_iff_right rfl]
    rcases hlimit with rfl | hlimit
    · exact iff_of_true (fun _ _ hlt => absurd hlt (Nat.not_lt_zero _)) (.inl (Nat.zero_le _))
    · rw [or_iff_right (by omega)]
      exact indexes_iff_of_no_array hw hpos hb hnone hlimit
  · have hnum : count ≠ unbounded := by
      have hmax : unbounded = 2 ^ 64 - 1 := rfl
      omega
    have hend : arrayEnd count element.allocSize = count * element.allocSize % UInt64.size := if_neg hnum
    rw [or_iff_left fun h => hz h.1, ← hend]
    exact indexes_iff_of_array hw hpos hb hl hz

end Limit

end Elements

lemma indexesElements_iff {inst : AllocaInst} {layout : MemLayout} {cache cache' : CollapsedLayoutMap}
    (h : allocStackObj inst cache = some (layout, cache')) : inst.IndexesElements cache ↔
      ∀ pOffset < 2 ^ 63, inst.Contains pOffset → layout.IndexesElement inst.elementType pOffset := by
  constructor
  · rintro ⟨layout', cache'', heq, hall⟩
    rw [h] at heq
    cases heq
    exact hall
  · exact fun hall => ⟨layout, cache', h, hall⟩

section Constants

variable {width : ℕ} {value : BitVec width}

lemma toInt_eq (h : 0 ≤ value.toInt) : value.toInt = value.toNat := by
  have hlt := value.isLt
  rw [BitVec.toInt_eq_toNat_cond] at h ⊢
  generalize 2 ^ width = bound at hlt h ⊢
  split
  · rfl
  · next hsign =>
    rw [if_neg hsign] at h
    omega

lemma objectType_constant {element : LLVMType} (h : 0 ≤ value.toInt) :
    (AllocaInst.mk element (.constant width value)).objectType =
      if value.toNat % 2 ^ 32 = 1 then some element else some (.array (value.toNat % 2 ^ 32) element) := by
  rw [AllocaInst.objectType]
  dsimp only
  rw [if_pos h, toInt_eq h, Int.toNat_natCast]

end Constants

section Objects

variable {element : LLVMType} {cache : CollapsedLayoutMap} (hw : element.WellFormed) (hpos : 0 < element.allocSize)
  (hb : element.allocSize < UInt64.size) (hc : Held cache)

include hw hpos hb hc

lemma unknown_indexes : (AllocaInst.mk element .unknown).IndexesElements cache := by
  obtain ⟨layout, cache', heq, hl, -⟩ := array_held hw hpos hb unbounded hc
  refine ⟨layout, cache', heq, fun pOffset hp _ => ?_⟩
  have hsize : unbounded * element.allocSize % UInt64.size ≠ 0 := by
    rw [unbounded_mod hpos hb]
    omega
  have hend : ¬ arrayEnd unbounded element.allocSize ≤ pOffset := by
    have hmax : unbounded = 2 ^ 64 - 1 := rfl
    rw [arrayEnd, if_pos rfl]
    omega
  rw [indexesElement_iff hw hpos hb hp, hl.index hw hb hsize, if_neg hend, firstPlace]

lemma constant_indexes_iff {width : ℕ} (value : BitVec width) :
    (AllocaInst.mk element (.constant width value)).IndexesElements cache ↔
      (AllocaInst.mk element (.constant width value)).KeepsElements := by
  rw [AllocaInst.KeepsElements]
  dsimp only
  by_cases hsign : 0 ≤ value.toInt
  · have htype := @objectType_constant width value element hsign
    rw [and_iff_right hsign]
    by_cases hone : value.toNat % 2 ^ 32 = 1
    · rw [if_pos hone] at htype
      rw [hone, Nat.one_mul, Nat.mod_eq_of_lt hb, or_iff_left (by omega), imp_iff_right rfl]
      by_cases ha : element.isAggregateType
      · obtain ⟨layout, cache', heq, hl, hm, -⟩ := fits_held hw hb ha hc
        rw [indexesElements_iff (by rw [allocStackObj, htype]; exact heq), and_iff_right ha]
        exact indexes_iff_of_layoutOf hw hpos hb hl hm
      · refine iff_of_false ?_ fun h => ha h.1
        rintro ⟨layout, cache', heq, -⟩
        rw [allocStackObj, htype, Option.bind_some, getLayoutForType64, if_neg ha] at heq
        cases heq
    · rw [if_neg hone] at htype
      obtain ⟨layout, cache', heq, hl, -⟩ := array_held hw hpos hb (value.toNat % 2 ^ 32) hc
      rw [indexesElements_iff (by rw [allocStackObj, htype]; exact heq), and_iff_right fun h => absurd h hone]
      have hlimit : value.toNat * element.allocSize = 0 ∨ element.allocSize < value.toNat * element.allocSize := by
        rcases Nat.eq_zero_or_pos value.toNat with hzero | hsome
        · exact .inl (by rw [hzero, Nat.zero_mul])
        · have htwo : 2 * element.allocSize ≤ value.toNat * element.allocSize :=
            Nat.mul_le_mul_right _ (by omega)
          exact .inr (by omega)
      exact indexes_iff_of_count hw hpos hb hl (Nat.mod_lt _ (by decide)) hlimit
  · refine iff_of_false ?_ fun h => hsign h.1
    rintro ⟨layout, cache', heq, -⟩
    rw [allocStackObj, AllocaInst.objectType] at heq
    dsimp only at heq
    rw [if_neg hsign] at heq
    cases heq

end Objects

/-- After whatever layouts, an object on the stack indexes its elements where their size is kept. -/
theorem allocStackObj_indexes_iff (requests : List RequestedType) (object : StackObject) :
    ∃ cache, cacheAfter (requests.map (·.type)) [] = some cache ∧
      (object.inst.IndexesElements cache ↔ object.inst.KeepsElements) := by
  obtain ⟨cache, heq, hc⟩ := cacheAfter_held requests held_nil
  refine ⟨cache, heq, ?_⟩
  obtain ⟨⟨element, size⟩, hw, hpos, hb, -, -⟩ := object
  cases size with
  | constant width value => exact constant_indexes_iff hw hpos hb hc value
  | unknown => exact iff_of_true (unknown_indexes hw hpos hb hc) trivial

/-- `alloca i64, i64 4294967298`: the object has two elements, and the third is rejected. -/
def manyWords : StackObject where
  inst := ⟨.scalar false "i64" 8, .constant 64 (BitVec.ofNat 64 (2 ^ 32 + 2))⟩
  wellFormed := Nat.succ_pos 7
  positive := by decide
  bounded := by decide
  width := by
    intro width value h
    cases h
    exact le_rfl
  laidOut := by
    refine .inr fun width value h => ?_
    cases h
    decide

theorem manyWords_truncated : ¬ manyWords.inst.IndexesElements [] := by
  rintro ⟨layout, cache, heq, h⟩
  have hrejected : ∃ layout cache, allocStackObj manyWords.inst [] = some (layout, cache) ∧
      layout.indexPhysicalOffset64 16 = some (unbounded, 16) := ⟨_, _, rfl, rfl⟩
  obtain ⟨layout', cache', heq', hindex⟩ := hrejected
  rw [heq] at heq'
  cases heq'
  have hcontains : manyWords.inst.Contains 16 := by
    show 16 < 4294967298 * 8
    decide
  obtain ⟨lOffset, folded, hplace, hinside, -⟩ := h 16 (by decide) hcontains
  rw [hindex] at hplace
  cases hplace
  exact hinside rfl

end OpenRace
