import OpenRace.PointerAnalysis.MemoryModel.MemLayoutManager

/-! Every layout of a type that begins with its first element has an element at its start. -/

namespace OpenRace

namespace LLVMType

mutual
/-- The target puts the first element of a struct at its start, and a struct without elements is empty. -/
def FirstAtZero : LLVMType → Prop
  | scalar .. => True
  | array _ element => element.FirstAtZero
  | struct _ fields size => FirstFieldAtZero size fields

def FirstFieldAtZero (size : ℕ) : StructFields → Prop
  | .nil => size = 0
  | .cons offset field _ => offset = 0 ∧ field.FirstAtZero
end

end LLVMType

open LLVMType

namespace MemLayoutManager

def Started (layout : MemLayout) (type : LLVMType) : Prop := type.FirstAtZero → 0 ∈ layout.elementLayout

def AllStarted (cache : CollapsedLayoutMap) : Prop := ∀ entry ∈ cache, Started entry.2 entry.1

def Starts (visit : CollapsedLayoutMap → Option Built) (type : LLVMType) : Prop :=
  ∀ cache built, AllStarted cache → visit cache = some built →
    Started built.layout type ∧ AllStarted built.cache

lemma setMaxOffsets_elements {layout layout' : MemLayout} {lOffset pOffset : ℕ}
    (h : layout.setMaxOffsets lOffset pOffset = some layout') : layout'.elementLayout = layout.elementLayout := by
  rw [MemLayout.setMaxOffsets] at h
  split at h
  · cases h
    rfl
  · cases h

lemma setPointerOffset_elements {layout layout' : MemLayout} {offset : ℕ}
    (h : layout.setPointerOffset offset = some layout') : layout'.elementLayout = layout.elementLayout := by
  rw [MemLayout.setPointerOffset] at h
  split at h
  · cases h
  · split at h
    · cases h
      rfl
    · cases h

lemma mergeMemoryLayout_elements {layout sub layout' : MemLayout} {pOffset lOffset : ℕ}
    (h : layout.mergeMemoryLayout sub pOffset lOffset = some layout') :
    layout'.elementLayout = layout.elementLayout ∪ sub.elementLayout.image (· + lOffset) := by
  rw [MemLayout.mergeMemoryLayout] at h
  split at h
  · obtain ⟨arrays, -, rfl⟩ := Option.map_eq_some_iff.mp h
    rfl
  · cases h

lemma remember_started {type : LLVMType} {built built' : Built} (h : remember type built = some built')
    (hs : Started built.layout type) (hc : AllStarted built.cache) :
    Started built'.layout type ∧ AllStarted built'.cache := by
  rw [remember] at h
  split at h
  · cases h
    refine ⟨hs, fun entry hm => ?_⟩
    rcases List.mem_cons.mp hm with rfl | hm
    · exact hs
    · exact hc entry hm
  · cases h

lemma lookup_started {type : LLVMType} {build : CollapsedLayoutMap → Option Built}
    (hb : type.allocSize ≠ 0 → Starts build type) : Starts (lookup type build) type := by
  intro cache built hc h
  rw [lookup] at h
  split at h
  · next layout hfound =>
    obtain ⟨before, after, heq, -⟩ := List.lookup_eq_some_iff.mp hfound
    cases h
    exact ⟨hc (type, layout) (by rw [heq]; simp), hc⟩
  · split at h
    · refine remember_started h (fun _ => ?_) hc
      exact Finset.mem_insert_self _ _
    · next hsize => exact hb hsize cache built hc h

lemma setElementLayout_started {type : LLVMType} {visit : CollapsedLayoutMap → Option Built} {parent : MemLayout}
    {lOffset pOffset : ℕ} {cache : CollapsedLayoutMap} {next : Built}
    (hv : type.isAggregateType → Starts visit type) (hc : AllStarted cache)
    (h : setElementLayout type visit parent lOffset pOffset cache = some next) :
    AllStarted next.cache ∧ parent.elementLayout ⊆ next.layout.elementLayout ∧
      (type.FirstAtZero → lOffset ∈ next.layout.elementLayout) := by
  have hmerge : ∀ {sub : Built}, Started sub.layout type → ∀ {layout : MemLayout},
      parent.mergeMemoryLayout sub.layout pOffset lOffset = some layout →
      parent.elementLayout ⊆ layout.elementLayout ∧ (type.FirstAtZero → lOffset ∈ layout.elementLayout) := by
    intro sub hs layout hl
    rw [mergeMemoryLayout_elements hl]
    refine ⟨Finset.subset_union_left, fun hz => Finset.mem_union_right _ ?_⟩
    exact Finset.mem_image.mpr ⟨0, hs hz, Nat.zero_add _⟩
  rcases scalar_or_aggregate type with ⟨pointer, name, size, rfl⟩ | ha
  · have helements : next.cache = cache ∧ next.layout.elementLayout = insert lOffset parent.elementLayout := by
      unfold setElementLayout at h
      split at h
      · cases h
      · cases pointer with
        | false =>
          cases h
          exact ⟨rfl, rfl⟩
        | true =>
          obtain ⟨layout, hl, hnext⟩ := Option.bind_eq_some_iff.mp h
          cases hnext
          exact ⟨rfl, setPointerOffset_elements hl⟩
    rw [helements.1, helements.2]
    exact ⟨hc, Finset.subset_insert _ _, fun _ => Finset.mem_insert_self _ _⟩
  · rw [setElementLayout_aggregate ha] at h
    split at h
    · cases h
    · simp only [Option.bind_eq_some_iff] at h
      obtain ⟨sub, hvisit, layout, hl, hnext⟩ := h
      cases hnext
      obtain ⟨hs, hc'⟩ := hv ha cache sub hc hvisit
      exact ⟨hc', hmerge hs hl⟩

lemma getCollapsedArrayLayout_started {numElements : ℕ} {element : LLVMType}
    {visit : CollapsedLayoutMap → Option Built} (hv : element.isAggregateType → Starts visit element) :
    Starts (getCollapsedArrayLayout numElements element visit) (.array numElements element) := by
  intro cache built hc h
  rw [getCollapsedArrayLayout] at h
  simp only [Option.bind_eq_bind, Option.bind_eq_some_iff] at h
  obtain ⟨next, hset, layout, hmax, h⟩ := h
  obtain ⟨hc', -, hstart⟩ := setElementLayout_started hv hc hset
  split at h
  · refine remember_started h (fun hz => ?_) hc'
    dsimp only
    rw [setMaxOffsets_elements hmax]
    exact hstart hz
  · cases h

lemma finishStruct_started {type : LLVMType} {built built' : Built} (hs : Started built.layout type)
    (hc : AllStarted built.cache) (h : finishStruct type built = some built') :
    Started built'.layout type ∧ AllStarted built'.cache := by
  rw [finishStruct] at h
  split at h
  · simp only [Option.bind_eq_bind, Option.bind_eq_some_iff] at h
    obtain ⟨layout, hmax, h⟩ := h
    refine remember_started h (fun hz => ?_) hc
    rw [setMaxOffsets_elements hmax]
    exact hs hz
  · cases h

mutual
theorem DFSTypeTree_started : ∀ {type : LLVMType}, Starts (DFSTypeTree type) type
  | .scalar .. => by
    intro cache built _ h
    rw [DFSTypeTree] at h
    cases h
  | .array numElements element => by
    intro cache built hc h
    rw [DFSTypeTree] at h
    exact lookup_started (fun _ => getCollapsedArrayLayout_started fun _ => DFSTypeTree_started) cache built hc h
  | .struct name fields size => by
    intro cache built hc h
    rw [DFSTypeTree] at h
    refine lookup_started (fun hsize cache built hc h => ?_) cache built hc h
    simp only [Option.bind_eq_bind, Option.bind_eq_some_iff] at h
    obtain ⟨next, hfields, h⟩ := h
    obtain ⟨hc', -, hstart⟩ := getStructFields_started hc hfields
    exact finishStruct_started (fun hz => hstart hsize hz rfl rfl) hc' h

theorem getStructFields_started : ∀ {fields : StructFields} {built built' : Built}, AllStarted built.cache →
    getStructFields fields built = some built' →
    AllStarted built'.cache ∧ built.layout.elementLayout ⊆ built'.layout.elementLayout ∧
      ∀ {size : ℕ}, size ≠ 0 → FirstFieldAtZero size fields → built.lOffset = 0 → built.pOffset = 0 →
        0 ∈ built'.layout.elementLayout
  | .nil, built, built', hc, h => by
    rw [getStructFields] at h
    cases h
    exact ⟨hc, subset_rfl, fun hsize hz => absurd hz hsize⟩
  | .cons offset field rest, built, built', hc, h => by
    rw [getStructFields] at h
    split at h
    · cases h
    · simp only [Option.bind_eq_bind, Option.bind_eq_some_iff] at h
      obtain ⟨next, hset, hrest⟩ := h
      obtain ⟨hc', hkeeps, hstart⟩ := setElementLayout_started (fun _ => DFSTypeTree_started) hc hset
      obtain ⟨hc'', hkeeps', -⟩ := getStructFields_started hc' hrest
      refine ⟨hc'', hkeeps.trans hkeeps', fun _ ⟨hoffset, hz⟩ hl hp => hkeeps' ?_⟩
      have hfirst := hstart hz
      rwa [hl, hp, hoffset] at hfirst
end

end MemLayoutManager

end OpenRace
