import Mathlib.Order.Lattice
import Mathlib.Data.List.Nodup

/-! Maps with ordered keys: a list of entries whose keys increase. -/

namespace OpenRace.Library

structure OrderedMap (K V : Type) [LinearOrder K] where
  entries : List (K × V)
  sorted : entries.Pairwise (·.1 < ·.1)

namespace OrderedMap

variable {K V : Type} [LinearOrder K]

def empty : OrderedMap K V := ⟨[], .nil⟩

def findIn (key : K) : List (K × V) → Option V
  | [] => none
  | (other, value) :: rest => if key = other then some value else findIn key rest

def find? (map : OrderedMap K V) (key : K) : Option V := findIn key map.entries

def modifyIn (key : K) (change : Option V → V) : List (K × V) → List (K × V)
  | [] => [(key, change none)]
  | (other, value) :: rest =>
    if key < other then (key, change none) :: (other, value) :: rest
    else if key = other then (key, change (some value)) :: rest
    else (other, value) :: modifyIn key change rest

lemma mem_modifyIn {key : K} {change : Option V → V} {entries : List (K × V)} {entry : K × V}
    (h : entry ∈ modifyIn key change entries) : entry.1 = key ∨ entry ∈ entries := by
  induction entries with
  | nil =>
    rw [modifyIn, List.mem_singleton] at h
    exact Or.inl (congrArg Prod.fst h)
  | cons head rest ih =>
    obtain ⟨other, value⟩ := head
    rw [modifyIn] at h
    split at h
    · cases List.mem_cons.mp h with
      | inl heq => exact Or.inl (congrArg Prod.fst heq)
      | inr hold => exact Or.inr hold
    · split at h
      · cases List.mem_cons.mp h with
        | inl heq => exact Or.inl (congrArg Prod.fst heq)
        | inr hold => exact Or.inr (List.mem_cons_of_mem _ hold)
      · cases List.mem_cons.mp h with
        | inl heq => exact Or.inr (heq ▸ List.mem_cons_self)
        | inr hnew => exact (ih hnew).imp id (List.mem_cons_of_mem _)

lemma modifyIn_sorted (key : K) (change : Option V → V) {entries : List (K × V)}
    (h : entries.Pairwise (·.1 < ·.1)) : (modifyIn key change entries).Pairwise (·.1 < ·.1) := by
  induction entries with
  | nil => exact List.pairwise_singleton _ _
  | cons head rest ih =>
    obtain ⟨other, value⟩ := head
    obtain ⟨hhead, hrest⟩ := List.pairwise_cons.mp h
    rw [modifyIn]
    split
    · rename_i hlt
      refine List.pairwise_cons.mpr ⟨?_, h⟩
      intro entry hentry
      cases List.mem_cons.mp hentry with
      | inl heq =>
        rw [heq]
        exact hlt
      | inr hm => exact hlt.trans (hhead entry hm)
    · split
      · rename_i heq
        subst heq
        exact List.pairwise_cons.mpr ⟨hhead, hrest⟩
      · rename_i hlt hne
        refine List.pairwise_cons.mpr ⟨?_, ih hrest⟩
        intro entry hentry
        cases mem_modifyIn hentry with
        | inl heq =>
          rw [heq]
          exact lt_of_le_of_ne (not_lt.mp hlt) (Ne.symm hne)
        | inr hm => exact hhead entry hm

def modify (map : OrderedMap K V) (key : K) (change : Option V → V) : OrderedMap K V :=
  ⟨modifyIn key change map.entries, modifyIn_sorted key change map.sorted⟩

def insert (map : OrderedMap K V) (key : K) (value : V) : OrderedMap K V := map.modify key fun _ => value

def size (map : OrderedMap K V) : ℕ := map.entries.length

lemma findIn_of_lt {key : K} {entries : List (K × V)} (h : ∀ entry ∈ entries, key < entry.1) :
    findIn key entries = none := by
  induction entries with
  | nil => rfl
  | cons head rest ih =>
    obtain ⟨other, value⟩ := head
    rw [findIn, if_neg (h _ List.mem_cons_self).ne]
    exact ih fun entry hm => h entry (List.mem_cons_of_mem _ hm)

lemma findIn_modifyIn (key : K) (change : Option V → V) {entries : List (K × V)}
    (h : entries.Pairwise (·.1 < ·.1)) :
    findIn key (modifyIn key change entries) = some (change (findIn key entries)) := by
  induction entries with
  | nil => simp [modifyIn, findIn]
  | cons head rest ih =>
    obtain ⟨other, value⟩ := head
    obtain ⟨hhead, hrest⟩ := List.pairwise_cons.mp h
    rw [modifyIn]
    split
    · rename_i hlt
      have hnone : findIn key ((other, value) :: rest) = none := by
        apply findIn_of_lt
        intro entry hentry
        cases List.mem_cons.mp hentry with
        | inl heq =>
          rw [heq]
          exact hlt
        | inr hm => exact hlt.trans (hhead entry hm)
      rw [hnone]
      simp [findIn]
    · split
      · rename_i heq
        simp [findIn, heq]
      · rename_i hne
        rw [findIn, if_neg hne, findIn, if_neg hne, ih hrest]

lemma findIn_modifyIn_ne {key other : K} (hne : other ≠ key) (change : Option V → V) (entries : List (K × V)) :
    findIn other (modifyIn key change entries) = findIn other entries := by
  induction entries with
  | nil => simp [modifyIn, findIn, hne]
  | cons head rest ih =>
    obtain ⟨head, value⟩ := head
    rw [modifyIn]
    split
    · rw [findIn, if_neg hne]
    · split
      · rename_i heq
        subst heq
        rw [findIn, if_neg hne, findIn, if_neg hne]
      · rw [findIn, findIn, ih]

@[simp] lemma find?_modify (map : OrderedMap K V) (key : K) (change : Option V → V) :
    (map.modify key change).find? key = some (change (map.find? key)) :=
  findIn_modifyIn key change map.sorted

lemma find?_modify_ne (map : OrderedMap K V) {key other : K} (hne : other ≠ key) (change : Option V → V) :
    (map.modify key change).find? other = map.find? other :=
  findIn_modifyIn_ne hne change map.entries

@[simp] lemma find?_insert (map : OrderedMap K V) (key : K) (value : V) :
    (map.insert key value).find? key = some value := map.find?_modify key _

lemma find?_insert_ne (map : OrderedMap K V) {key other : K} (hne : other ≠ key) (value : V) :
    (map.insert key value).find? other = map.find? other := map.find?_modify_ne hne _

lemma findIn_mem {key : K} {value : V} {entries : List (K × V)} (h : findIn key entries = some value) :
    (key, value) ∈ entries := by
  induction entries with
  | nil => cases h
  | cons head rest ih =>
    obtain ⟨other, found⟩ := head
    rw [findIn] at h
    split at h
    · rename_i heq
      cases h
      exact heq ▸ List.mem_cons_self
    · exact List.mem_cons_of_mem _ (ih h)

lemma findIn_of_mem {key : K} {value : V} {entries : List (K × V)} (hs : entries.Pairwise (·.1 < ·.1))
    (h : (key, value) ∈ entries) : findIn key entries = some value := by
  induction entries with
  | nil => exact absurd h List.not_mem_nil
  | cons head rest ih =>
    obtain ⟨other, found⟩ := head
    obtain ⟨hhead, hrest⟩ := List.pairwise_cons.mp hs
    cases List.mem_cons.mp h with
    | inl heq =>
      cases heq
      rw [findIn, if_pos rfl]
    | inr hm => rw [findIn, if_neg (hhead _ hm).ne', ih hrest hm]

lemma mem_entries_iff (map : OrderedMap K V) {key : K} {value : V} :
    (key, value) ∈ map.entries ↔ map.find? key = some value :=
  ⟨findIn_of_mem map.sorted, findIn_mem⟩

lemma length_modifyIn {key : K} {change : Option V → V} {entries : List (K × V)} (h : findIn key entries = none) :
    (modifyIn key change entries).length = entries.length + 1 := by
  induction entries with
  | nil => rfl
  | cons head rest ih =>
    obtain ⟨other, value⟩ := head
    rw [findIn] at h
    split at h
    · cases h
    · rename_i hne
      rw [modifyIn, if_neg hne]
      split
      · rfl
      · rw [List.length_cons, ih h, List.length_cons]

lemma size_insert {map : OrderedMap K V} {key : K} (h : map.find? key = none) (value : V) :
    (map.insert key value).size = map.size + 1 := length_modifyIn h

lemma one_lt_size {map : OrderedMap K V} {key other : K} (hne : key ≠ other) (h : (map.find? key).isSome)
    (h' : (map.find? other).isSome) : 1 < map.size := by
  obtain ⟨value, hvalue⟩ := Option.isSome_iff_exists.mp h
  obtain ⟨value', hvalue'⟩ := Option.isSome_iff_exists.mp h'
  have hm := map.mem_entries_iff.mpr hvalue
  have hm' := map.mem_entries_iff.mpr hvalue'
  rw [size]
  match hentries : map.entries with
  | [] =>
    rw [hentries] at hm
    exact absurd hm List.not_mem_nil
  | [entry] =>
    rw [hentries, List.mem_singleton] at hm hm'
    exact absurd (congrArg Prod.fst (hm.trans hm'.symm)) hne
  | _ :: _ :: _ => simp

lemma head_of_size {map : OrderedMap K V} {key : K} (h : (map.find? key).isSome) (hsize : map.size = 1) :
    map.entries.head?.map Prod.fst = some key := by
  obtain ⟨value, hvalue⟩ := Option.isSome_iff_exists.mp h
  have hm := map.mem_entries_iff.mpr hvalue
  obtain ⟨entry, hentries⟩ := List.length_eq_one_iff.mp hsize
  rw [hentries, List.mem_singleton] at hm
  rw [hentries, ← hm]
  rfl

lemma size_pos {map : OrderedMap K V} {key : K} (h : (map.find? key).isSome) : 0 < map.size := by
  obtain ⟨value, hvalue⟩ := Option.isSome_iff_exists.mp h
  exact List.length_pos_of_mem (map.mem_entries_iff.mpr hvalue)

end OrderedMap

end OpenRace.Library
