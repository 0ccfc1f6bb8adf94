import Mathlib.Data.List.Basic

/-! Computations that may fail, and the steps after which they have not. -/

namespace OpenRace.Library

variable {ε α β : Type}

def Fails (answer : Except ε α) : Prop := ∃ error, answer = .error error

lemma fails_error (error : ε) : Fails (.error error : Except ε α) := ⟨error, rfl⟩

@[simp]
lemma not_fails_ok (a : α) : ¬ Fails (.ok a : Except ε α) := by
  rintro ⟨error, h⟩
  cases h

lemma not_fails_iff {answer : Except ε α} : ¬ Fails answer ↔ ∃ a, answer = .ok a := by
  cases answer with
  | error error => exact iff_of_false (fun h => h (fails_error error)) (fun ⟨a, h⟩ => by cases h)
  | ok a => exact iff_of_true (not_fails_ok a) ⟨a, rfl⟩

lemma not_fails_bind {answer : Except ε α} {next : α → Except ε β} :
    ¬ Fails (answer >>= next) ↔ ∃ a, answer = .ok a ∧ ¬ Fails (next a) := by
  cases answer with
  | error error => exact iff_of_false (fun h => h (fails_error error)) (fun ⟨a, h, _⟩ => by cases h)
  | ok a =>
    constructor
    · exact fun h => ⟨a, rfl, h⟩
    · rintro ⟨_, ⟨⟩, h⟩
      exact h

lemma exists_of_bind {answer : Except ε α} {next : α → Except ε β} {b : β} (h : answer >>= next = .ok b) :
    ∃ a, answer = .ok a ∧ next a = .ok b := by
  cases answer with
  | error error => cases h
  | ok a => exact ⟨a, rfl, h⟩

def ErrsIn (errors : ε → Prop) (answer : Except ε α) : Prop := ∀ error, answer = .error error → errors error

section ErrsIn

variable {errors : ε → Prop}

lemma errsIn_ok (a : α) : ErrsIn errors (.ok a) := by
  rintro error ⟨⟩

lemma errsIn_error {error : ε} (h : errors error) : ErrsIn errors (.error error : Except ε α) := by
  rintro _ ⟨⟩
  exact h

lemma ErrsIn.bind {answer : Except ε α} {next : α → Except ε β} (h : ErrsIn errors answer)
    (hnext : ∀ a, ErrsIn errors (next a)) : ErrsIn errors (answer >>= next) := by
  cases answer with
  | error error => exact errsIn_error (h error rfl)
  | ok a => exact hnext a

end ErrsIn

section FoldM

variable {f : β → α → Except ε β} {as : List α} {b b' : β}

lemma errsIn_foldlM {errors : ε → Prop} (h : ∀ a ∈ as, ∀ b, ErrsIn errors (f b a)) : ErrsIn errors (as.foldlM f b) := by
  induction as generalizing b with
  | nil => exact errsIn_ok b
  | cons a as ih =>
    rw [List.forall_mem_cons] at h
    rw [List.foldlM_cons]
    exact (h.1 b).bind fun b => ih h.2

lemma exists_of_foldlM (h : as.foldlM f b = .ok b') : ∀ a ∈ as, ∃ before after, f before a = .ok after := by
  induction as generalizing b with
  | nil => simp
  | cons a as ih =>
    rw [List.foldlM_cons] at h
    obtain ⟨next, hfirst, hrest⟩ := exists_of_bind h
    exact List.forall_mem_cons.mpr ⟨⟨b, next, hfirst⟩, ih hrest⟩

lemma foldlM_ok (h : ∀ a ∈ as, ∀ b, ∃ b', f b a = .ok b') : ∃ b', as.foldlM f b = .ok b' := by
  induction as generalizing b with
  | nil => exact ⟨b, rfl⟩
  | cons a as ih =>
    rw [List.forall_mem_cons] at h
    obtain ⟨next, hnext⟩ := h.1 b
    rw [List.foldlM_cons, hnext]
    exact ih h.2

lemma foldlM_keep {P : β → Prop} (hstep : ∀ b a b', P b → f b a = .ok b' → P b') (hb : P b)
    (h : as.foldlM f b = .ok b') : P b' := by
  induction as generalizing b with
  | nil =>
    cases h
    exact hb
  | cons a as ih =>
    rw [List.foldlM_cons] at h
    obtain ⟨next, hfirst, hrest⟩ := exists_of_bind h
    exact ih (hstep b a next hb hfirst) hrest

end FoldM

section FilterM

variable {test : α → Except ε Bool}

lemma not_fails_filterAuxM {as acc : List α} :
    ¬ Fails (List.filterAuxM test as acc) ↔ ∀ a ∈ as, ¬ Fails (test a) := by
  induction as generalizing acc with
  | nil => simp [List.filterAuxM, pure, Except.pure]
  | cons a rest ih =>
    rw [List.filterAuxM, not_fails_bind, List.forall_mem_cons]
    simp only [ih, exists_and_right, not_fails_iff]

lemma mem_filterAuxM {as acc kept : List α} (h : List.filterAuxM test as acc = .ok kept) (a : α) :
    a ∈ kept ↔ a ∈ acc ∨ a ∈ as ∧ test a = .ok true := by
  induction as generalizing acc with
  | nil =>
    cases h
    simp
  | cons b rest ih =>
    rw [List.filterAuxM] at h
    cases htest : test b with
    | error error =>
      rw [htest] at h
      cases h
    | ok holds =>
      rw [htest] at h
      rw [ih h]
      cases holds with
      | true =>
        simp only [cond_true, List.mem_cons]
        constructor
        · rintro ((rfl | hacc) | ⟨hrest, hholds⟩)
          · exact Or.inr ⟨Or.inl rfl, htest⟩
          · exact Or.inl hacc
          · exact Or.inr ⟨Or.inr hrest, hholds⟩
        · rintro (hacc | ⟨rfl | hrest, hholds⟩)
          · exact Or.inl (Or.inr hacc)
          · exact Or.inl (Or.inl rfl)
          · exact Or.inr ⟨hrest, hholds⟩
      | false =>
        simp only [cond_false, List.mem_cons]
        constructor
        · rintro (hacc | ⟨hrest, hholds⟩)
          · exact Or.inl hacc
          · exact Or.inr ⟨Or.inr hrest, hholds⟩
        · rintro (hacc | ⟨rfl | hrest, hholds⟩)
          · exact Or.inl hacc
          · simp [htest] at hholds
          · exact Or.inr ⟨hrest, hholds⟩

lemma not_fails_filterM {as : List α} : ¬ Fails (as.filterM test) ↔ ∀ a ∈ as, ¬ Fails (test a) := by
  have hkept : (∃ kept, List.filterAuxM test as [] = .ok kept) ↔ ∀ a ∈ as, ¬ Fails (test a) := by
    rw [← not_fails_iff, not_fails_filterAuxM]
  rw [List.filterM, not_fails_bind, ← hkept]
  simp [pure, Except.pure]

lemma mem_filterM {as kept : List α} (h : as.filterM test = .ok kept) (a : α) :
    a ∈ kept ↔ a ∈ as ∧ test a = .ok true := by
  rw [List.filterM] at h
  cases hreversed : List.filterAuxM test as [] with
  | error error =>
    rw [hreversed] at h
    cases h
  | ok reversed =>
    rw [hreversed] at h
    cases h
    rw [List.mem_reverse, mem_filterAuxM hreversed]
    simp

end FilterM

end OpenRace.Library
