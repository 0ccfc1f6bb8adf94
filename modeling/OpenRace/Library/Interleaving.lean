import Mathlib.Algebra.BigOperators.Group.Finset.Piecewise
import Mathlib.Algebra.Order.BigOperators.Group.Finset
import Mathlib.Data.Finset.Max
import Mathlib.Data.Nat.Count
import Mathlib.Logic.Relation
import Mathlib.Tactic.Common

/-! Threads that run their events in order and wait for one another, interleaved step by step. -/

namespace OpenRace.Library.Interleaving

open Relation

/-- An event of a thread, given by its position, needs some events of others to have been run, and takes locks. What
is held is told after so many events. -/
structure Threads (Thread Lock : Type*) where
  length : Thread → ℕ
  needs : Thread → ℕ → Thread → ℕ → Prop
  takes : Thread → ℕ → Lock → Prop
  held : Thread → ℕ → Lock → Prop

variable {Thread Lock : Type*} (threads : Threads Thread Lock)

def Enabled (cut : Thread → ℕ) (t : Thread) : Prop :=
  cut t < threads.length t ∧ ∀ s n, threads.needs t (cut t) s n → n ≤ cut s

def Unlocked (cut : Thread → ℕ) (t : Thread) : Prop :=
  ∀ lock, threads.takes t (cut t) lock → ∀ s, s ≠ t → ¬threads.held s (cut s) lock

abbrev Unblocked (cut : Thread → ℕ) (t : Thread) : Prop := Enabled threads cut t ∧ Unlocked threads cut t

structure Feasible (cut : Thread → ℕ) : Prop where
  le : ∀ t, cut t ≤ threads.length t
  met : ∀ t i, i < cut t → ∀ s n, threads.needs t i s n → n ≤ cut s

variable {threads} in
lemma feasible_zero : Feasible threads fun _ => 0 where
  le _ := Nat.zero_le _
  met _ _ hi := absurd hi (Nat.not_lt_zero _)

section Ranked

variable {K : Type*} [LinearOrder K]

structure Ranked (threads : Threads Thread Lock) (rank : Thread → ℕ → K) : Prop where
  along : ∀ t i j, i < j → rank t i < rank t j
  needs : ∀ t i s n, threads.needs t i s (n + 1) → rank s n < rank t i

variable {threads} in
lemma Ranked.along_le {rank : Thread → ℕ → K} (hr : Ranked threads rank) (t : Thread) {i j : ℕ} (h : i ≤ j) :
    rank t i ≤ rank t j := by
  rcases h.lt_or_eq with hlt | rfl
  · exact (hr.along t i j hlt).le
  · exact le_rfl

end Ranked

lemma lt_count_iff {p : ℕ → Prop} [DecidablePred p] (hp : ∀ i j, p j → i < j → p i) (i n : ℕ) :
    i < Nat.count p n ↔ i < n ∧ p i := by
  induction n with
  | zero => simp
  | succ n ih =>
    rw [Nat.count_succ]
    by_cases hn : p n
    · have hall : Nat.count p n = n := Nat.count_iff_forall.mpr fun j hj => hp j n hn hj
      rw [if_pos hn, hall]
      refine ⟨fun hi => ⟨hi, ?_⟩, And.left⟩
      rcases Nat.lt_succ_iff_lt_or_eq.mp hi with hlt | rfl
      · exact hp i n hn hlt
      · exact hn
    · rw [if_neg hn, Nat.add_zero, ih]
      refine and_congr_left fun hi => ⟨fun hlt => by omega, fun hlt => ?_⟩
      have hne : i ≠ n := fun heq => hn (heq ▸ hi)
      omega

variable [DecidableEq Thread]

inductive Step (may : (Thread → ℕ) → Thread → Prop) (cut : Thread → ℕ) : (Thread → ℕ) → Prop
  | run (t : Thread) (h : may cut t) : Step may cut (Function.update cut t (cut t + 1))

abbrev Reachable (may : (Thread → ℕ) → Thread → Prop) : (Thread → ℕ) → Prop :=
  ReflTransGen (Step may) fun _ => 0

variable {threads} {may may' : (Thread → ℕ) → Thread → Prop} {cut cut' : Thread → ℕ}

lemma Step.le (h : Step may cut cut') (t : Thread) : cut t ≤ cut' t := by
  cases h with
  | run s _ =>
    by_cases heq : t = s
    · rw [heq, Function.update_self]
      omega
    · rw [Function.update_of_ne heq]

lemma Reachable.mono (h : Reachable may cut) (hmay : ∀ cut t, may cut t → may' cut t) : Reachable may' cut := by
  induction h with
  | refl => exact .refl
  | tail _ hstep ih =>
    cases hstep with
    | run t ht => exact ih.tail (.run t (hmay _ t ht))

lemma Feasible.step (h : Feasible threads cut) (hstep : Step (Enabled threads) cut cut') :
    Feasible threads cut' := by
  have hle := hstep.le
  cases hstep with
  | run t ht =>
    obtain ⟨hlt, hmet⟩ := ht
    constructor
    · intro s
      by_cases heq : s = t
      · rw [heq, Function.update_self]
        omega
      · rw [Function.update_of_ne heq]
        exact h.le s
    · intro s i hi u n hn
      refine le_trans ?_ (hle u)
      by_cases heq : s = t
      · subst heq
        rw [Function.update_self] at hi
        rcases Nat.lt_succ_iff_lt_or_eq.mp hi with hold | rfl
        · exact h.met s i hold u n hn
        · exact hmet u n hn
      · rw [Function.update_of_ne heq] at hi
        exact h.met s i hi u n hn

lemma Reachable.feasible (h : Reachable (Enabled threads) cut) : Feasible threads cut := by
  induction h with
  | refl => exact feasible_zero
  | tail _ hstep ih => exact ih.step hstep

structure Threads.Taking (threads : Threads Thread Lock) : Prop where
  start : ∀ t lock, ¬threads.held t 0 lock
  taken : ∀ t i lock, threads.held t (i + 1) lock → threads.held t i lock ∨ threads.takes t i lock

lemma Reachable.exclusive (ht : threads.Taking) (h : Reachable (Unlocked threads) cut) {s t : Thread} (hne : s ≠ t)
    (lock : Lock) : ¬(threads.held s (cut s) lock ∧ threads.held t (cut t) lock) := by
  induction h generalizing s t with
  | refl => exact fun hheld => ht.start s lock hheld.1
  | @tail cut cut' _ hstep ih =>
    cases hstep with
    | run u hu =>
      -- the thread that runs, and another
      have hother : ∀ v, v ≠ u → threads.held u (cut u + 1) lock → ¬threads.held v (cut v) lock := by
        intro v hv hheld hheld'
        rcases ht.taken u (cut u) lock hheld with hold | htakes
        · exact ih hv ⟨hheld', hold⟩
        · exact hu lock htakes v hv hheld'
      rintro ⟨hs, ht⟩
      by_cases hsu : s = u
      · subst hsu
        rw [Function.update_self] at hs
        rw [Function.update_of_ne hne.symm] at ht
        exact hother t hne.symm hs ht
      · rw [Function.update_of_ne hsu] at hs
        by_cases htu : t = u
        · subst htu
          rw [Function.update_self] at ht
          exact hother s hne ht hs
        · rw [Function.update_of_ne htu] at ht
          exact ih hne ⟨hs, ht⟩

section Ranked

variable {K : Type*} [LinearOrder K] {rank : Thread → ℕ → K} (hr : Ranked threads rank)

include hr

/-- Of the events that have been run, one of the highest rank may have been the last one. -/
lemma Feasible.last_run (h : Feasible threads cut) {t : Thread} (hpos : 0 < cut t)
    (hmax : ∀ s, 0 < cut s → rank s (cut s - 1) ≤ rank t (cut t - 1)) :
    Feasible threads (Function.update cut t (cut t - 1)) ∧
      Step (Enabled threads) (Function.update cut t (cut t - 1)) cut := by
  have hneed : ∀ s i u n, i < cut s → threads.needs s i u n → n ≤ Function.update cut t (cut t - 1) u := by
    intro s i u n hi hn
    by_cases heq : u = t
    · subst heq
      rw [Function.update_self]
      by_contra hgt
      obtain ⟨m, rfl⟩ : ∃ m, n = m + 1 := ⟨n - 1, by omega⟩
      have hm : cut u - 1 ≤ m := by omega
      have hlt := (hr.along_le u hm).trans_lt (hr.needs s i u m hn)
      have hle := (hr.along_le s (show i ≤ cut s - 1 by omega)).trans (hmax s (by omega))
      exact absurd hle (not_le.mpr hlt)
    · rw [Function.update_of_ne heq]
      exact h.met s i hi u n hn
  have hle : ∀ s, Function.update cut t (cut t - 1) s ≤ cut s := by
    intro s
    by_cases heq : s = t
    · rw [heq, Function.update_self]
      omega
    · rw [Function.update_of_ne heq]
  refine ⟨⟨fun s => (hle s).trans (h.le s), fun s i hi u n hn => hneed s i u n (hi.trans_le (hle s)) hn⟩, ?_⟩
  have hrun : Enabled threads (Function.update cut t (cut t - 1)) t := by
    rw [Enabled, Function.update_self]
    have hlength := h.le t
    exact ⟨by omega, fun s n hn => hneed t (cut t - 1) s n (by omega) hn⟩
  have hstep := Step.run t hrun
  rwa [Function.update_idem, Function.update_self, Nat.sub_add_cancel hpos, Function.update_eq_self] at hstep

variable (support : Finset Thread) (hsupport : ∀ t, t ∉ support → threads.length t = 0)

include hsupport

lemma Feasible.reachable (h : Feasible threads cut) : Reachable (Enabled threads) cut := by
  obtain ⟨total, htotal⟩ : ∃ total, total = ∑ t ∈ support, cut t := ⟨_, rfl⟩
  induction total generalizing cut with
  | zero =>
    have hzero : cut = fun _ => 0 := by
      funext t
      by_cases ht : t ∈ support
      · exact (Finset.sum_eq_zero_iff.mp htotal.symm) t ht
      · exact Nat.le_zero.mp (hsupport t ht ▸ h.le t)
    rw [hzero]
  | succ total ih =>
    have hsome : (support.filter fun t => 0 < cut t).Nonempty := by
      by_contra hnone
      have hzero : ∑ t ∈ support, cut t = 0 := by
        refine Finset.sum_eq_zero fun t ht => ?_
        by_contra hne
        exact hnone ⟨t, Finset.mem_filter.mpr ⟨ht, Nat.pos_of_ne_zero hne⟩⟩
      omega
    obtain ⟨t, ht, hmax⟩ := Finset.exists_max_image _ (fun t => rank t (cut t - 1)) hsome
    obtain ⟨hmem, hpos⟩ := Finset.mem_filter.mp ht
    obtain ⟨hbefore, hstep⟩ := h.last_run hr hpos fun s hs => by
      refine hmax s (Finset.mem_filter.mpr ⟨?_, hs⟩)
      by_contra hnot
      have := hsupport s hnot ▸ h.le s
      omega
    refine (ih hbefore ?_).tail hstep
    rw [Finset.sum_update_of_mem hmem]
    rw [← Finset.add_sum_erase _ _ hmem, ← Finset.sdiff_singleton_eq_erase] at htotal
    omega

structure Closed (threads : Threads Thread Lock) (events : Thread → ℕ → Prop) : Prop where
  lt : ∀ t i, events t i → i < threads.length t
  along : ∀ t i j, events t j → i < j → events t i
  needs : ∀ t i s n, events t i → threads.needs t i s (n + 1) → events s n

lemma Closed.exists_reachable {events : Thread → ℕ → Prop} (h : Closed threads events) :
    ∃ cut, Reachable (Enabled threads) cut ∧ ∀ t i, i < cut t ↔ events t i := by
  classical
  have hcount : ∀ t i, i < Nat.count (events t) (threads.length t) ↔ events t i := by
    intro t i
    rw [lt_count_iff (h.along t)]
    exact ⟨And.right, fun hi => ⟨h.lt t i hi, hi⟩⟩
  refine ⟨_, Feasible.reachable hr support hsupport ⟨fun t => Nat.count_le _, fun t i hi s n hn => ?_⟩, hcount⟩
  cases n with
  | zero => exact Nat.zero_le _
  | succ n => exact (hcount s n).mpr (h.needs t i s n ((hcount t i).mp hi) hn)

end Ranked

end OpenRace.Library.Interleaving
