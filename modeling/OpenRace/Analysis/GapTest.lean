import OpenRace.Analysis.IndexOverlap
import Mathlib.Data.ZMod.Basic
import Mathlib.Tactic.Ring
import Mathlib.Tactic.Linarith
import Mathlib.Tactic.LinearCombination

/-! The test on gaps: accesses in loops inside a parallel loop, and the iterations that it tells apart. -/

namespace OpenRace

open LLVM SimpleArrayAnalysis

def InInt64 (value : ℤ) : Prop := -9223372036854775808 ≤ value ∧ value < 9223372036854775808

instance (value : ℤ) : Decidable (InInt64 value) := inferInstanceAs (Decidable (_ ∧ _))

/-- What expressions of pointer width are worth when loops have run so often, and that the library computes so. -/
structure SCEVMeaning (se : ScalarEvolution) where
  wide : SCEV → Prop
  value : SCEV → (ℕ → ℕ) → ZMod UInt64.size
  constant : ∀ v, wide (.constant v 64) ∧ ∀ k, value (.constant v 64) k = v
  addRec : ∀ start step loop, wide start → wide (.addRec [start, .constant step 64] loop) ∧
    ∀ k, value (.addRec [start, .constant step 64] loop) k = value start k + k loop * step
  getAddRecExpr : ∀ start step loop flags, wide start →
    wide (se.getAddRecExpr [start, .constant step 64] loop flags) ∧
      ∀ k, value (se.getAddRecExpr [start, .constant step 64] loop flags) k = value start k + k loop * step
  add : ∀ a b, wide a → wide b → wide (se.getNAryExpr .add [a, b]) ∧
    ∀ k, value (se.getNAryExpr .add [a, b]) k = value a k + value b k
  mul : ∀ a b, wide (se.getNAryExpr .mul [.constant a 64, .constant b 64]) ∧
    ∀ k, value (se.getNAryExpr .mul [.constant a 64, .constant b 64]) k = a * b
  minus : ∀ a b v type, wide a → wide b → se.getMinusSCEV a b = .constant v type →
    InInt64 v ∧ ∀ k, (v : ZMod UInt64.size) = value a k - value b k

structure InnerLoop where
  loop : ℕ
  step : ℤ
  signed : InInt64 step

/-- An access to `start + step * i + ..` in loops inside the parallel loop over `i`; the innermost loop comes first. -/
structure AffineAccess where
  base : SCEV
  start : ℤ
  step : ℤ
  inner : List InnerLoop

namespace AffineAccess

def expr (ompLoop : ℕ) (access : AffineAccess) : SCEV :=
  access.inner.foldr (fun l start => .addRec [start, .constant l.step 64] l.loop)
    (.addRec [access.base, .constant access.step 64] ompLoop)

def next (se : ScalarEvolution) (ompLoop : ℕ) (access : AffineAccess) : SCEV :=
  getNextIterSCEV se access.base (.constant access.step 64) ompLoop

def offset (inner : List InnerLoop) (k : ℕ → ℕ) : ℤ := (inner.map fun l => (k l.loop : ℤ) * l.step).sum

def address (ompLoop : ℕ) (access : AffineAccess) (k : ℕ → ℕ) : ℤ :=
  access.start + k ompLoop * access.step + offset access.inner k

structure Describes {se : ScalarEvolution} (meaning : SCEVMeaning se) (ompLoop : ℕ) (access : AffineAccess) : Prop where
  wide : meaning.wide access.base
  base : ∀ k, meaning.value access.base k = access.start
  step : InInt64 access.step
  inside : ∀ l ∈ access.inner, l.loop ≠ ompLoop

/-- The loops inside have run at most as often as their constant trip counts say. -/
def Runs (trips k : ℕ → ℕ) (access : AffineAccess) : Prop := ∀ l ∈ access.inner, k l.loop ≤ trips l.loop

/-- No two iterations of the parallel loop touch one address by these accesses. -/
def Apart (ompLoop : ℕ) (trips : ℕ → ℕ) (access other : AffineAccess) : Prop :=
  ∀ k k', access.Runs trips k → other.Runs trips k' → k ompLoop ≠ k' ompLoop →
    access.address ompLoop k ≠ other.address ompLoop k'

/-- The next iteration's first address less this iteration's last, over all integers. -/
def gap (trips : ℕ → ℕ) (access other : AffineAccess) : ℤ :=
  access.start + access.step - (other.start + offset other.inner trips)

/-- No gap is so far below zero that 64 bits show it as positive. -/
def Fits (trips : ℕ → ℕ) (access1 access2 : AffineAccess) : Prop :=
  ∀ p ∈ [access1, access2], ∀ q ∈ [access1, access2], -9223372036854775808 ≤ gap trips p q

/-- Positive gaps tell all iterations of the parallel loop apart. -/
def GapSound (se : ScalarEvolution) (ompLoop : ℕ) (trips : ℕ → ℕ) (access1 access2 : AffineAccess) : Prop :=
  (gaps se ompLoop (access1.next se ompLoop) (access2.next se ompLoop) (access1.expr ompLoop)
      (access2.expr ompLoop)).all isPositiveConstant = true →
    Apart ompLoop trips access1 access2 ∧ Apart ompLoop trips access1 access1 ∧ Apart ompLoop trips access2 access2

end AffineAccess

def ConstantTrips (se : ScalarEvolution) (trips : ℕ → ℕ) (inner : List InnerLoop) : Prop :=
  ∀ l ∈ inner, ∃ count : ℤ, se.getBackedgeTakenCount l.loop = .constant count 64 ∧
    (count : ZMod UInt64.size) = trips l.loop

section Values

open AffineAccess

variable {se : ScalarEvolution} (meaning : SCEVMeaning se) {ompLoop : ℕ} {trips : ℕ → ℕ} {access p q : AffineAccess}

lemma value_bound (h : access.Describes meaning ompLoop) (ht : ConstantTrips se trips access.inner) (k : ℕ → ℕ) :
    meaning.wide (SCEVBoundApplier.visit se ompLoop (access.expr ompLoop)) ∧
      meaning.value (SCEVBoundApplier.visit se ompLoop (access.expr ompLoop)) k =
        ((access.start + k ompLoop * access.step + offset access.inner trips : ℤ) : ZMod UInt64.size) := by
  obtain ⟨base, start, step, inner⟩ := access
  obtain ⟨hwide, hbase, -, hinside⟩ := h
  dsimp only at hwide hbase hinside ht
  rw [expr]
  dsimp only
  induction inner with
  | nil =>
    have hrec := meaning.addRec base step ompLoop hwide
    have hvisit : SCEVBoundApplier.visit se ompLoop (.addRec [base, .constant step 64] ompLoop) =
        .addRec [base, .constant step 64] ompLoop := by
      rw [SCEVBoundApplier.visit, if_pos (beq_self_eq_true ompLoop)]
    rw [List.foldr_nil, hvisit]
    refine ⟨hrec.1, ?_⟩
    rw [hrec.2, hbase, offset]
    push_cast
    simp
  | cons l rest ih =>
    obtain ⟨hw, hv⟩ := ih (fun l' hl => ht l' (List.mem_cons_of_mem _ hl))
      (fun l' hl => hinside l' (List.mem_cons_of_mem _ hl))
    obtain ⟨count, hcount, htrips⟩ := ht l List.mem_cons_self
    have hne : (l.loop == ompLoop) = false := by simpa using hinside l List.mem_cons_self
    rw [List.foldr_cons, SCEVBoundApplier.visit, if_neg (by rw [hne]; simp), hcount]
    dsimp only
    have hmul := meaning.mul count l.step
    have hadd := meaning.add _ _ hw hmul.1
    refine ⟨hadd.1, ?_⟩
    rw [hadd.2, hv, hmul.2, htrips, offset, offset, List.map_cons, List.sum_cons]
    push_cast
    ring

lemma value_next (h : access.Describes meaning ompLoop) (k : ℕ → ℕ) :
    meaning.wide (access.next se ompLoop) ∧ meaning.value (access.next se ompLoop) k =
      ((access.start + access.step + k ompLoop * access.step : ℤ) : ZMod UInt64.size) := by
  have hconstant := meaning.constant access.step
  have hadd := meaning.add _ _ h.wide hconstant.1
  have hrec := meaning.getAddRecExpr _ access.step ompLoop
    (se.getNoWrapFlags (.addRec [access.base, .constant access.step 64] ompLoop)) hadd.1
  refine ⟨hrec.1, ?_⟩
  rw [next, getNextIterSCEV, hrec.2, hadd.2, h.base, hconstant.2]
  push_cast
  ring

lemma eq_of_cast {a b : ℤ} (ha : InInt64 a) (hb : InInt64 b)
    (h : (a : ZMod UInt64.size) = (b : ZMod UInt64.size)) : a = b := by
  rw [ZMod.intCast_eq_intCast_iff, Int.modEq_iff_dvd] at h
  obtain ⟨c, hc⟩ := h
  obtain ⟨ha, ha'⟩ := ha
  obtain ⟨hb, hb'⟩ := hb
  have hsize : ((UInt64.size : ℕ) : ℤ) = 18446744073709551616 := rfl
  rw [hsize] at hc
  omega

lemma gap_of_positive (hp : p.Describes meaning ompLoop) (hq : q.Describes meaning ompLoop)
    (ht : ConstantTrips se trips q.inner) (hfits : -9223372036854775808 ≤ gap trips p q)
    (h : isPositiveConstant (se.getMinusSCEV (p.next se ompLoop)
      (SCEVBoundApplier.visit se ompLoop (q.expr ompLoop))) = true) :
    p.step = q.step ∧ 0 < gap trips p q := by
  generalize hminus : se.getMinusSCEV (p.next se ompLoop)
    (SCEVBoundApplier.visit se ompLoop (q.expr ompLoop)) = result at h
  cases result with
  | constant v type =>
    have hpos : 0 < v := by simpa [isPositiveConstant] using h
    have hvalue : ∀ k : ℕ → ℕ, (v : ZMod UInt64.size) =
        ((gap trips p q + k ompLoop * (p.step - q.step) : ℤ) : ZMod UInt64.size) := by
      intro k
      obtain ⟨hwp, hvp⟩ := value_next meaning hp k
      obtain ⟨hwq, hvq⟩ := value_bound meaning hq ht k
      rw [(meaning.minus _ _ v type hwp hwq hminus).2 k, hvp, hvq, gap]
      push_cast
      ring
    obtain ⟨hlow, hhigh⟩ := (meaning.minus _ _ v type (value_next meaning hp fun _ => 0).1
      (value_bound meaning hq ht fun _ => 0).1 hminus).1
    have hzero := hvalue fun _ => 0
    have hone := hvalue fun _ => 1
    have hsteps : (p.step : ZMod UInt64.size) = q.step := by
      rw [hzero] at hone
      push_cast at hone
      linear_combination (-1 : ZMod UInt64.size) * hone
    refine ⟨eq_of_cast hp.step hq.step hsteps, ?_⟩
    have hcongr : (v : ZMod UInt64.size) = (gap trips p q : ZMod UInt64.size) := by simpa using hzero
    rw [ZMod.intCast_eq_intCast_iff, Int.modEq_iff_dvd] at hcongr
    obtain ⟨c, hc⟩ := hcongr
    have hsize : ((UInt64.size : ℕ) : ℤ) = 18446744073709551616 := rfl
    rw [hsize] at hc
    omega
  | _ => simp [isPositiveConstant] at h

end Values

section Forward

open AffineAccess

variable {ompLoop : ℕ} {trips k : ℕ → ℕ} {p q : AffineAccess}

lemma offset_bounds {inner : List InnerLoop} (hforward : ∀ l ∈ inner, 0 ≤ l.step)
    (hk : ∀ l ∈ inner, k l.loop ≤ trips l.loop) : 0 ≤ offset inner k ∧ offset inner k ≤ offset inner trips := by
  rw [offset, offset]
  constructor
  · refine List.sum_nonneg fun x hx => ?_
    obtain ⟨l, hl, rfl⟩ := List.mem_map.mp hx
    exact mul_nonneg (Int.natCast_nonneg _) (hforward l hl)
  · refine List.sum_le_sum fun l hl => ?_
    exact mul_le_mul_of_nonneg_right (Int.ofNat_le.mpr (hk l hl)) (hforward l hl)

lemma address_lt (hp : ∀ l ∈ p.inner, 0 ≤ l.step) (hq : ∀ l ∈ q.inner, 0 ≤ l.step) (hsteps : q.step = p.step)
    (hself : 0 < gap trips p p) (hgap : 0 < gap trips q p) {k k' : ℕ → ℕ} (hk : p.Runs trips k)
    (hk' : q.Runs trips k') (hlt : k ompLoop < k' ompLoop) : p.address ompLoop k < q.address ompLoop k' := by
  have hbp := offset_bounds hp hk
  have hbq := offset_bounds hq hk'
  rw [gap] at hself hgap
  have hpos : 0 < p.step := by omega
  have hmul : ((k ompLoop : ℤ) + 1) * p.step ≤ (k' ompLoop : ℤ) * p.step :=
    mul_le_mul_of_nonneg_right (by omega) hpos.le
  rw [address, address, hsteps]
  rw [add_mul, one_mul] at hmul
  omega

lemma apart_of_gaps (hp : ∀ l ∈ p.inner, 0 ≤ l.step) (hq : ∀ l ∈ q.inner, 0 ≤ l.step) (hsteps : q.step = p.step)
    (hself : 0 < gap trips p p) (hself' : 0 < gap trips q q) (hgap : 0 < gap trips q p) (hgap' : 0 < gap trips p q) :
    Apart ompLoop trips p q := by
  intro k k' hk hk' hne
  rcases lt_or_gt_of_ne hne with hlt | hgt
  · exact (address_lt hp hq hsteps hself hgap hk hk' hlt).ne
  · exact (address_lt hq hp hsteps.symm hself' hgap' hk' hk hgt).ne'

end Forward

namespace AffineLibrary

structure Form where
  constant : ℤ
  terms : List (ℕ × ℤ)
deriving DecidableEq

def Form.add (a b : Form) : Form := ⟨a.constant + b.constant, a.terms ++ b.terms⟩

def form : SCEV → Option Form
  | .constant v _ => some ⟨v, []⟩
  | .addRec [start, .constant step _] loop => (form start).map fun f => ⟨f.constant, (loop, step) :: f.terms⟩
  | .nary .add [a, b] =>
    match form a, form b with
    | some f, some g => some (f.add g)
    | _, _ => none
  | _ => none

def Form.value (f : Form) (k : ℕ → ℕ) : ℤ := f.constant + (f.terms.map fun t => (k t.1 : ℤ) * t.2).sum

lemma Form.value_add (f g : Form) (k : ℕ → ℕ) : (f.add g).value k = f.value k + g.value k := by
  rw [value, value, value, add, List.map_append, List.sum_append]
  ring

def wrapInt64 (v : ℤ) : ℤ := Int.bmod v UInt64.size

lemma wrapInt64_inInt64 (v : ℤ) : InInt64 (wrapInt64 v) := by
  have hlow := Int.le_bmod (x := v) (m := UInt64.size) (by decide)
  have hhigh := Int.bmod_lt (x := v) (m := UInt64.size) (by decide)
  have hsize : ((UInt64.size : ℕ) : ℤ) = 18446744073709551616 := rfl
  rw [hsize] at hlow hhigh
  rw [wrapInt64, InInt64]
  omega

lemma wrapInt64_cast (v : ℤ) : (wrapInt64 v : ZMod UInt64.size) = v := by
  rw [ZMod.intCast_eq_intCast_iff]
  exact Int.bmod_emod

def minus (a b : SCEV) : SCEV :=
  match form a, form b with
  | some f, some g =>
    if f.terms = g.terms then .constant (wrapInt64 (f.constant - g.constant)) 64 else .couldNotCompute
  | _, _ => .couldNotCompute

def nary : SCEVNAryKind → List SCEV → SCEV
  | .mul, [.constant a _, .constant b _] => .constant (wrapInt64 (a * b)) 64
  | kind, operands => .nary kind operands

def library (trips : ℕ → ℕ) : ScalarEvolution where
  getSCEV := fun _ => .couldNotCompute
  getMinusSCEV := minus
  getCastExpr := .cast
  getNAryExpr := nary
  getUDivExpr := .udiv
  getAddRecExpr := fun operands loop _ => .addRec operands loop
  getNoWrapFlags := fun _ => 0
  getBackedgeTakenCount := fun loop => .constant (trips loop) 64

def value (expr : SCEV) (k : ℕ → ℕ) : ZMod UInt64.size :=
  match form expr with
  | some f => (f.value k : ZMod UInt64.size)
  | none => 0

lemma value_of_form {expr : SCEV} {f : Form} (h : form expr = some f) (k : ℕ → ℕ) :
    value expr k = (f.value k : ZMod UInt64.size) := by rw [value, h]

lemma addRec_form (start : SCEV) (step : ℤ) (loop : ℕ) (h : (form start).isSome) :
    (form (.addRec [start, .constant step 64] loop)).isSome ∧
      ∀ k, value (.addRec [start, .constant step 64] loop) k = value start k + k loop * step := by
  obtain ⟨f, hf⟩ := Option.isSome_iff_exists.mp h
  have hform : form (.addRec [start, .constant step 64] loop) = some ⟨f.constant, (loop, step) :: f.terms⟩ := by
    rw [form, hf]
    rfl
  refine ⟨by rw [hform]; rfl, fun k => ?_⟩
  rw [value_of_form hform, value_of_form hf, Form.value, Form.value, List.map_cons, List.sum_cons]
  push_cast
  ring

def meaning (trips : ℕ → ℕ) : SCEVMeaning (library trips) where
  wide expr := (form expr).isSome
  value := value
  constant v := ⟨rfl, fun k => by simp [value, form, Form.value]⟩
  addRec := addRec_form
  getAddRecExpr start step loop _ := addRec_form start step loop
  add a b ha hb := by
    obtain ⟨f, hf⟩ := Option.isSome_iff_exists.mp ha
    obtain ⟨g, hg⟩ := Option.isSome_iff_exists.mp hb
    have hform : form (.nary .add [a, b]) = some (f.add g) := by rw [form, hf, hg]
    change (form (.nary .add [a, b])).isSome = true ∧ ∀ k, value (.nary .add [a, b]) k = _
    refine ⟨by rw [hform]; rfl, fun k => ?_⟩
    rw [value_of_form hform, value_of_form hf, value_of_form hg, Form.value_add]
    push_cast
    rfl
  mul a b := by
    refine ⟨rfl, fun k => ?_⟩
    change value (.constant (wrapInt64 (a * b)) 64) k = _
    rw [value_of_form rfl, Form.value, List.map_nil, List.sum_nil, add_zero, wrapInt64_cast]
    push_cast
    rfl
  minus a b v type ha hb h := by
    obtain ⟨f, hf⟩ := Option.isSome_iff_exists.mp ha
    obtain ⟨g, hg⟩ := Option.isSome_iff_exists.mp hb
    change minus a b = .constant v type at h
    rw [minus, hf, hg] at h
    dsimp only at h
    by_cases hterms : f.terms = g.terms
    · rw [if_pos hterms] at h
      cases h
      refine ⟨wrapInt64_inInt64 _, fun k => ?_⟩
      rw [value_of_form hf, value_of_form hg, wrapInt64_cast, Form.value, Form.value, hterms]
      push_cast
      ring
    · rw [if_neg hterms] at h
      cases h

section Backward

open AffineAccess

variable {l : InnerLoop} {step : ℤ} {count : ℕ}

def single (l : InnerLoop) (step : ℤ) : AffineAccess := ⟨.constant 0 64, 0, step, [l]⟩

lemma single_describes (trips : ℕ → ℕ) (hs : InInt64 step) :
    (single l step).Describes (meaning trips) (l.loop + 1) := by
  refine ⟨rfl, fun k => ?_, hs, fun l' hl => ?_⟩
  · change value (.constant 0 64) k = ((0 : ℤ) : ZMod UInt64.size)
    rw [value_of_form rfl, Form.value, List.map_nil, List.sum_nil, add_zero]
  · rw [List.mem_singleton.mp hl]
    exact (Nat.lt_succ_self _).ne

lemma library_trips (trips : ℕ → ℕ) (inner : List InnerLoop) : ConstantTrips (library trips) trips inner :=
  fun l _ => ⟨trips l.loop, rfl, by push_cast; rfl⟩

lemma single_gap (hgap : InInt64 (step - count * l.step)) :
    minus ((single l step).next (library fun _ => count) (l.loop + 1))
        (SCEVBoundApplier.visit (library fun _ => count) (l.loop + 1) ((single l step).expr (l.loop + 1))) =
      .constant (step - count * l.step) 64 := by
  have hne : (l.loop == l.loop + 1) = false := by simp
  have hbound : SCEVBoundApplier.visit (library fun _ => count) (l.loop + 1) ((single l step).expr (l.loop + 1)) =
      .nary .add [.addRec [.constant 0 64, .constant step 64] (l.loop + 1),
        .constant (wrapInt64 (count * l.step)) 64] := by
    rw [expr, single, List.foldr_cons, List.foldr_nil, SCEVBoundApplier.visit, if_neg (by rw [hne]; simp)]
    change SCEV.nary .add [SCEVBoundApplier.visit (library fun _ => count) (l.loop + 1) _, _] = _
    rw [SCEVBoundApplier.visit, if_pos (beq_self_eq_true (l.loop + 1))]
    rfl
  have hnext : form ((single l step).next (library fun _ => count) (l.loop + 1)) =
      some ⟨0 + step, [(l.loop + 1, step)]⟩ := rfl
  have hform : form (.nary .add [.addRec [.constant 0 64, .constant step 64] (l.loop + 1),
      .constant (wrapInt64 (count * l.step)) 64]) =
        some ⟨0 + wrapInt64 (count * l.step), [(l.loop + 1, step)]⟩ := rfl
  rw [minus, hbound, hnext, hform]
  dsimp only
  rw [if_pos rfl]
  refine congrArg (SCEV.constant · 64) (eq_of_cast (wrapInt64_inInt64 _) hgap ?_)
  rw [wrapInt64_cast]
  push_cast
  rw [wrapInt64_cast]
  push_cast
  ring

lemma single_unsound {times : ℕ} (htimes : times ≠ 0) (hcount : 1 ≤ count) (hmeet : (times : ℤ) * step = l.step)
    (hpos : 0 < step - count * l.step) (hgap : InInt64 (step - count * l.step)) :
    ¬ GapSound (library fun _ => count) (l.loop + 1) (fun _ => count) (single l step) (single l step) := by
  intro h
  have hpositive : isPositiveConstant (.constant (step - count * l.step) 64) = true := by
    simpa [isPositiveConstant] using hpos
  have hall : (gaps (library fun _ => count) (l.loop + 1) ((single l step).next (library fun _ => count) (l.loop + 1))
      ((single l step).next (library fun _ => count) (l.loop + 1)) ((single l step).expr (l.loop + 1))
      ((single l step).expr (l.loop + 1))).all isPositiveConstant = true := by
    have hminus := single_gap hgap
    change ([minus _ _, minus _ _, minus _ _, minus _ _]).all isPositiveConstant = true
    rw [hminus]
    simp only [List.all_cons, List.all_nil, hpositive, Bool.and_self]
  obtain ⟨hapart, -, -⟩ := h hall
  refine hapart (fun loop => if loop = l.loop + 1 then times else 0) (fun loop => if loop = l.loop + 1 then 0 else 1)
    (fun l' _ => ?_) (fun l' _ => ?_) ?_ ?_
  · dsimp only
    have hl : l'.loop = l.loop := by rw [List.mem_singleton.mp ‹l' ∈ _›]
    rw [hl, if_neg (by omega)]
    exact Nat.zero_le _
  · dsimp only
    split
    · exact Nat.zero_le _
    · exact hcount
  · rw [if_pos rfl, if_pos rfl]
    exact htimes
  · rw [address, address, offset, offset, single]
    dsimp only
    rw [List.map_singleton, List.map_singleton, List.sum_singleton, List.sum_singleton, if_pos rfl, if_pos rfl,
      if_neg (by omega), if_neg (by omega)]
    push_cast
    linarith

end Backward

end AffineLibrary

open AffineAccess AffineLibrary in
/-- Positive gaps tell iterations apart in all accesses in these loops just when no loop goes backward. -/
theorem gap_test_sound_iff (inner : List InnerLoop) :
    (∀ (ompLoop : ℕ) (se : ScalarEvolution) (meaning : SCEVMeaning se) (trips : ℕ → ℕ) (access1 access2 : AffineAccess),
      access1.inner ⊆ inner → access2.inner ⊆ inner → access1.Describes meaning ompLoop →
        access2.Describes meaning ompLoop → ConstantTrips se trips inner → Fits trips access1 access2 →
          GapSound se ompLoop trips access1 access2) ↔ ∀ l ∈ inner, 0 ≤ l.step := by
  constructor
  · intro h l hl
    by_contra hneg
    obtain ⟨hlow, hhigh⟩ := l.signed
    have hsub : ∀ step, (single l step).inner ⊆ inner := by
      intro step l' hl'
      rw [List.mem_singleton.mp hl']
      exact hl
    have hsound : ∀ (step : ℤ) (count : ℕ), InInt64 step → 0 < step - count * l.step →
        GapSound (library fun _ => count) (l.loop + 1) (fun _ => count) (single l step) (single l step) := by
      intro step count hs hpos
      refine h _ _ (meaning fun _ => count) _ _ _ (hsub step) (hsub step) (single_describes _ hs)
        (single_describes _ hs) (library_trips _ _) ?_
      intro p hp q hq
      have hp' : p = single l step := by simpa using hp
      have hq' : q = single l step := by simpa using hq
      subst hp' hq'
      rw [gap, offset, single]
      dsimp only
      rw [List.map_singleton, List.sum_singleton]
      omega
    by_cases hmin : l.step = -9223372036854775808
    · -- half the step of the least integer meets it in two iterations
      have hpos : (0 : ℤ) < -4611686018427387904 - (1 : ℕ) * l.step := by omega
      exact single_unsound (by decide : 2 ≠ 0) le_rfl (by omega) hpos ⟨by omega, by omega⟩
        (hsound _ 1 (by decide) hpos)
    · have hpos : (0 : ℤ) < l.step - (2 : ℕ) * l.step := by omega
      exact single_unsound one_ne_zero one_le_two (by push_cast; ring) hpos ⟨by omega, by omega⟩
        (hsound _ 2 l.signed hpos)
  · intro hforward ompLoop se meaning trips access1 access2 hsub1 hsub2 h1 h2 ht hfits hall
    have ht1 : ConstantTrips se trips access1.inner := fun l hl => ht l (hsub1 hl)
    have ht2 : ConstantTrips se trips access2.inner := fun l hl => ht l (hsub2 hl)
    have hf1 : ∀ l ∈ access1.inner, 0 ≤ l.step := fun l hl => hforward l (hsub1 hl)
    have hf2 : ∀ l ∈ access2.inner, 0 ≤ l.step := fun l hl => hforward l (hsub2 hl)
    simp only [gaps, List.all_cons, List.all_nil, Bool.and_true, Bool.and_eq_true] at hall
    obtain ⟨h11, h12, h21, h22⟩ := hall
    have hfits' : ∀ p ∈ [access1, access2], ∀ q ∈ [access1, access2], -9223372036854775808 ≤ gap trips p q := hfits
    obtain ⟨-, hpos11⟩ := gap_of_positive meaning h1 h1 ht1 (hfits' _ (by simp) _ (by simp)) h11
    obtain ⟨hsteps, hpos12⟩ := gap_of_positive meaning h1 h2 ht2 (hfits' _ (by simp) _ (by simp)) h12
    obtain ⟨-, hpos21⟩ := gap_of_positive meaning h2 h1 ht1 (hfits' _ (by simp) _ (by simp)) h21
    obtain ⟨-, hpos22⟩ := gap_of_positive meaning h2 h2 ht2 (hfits' _ (by simp) _ (by simp)) h22
    exact ⟨apart_of_gaps hf1 hf2 hsteps.symm hpos11 hpos22 hpos21 hpos12,
      apart_of_gaps hf1 hf1 rfl hpos11 hpos11 hpos11 hpos11, apart_of_gaps hf2 hf2 rfl hpos22 hpos22 hpos22 hpos22⟩

namespace BackwardLoop

open AffineAccess AffineLibrary

/-- `for (x = 0; x < 3; x++)` around an access whose address decreases with `x`. -/
def inner : InnerLoop := ⟨0, -1, by decide⟩

/-- `a[-i - x]` in the parallel loop over `i`: one iteration starts where the one before has its second element. -/
theorem backward_overlaps : ¬ ∀ (ompLoop : ℕ) (se : ScalarEvolution) (meaning : SCEVMeaning se) (trips : ℕ → ℕ)
    (access1 access2 : AffineAccess), access1.Describes meaning ompLoop → access2.Describes meaning ompLoop →
      ConstantTrips se trips (access1.inner ++ access2.inner) → Fits trips access1 access2 →
        GapSound se ompLoop trips access1 access2 := by
  intro h
  have hdescribes : (single inner (-1)).Describes (meaning fun _ => 2) (inner.loop + 1) :=
    single_describes _ (by decide : InInt64 (-1))
  refine @single_unsound inner (-1) 2 1 one_ne_zero one_le_two (by decide) (by decide) (by decide)
    (h 1 (library fun _ => 2) (meaning fun _ => 2) (fun _ => 2) (single inner (-1)) (single inner (-1))
      hdescribes hdescribes (library_trips _ _) ?_)
  intro p hp q hq
  have hp' : p = single inner (-1) := by simpa using hp
  have hq' : q = single inner (-1) := by simpa using hq
  subst hp' hq'
  decide

end BackwardLoop

end OpenRace
