import OpenRace.LLVM.Instructions
import OpenRace.Library.OrderedMultiset

/-! Whether two accesses can meet in thread local globals only. -/

namespace OpenRace

open LLVM Library

namespace ThreadLocalAnalysis

variable {Obj : Type} (getValue : Obj → Option Value)

/-- An object need not be made for a value of the program. -/
def isThreadLocal (obj : Obj) : Bool :=
  match getValue obj with
  | some (.globalVariable _ isThreadLocal) => isThreadLocal
  | _ => false

variable [LinearOrder Obj]

/-- The loop over both points-to sets; it leaves with the first object in both that is not thread local. -/
def sharedThreadLocal : List Obj → List Obj → Bool
  | [], _ => true
  | _, [] => true
  | wpt :: writePtsTo, opt :: otherPtsTo =>
    if wpt < opt then sharedThreadLocal writePtsTo (opt :: otherPtsTo)
    else if opt < wpt then sharedThreadLocal (wpt :: writePtsTo) otherPtsTo
    else if isThreadLocal getValue wpt then sharedThreadLocal writePtsTo otherPtsTo
    else false
termination_by writePtsTo otherPtsTo => writePtsTo.length + otherPtsTo.length

def isThreadLocalAccess (writePtsTo otherPtsTo : OrderedMultiset Obj) : Bool :=
  sharedThreadLocal getValue writePtsTo.elems otherPtsTo.elems

variable {getValue} {wpt opt : Obj} {writePtsTo otherPtsTo : List Obj}

lemma all_shared_cons (h : isThreadLocal getValue wpt = true) :
    (∀ obj ∈ writePtsTo, obj ∈ otherPtsTo → isThreadLocal getValue obj = true) ↔
      ∀ obj ∈ wpt :: writePtsTo, obj ∈ wpt :: otherPtsTo → isThreadLocal getValue obj = true := by
  constructor
  · intro hall obj hw ho
    by_cases heq : obj = wpt
    · rw [heq]
      exact h
    · exact hall obj ((List.mem_cons.mp hw).resolve_left heq) ((List.mem_cons.mp ho).resolve_left heq)
  · intro hall obj hw ho
    exact hall obj (List.mem_cons_of_mem _ hw) (List.mem_cons_of_mem _ ho)

lemma sharedThreadLocal_iff (hw : writePtsTo.Pairwise (· ≤ ·)) (ho : otherPtsTo.Pairwise (· ≤ ·)) :
    sharedThreadLocal getValue writePtsTo otherPtsTo = true ↔
      ∀ obj ∈ writePtsTo, obj ∈ otherPtsTo → isThreadLocal getValue obj = true := by
  induction writePtsTo, otherPtsTo using (sharedThreadLocal.induct getValue) with
  | case1 otherPtsTo => simp [sharedThreadLocal]
  | case2 writePtsTo hne => cases writePtsTo <;> simp [sharedThreadLocal]
  | case3 wpt writePtsTo opt otherPtsTo hlt ih =>
    rw [sharedThreadLocal, if_pos hlt, ih hw.of_cons ho, List.forall_mem_cons]
    apply (and_iff_right _).symm
    exact fun hm => absurd hm (OrderedMultiset.not_mem_of_lt hlt ho)
  | case4 wpt writePtsTo opt otherPtsTo hle hlt ih =>
    rw [sharedThreadLocal, if_neg hle, if_pos hlt, ih hw ho.of_cons]
    refine forall₂_congr fun obj hm => ?_
    have hne : obj ≠ opt := by
      rintro rfl
      exact OrderedMultiset.not_mem_of_lt hlt hw hm
    simp [hne]
  | case5 wpt writePtsTo opt otherPtsTo hle hge hlocal ih =>
    rw [sharedThreadLocal, if_neg hle, if_neg hge, if_pos hlocal, ih hw.of_cons ho.of_cons]
    obtain rfl : wpt = opt := le_antisymm (not_lt.mp hge) (not_lt.mp hle)
    exact all_shared_cons hlocal
  | case6 wpt writePtsTo opt otherPtsTo hle hge hlocal =>
    rw [sharedThreadLocal, if_neg hle, if_neg hge, if_neg hlocal]
    obtain rfl : wpt = opt := le_antisymm (not_lt.mp hge) (not_lt.mp hle)
    simp [hlocal]

/-- Whatever the multiplicities, exactly the objects in both sets are looked at. -/
theorem isThreadLocalAccess_iff (getValue : Obj → Option Value) (writePtsTo otherPtsTo : OrderedMultiset Obj) :
    isThreadLocalAccess getValue writePtsTo otherPtsTo = true ↔
      ∀ obj, 0 < writePtsTo.count obj → 0 < otherPtsTo.count obj →
        ∃ id, getValue obj = some (.globalVariable id true) := by
  have hlocal : ∀ obj, isThreadLocal getValue obj = true ↔ ∃ id, getValue obj = some (.globalVariable id true) := by
    intro obj
    rw [isThreadLocal]
    split <;> simp_all
  simp only [OrderedMultiset.count_pos, ← hlocal]
  exact sharedThreadLocal_iff writePtsTo.sorted otherPtsTo.sorted

end ThreadLocalAnalysis

end OpenRace
