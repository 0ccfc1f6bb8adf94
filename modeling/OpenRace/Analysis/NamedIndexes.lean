import OpenRace.Analysis.CollapsedIndexes
import OpenRace.Analysis.IndexAborts

/-! Which index of an array access is taken for the outermost one, and how many collapse to one root. -/

namespace OpenRace

open LLVM Library

def Unanswered (gep : GetElementPtr) : Prop := Aborts gep.lastIndex .lastOperand

lemma not_fails_getInductionVarName {gep : GetElementPtr} : ¬ Fails (getInductionVarName gep) ↔ ¬ Unanswered gep :=
  not_congr (fails_nameOf_iff gep.lastIndex .lastOperand)

def IsIdxprom (gep : GetElementPtr) : Prop := getIndexType gep.lastIndex = .idxprom

/-- The outermost index that is not named "idxprom" is named, and the other address computations are kept. -/
def NamesOutermost (geps rest : List GetElementPtr) (name : String) : Prop :=
  ∃ before gep after, ArrayAccess.findOuterMost geps = some (before, gep, after) ∧ isMathOp gep.lastIndex ∧
    nameOf gep.lastIndex .loop = .ok (some name) ∧ isOmpRelevantName name ∧ rest = before ++ after

inductive Leaves (geps : List GetElementPtr) : List GetElementPtr → Option String → Prop
  | named {rest : List GetElementPtr} {name : String} : NamesOutermost geps rest name → Leaves geps rest (some name)
  | all : (∀ rest name, ¬ NamesOutermost geps rest name) → Leaves geps geps none

/-- From the innermost on, so many indices share a root; as long as the root is empty, any can be it. -/
inductive Collapses : String → List GetElementPtr → ℕ → String → Prop
  | ends {root : String} {geps : List GetElementPtr} :
      (∀ gep name, geps.head? = some gep → SharesRoot name gep → root ≠ "" ∧ root ≠ name) →
      Collapses root geps 0 root
  | next {root name last : String} {gep : GetElementPtr} {rest : List GetElementPtr} {n : ℕ} :
      SharesRoot name gep → (root = "" ∨ root = name) → Collapses name rest n last →
      Collapses root (gep :: rest) (n + 1) last

section Outermost

variable {geps rest : List GetElementPtr} {outer : Option String} {name : String}

lemma leaves_of_not (h : ∀ rest name, ¬ NamesOutermost geps rest name) :
    Leaves geps rest outer ↔ (geps, none) = (rest, outer) := by
  constructor
  · intro hleaves
    cases hleaves with
    | named hnames => exact absurd hnames (h _ _)
    | all => rfl
  · rintro ⟨⟩
    exact .all h

lemma NamesOutermost.leaves (h : NamesOutermost geps rest name) {rest' : List GetElementPtr} :
    Leaves geps rest' outer ↔ (rest, some name) = (rest', outer) := by
  constructor
  · intro hleaves
    cases hleaves with
    | named hnames =>
      obtain ⟨before, gep, after, hfind, -, hname, -, rfl⟩ := h
      obtain ⟨before', gep', after', hfind', -, hname', -, rfl⟩ := hnames
      rw [hfind] at hfind'
      cases hfind'
      rw [hname] at hname'
      cases hname'
      rfl
    | all hnone => exact absurd h (hnone _ _)
  · rintro ⟨⟩
    exact .named h

lemma exists_leaves (geps : List GetElementPtr) : ∃ rest outer, Leaves geps rest outer := by
  by_cases h : ∃ rest name, NamesOutermost geps rest name
  · obtain ⟨rest, name, hnames⟩ := h
    exact ⟨rest, some name, .named hnames⟩
  · exact ⟨geps, none, .all fun rest name hnames => h ⟨rest, name, hnames⟩⟩

lemma computeOuterMost_iff : ArrayAccess.computeOuterMostGEPIdxName geps = .ok (rest, outer) ↔
    Leaves geps rest outer ∧ ∀ before gep after, ArrayAccess.findOuterMost geps = some (before, gep, after) →
      isMathOp gep.lastIndex → ¬ Aborts gep.lastIndex .loop := by
  rw [ArrayAccess.computeOuterMostGEPIdxName]
  cases hfind : ArrayAccess.findOuterMost geps with
  | none =>
    rw [leaves_of_not fun _ _ ⟨_, _, _, hsome, _⟩ => by simp [hfind] at hsome]
    simp [pure, Except.pure]
  | some found =>
    obtain ⟨before, gep, after⟩ := found
    have hunique : (∀ before' gep' after', some (before, gep, after) = some (before', gep', after') →
        isMathOp gep'.lastIndex → ¬ Aborts gep'.lastIndex .loop) ↔
        (isMathOp gep.lastIndex → ¬ Fails (nameOf gep.lastIndex .loop)) := by
      rw [fails_nameOf_iff]
      constructor
      · exact fun h => h _ _ _ rfl
      · rintro h _ _ _ ⟨⟩
        exact h
    rw [hunique]
    by_cases hmath : isMathOp gep.lastIndex = true
    · have hinstruction : gep.lastIndex.isInstruction = true := by
        cases hlast : gep.lastIndex with
        | constant | argument => simp [hlast, isMathOp] at hmath
        | _ => rfl
      simp only [hinstruction, Bool.not_true, Bool.false_eq_true, if_false, computeIdxName, if_pos hmath]
      cases hanswer : nameOf gep.lastIndex .loop with
      | error error => simp [hmath, fails_error, bind, Except.bind]
      | ok answer =>
        have hfound : ∀ rest name, NamesOutermost geps rest name →
            answer = some name ∧ isOmpRelevantName name ∧ rest = before ++ after := by
          rintro rest name ⟨before', gep', after', hfind', -, hname, hrelevant, hrest⟩
          rw [hfind] at hfind'
          cases hfind'
          rw [hanswer] at hname
          cases hname
          exact ⟨rfl, hrelevant, hrest⟩
        cases answer with
        | none =>
          rw [leaves_of_not fun rest name h => by simpa using (hfound rest name h).1]
          simp [pure, Except.pure, bind, Except.bind]
        | some name =>
          by_cases hrelevant : isOmpRelevantName name = true
          · have hnames : NamesOutermost geps (before ++ after) name :=
              ⟨before, gep, after, hfind, hmath, hanswer, hrelevant, rfl⟩
            rw [hnames.leaves]
            simp [pure, Except.pure, bind, Except.bind, hrelevant]
          · rw [leaves_of_not]
            · simp [pure, Except.pure, bind, Except.bind, hrelevant]
            · intro rest name' h
              obtain ⟨hname, hrelevant', -⟩ := hfound rest name' h
              cases hname
              exact hrelevant hrelevant'
    · rw [leaves_of_not]
      · simp only [computeIdxName, if_neg hmath]
        by_cases hinstruction : gep.lastIndex.isInstruction = true <;>
          simp [hinstruction, hmath, pure, Except.pure, bind, Except.bind]
      · rintro rest name ⟨before', gep', after', hfind', hmath', -⟩
        rw [hfind] at hfind'
        cases hfind'
        exact hmath hmath'

end Outermost

section Count

variable {geps : List GetElementPtr} {root last : String} {i n : ℕ}

lemma exists_collapses (root : String) (geps : List GetElementPtr) : ∃ n last, Collapses root geps n last := by
  induction geps generalizing root with
  | nil => exact ⟨0, root, .ends fun gep name h => by cases h⟩
  | cons gep rest ih =>
    by_cases h : ∃ name, SharesRoot name gep ∧ (root = "" ∨ root = name)
    · obtain ⟨name, hshares, hroot⟩ := h
      obtain ⟨n, last, hrest⟩ := ih name
      exact ⟨n + 1, last, .next hshares hroot hrest⟩
    · refine ⟨0, root, .ends ?_⟩
      rintro _ name ⟨⟩ hshares
      constructor
      · exact fun hempty => h ⟨name, hshares, Or.inl hempty⟩
      · exact fun heq => h ⟨name, hshares, Or.inr heq⟩

lemma SharesRoot.unique {name other : String} {gep : GetElementPtr} (h : SharesRoot name gep)
    (hother : SharesRoot other gep) : name = other := by
  have heq := h.2.symm.trans hother.2
  cases heq
  rfl

lemma Collapses.unique (h : Collapses root geps n last) {n' : ℕ} {last' : String}
    (h' : Collapses root geps n' last') : n = n' ∧ last = last' := by
  induction h generalizing n' with
  | ends hends =>
    cases h' with
    | ends => exact ⟨rfl, rfl⟩
    | next hshares hroot =>
      obtain ⟨hne, hother⟩ := hends _ _ rfl hshares
      exact absurd hroot (not_or.mpr ⟨hne, hother⟩)
  | next hshares hroot _ ih =>
    cases h' with
    | ends hends =>
      obtain ⟨hne, hother⟩ := hends _ _ rfl hshares
      exact absurd hroot (not_or.mpr ⟨hne, hother⟩)
    | next hshares' _ hrest' =>
      cases hshares.unique hshares'
      obtain ⟨rfl, rfl⟩ := ih hrest'
      exact ⟨rfl, rfl⟩

lemma countCollapsed_iff (h : Collapses root geps n last) {level : ℕ} {final : String} :
    ArrayAccess.countCollapsed root i geps = .ok (level, final) ↔
      (i + n, last) = (level, final) ∧ ∀ gep, geps[n]? = some gep → IsIdxprom gep → ¬ Unanswered gep := by
  induction h generalizing i with
  | @ends root geps hends =>
    cases geps with
    | nil => simp [ArrayAccess.countCollapsed]
    | cons gep rest =>
      have hlast : (∀ other, (gep :: rest)[0]? = some other → IsIdxprom other → ¬ Unanswered other) ↔
          (IsIdxprom gep → ¬ Fails (getInductionVarName gep)) := by
        rw [not_fails_getInductionVarName]
        simp
      rw [hlast, ArrayAccess.countCollapsed]
      by_cases htype : IsIdxprom gep
      · have hshares : ∀ name, getInductionVarName gep = .ok (some name) → root ≠ "" ∧ root ≠ name :=
          fun name hname => hends gep name rfl ⟨htype, hname⟩
        rw [IsIdxprom] at htype
        cases hname : getInductionVarName gep with
        | error error => simp [htype, IsIdxprom, fails_error, bind, Except.bind]
        | ok answer =>
          cases answer with
          | none => simp [htype, bind, Except.bind, pure, Except.pure]
          | some name =>
            obtain ⟨hne, hother⟩ := hshares name hname
            simp [htype, hne, hother, bind, Except.bind, pure, Except.pure]
      · rw [IsIdxprom] at htype
        simp [htype, IsIdxprom, pure, Except.pure]
  | @next root name last gep rest n hshares hroot _ ih =>
    rw [ArrayAccess.countCollapsed, hshares.1, hshares.2]
    have hnext : ArrayAccess.countCollapsed name (i + 1) rest = .ok (level, final) ↔
        (i + (n + 1), last) = (level, final) ∧
          ∀ other, (gep :: rest)[n + 1]? = some other → IsIdxprom other → ¬ Unanswered other := by
      rw [ih, List.getElem?_cons_succ, Nat.add_assoc, Nat.add_comm 1 n]
    rw [← hnext]
    rcases hroot with rfl | rfl
    · simp [bind, Except.bind]
    · by_cases hempty : root = ""
      · simp [hempty, bind, Except.bind]
      · simp [hempty, bind, Except.bind]

end Count

end OpenRace
