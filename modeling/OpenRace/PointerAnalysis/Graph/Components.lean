import OpenRace.PointerAnalysis.Graph.PoppedComponents

/-! The components that the iterator gives from its start to its end. -/

namespace OpenRace

open ComponentSearch

namespace ConstraintGraph

/-- Node ids are unsigned, and edges of a kind are known at both of their ends. -/
structure Linked (graph : ConstraintGraph) (cons : Constraints) : Prop where
  ids : graph.nodeNum ≤ SCCIterator.finished
  ends : ∀ src dst, graph.Edge cons src dst → src < graph.nodeNum ∧ dst < graph.nodeNum
  mirrored : ∀ src dst, graph.Edge cons src dst ↔ graph.PredEdge cons src dst

def Path (graph : ConstraintGraph) (cons : Constraints) : ℕ → ℕ → Prop := Relation.ReflTransGen (graph.Edge cons)

def Follows (graph : ConstraintGraph) (cons : Constraints) (reverse : Bool) (a b : ℕ) : Prop :=
  if reverse then graph.Path cons b a else graph.Path cons a b

variable {graph : ConstraintGraph} {cons : Constraints}

lemma Linked.edge_children (h : Linked graph cons) (reverse : Bool) (a b : ℕ) :
    ComponentSearch.Edge (graph.children cons reverse) a b ↔
      if reverse then graph.Edge cons b a else graph.Edge cons a b := by
  cases reverse with
  | false => simp [ComponentSearch.Edge, children, ConstraintGraph.Edge]
  | true => simp [ComponentSearch.Edge, children, h.mirrored, PredEdge]

lemma Linked.reach_children (h : Linked graph cons) (reverse : Bool) (a b : ℕ) :
    Reach (graph.children cons reverse) a b ↔ graph.Follows cons reverse a b := by
  have hedge : ComponentSearch.Edge (graph.children cons reverse) =
      fun a b => if reverse then graph.Edge cons b a else graph.Edge cons a b := by
    funext a b
    exact propext (h.edge_children reverse a b)
  rw [Reach, hedge]
  cases reverse with
  | false => rfl
  | true => exact Relation.reflTransGen_swap

lemma Linked.child_lt (h : Linked graph cons) (reverse : Bool) :
    ∀ a < graph.nodeNum, ∀ b ∈ graph.children cons reverse a, b < graph.nodeNum := by
  intro a _ b hb
  have hedge := (h.edge_children reverse a b).mp hb
  cases reverse with
  | false => exact (h.ends a b hedge).2
  | true => exact (h.ends b a hedge).1

end ConstraintGraph

namespace SCCIterator

variable (graph : ConstraintGraph) (cons : Constraints) (reverse : Bool) (workList : Finset ℕ)

def Starts (root : ℕ) : Prop := root < graph.nodeNum ∧ root ∉ workList ∧
  ((graph.node root).superNode = none ∨ ∀ id < root, id ∈ workList)

structure Handled (it : SCCIterator) : Prop where
  lastRoot : it.lastRoot ≤ graph.nodeNum
  roots : ∀ root, Starts graph workList root → root ≤ it.lastRoot ∨ (∀ id < root, id ∈ workList) →
    it.nodeVisitNumbers root ≠ none

abbrev Running (given : List (List ℕ)) (it : SCCIterator) : Prop :=
  Holds (graph.children cons reverse) graph.nodeNum workList (Starts graph workList) given it

structure Ended (given : List (List ℕ)) (it : SCCIterator) : Prop where
  running : Running graph cons reverse workList given it
  currentSCC : it.currentSCC = []
  visitStack : it.visitStack = []
  roots : ∀ root, Starts graph workList root → it.nodeVisitNumbers root ≠ none

structure Gives (given : List (List ℕ)) (left : ℕ) (it' : SCCIterator) : Prop where
  nonempty : it'.currentSCC ≠ []
  running : Running graph cons reverse workList (given ++ [it'.currentSCC]) it'
  handled : Handled graph workList it'
  remaining : it'.remaining graph.nodeNum < left

variable {graph cons reverse workList} {given : List (List ℕ)} {it it' : SCCIterator}

lemma Handled.later (h : Handled graph workList it) (hl : Later graph.nodeNum it it') :
    Handled graph workList it' where
  lastRoot := hl.lastRoot ▸ h.lastRoot
  roots root hroot hle := hl.visited root (h.roots root hroot (hl.lastRoot ▸ hle))

lemma Holds.set {children : ℕ → List ℕ} {nodes : ℕ} {starts : ℕ → Prop}
    (h : Holds children nodes workList starts given it) (scc : List ℕ) (root : ℕ) :
    Holds children nodes workList starts given { it with currentSCC := scc, lastRoot := root } where
  toNumbered := ⟨h.visited, h.finished, h.bound, h.count, h.marked, h.started, h.depth, h.effort⟩
  search := h.search
  components := h.components

lemma sum_lt_work : ∑ node ∈ Finset.range graph.nodeNum, (graph.children cons reverse node).length <
    work graph cons reverse := by
  exact Nat.lt_succ_self _

lemma Handled.passed (h : Running graph cons reverse workList given it) (hh : Handled graph workList it) {bound : ℕ}
    (hfind : ∀ id < bound, it.lastRoot < id → id ∈ it.visitedNode) {root : ℕ} (hroot : Starts graph workList root)
    (hlt : root < bound ∨ ∀ id < root, id ∈ workList) : it.nodeVisitNumbers root ≠ none := by
  by_cases hold : root ≤ it.lastRoot ∨ ∀ id < root, id ∈ workList
  · exact hh.roots root hroot hold
  · obtain ⟨hlast, hfirst⟩ := not_or.mp hold
    have hmem := hfind root (hlt.resolve_right hfirst) (Nat.lt_of_not_le hlast)
    exact ((h.marked root).mp hmem).resolve_left hroot.2.1

section Rounds

variable (hl : graph.Linked cons)

include hl

lemma getNextSCC_spec (h : Running graph cons reverse workList given it) (hh : Handled graph workList it)
    (hpath : it.visitStack ≠ []) :
    ∃ it', GetNextSCC graph cons reverse it = some it' ∧
      Gives graph cons reverse workList given (it.remaining graph.nodeNum) it' := by
  obtain ⟨it', heq, hcurrent, hrun, hlater, hless⟩ := (h.set [] it.lastRoot).nextSCC (hl.child_lt reverse) hl.ids
    sum_lt_work (graph.nodeNum + 1) hpath (Nat.lt_succ_of_le h.depth)
  have hclear : Handled graph workList { it with currentSCC := [] } := ⟨hh.lastRoot, hh.roots⟩
  exact ⟨it', heq, hcurrent, hrun, hclear.later hlater, hless⟩

lemma visitRoot_spec (h : Running graph cons reverse workList given it) (hpath : it.visitStack = []) {root last : ℕ}
    (hnew : it.nodeVisitNumbers root = none) (hroot : Starts graph workList root) (hlast : last ≤ graph.nodeNum)
    (hpassed : ∀ other ≠ root, Starts graph workList other → other ≤ last ∨ (∀ id < other, id ∈ workList) →
      it.nodeVisitNumbers other ≠ none) :
    ∃ it', GetNextSCC graph cons reverse
        (DFSVisitOne (graph.children cons reverse) { it with lastRoot := last } root) = some it' ∧
      Gives graph cons reverse workList given (it.remaining graph.nodeNum) it' := by
  have hlater := later_visitOne (graph.children cons reverse) { it with lastRoot := last } hnew hroot.1
  have hhandled : Handled graph workList
      (DFSVisitOne (graph.children cons reverse) { it with lastRoot := last } root) := by
    refine ⟨hlast, fun other hother hle => ?_⟩
    rw [visited_visitOne]
    by_cases hsame : other = root
    · exact .inr hsame
    · exact .inl (hpassed other hsame hother hle)
  obtain ⟨it', heq, hgives⟩ := getNextSCC_spec hl ((h.set it.currentSCC last).visitRoot hpath hnew hroot.1 hroot)
    hhandled (List.cons_ne_nil _ _)
  exact ⟨it', heq, hgives.nonempty, hgives.running, hgives.handled, hgives.remaining.trans_le hlater.remaining⟩

lemma nextSubGraph_spec (fuel : ℕ) : ∀ {it : SCCIterator}, Running graph cons reverse workList given it →
    Handled graph workList it → it.visitStack = [] → it.currentSCC = [] → graph.nodeNum < fuel + it.lastRoot →
    ∃ it', nextSubGraph graph cons reverse fuel it = some it' ∧
      (Ended graph cons reverse workList given it' ∨
        Gives graph cons reverse workList given (it.remaining graph.nodeNum) it') := by
  induction fuel with
  | zero =>
    intro it _ hh _ _ hfuel
    have hlast := hh.lastRoot
    omega
  | succ fuel ih =>
    intro it h hh hpath hcurrent hfuel
    cases hfind : findNextUnset graph it.visitedNode it.lastRoot with
    | none =>
      refine ⟨it, by simp [nextSubGraph, hfind], .inl ⟨h, hcurrent, hpath, fun root hroot => ?_⟩⟩
      rw [findNextUnset, List.find?_range_eq_none] at hfind
      refine hh.passed h (fun id hid hlast => ?_) hroot (.inl hroot.1)
      have := hfind id hid
      simpa [hlast] using this
    | some root =>
      have hsome := hfind
      rw [findNextUnset, List.find?_range_eq_some] at hsome
      obtain ⟨hunset, hmem, hbefore⟩ := hsome
      obtain ⟨hlast, hout⟩ := of_decide_eq_true hunset
      have hlt := List.mem_range.mp hmem
      have hpassed : ∀ id < root, it.lastRoot < id → id ∈ it.visitedNode := by
        intro id hid hlast'
        have := hbefore id hid
        simpa [hlast'] using this
      obtain ⟨hwork, hnew⟩ := not_or.mp (mt (h.marked root).mpr hout)
      cases hsuper : (graph.node root).superNode with
      | none =>
        obtain ⟨it', heq, hgives⟩ := visitRoot_spec hl h hpath (not_ne_iff.mp hnew) ⟨hlt, hwork, .inl hsuper⟩ hlt.le
          fun other hne hother hle =>
            hh.passed h hpassed hother (hle.imp_left fun hle => lt_of_le_of_ne hle hne)
        exact ⟨it', by simp [nextSubGraph, hfind, hsuper, heq], .inr hgives⟩
      | some super =>
        have hhandled : Handled graph workList { it with lastRoot := root } := by
          refine ⟨hlt.le, fun other hother hle => hh.passed h hpassed hother ?_⟩
          by_cases hsame : other = root
          · -- a collapsed node is a start only when it comes first
            subst hsame
            exact .inr (hother.2.2.resolve_left (by simp [hsuper]))
          · exact hle.imp_left fun hle => lt_of_le_of_ne hle hsame
        obtain ⟨it', heq, hor⟩ := ih (h.set it.currentSCC root) hhandled hpath hcurrent (by
          change graph.nodeNum < fuel + root
          omega)
        exact ⟨it', by simp [nextSubGraph, hfind, hsuper, heq], hor⟩

lemma next_spec (h : Running graph cons reverse workList given it) (hh : Handled graph workList it) :
    ∃ it', next graph cons reverse it = some it' ∧
      (Ended graph cons reverse workList given it' ∨
        Gives graph cons reverse workList given (it.remaining graph.nodeNum) it') := by
  by_cases hpath : it.visitStack = []
  · have hclear : GetNextSCC graph cons reverse it = some { it with currentSCC := [] } := by
      simp [GetNextSCC, nextSCC, hpath]
    obtain ⟨it', heq, hor⟩ := nextSubGraph_spec hl (graph.nodeNum + 1) (h.set [] it.lastRoot)
      ⟨hh.lastRoot, hh.roots⟩ hpath rfl (by omega)
    exact ⟨it', by simp [next, hclear, heq], hor⟩
  · obtain ⟨it', heq, hgives⟩ := getNextSCC_spec hl h hh hpath
    exact ⟨it', by simp [next, heq, hgives.nonempty], .inr hgives⟩

lemma givenFrom_spec (fuel : ℕ) : ∀ {it : SCCIterator} {earlier : List (List ℕ)}, it.currentSCC ≠ [] →
    Running graph cons reverse workList (earlier ++ [it.currentSCC]) it → Handled graph workList it →
    it.remaining graph.nodeNum + 1 < fuel →
    ∃ sccs it', givenFrom graph cons reverse fuel it = some sccs ∧
      Ended graph cons reverse workList (earlier ++ sccs) it' := by
  induction fuel with
  | zero => exact fun _ _ _ hfuel => absurd hfuel (Nat.not_lt_zero _)
  | succ fuel ih =>
    intro it earlier hcurrent h hh hfuel
    obtain ⟨it', heq, hended | hgives⟩ := next_spec hl h hh
    · obtain ⟨more, rfl⟩ : ∃ more, fuel = more + 1 := ⟨fuel - 1, by omega⟩
      refine ⟨[it.currentSCC], it', ?_, hended⟩
      simp [givenFrom, hcurrent, heq, hended.currentSCC, hended.visitStack]
    · have hless := hgives.remaining
      obtain ⟨sccs, last, heq', hended⟩ := ih hgives.nonempty hgives.running hgives.handled (by omega)
      refine ⟨it.currentSCC :: sccs, last, ?_, by simpa using hended⟩
      simp [givenFrom, hcurrent, heq, heq']

end Rounds

lemma running_fresh : Running graph cons reverse workList [] { visitedNode := workList } := by
  have hgiven : Given [] = fun _ => False := by
    funext a
    simp [Given]
  refine ⟨⟨?_, ?_, ?_, ?_, ?_, ?_, ?_, ?_⟩, ?_, ?_⟩
  · simp [Given]
  · simp [Given]
  · simp
  · simp [unvisited]
  · simp
  · simp
  · simp [unvisited]
  · simp [SCCIterator.effort, pending, unvisited]
  · rw [hgiven]
    exact ⟨_, Invariant.empty fun _ _ hd => hd.elim⟩
  · rw [hgiven]
    exact .empty

lemma emitted_spec (hl : graph.Linked cons) (reverse : Bool) (workList : Finset ℕ) :
    ∃ sccs it', emitted graph cons reverse workList = some sccs ∧ Ended graph cons reverse workList sccs it' := by
  cases hfind : (List.range graph.nodeNum).find? fun node => decide (node ∉ workList) with
  | none =>
    have hbegin : sccBegin graph cons reverse workList = some { visitedNode := workList } := by
      rw [sccBegin, hfind]
    refine ⟨[], { visitedNode := workList }, by simp [emitted, hbegin, givenFrom], running_fresh, rfl, rfl, ?_⟩
    intro root hroot
    have := List.find?_range_eq_none.mp hfind root hroot.1
    simp [hroot.2.1] at this
  | some first =>
    have hsome := hfind
    rw [List.find?_range_eq_some] at hsome
    obtain ⟨hunset, hmem, hbefore⟩ := hsome
    have hfirst : ∀ id < first, id ∈ workList := by simpa using hbefore
    have hstart : Starts graph workList first := ⟨List.mem_range.mp hmem, of_decide_eq_true hunset, .inr hfirst⟩
    obtain ⟨it, heq, hgives⟩ := visitRoot_spec hl running_fresh rfl rfl hstart (Nat.zero_le _) (by
      intro other hne hother hle
      have hle' : other ≤ first := by
        rcases hle with hle | hle
        · exact hle.trans (Nat.zero_le _)
        · exact Nat.le_of_not_lt fun hlt => hstart.2.1 (hle first hlt)
      exact absurd (hfirst other (lt_of_le_of_ne hle' hne)) hother.2.1)
    have hbegin : sccBegin graph cons reverse workList = some it := by
      rw [sccBegin, hfind]
      exact heq
    have hleft := hgives.remaining
    have hfresh : ({ visitedNode := workList } : SCCIterator).remaining graph.nodeNum = graph.nodeNum := by
      simp [remaining, unvisited]
    rw [hfresh] at hleft
    obtain ⟨sccs, last, hall, hended⟩ := givenFrom_spec hl (graph.nodeNum + 1) hgives.nonempty hgives.running
      hgives.handled (Nat.succ_lt_succ hleft)
    exact ⟨sccs, last, by simp [emitted, hbegin, hall], by simpa using hended⟩

end SCCIterator

end OpenRace
