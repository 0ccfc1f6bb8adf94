import Mathlib.Algebra.BigOperators.Group.Finset.Basic
import Mathlib.Algebra.Order.BigOperators.Group.Finset
import OpenRace.Library.EmittedComponents
import OpenRace.PointerAnalysis.Graph.SCCIterator

/-! The numbers and marks that the iterator keeps, and what a visit does to them. -/

namespace OpenRace

open ComponentSearch

namespace SCCIterator

def number (it : SCCIterator) (node : ℕ) : ℕ := (it.nodeVisitNumbers node).getD 0

def unvisited (nodes : ℕ) (it : SCCIterator) : Finset ℕ :=
  (Finset.range nodes).filter fun node => it.nodeVisitNumbers node = none

def pending (path : List (Frame ℕ)) : ℕ := (path.map fun f => f.next.length).sum

def effort (children : ℕ → List ℕ) (nodes : ℕ) (it : SCCIterator) : ℕ :=
  pending it.visitStack + ∑ node ∈ it.unvisited nodes, (children node).length

def Given (given : List (List ℕ)) (node : ℕ) : Prop := ∃ scc ∈ given, node ∈ scc

section Search

variable (children : ℕ → List ℕ) (nodes : ℕ) (workList : Finset ℕ) (starts : ℕ → Prop)

structure Numbered (given : List (List ℕ)) (it : SCCIterator) : Prop where
  visited : ∀ a, it.nodeVisitNumbers a ≠ none ↔ Given given a ∨ a ∈ it.sccNodeStack
  finished : ∀ a, Given given a → it.nodeVisitNumbers a = some finished
  bound : ∀ a ∈ it.sccNodeStack, it.number a ≤ it.visitNum
  count : it.visitNum + (it.unvisited nodes).card = nodes
  marked : ∀ a, a ∈ it.visitedNode ↔ a ∈ workList ∨ it.nodeVisitNumbers a ≠ none
  started : ∀ a, it.nodeVisitNumbers a ≠ none → a < nodes ∧ ∃ root, starts root ∧ Reach children root a
  depth : it.visitStack.length + (it.unvisited nodes).card ≤ nodes
  effort : it.effort children nodes ≤ ∑ node ∈ Finset.range nodes, (children node).length

structure Holds (given : List (List ℕ)) (it : SCCIterator) : Prop
    extends Numbered children nodes workList starts given it where
  search : ∃ seen, Invariant children (Given given) seen it.number it.sccNodeStack it.visitStack
  components : Components children (Given given) given

def remaining (it : SCCIterator) : ℕ := it.sccNodeStack.length + (it.unvisited nodes).card

structure Later (it it' : SCCIterator) : Prop where
  visited : ∀ a, it.nodeVisitNumbers a ≠ none → it'.nodeVisitNumbers a ≠ none
  lastRoot : it'.lastRoot = it.lastRoot
  remaining : it'.remaining nodes ≤ it.remaining nodes
  depth : it'.visitStack.length + (it'.unvisited nodes).card ≤ it.visitStack.length + (it.unvisited nodes).card

variable {children nodes workList starts} {given : List (List ℕ)} {it it' it'' : SCCIterator}

lemma Later.refl (it : SCCIterator) : Later nodes it it := ⟨fun _ h => h, rfl, le_rfl, le_rfl⟩

lemma Later.trans (h : Later nodes it it') (h' : Later nodes it' it'') : Later nodes it it'' where
  visited a ha := h'.visited a (h.visited a ha)
  lastRoot := h'.lastRoot.trans h.lastRoot
  remaining := h'.remaining.trans h.remaining
  depth := h'.depth.trans h.depth

lemma number_of_some {node num : ℕ} (h : it.nodeVisitNumbers node = some num) : it.number node = num := by
  simp [number, h]

lemma Numbered.number_eq (h : Numbered children nodes workList starts given it) {node : ℕ}
    (hm : node ∈ it.sccNodeStack) : it.nodeVisitNumbers node = some (it.number node) := by
  obtain ⟨num, hnum⟩ := Option.ne_none_iff_exists'.mp ((h.visited node).mpr (.inr hm))
  rw [number_of_some hnum, hnum]

lemma Numbered.not_given (h : Numbered children nodes workList starts given it) {node : ℕ}
    (hnew : it.nodeVisitNumbers node = none) : ¬Given given node ∧ node ∉ it.sccNodeStack :=
  not_or.mp fun hor => (h.visited node).mpr hor hnew

lemma Numbered.path (h : Numbered children nodes workList starts given it) (path : List (Frame ℕ))
    (hlength : path.length ≤ it.visitStack.length) (hpending : pending path ≤ pending it.visitStack) :
    Numbered children nodes workList starts given { it with visitStack := path } where
  visited := h.visited
  finished := h.finished
  bound := h.bound
  count := h.count
  marked := h.marked
  started := h.started
  depth := (Nat.add_le_add_right hlength _).trans h.depth
  effort := (Nat.add_le_add_right hpending _).trans h.effort

section VisitOne

variable (children it) (node : ℕ)

lemma number_visitOne :
    (DFSVisitOne children it node).number = Function.update it.number node (it.visitNum + 1) := by
  funext other
  by_cases h : other = node
  · subst h
    simp [number, DFSVisitOne]
  · simp [number, DFSVisitOne, h]

lemma visited_visitOne (a : ℕ) :
    (DFSVisitOne children it node).nodeVisitNumbers a ≠ none ↔ it.nodeVisitNumbers a ≠ none ∨ a = node := by
  by_cases h : a = node
  · subst h
    simp [DFSVisitOne]
  · simp [DFSVisitOne, h]

lemma unvisited_visitOne :
    (DFSVisitOne children it node).unvisited nodes = (it.unvisited nodes).erase node := by
  ext a
  have hvisited := not_congr (visited_visitOne children it node a)
  rw [not_ne_iff, not_or, not_ne_iff] at hvisited
  simp only [unvisited, Finset.mem_filter, Finset.mem_erase, hvisited]
  tauto

variable {node} (hnew : it.nodeVisitNumbers node = none)

include hnew

lemma mem_unvisited (hlt : node < nodes) : node ∈ it.unvisited nodes :=
  Finset.mem_filter.mpr ⟨Finset.mem_range.mpr hlt, hnew⟩

lemma card_visitOne (hlt : node < nodes) :
    ((DFSVisitOne children it node).unvisited nodes).card + 1 = (it.unvisited nodes).card := by
  rw [unvisited_visitOne]
  exact Finset.card_erase_add_one (mem_unvisited it hnew hlt)

lemma effort_visitOne (hlt : node < nodes) :
    (DFSVisitOne children it node).effort children nodes = it.effort children nodes := by
  have hsum := Finset.add_sum_erase (it.unvisited nodes) (fun a => (children a).length) (mem_unvisited it hnew hlt)
  simp only [effort, unvisited_visitOne, ← hsum]
  simp only [pending, DFSVisitOne, List.map_cons, List.sum_cons]
  omega

variable {children it}

lemma Numbered.visitOne (h : Numbered children nodes workList starts given it) (hlt : node < nodes)
    (hstart : ∃ root, starts root ∧ Reach children root node) :
    Numbered children nodes workList starts given (DFSVisitOne children it node) where
  visited a := by
    rw [visited_visitOne, h.visited]
    simp only [DFSVisitOne, List.mem_cons]
    tauto
  finished a ha := by
    have hne : a ≠ node := by
      rintro rfl
      exact (h.not_given hnew).1 ha
    simp [DFSVisitOne, hne, h.finished a ha]
  bound a ha := by
    rw [number_visitOne]
    simp only [DFSVisitOne, List.mem_cons] at ha ⊢
    by_cases heq : a = node
    · rw [heq, Function.update_self]
    · rw [Function.update_of_ne heq]
      exact Nat.le_succ_of_le (h.bound a (ha.resolve_left heq))
  count := by
    have hcard := card_visitOne children it hnew hlt
    have hcount := h.count
    simp only [DFSVisitOne] at hcard ⊢
    omega
  marked a := by
    rw [visited_visitOne, ← or_assoc, ← h.marked]
    simp only [DFSVisitOne, Finset.mem_insert]
    tauto
  started a ha := by
    rcases (visited_visitOne children it node a).mp ha with ha | rfl
    · exact h.started a ha
    · exact ⟨hlt, hstart⟩
  depth := by
    have hcard := card_visitOne children it hnew hlt
    have hdepth := h.depth
    simp only [DFSVisitOne, List.length_cons] at hcard ⊢
    omega
  effort := by
    rw [effort_visitOne children it hnew hlt]
    exact h.effort

variable (children it)

lemma later_visitOne (hlt : node < nodes) : Later nodes it (DFSVisitOne children it node) := by
  have hcard := card_visitOne children it hnew hlt
  have hremaining : (DFSVisitOne children it node).remaining nodes = it.remaining nodes := by
    simp only [remaining, DFSVisitOne, List.length_cons] at hcard ⊢
    omega
  refine ⟨fun a ha => (visited_visitOne children it node a).mpr (.inl ha), rfl, hremaining.le, ?_⟩
  simp only [DFSVisitOne, List.length_cons] at hcard ⊢
  omega

end VisitOne

lemma later_path {path : List (Frame ℕ)} (hlength : path.length ≤ it.visitStack.length) :
    Later nodes it { it with visitStack := path } where
  visited _ ha := ha
  lastRoot := rfl
  remaining := le_rfl
  depth := Nat.add_le_add_right hlength _

lemma Holds.stack_nil (h : Holds children nodes workList starts given it) (hpath : it.visitStack = []) :
    it.sccNodeStack = [] := by
  obtain ⟨seen, hs⟩ := h.search
  refine List.eq_nil_iff_forall_not_mem.mpr fun a ha => ?_
  obtain ⟨f, hf, -⟩ := hs.up a ha
  rw [hpath] at hf
  exact List.not_mem_nil hf

lemma Holds.visitRoot (h : Holds children nodes workList starts given it) (hpath : it.visitStack = []) {root : ℕ}
    (hnew : it.nodeVisitNumbers root = none) (hlt : root < nodes) (hstart : starts root) :
    Holds children nodes workList starts given (DFSVisitOne children it root) where
  toNumbered := h.toNumbered.visitOne hnew hlt ⟨root, hstart, .refl⟩
  search := by
    obtain ⟨seen, hs⟩ := h.search
    rw [hpath, h.stack_nil hpath] at hs
    have hempty : Invariant children (Given given) seen (Function.update it.number root (it.visitNum + 1)) [] [] :=
      hs.congr fun a ha => absurd ha List.not_mem_nil
    have hstarted := hempty.start (h.not_given hnew).1
    rw [Function.update_self] at hstarted
    rw [number_visitOne]
    simp only [DFSVisitOne, hpath, h.stack_nil hpath]
    exact ⟨_, hstarted⟩
  components := h.components

end Search

end SCCIterator

end OpenRace
