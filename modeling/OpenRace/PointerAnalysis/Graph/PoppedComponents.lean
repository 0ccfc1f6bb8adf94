import OpenRace.PointerAnalysis.Graph.VisitedChildren

/-! A search that is under way gives the next component. -/

namespace OpenRace

open ComponentSearch

namespace SCCIterator

variable {children : ℕ → List ℕ} {nodes : ℕ} {workList : Finset ℕ} {starts : ℕ → Prop} {given : List (List ℕ)}
  {it : SCCIterator}

section Rounds

lemma given_append (given : List (List ℕ)) (scc : List ℕ) :
    Given (given ++ [scc]) = fun a => Given given a ∨ a ∈ scc := by
  funext a
  simp [Given, or_and_right, exists_or]

lemma popSCC_append {visitingN : ℕ} {above : List ℕ} (rest : List ℕ) (h : visitingN ∉ above) :
    popSCC visitingN (above ++ visitingN :: rest) = (above ++ [visitingN], rest) := by
  induction above with
  | nil => simp [popSCC]
  | cons node above ih =>
    obtain ⟨hne, hrest⟩ := List.ne_and_not_mem_of_not_mem_cons h
    simp [popSCC, hne.symm, ih hrest]

lemma propagate_of_le {minVisitNum : ℕ} {path : List (Frame ℕ)} (h : ∀ f ∈ path, f.low ≤ minVisitNum) :
    propagate minVisitNum path = path := by
  cases path with
  | nil => rfl
  | cons parent path => simp [propagate, Nat.not_lt_of_le (h parent List.mem_cons_self)]

lemma propagate_cons (minVisitNum : ℕ) (parent : Frame ℕ) (path : List (Frame ℕ)) :
    propagate minVisitNum (parent :: path) = { parent with low := min parent.low minVisitNum } :: path := by
  rw [propagate]
  split
  · rw [min_eq_right (by omega)]
  · rw [min_eq_left (by omega)]

variable {top : Frame ℕ} {path : List (Frame ℕ)} (htop : it.visitStack = top :: path) (hnext : top.next = [])

include htop hnext

lemma Holds.leave (h : Holds children nodes workList starts given it) (hlow : top.low ≠ it.number top.node) :
    Holds children nodes workList starts given { it with visitStack := propagate top.low path } ∧
      (propagate top.low path).length = path.length ∧ path ≠ [] := by
  obtain ⟨seen, hs⟩ := h.search
  rw [htop] at hs
  obtain ⟨g, hg, -⟩ := hs.exists_below hlow
  obtain ⟨parent, path, rfl⟩ := List.exists_cons_of_ne_nil (List.ne_nil_of_mem hg)
  rw [propagate_cons]
  refine ⟨⟨h.toNumbered.path _ ?_ ?_, ⟨_, hs.leave hnext hlow⟩, h.components⟩, rfl, List.cons_ne_nil _ _⟩
  · simp [htop]
  · simp [pending, htop, hnext]

end Rounds

section Popped

def popped (it : SCCIterator) (scc rest : List ℕ) (path : List (Frame ℕ)) : SCCIterator := { it with
  visitStack := path, currentSCC := scc, sccNodeStack := rest
  nodeVisitNumbers := fun node => if node ∈ scc then some SCCIterator.finished else it.nodeVisitNumbers node }

variable {top : Frame ℕ} {path : List (Frame ℕ)} (htop : it.visitStack = top :: path) (hnext : top.next = [])
  {above rest : List ℕ} (hstack : it.sccNodeStack = above ++ top.node :: rest)

lemma mem_popped (hstack : it.sccNodeStack = above ++ top.node :: rest) {a : ℕ} :
    a ∈ it.sccNodeStack ↔ a ∈ above ++ [top.node] ∨ a ∈ rest := by
  simp [hstack, or_assoc]

include hstack

lemma visited_popped (h : Numbered children nodes workList starts given it) (a : ℕ) :
    (popped it (above ++ [top.node]) rest path).nodeVisitNumbers a ≠ none ↔ it.nodeVisitNumbers a ≠ none := by
  by_cases ha : a ∈ above ++ [top.node]
  · simp only [popped, ha, if_true]
    exact iff_of_true (Option.some_ne_none _) ((h.visited a).mpr (.inr ((mem_popped hstack).mpr (.inl ha))))
  · simp only [popped, ha, if_false]

lemma unvisited_popped (h : Numbered children nodes workList starts given it) :
    (popped it (above ++ [top.node]) rest path).unvisited nodes = it.unvisited nodes := by
  refine Finset.filter_congr fun a _ => ?_
  exact not_iff_not.mp (visited_popped hstack h a)

lemma later_popped (h : Numbered children nodes workList starts given it)
    (hpath : path.length ≤ it.visitStack.length) :
    Later nodes it (popped it (above ++ [top.node]) rest path) ∧
      (popped it (above ++ [top.node]) rest path).remaining nodes < it.remaining nodes := by
  have hremaining : (popped it (above ++ [top.node]) rest path).remaining nodes < it.remaining nodes := by
    rw [remaining, remaining, unvisited_popped hstack h, hstack]
    simp only [popped, List.length_append, List.length_cons]
    omega
  refine ⟨⟨fun a ha => (visited_popped hstack h a).mpr ha, rfl, hremaining.le, ?_⟩, hremaining⟩
  rw [unvisited_popped hstack h]
  exact Nat.add_le_add_right hpath _

lemma Numbered.popped (h : Numbered children nodes workList starts given it)
    (hout : ∀ a ∈ rest, a ∉ above ++ [top.node]) (hlength : path.length ≤ it.visitStack.length)
    (hpending : pending path ≤ pending it.visitStack) :
    Numbered children nodes workList starts (given ++ [above ++ [top.node]])
      (popped it (above ++ [top.node]) rest path) where
  visited a := by
    rw [visited_popped hstack h, h.visited, mem_popped hstack, given_append, or_assoc]
    rfl
  finished a ha := by
    rw [given_append] at ha
    by_cases hm : a ∈ above ++ [top.node]
    · simp only [SCCIterator.popped, hm, if_true]
    · simp only [SCCIterator.popped, hm, if_false]
      exact h.finished a (ha.resolve_right hm)
  bound a ha := by
    have hsame : (SCCIterator.popped it (above ++ [top.node]) rest path).number a = it.number a := by
      simp only [number, SCCIterator.popped, hout a ha, if_false]
    rw [hsame]
    exact h.bound a ((mem_popped hstack).mpr (.inr ha))
  count := by
    rw [unvisited_popped hstack h]
    exact h.count
  marked a := by
    rw [visited_popped hstack h]
    exact h.marked a
  started a ha := h.started a ((visited_popped hstack h a).mp ha)
  depth := by
    rw [unvisited_popped hstack h]
    exact (Nat.add_le_add_right hlength _).trans h.depth
  effort := by
    rw [SCCIterator.effort, unvisited_popped hstack h]
    exact (Nat.add_le_add_right hpending _).trans h.effort

include htop hnext

lemma Holds.emit (h : Holds children nodes workList starts given it) (hlow : top.low = it.number top.node) :
    propagate top.low path = path ∧
      Holds children nodes workList starts (given ++ [above ++ [top.node]])
        (popped it (above ++ [top.node]) rest path) := by
  obtain ⟨seen, hs⟩ := h.search
  rw [htop, hstack] at hs
  have hout : ∀ a ∈ rest, a ∉ above ++ [top.node] := by
    intro a ha hm
    have hle := (hs.mem_top (List.mem_append_right _ (List.mem_cons_of_mem _ ha))).mp hm
    have hlt := (List.pairwise_cons.mp (List.pairwise_append.mp hs.sorted).2.1).1 a ha
    omega
  refine ⟨propagate_of_le fun f hf => ?_, ?_, ?_, ?_⟩
  · have hle := hs.low_le f (List.mem_cons_of_mem _ hf)
    have hlt := (List.pairwise_cons.mp hs.ordered).1 f hf
    omega
  · apply h.toNumbered.popped hstack hout
    · simp [htop]
    · simp [pending, htop]
  · rw [given_append]
    refine ⟨_, (hs.emit hnext hlow).congr fun a ha => ?_⟩
    simp only [number, popped, hout a ha, if_false]
  · rw [given_append]
    exact h.components.emit hs hnext hlow

end Popped

section NextSCC

variable (hends : ∀ a < nodes, ∀ b ∈ children a, b < nodes) (hids : nodes ≤ SCCIterator.finished)

include hends hids

lemma Holds.nextSCC {work : ℕ} (hwork : ∑ node ∈ Finset.range nodes, (children node).length < work) (fuel : ℕ) :
    ∀ {it : SCCIterator}, Holds children nodes workList starts given it → it.visitStack ≠ [] →
      it.visitStack.length + (it.unvisited nodes).card < fuel →
      ∃ it', SCCIterator.nextSCC children work fuel it = some it' ∧ it'.currentSCC ≠ [] ∧
        Holds children nodes workList starts (given ++ [it'.currentSCC]) it' ∧ Later nodes it it' ∧
        it'.remaining nodes < it.remaining nodes := by
  induction fuel with
  | zero => exact fun _ _ hfuel => absurd hfuel (Nat.not_lt_zero _)
  | succ fuel ih =>
    intro it h hpath hfuel
    obtain ⟨mid, heq, hm, hlater, top, path, htop, hnext⟩ :=
      h.visitChildren hends hids work hpath (h.effort.trans_lt hwork)
    obtain ⟨first, others, hfirst⟩ := List.exists_cons_of_ne_nil hpath
    have hon : top.node ∈ mid.sccNodeStack := by
      obtain ⟨seen, hs⟩ := hm.search
      exact hs.nodes top (htop ▸ List.mem_cons_self)
    have htopNum := hm.number_eq hon
    have hdepth := hlater.depth
    rw [htop, List.length_cons] at hdepth
    by_cases hlow : mid.number top.node = top.low
    · obtain ⟨above, rest, hstack, hout⟩ := List.eq_append_cons_of_mem hon
      obtain ⟨hsame, hemit⟩ := hm.emit htop hnext hstack hlow.symm
      have hlength : path.length ≤ mid.visitStack.length := by simp [htop]
      obtain ⟨hl, hless⟩ := later_popped hstack hm.toNumbered hlength
      refine ⟨popped mid (above ++ [top.node]) rest path, ?_, by simp [popped], hemit, hlater.trans hl,
        hless.trans_le hlater.remaining⟩
      rw [SCCIterator.nextSCC, hfirst]
      simp [heq, htop, htopNum, hlow, hstack, popSCC_append rest hout, hsame, popped]
    · obtain ⟨hleft, hlength, hbelow⟩ := hm.leave htop hnext (Ne.symm hlow)
      obtain ⟨it', heq', hcurrent, hh, hl, hless⟩ := ih hleft (List.ne_nil_of_length_pos (by
        rw [hlength]
        exact List.length_pos_of_ne_nil hbelow)) (by
          change (propagate top.low path).length + (mid.unvisited nodes).card < fuel
          omega)
      refine ⟨it', ?_, hcurrent, hh, (hlater.trans ?_).trans hl, hless.trans_le ?_⟩
      · rw [SCCIterator.nextSCC, hfirst]
        simp [heq, htop, htopNum, hlow, heq']
      · apply later_path
        simp [hlength, htop]
      · exact hlater.remaining

end NextSCC

end SCCIterator

end OpenRace
