import OpenRace.PointerAnalysis.Graph.VisitNumbers

/-! The loop over the children of the nodes on the path. -/

namespace OpenRace

open ComponentSearch

namespace SCCIterator

variable {children : ℕ → List ℕ} {nodes : ℕ} {workList : Finset ℕ} {starts : ℕ → Prop} {given : List (List ℕ)}
  {it : SCCIterator}

variable (hends : ∀ a < nodes, ∀ b ∈ children a, b < nodes) (hids : nodes ≤ SCCIterator.finished)

include hids

lemma Holds.mem_stack_of_lt (h : Holds children nodes workList starts given it) {top : Frame ℕ}
    {path : List (Frame ℕ)} (htop : it.visitStack = top :: path) {child childNum : ℕ}
    (hnum : it.nodeVisitNumbers child = some childNum) (hlt : childNum < top.low) : child ∈ it.sccNodeStack := by
  obtain ⟨seen, hs⟩ := h.search
  rw [htop] at hs
  refine ((h.visited child).mp (by simp [hnum])).resolve_left fun hgiven => ?_
  have hfinished : childNum = SCCIterator.finished := by
    have := h.finished child hgiven
    rw [hnum] at this
    exact Option.some.inj this
  have hlow := hs.low_le top List.mem_cons_self
  have hbound := h.bound top.node (hs.nodes top List.mem_cons_self)
  have hcount := h.count
  omega

lemma Holds.look (h : Holds children nodes workList starts given it) {top : Frame ℕ} {path : List (Frame ℕ)}
    (htop : it.visitStack = top :: path) {child childNum : ℕ} {more : List ℕ} (hnext : top.next = child :: more)
    (hnum : it.nodeVisitNumbers child = some childNum) :
    Holds children nodes workList starts given { it with
      visitStack := ⟨top.node, more, if childNum < top.low then childNum else top.low⟩ :: path } where
  toNumbered := by
    apply h.toNumbered.path
    · rw [htop]
      rfl
    · rw [htop]
      simp [pending, hnext]
  search := by
    obtain ⟨seen, hs⟩ := h.search
    rw [htop] at hs
    refine ⟨_, hs.look hnext ((h.visited child).mp (by simp [hnum])) ?_ ?_ ?_⟩
    · split <;> omega
    · split
      · rename_i hlt
        exact .inr ⟨h.mem_stack_of_lt hids htop hnum hlt, (number_of_some hnum).symm⟩
      · exact .inl rfl
    · intro _
      rw [number_of_some hnum]
      split <;> omega
  components := h.components

omit hids

include hends

lemma Holds.visitChild (h : Holds children nodes workList starts given it) {top : Frame ℕ} {path : List (Frame ℕ)}
    (htop : it.visitStack = top :: path) {child : ℕ} {more : List ℕ} (hnext : top.next = child :: more)
    (hnew : it.nodeVisitNumbers child = none) :
    child < nodes ∧ Holds children nodes workList starts given
      (DFSVisitOne children { it with visitStack := { top with next := more } :: path } child) := by
  obtain ⟨seen, hs⟩ := h.search
  rw [htop] at hs
  have hmem : top ∈ top :: path := List.mem_cons_self
  have hedge : Edge children top.node child := hs.next top hmem child (hnext ▸ List.mem_cons_self)
  obtain ⟨hlt, root, hroot, hreach⟩ := h.started top.node ((h.visited top.node).mpr (.inr (hs.nodes top hmem)))
  have hchild := hends top.node hlt child hedge
  have hmid := h.toNumbered.path ({ top with next := more } :: path) (by simp [htop])
    (by simp [htop, pending, hnext])
  refine ⟨hchild, hmid.visitOne hnew hchild ⟨root, hroot, hreach.tail hedge⟩, ?_, h.components⟩
  obtain ⟨hgiven, hstack⟩ := h.not_given hnew
  rw [number_visitOne]
  exact ⟨_, hs.visit hnext hgiven hstack fun a ha => Nat.lt_succ_of_le (h.bound a ha)⟩

include hids

lemma Holds.visitChildren (fuel : ℕ) : ∀ {it : SCCIterator}, Holds children nodes workList starts given it →
    it.visitStack ≠ [] → it.effort children nodes < fuel →
    ∃ it', DFSVisitChildren children fuel it = some it' ∧ Holds children nodes workList starts given it' ∧
      Later nodes it it' ∧ ∃ top path, it'.visitStack = top :: path ∧ top.next = [] := by
  induction fuel with
  | zero => exact fun _ _ hfuel => absurd hfuel (Nat.not_lt_zero _)
  | succ fuel ih =>
    intro it h hpath hfuel
    obtain ⟨top, path, htop⟩ := List.exists_cons_of_ne_nil hpath
    cases hnext : top.next with
    | nil => exact ⟨it, by simp [DFSVisitChildren, htop, hnext], h, .refl it, top, path, htop, hnext⟩
    | cons child more =>
      -- a child is taken from the frame on top in both cases
      have hless : ∀ low, ({ it with visitStack := ⟨top.node, more, low⟩ :: path } : SCCIterator).effort
          children nodes < fuel := by
        intro low
        simp only [effort, unvisited, pending, htop, hnext, List.map_cons, List.sum_cons, List.length_cons] at hfuel ⊢
        omega
      have hlater : ∀ low, Later nodes it { it with visitStack := ⟨top.node, more, low⟩ :: path } :=
        fun low => later_path (by simp [htop])
      cases hnum : it.nodeVisitNumbers child with
      | none =>
        obtain ⟨hlt, hvisit⟩ := h.visitChild hends htop hnext hnum
        have heffort := effort_visitOne children { it with visitStack := { top with next := more } :: path } hnum hlt
        obtain ⟨it', heq, hh, hl, htop'⟩ := ih hvisit (by simp [DFSVisitOne]) (heffort ▸ hless top.low)
        have hvisited := later_visitOne children { it with visitStack := { top with next := more } :: path } hnum hlt
        refine ⟨it', ?_, hh, ((hlater top.low).trans hvisited).trans hl, htop'⟩
        simpa only [DFSVisitChildren, htop, hnext, hnum] using heq
      | some childNum =>
        obtain ⟨it', heq, hh, hl, htop'⟩ := ih (h.look hids htop hnext hnum) (List.cons_ne_nil _ _) (hless _)
        refine ⟨it', ?_, hh, (hlater _).trans hl, htop'⟩
        simpa only [DFSVisitChildren, htop, hnext, hnum] using heq

end SCCIterator

end OpenRace
