import OpenRace.PointerAnalysis.Solver.LeastSolution

/-! Indirect calls are resolved between two runs of the solver, which goes on from what it has. -/

namespace OpenRace

open ConstraintGraph SolverBase

namespace PartialUpdateSolver

variable {Obj : Type} {hash : ℕ → ℕ → ℕ} {model : FieldModel Obj}
  {edges : Constraints → Place Obj → Place Obj → Prop} {start solver : PartialUpdateSolver Obj}
  {objects : Finset Obj} {addition : Addition Obj} {prev src dst : ℕ}

lemma Recorded.refl (hash : ℕ → ℕ → ℕ) (solver : PartialUpdateSolver Obj) : Recorded hash solver [] solver :=
  ⟨rfl, rfl, rfl, rfl, by simp, by simp, by simp⟩

def Handled (model : FieldModel Obj) (solver : SolverBase Obj) (kind : Constraints) (src dst : ℕ) : Prop :=
  match kind with
  | .load => solver.Loaded src dst
  | .store => solver.Stored model src dst
  | .offset => solver.pts src ⊆ solver.handledGEPMap dst
  | .copy => True
  | .addrOf => True
  | .special => True

def pointerOf (kind : Constraints) (src dst : ℕ) : ℕ := if kind = .store then dst else src

structure Noticed (hash : ℕ → ℕ → ℕ) (model : FieldModel Obj) (edges : Constraints → Place Obj → Place Obj → Prop)
    (prev : ℕ) (kind : Constraints) (src dst : ℕ) (start : PartialUpdateSolver Obj) (called noted : List (ℕ × ℕ))
    (solver : PartialUpdateSolver Obj) : Prop where
  valid : solver.Valid model edges
  indexed : solver.Indexed model
  grows : Grows model start.toSolverBase solver.toSolverBase called
  recorded : Recorded hash { start with toSolverBase := solver.toSolverBase } noted solver
  called : ∀ call ∈ called, call ∈ noted
  copied : kind = .copy → src < prev → (src, dst) ∈ noted
  handled : pointerOf kind src dst < prev → Handled model solver.toSolverBase kind src dst

lemma Deriving.noticed {kind : Constraints} {called : List (ℕ × ℕ)} (h : Deriving hash model edges start called solver)
    (hkind : kind ≠ .copy) (hhandled : Handled model solver.toSolverBase kind src dst) :
    Noticed hash model edges prev kind src dst start called called solver :=
  ⟨h.valid, h.indexed, h.grows, h.recorded, fun _ hm => hm, fun hcopy => absurd hcopy hkind, fun _ => hhandled⟩

lemma onNewConstraint_spec [DecidableEq Obj] (hash : ℕ → ℕ → ℕ) (prev : ℕ) {kind : Constraints}
    (hv : start.Valid model edges) (hi : start.Indexed model) (he : start.graph.Edge kind src dst) :
    ∃ called noted solver, onNewConstraint hash model prev start kind src dst = some solver ∧
      Noticed hash model edges prev kind src dst start called noted solver := by
  have hs := hv.built.sound
  have hderiving : Deriving hash model edges start [] start := ⟨hv, hi, .refl _, .refl hash start⟩
  have hleft : ∀ {kind}, kind ≠ .copy → (pointerOf kind src dst < prev → Handled model start.toSolverBase kind src dst) →
      Noticed hash model edges prev kind src dst start [] [] start := fun hkind hhandled =>
    ⟨hv, hi, .refl _, .refl hash start, fun _ hm => hm, fun hcopy => absurd hcopy hkind, hhandled⟩
  cases kind with
  | copy =>
    by_cases hold : src < prev
    · obtain ⟨solver, heq, hr⟩ := recordCopyEdge_spec hash start src dst
      have hbase : solver.toSolverBase = start.toSolverBase := hr.base
      refine ⟨[], [(src, dst)], solver, by simp [onNewConstraint, hold, heq], by rwa [hbase], by rwa [hbase],
        by rw [hbase]; exact .refl _, by rwa [hbase], fun _ hm => absurd hm List.not_mem_nil,
        fun _ _ => List.mem_singleton_self _, fun _ => trivial⟩
    · exact ⟨[], [], start, by simp [onNewConstraint, hold], hv, hi, .refl _, .refl hash start, fun _ hm => hm,
        fun _ hlt => absurd hlt hold, fun _ => trivial⟩
  | load =>
    by_cases hold : src < prev
    · obtain ⟨new, solver, heq, hnew, -, hloaded⟩ := hderiving.loadInto hs he
      exact ⟨_, _, solver, by simp [onNewConstraint, hold, heq], hnew.noticed (by simp) hloaded⟩
    · exact ⟨[], [], start, by simp [onNewConstraint, hold], hleft (by simp) fun hlt => absurd hlt hold⟩
  | store =>
    by_cases hold : dst < prev
    · obtain ⟨new, solver, heq, hnew, -, hstored⟩ := hderiving.storeFrom hs hv.built he
      exact ⟨_, _, solver, by simp [onNewConstraint, hold, heq], hnew.noticed (by simp) hstored⟩
    · exact ⟨[], [], start, by simp [onNewConstraint, hold], hleft (by simp) fun hlt => absurd hlt hold⟩
  | offset =>
    by_cases hold : src < prev
    · obtain ⟨new, solver, heq, hnew, -, hindexed⟩ := hderiving.offsetInto hs he
      exact ⟨_, _, solver, by simp [onNewConstraint, hold, heq], hnew.noticed (by simp) hindexed⟩
    · exact ⟨[], [], start, by simp [onNewConstraint, hold], hleft (by simp) fun hlt => absurd hlt hold⟩
  | addrOf => exact ⟨[], [], start, rfl, hleft (by simp) fun _ => trivial⟩
  | special => exact ⟨[], [], start, rfl, hleft (by simp) fun _ => trivial⟩

/-- While calls are resolved: the nodes below `prev` are done, and what is to be copied from them is recorded. -/
structure Resolving (hash : ℕ → ℕ → ℕ) (model : FieldModel Obj) (edges : Constraints → Place Obj → Place Obj → Prop)
    (prev : ℕ) (solver : PartialUpdateSolver Obj) : Prop where
  valid : solver.Valid model edges
  indexed : solver.Indexed model
  prev_le : prev ≤ solver.graph.nodeNum
  copySize : solver.copyWorkList.size = prev
  lsSize : solver.lsWorkList.size = prev
  targetSize : solver.targetList.size = prev
  done : ∀ id < prev, solver.Done model id
  edge : ∀ {src dst}, solver.graph.Edge .copy src dst → solver.pts src ⊆ solver.pts dst ∨ prev ≤ src ∨
    (src ∉ solver.copyWorkList.bits ∧ dst ∉ solver.targetList.bits ∧ hashEdge hash src dst ∈ solver.requiredEdge)

lemma Recorded.noted {noted : List (ℕ × ℕ)} (hr : Recorded hash start noted solver) (hm : (src, dst) ∈ noted) :
    src ∉ solver.copyWorkList.bits ∧ dst ∉ solver.targetList.bits ∧ hashEdge hash src dst ∈ solver.requiredEdge :=
  ⟨fun hin => ((hr.copyWorkList src).mp hin).2 dst hm, fun hin => ((hr.targetList dst).mp hin).2 src hm,
    (hr.requiredEdge _).mpr (.inr ⟨src, dst, hm, rfl⟩)⟩

lemma Resolving.step {base : SolverBase Obj} {call : Option (Constraints × ℕ × ℕ)} {called noted : List (ℕ × ℕ)}
    (h : Resolving hash model edges prev start) (hadded : Added start.toSolverBase addition call base)
    (hb : base.Built model) (hv : solver.Valid model edges) (hi : solver.Indexed model)
    (hgrows : Grows model base solver.toSolverBase called)
    (hr : Recorded hash { start with toSolverBase := solver.toSolverBase } noted solver)
    (hcalled : ∀ call ∈ called, call ∈ noted)
    (hcall : ∀ {kind src dst}, call = some (kind, src, dst) → (kind = .copy → src < prev → (src, dst) ∈ noted) ∧
      (pointerOf kind src dst < prev → Handled model solver.toSolverBase kind src dst)) :
    Resolving hash model edges prev solver := by
  have hstart := h.valid.built
  have hs := hv.built.sound
  have hpts : ∀ {id}, id < start.graph.nodeNum → solver.pts id = start.pts id := by
    intro id hid
    rw [hgrows.pts id (hid.trans_le hadded.nodeNum), hadded.pts id hid]
  refine ⟨hv, hi, h.prev_le.trans (hadded.nodeNum.trans hgrows.nodeNum), hr.copySize.trans h.copySize, ?_,
    hr.targetSize.trans h.targetSize, fun id hid => ⟨fun {dst} he => ?_, fun {src} he => ?_, fun {dst} he => ?_⟩,
    fun {src dst} he => ?_⟩
  · rw [hr.lsWorkList]
    exact h.lsSize
  · rcases hadded.added (hgrows.same he (by simp) (by simp)) (by simp) with hold | hnew
    · have hlt := hid.trans_le h.prev_le
      have hloaded := hadded.loaded hstart hb.sound hlt ((h.done id hid).load hold)
      exact hgrows.loaded hb hs (hlt.trans_le hadded.nodeNum) hloaded
    · exact (hcall hnew).2 hid
  · rcases hadded.added (hgrows.same he (by simp) (by simp)) (by simp) with hold | hnew
    · have hlt := hid.trans_le h.prev_le
      have hstored := hadded.stored hstart hb.sound hlt ((h.done id hid).store hold)
      exact hgrows.stored hb hs (hlt.trans_le hadded.nodeNum) hstored
    · exact (hcall hnew).2 hid
  · rcases hadded.added (hgrows.same he (by simp) (by simp)) (by simp) with hold | hnew
    · rw [hpts (hid.trans_le h.prev_le)]
      refine ((h.done id hid).offset hold).trans ?_
      rw [← hadded.handled]
      exact hgrows.handledGEPMap dst
    · exact (hcall hnew).2 hid
  · rcases hgrows.added he with hbase | hm
    · rcases hadded.added hbase (by simp) with hold | hnew
      · obtain ⟨hsrc, hdst, -⟩ := hstart.sound.ends hold
        rw [hpts hsrc, hpts hdst]
        refine (h.edge hold).imp_right (Or.imp_right fun ⟨hcopy, htarget, hrequired⟩ => ⟨?_, ?_, ?_⟩)
        · exact fun hin => hcopy ((hr.copyWorkList src).mp hin).1
        · exact fun hin => htarget ((hr.targetList dst).mp hin).1
        · exact (hr.requiredEdge _).mpr (.inl hrequired)
      · refine .inr ((Nat.lt_or_ge src prev).symm.imp_right fun hlt => hr.noted ((hcall hnew).1 rfl hlt))
    · exact .inr (.inr (hr.noted (hcalled _ hm)))

structure Resolved (objects : Finset Obj) (addition : Addition Obj) (solver solver' : SolverBase Obj) : Prop where
  follows : Follows solver solver'
  within : ∀ {nodeNum objNum}, Within objects nodeNum objNum solver →
    Within objects (nodeNum + addition.pointers) objNum solver'
  linked : ∀ {kind src dst}, addition.edge = some (kind, src, dst) → src < solver.graph.nodeNum ∧
    dst < solver.graph.nodeNum ∧ solver'.Linked kind src dst ∧ (kind = .offset → solver'.graph.root dst = dst)

lemma Added.resolved {base solver solver' : SolverBase Obj} {call : Option (Constraints × ℕ × ℕ)}
    (hadded : Added solver addition call base) (hlater : Later model base solver') (h : solver.Built model)
    (hb : base.Built model) (h' : solver'.Built model) (hindex : model.Indexes ↑objects)
    (hobject : ∀ object, addition = .objNode object → object ∈ objects) :
    Resolved objects addition solver solver' where
  follows := (hadded.follows h hb).trans h.sound (hlater.follows hb h')
  within := by
    intro nodeNum objNum hw
    refine Within.later ⟨fun entry hm => ?_, ?_⟩ hindex hlater
    · exact (hadded.objects entry hm).elim (hw.mem entry) (hobject entry.2)
    · have := hadded.created
      have := hw.created
      omega
  linked hedge := by
    obtain ⟨hsrc, hdst, hl, hoffset⟩ := hadded.linked hedge
    refine ⟨hsrc, hdst, hlater.linked hb.sound h'.sound hl, fun hkind => ?_⟩
    rw [hlater.root_eq hb.sound h'.sound]
    exact hoffset hkind

lemma Resolving.addNoticed [DecidableEq Obj] (h : Resolving hash model edges prev start)
    (ha : start.Allows addition) (hedges : ∀ {kind src dst}, addition.edge = some (kind, src, dst) →
      edges kind (start.place src) (start.place dst)) (hindex : model.Indexes ↑objects)
    (hobject : ∀ object, addition = .objNode object → object ∈ objects) :
    ∃ solver, addNoticed hash model prev start addition = some solver ∧ Resolving hash model edges prev solver ∧
      Resolved objects addition start.toSolverBase solver.toSolverBase := by
  obtain ⟨call, base, heq, hadded, hv⟩ := add_spec h.valid ha hedges
  have hb := h.valid.built
  have hi : base.Indexed model := hadded.indexed hb hadded.handled h.indexed
  cases call with
  | none =>
    refine ⟨{ start with toSolverBase := base }, by simp [PartialUpdateSolver.addNoticed, heq], ?_,
      Added.resolved hadded (.refl base) hb hv.built hv.built hindex hobject⟩
    exact h.step hadded hv.built hv hi (.refl base) (.refl hash _) (fun _ hm => hm) fun hnew => by cases hnew
  | some edge =>
    obtain ⟨kind, src, dst⟩ := edge
    obtain ⟨called, noted, solver, hnotice, hn⟩ := @onNewConstraint_spec _ model edges
      { start with toSolverBase := base } src dst _ hash prev kind hv hi (hadded.called rfl).1
    refine ⟨solver, by simp [PartialUpdateSolver.addNoticed, heq, hnotice], ?_,
      Added.resolved hadded hn.grows.toLater hb hv.built hn.valid.built hindex hobject⟩
    refine h.step hadded hv.built hn.valid hn.indexed hn.grows hn.recorded hn.called fun hnew => ?_
    cases hnew
    exact ⟨hn.copied, hn.handled⟩

/-- The constraints there were, and those that additions asked for. -/
def Demanded (base solver : SolverBase Obj) (added : List (Addition Obj)) (kind : Constraints) (p q : Place Obj) :
    Prop :=
  base.constraints kind p q ∨ ∃ addition ∈ added, ∃ src dst, addition.edge = some (kind, src, dst) ∧
    solver.place src = p ∧ solver.place dst = q

/-- A system that may demand more, but nothing of the anonymous nodes, and nothing special. -/
structure Includes (edges demanded : Constraints → Place Obj → Place Obj → Prop) : Prop where
  edge : ∀ {kind p q}, demanded kind p q → edges kind p q
  ordinary : ∀ p q, ¬edges .special p q
  unknown : ∀ ⦃kind p o⦄, edges kind p (.address o) → kind ≠ .copy ∧ kind ≠ .load

structure Tracks (base : SolverBase Obj) (added : List (Addition Obj)) (solver : SolverBase Obj) : Prop where
  lt : ∀ {addition kind src dst}, addition ∈ added → addition.edge = some (kind, src, dst) →
    src < solver.graph.nodeNum ∧ dst < solver.graph.nodeNum
  carries : solver.Carries (Demanded base solver added)
  ordinary : ∀ p q, ¬Demanded base solver added .special p q
  unknown : ∀ ⦃kind p o⦄, Demanded base solver added kind p (.address o) → kind ≠ .copy ∧ kind ≠ .load

section Tracks

variable {base solver' : SolverBase Obj} {solver : SolverBase Obj} {added : List (Addition Obj)}

lemma Tracks.demanded_eq (h : Tracks base added solver) (hfollows : Follows solver solver') :
    Demanded base solver' added = Demanded base solver added := by
  funext kind p q
  refine propext (or_congr_right (exists_congr fun addition => and_congr_right fun hm => ?_))
  refine exists_congr fun src => exists_congr fun dst => and_congr_right fun hedge => ?_
  obtain ⟨hsrc, hdst⟩ := h.lt hm hedge
  rw [hfollows.place src hsrc, hfollows.place dst hdst]

lemma Tracks.follows (h : Tracks base added solver) (hfollows : Follows solver solver') : Tracks base added solver' := by
  refine ⟨fun hm hedge => ?_, ?_, ?_, ?_⟩
  · obtain ⟨hsrc, hdst⟩ := h.lt hm hedge
    exact ⟨hsrc.trans_le hfollows.nodeNum, hdst.trans_le hfollows.nodeNum⟩
  · rw [h.demanded_eq hfollows]
    exact hfollows.carries h.carries
  · rw [h.demanded_eq hfollows]
    exact h.ordinary
  · rw [h.demanded_eq hfollows]
    exact h.unknown

lemma Tracks.includes (h : Tracks base added solver) :
    Includes (Demanded base solver added) (Demanded base solver added) := ⟨id, h.ordinary, h.unknown⟩

lemma demanded_append (addition : Addition Obj) {kind : Constraints} {p q : Place Obj} :
    Demanded base solver (added ++ [addition]) kind p q ↔ Demanded base solver added kind p q ∨
      ∃ src dst, addition.edge = some (kind, src, dst) ∧ solver.place src = p ∧ solver.place dst = q := by
  simp only [Demanded, List.mem_append, List.mem_singleton, or_and_right, exists_or, exists_eq_left, or_assoc]

lemma Tracks.unknown_append (h : Tracks base added solver) (hb : solver.Built model) (ha : solver.Allows addition)
    ⦃kind : Constraints⦄ ⦃p : Place Obj⦄ ⦃o : Obj⦄
    (hd : Demanded base solver (added ++ [addition]) kind p (.address o)) : kind ≠ .copy ∧ kind ≠ .load := by
  rcases (demanded_append addition).mp hd with hold | ⟨src, dst, hedge, -, hplace⟩
  · exact h.unknown hold
  · exact ha.unknown hb hedge hplace

lemma Tracks.ordinary_append (h : Tracks base added solver) (ha : solver.Allows addition) (p q : Place Obj) :
    ¬Demanded base solver (added ++ [addition]) .special p q := by
  intro hd
  rcases (demanded_append addition).mp hd with hold | ⟨src, dst, hedge, -⟩
  · exact h.ordinary p q hold
  · exact Allows.ordinary ha hedge rfl

lemma Tracks.append (h : Tracks base added solver) (hb : solver.Built model) (ha : solver.Allows addition)
    (hr : Resolved objects addition solver solver') : Tracks base (added ++ [addition]) solver' := by
  have hold := h.follows hr.follows
  have hsame : Demanded base solver' (added ++ [addition]) = Demanded base solver (added ++ [addition]) := by
    funext kind p q
    rw [demanded_append, demanded_append, h.demanded_eq hr.follows]
    refine propext (or_congr_right (exists_congr fun src => exists_congr fun dst => and_congr_right fun hedge => ?_))
    obtain ⟨hsrc, hdst, -⟩ := hr.linked hedge
    rw [hr.follows.place src hsrc, hr.follows.place dst hdst]
  refine ⟨fun hm hedge => ?_, fun hd => ?_, ?_, ?_⟩
  · rcases List.mem_append.mp hm with hm | hm
    · exact hold.lt hm hedge
    · obtain rfl := List.mem_singleton.mp hm
      obtain ⟨hsrc, hdst, -⟩ := hr.linked hedge
      exact ⟨hsrc.trans_le hr.follows.nodeNum, hdst.trans_le hr.follows.nodeNum⟩
  · rcases (demanded_append addition).mp hd with hd | ⟨src, dst, hedge, hp, hq⟩
    · exact hold.carries hd
    · obtain ⟨hsrc, hdst, hl, hoffset⟩ := hr.linked hedge
      exact ⟨src, dst, hsrc.trans_le hr.follows.nodeNum, hdst.trans_le hr.follows.nodeNum, hp, hq, hl, hoffset⟩
  · rw [hsame]
    exact h.ordinary_append ha
  · rw [hsame]
    exact h.unknown_append hb ha

end Tracks

lemma exists_forall {α β : Type*} {result : Option β} {P : α → β → Prop} {A : α → Prop} {a : α} (ha : A a)
    (h : ∀ a, A a → ∃ b, result = some b ∧ P a b) : ∃ b, result = some b ∧ ∀ a, A a → P a b := by
  obtain ⟨b, hb, -⟩ := h a ha
  refine ⟨b, hb, fun a' ha' => ?_⟩
  obtain ⟨b', hb', hP⟩ := h a' ha'
  rw [hb] at hb'
  cases hb'
  exact hP

section Additions

variable [DecidableEq Obj] {base : SolverBase Obj} {added : List (Addition Obj)} {nodeNum objNum : ℕ}

/-- Additions that are allowed one after the other, each with what the call back does about it. -/
def AllowsAll (hash : ℕ → ℕ → ℕ) (model : FieldModel Obj) (prev : ℕ) :
    PartialUpdateSolver Obj → List (Addition Obj) → Prop
  | _, [] => True
  | solver, addition :: rest => solver.Allows addition ∧
    ∀ next, addNoticed hash model prev solver addition = some next → AllowsAll hash model prev next rest

structure Extending (hash : ℕ → ℕ → ℕ) (model : FieldModel Obj) (objects : Finset Obj) (base : SolverBase Obj)
    (prev nodeNum objNum : ℕ) (added : List (Addition Obj)) (solver : PartialUpdateSolver Obj) : Prop where
  tracks : Tracks base added solver.toSolverBase
  within : Within objects nodeNum objNum solver.toSolverBase
  resolving : ∀ edges, Includes edges (Demanded base solver.toSolverBase added) →
    Resolving hash model edges prev solver

lemma Extending.addNoticed (h : Extending hash model objects base prev nodeNum objNum added start)
    (ha : start.Allows addition) (hindex : model.Indexes ↑objects)
    (hobject : ∀ object, addition = .objNode object → object ∈ objects) :
    ∃ solver, addNoticed hash model prev start addition = some solver ∧
      Extending hash model objects base prev (nodeNum + addition.pointers) objNum (added ++ [addition]) solver ∧
      Follows start.toSolverBase solver.toSolverBase := by
  have hb := (h.resolving _ h.tracks.includes).valid.built
  obtain ⟨solver, heq, hall⟩ := exists_forall
    (A := fun edges => Includes edges (Demanded base start.toSolverBase (added ++ [addition])))
    ⟨id, h.tracks.ordinary_append ha, h.tracks.unknown_append hb ha⟩ fun edges hedges =>
      (h.resolving edges ⟨fun hd => hedges.edge ((demanded_append addition).mpr (.inl hd)), hedges.ordinary,
        hedges.unknown⟩).addNoticed ha
        (fun hedge => hedges.edge ((demanded_append addition).mpr (.inr ⟨_, _, hedge, rfl, rfl⟩))) hindex hobject
  obtain ⟨-, hr⟩ := hall _ ⟨id, h.tracks.ordinary_append ha, h.tracks.unknown_append hb ha⟩
  refine ⟨solver, heq, ⟨h.tracks.append hb ha hr, hr.within h.within, fun edges hedges => ?_⟩, hr.follows⟩
  refine (hall edges ⟨fun {kind p q} hd => hedges.edge ?_, hedges.ordinary, hedges.unknown⟩).1
  rw [demanded_append] at hd ⊢
  rw [h.tracks.demanded_eq hr.follows]
  refine hd.imp_right fun ⟨src, dst, hedge, hp, hq⟩ => ⟨src, dst, hedge, ?_, ?_⟩
  · rw [hr.follows.place src (hr.linked hedge).1, hp]
  · rw [hr.follows.place dst (hr.linked hedge).2.1, hq]

lemma foldlM_addNoticed (hindex : model.Indexes ↑objects) (additions : List (Addition Obj)) :
    ∀ {added nodeNum start}, Extending hash model objects base prev nodeNum objNum added start →
      AllowsAll hash model prev start additions → (∀ object, .objNode object ∈ additions → object ∈ objects) →
      ∃ solver, additions.foldlM (addNoticed hash model prev) start = some solver ∧
        Extending hash model objects base prev (nodeNum + (additions.map Addition.pointers).sum) objNum
          (added ++ additions) solver ∧ Follows start.toSolverBase solver.toSolverBase := by
  induction additions with
  | nil =>
    intro added nodeNum start h _ _
    have hs := (h.resolving _ h.tracks.includes).valid.built.sound
    exact ⟨start, rfl, by simpa using h, .refl hs⟩
  | cons addition rest ih =>
    intro added nodeNum start h hallows hobjects
    have hs := (h.resolving _ h.tracks.includes).valid.built.sound
    obtain ⟨middle, heq, hmiddle, hfollows⟩ := h.addNoticed hallows.1 hindex fun object hobject =>
      hobjects object (hobject ▸ List.mem_cons_self)
    obtain ⟨last, heq', hlast, hfollows'⟩ := ih hmiddle (hallows.2 middle heq) fun object hm =>
      hobjects object (List.mem_cons_of_mem _ hm)
    refine ⟨last, ?_, ?_, hfollows.trans hs hfollows'⟩
    · rw [List.foldlM_cons, heq]
      exact heq'
    · simpa [Nat.add_assoc] using hlast

end Additions

lemma enlarges_clear (solver : SolverBase Obj) : Enlarges solver { solver with updatedFunPtrs := ∅ } :=
  ⟨rfl, rfl, rfl, fun _ => subset_rfl⟩

lemma closed_clear {solver : SolverBase Obj} (h : solver.Closed model) :
    { solver with updatedFunPtrs := ∅ }.Closed model :=
  ⟨h.copy, fun id => (enlarges_clear solver).done rfl (h.done id), (enlarges_clear solver).indexed h.indexed⟩

lemma Valid.clear {solver : SolverBase Obj} (h : solver.Valid model edges) :
    { solver with updatedFunPtrs := ∅ }.Valid model edges :=
  (enlarges_clear solver).valid h fun hm => ⟨h.built.known hm, fun _ _ hi => h.justified.pts hm hi⟩

def resized (solver : PartialUpdateSolver Obj) : PartialUpdateSolver Obj :=
  { solver with
    lsWorkList := solver.lsWorkList.resize solver.graph.nodeNum false
    targetList := solver.targetList.resize solver.graph.nodeNum false
    copyWorkList := solver.copyWorkList.resize solver.graph.nodeNum false }

lemma Resolving.ready (h : Resolving hash model edges prev solver) :
    (resized { solver with updatedFunPtrs := ∅ }).Ready hash model edges := by
  have hbits : ∀ {vector : BitVector} {id num : ℕ},
      id ∈ (vector.resize num false).bits ↔ id < num ∧ id ∈ vector.bits := by
    intro vector id num
    simp [BitVector.mem_resize]
  refine ⟨Valid.clear h.valid, ⟨rfl, rfl, rfl⟩, (enlarges_clear _).indexed h.indexed, fun id hid => ?_,
    fun {src dst} he => (h.edge he).imp_right fun hor => ?_⟩
  · have hlt := solver.lsWorkList.lt_size id (hbits.mp hid).2
    exact (enlarges_clear _).done rfl (h.done id (hlt.trans_eq h.lsSize))
  · rcases hor with hnew | ⟨hcopy, htarget, hrequired⟩
    · have hout : ∀ {vector : BitVector}, vector.size = prev → src ∉ vector.bits := fun hsize hin =>
        absurd (hsize ▸ BitVector.lt_size _ src hin) (Nat.not_lt.mpr hnew)
      exact ⟨fun hin => hout h.copySize (hbits.mp hin).2, .inl fun hin => hout h.lsSize (hbits.mp hin).2⟩
    · have hcopy' : src ∉ (solver.copyWorkList.resize solver.graph.nodeNum false).bits :=
        fun hin => hcopy (hbits.mp hin).2
      exact ⟨hcopy', .inr ⟨fun hin => htarget (hbits.mp hin).2, hcopy', hrequired⟩⟩

lemma Ready.resolving (h : solver.Ready hash model edges) (hc : solver.Closed model) :
    Resolving hash model edges solver.graph.nodeNum solver :=
  ⟨h.valid, h.indexed, le_rfl, h.sized.copyWorkList, h.sized.lsWorkList, h.sized.targetList, fun id _ => hc.done id,
    fun he => .inl (hc.copy he)⟩

section Loop

variable [DecidableEq Obj] {base : SolverBase Obj} {lang : LangModel Obj} {state : lang.State}
  {rank : lang.State → ℕ} {knows : lang.State → SolverBase Obj → Prop} {limit : ℕ}

/-- A language model that adds what is allowed where a run of the solver has ended, and not forever. What it knows of
the constraint graph stays true while the solver runs. -/
structure Lawful (hash : ℕ → ℕ → ℕ) (model : FieldModel Obj) (lang : LangModel Obj) (objects : Finset Obj)
    (rank : lang.State → ℕ) (knows : lang.State → SolverBase Obj → Prop) : Prop where
  follows : ∀ {state solver solver'}, knows state solver → Follows solver solver' → knows state solver'
  allowed : ∀ {state} {solver : PartialUpdateSolver Obj}, knows state solver.toSolverBase → solver.Built model →
    solver.Closed model →
    AllowsAll hash model solver.graph.nodeNum solver (lang.updateFunPtrs state solver.toSolverBase).1
  objects : ∀ {state solver object}, knows state solver →
    .objNode object ∈ (lang.updateFunPtrs state solver).1 → object ∈ objects
  unchanged : ∀ {state solver}, knows state solver → (lang.updateFunPtrs state solver).2.1 = false →
    (lang.updateFunPtrs state solver).1 = []
  rank : ∀ {state solver}, knows state solver → (lang.updateFunPtrs state solver).2.1 = true →
    ((lang.updateFunPtrs state solver).1.map Addition.pointers).sum + rank (lang.updateFunPtrs state solver).2.2 <
      rank state
  knows : ∀ {state} {solver last : PartialUpdateSolver Obj}, knows state solver.toSolverBase →
    (lang.updateFunPtrs state solver.toSolverBase).1.foldlM (addNoticed hash model solver.graph.nodeNum) solver =
      some last → Follows solver.toSolverBase last.toSolverBase →
    knows (lang.updateFunPtrs state solver.toSolverBase).2.2 last.toSolverBase

/-- What holds where the loop of `solve` starts over. -/
structure Stage (hash : ℕ → ℕ → ℕ) (model : FieldModel Obj) (objects : Finset Obj) (base : SolverBase Obj)
    (rank : lang.State → ℕ) (knows : lang.State → SolverBase Obj → Prop) (limit : ℕ)
    (solving : Solving lang (PartialUpdateSolver Obj)) : Prop where
  tracks : Tracks base solving.added solving.solver.toSolverBase
  ready : ∀ edges, Includes edges (Demanded base solving.solver.toSolverBase solving.added) →
    solving.solver.Ready hash model edges
  budget : ∃ nodeNum, nodeNum + rank solving.state ≤ limit ∧
    Within objects nodeNum base.objVec.length solving.solver.toSolverBase
  knows : knows solving.state solving.solver.toSolverBase

structure Solved (model : FieldModel Obj) (base : SolverBase Obj) (added : List (Addition Obj))
    (solver : SolverBase Obj) : Prop where
  tracks : Tracks base added solver
  valid : solver.Valid model (Demanded base solver added)
  closed : solver.Closed model

lemma Stage.runSolver {solving : Solving lang (PartialUpdateSolver Obj)}
    (h : Stage hash model objects base rank knows limit solving) (hindex : model.Indexes ↑objects)
    (hids : limit + 2 * objects.card ≤ SCCIterator.finished) {fuel : ℕ}
    (hfuel : (limit + 2 * objects.card) * (limit + 2 * objects.card) ≤ fuel) :
    ∃ solver, runSolver hash model (fuel + 1) solving.solver = some solver ∧
      Follows solving.solver.toSolverBase solver.toSolverBase ∧ solver.Closed model ∧ solver.finished = true ∧
      (∀ edges, Includes edges (Demanded base solving.solver.toSolverBase solving.added) →
        solver.Ready hash model edges) ∧
      ∃ nodeNum, nodeNum + rank solving.state ≤ limit ∧
        Within objects nodeNum base.objVec.length solver.toSolverBase := by
  obtain ⟨nodeNum, hlimit, hwithin⟩ := h.budget
  have hle : nodeNum + 2 * objects.card ≤ limit + 2 * objects.card := by omega
  obtain ⟨solver, heq, hall⟩ := exists_forall
    (A := fun edges => Includes edges (Demanded base solving.solver.toSolverBase solving.added))
    h.tracks.includes fun edges hedges => Running.runSolver ⟨h.ready edges hedges, hwithin⟩ hedges.ordinary hindex
      (hle.trans hids) ((Nat.mul_le_mul hle hle).trans hfuel)
  obtain ⟨hrunning, hfollows, hclosed, hfinished⟩ := hall _ h.tracks.includes
  exact ⟨solver, heq, hfollows, hclosed, hfinished, fun edges hedges => (hall edges hedges).1.ready, nodeNum, hlimit,
    hrunning.within⟩

lemma Stage.solveOnce {solving : Solving lang (PartialUpdateSolver Obj)}
    (hlawful : Lawful hash model lang objects rank knows)
    (h : Stage hash model objects base rank knows limit solving) (hindex : model.Indexes ↑objects)
    (hids : limit + 2 * objects.card ≤ SCCIterator.finished) {fuel : ℕ}
    (hfuel : (limit + 2 * objects.card) * (limit + 2 * objects.card) ≤ fuel) :
    ∃ solving', solveOnce hash model (fuel + 1) solving = some solving' ∧
      (solving'.reanalyze = true → Stage hash model objects base rank knows limit solving' ∧
        limit - rank solving.state < limit - rank solving'.state) ∧
      (solving'.reanalyze = false → Solved model base solving'.added solving'.solver.toSolverBase) := by
  obtain ⟨solver, hrun, hfollows, hclosed, hfinished, hready, nodeNum, hlimit, hwithin⟩ := h.runSolver hindex hids hfuel
  have htracks := h.tracks.follows hfollows
  have hdemanded := h.tracks.demanded_eq hfollows
  have hvalid := (hready _ h.tracks.includes).valid
  have hknows := hlawful.follows h.knows hfollows
  by_cases hupdated : solver.updatedFunPtrs = ∅
  · refine ⟨_, by simp [PartialUpdateSolver.solveOnce, hrun, hfinished, resolveFunPtrs, hupdated]; rfl,
      fun hagain => ?_, fun _ => ?_⟩
    · cases hagain
    · refine ⟨htracks, ?_, hclosed⟩
      dsimp only
      rw [hdemanded]
      exact hvalid
  · obtain ⟨additions, hadditions⟩ : ∃ additions, additions = (lang.updateFunPtrs solving.state solver.toSolverBase).1 :=
      ⟨_, rfl⟩
    have hextending : Extending hash model objects base solver.graph.nodeNum nodeNum base.objVec.length solving.added
        solver := by
      refine ⟨htracks, hwithin, fun edges hedges => (hready edges ?_).resolving hclosed⟩
      rwa [hdemanded] at hedges
    obtain ⟨last, heq, hlast, hfollows'⟩ := foldlM_addNoticed hindex additions hextending
      (hadditions ▸ hlawful.allowed hknows hvalid.built hclosed) fun object hm => hlawful.objects hknows (hadditions ▸ hm)
    have hlastBuilt := (hlast.resolving _ hlast.tracks.includes).valid.built
    have hclear := (enlarges_clear last.toSolverBase).keeps.follows hlastBuilt
    refine ⟨_, by simp [PartialUpdateSolver.solveOnce, hrun, hfinished, resolveFunPtrs, hupdated, ← hadditions, heq]; rfl,
      fun hagain => ?_, fun hsame => ?_⟩
    · have hrank := hlawful.rank hknows hagain
      rw [← hadditions] at hrank
      refine ⟨⟨hlast.tracks.follows hclear, fun edges hedges => ?_,
        ⟨nodeNum + (additions.map Addition.pointers).sum, ?_, ?_⟩, ?_⟩, ?_⟩
      · dsimp only at hedges
        rw [hlast.tracks.demanded_eq hclear] at hedges
        exact (hlast.resolving edges hedges).ready
      · change nodeNum + (additions.map Addition.pointers).sum +
          rank (lang.updateFunPtrs solving.state solver.toSolverBase).2.2 ≤ limit
        omega
      · exact (enlarges_clear last.toSolverBase).keeps.within hlast.within
      · refine hlawful.follows (hlawful.knows hknows ?_ hfollows') hclear
        rwa [← hadditions]
      · change limit - rank solving.state < limit - rank (lang.updateFunPtrs solving.state solver.toSolverBase).2.2
        omega
    · -- nothing was added
      have hnone := hlawful.unchanged hknows hsame
      rw [← hadditions] at hnone
      subst hnone
      cases heq
      refine ⟨?_, ?_, closed_clear hclosed⟩
      · simpa using htracks.follows hclear
      · have hvalid' := Valid.clear hvalid
        rw [← hdemanded, ← htracks.demanded_eq hclear] at hvalid'
        simpa using hvalid'

/-- With the calls resolved on the way, the points-to sets are the least solution of all that was demanded. -/
theorem solve_least (hlawful : Lawful hash model lang objects rank knows) (h : base.Fresh model)
    (hspecial : ∀ src dst, ¬base.graph.Edge .special src dst)
    (hknows : knows state base) (hindex : model.Indexes ↑objects) (hobjects : ∀ entry ∈ base.objVec, entry.2 ∈ objects)
    (hids : base.graph.nodeNum + rank state + 2 * objects.card ≤ SCCIterator.finished) :
    ∃ fuel result, solve hash model lang state fuel base = some result ∧ ∀ id object,
      result.solver.PointsTo id object ↔
        (model.system (Demanded base result.solver.toSolverBase result.added)).Holds
          (result.solver.place id) object := by
  obtain ⟨limit, hlimit⟩ : ∃ limit, limit = base.graph.nodeNum + rank state := ⟨_, rfl⟩
  have hdemanded : Demanded base base [] = base.constraints := by
    funext kind p q
    simp [Demanded]
  have hstage : Stage hash model objects base rank knows limit
      { reanalyze := true, state, solver := start base, added := [] } := by
    refine ⟨⟨fun hm => absurd hm List.not_mem_nil, ?_, ?_, ?_⟩, fun edges hedges => ?_, ⟨base.graph.nodeNum, hlimit.ge,
      hobjects, rfl⟩, hknows⟩
    · exact hdemanded ▸ h.carries
    · rintro p q hd
      obtain ⟨src, dst, he, -⟩ : base.constraints .special p q := hdemanded ▸ hd
      exact hspecial src dst he
    · exact hdemanded ▸ h.unknown
    · exact ready_start hash (h.valid (fun hd => hedges.edge (hdemanded ▸ hd)) hedges.unknown) h.indexed
  obtain ⟨result, heq, hsolved⟩ := @Library.doWhile_ends _
    (PartialUpdateSolver.solveOnce hash model ((limit + 2 * objects.card) * (limit + 2 * objects.card) + limit + 1))
    (fun solving => solving.reanalyze) (Stage hash model objects base rank knows limit)
    (fun solving => Solved model base solving.added solving.solver.toSolverBase)
    (fun solving => limit - rank solving.state) limit (fun solving hstage => by
      obtain ⟨solving', heq, hagain, hsame⟩ := hstage.solveOnce hlawful hindex (hlimit ▸ hids) (Nat.le_add_right _ limit)
      exact ⟨solving', heq, fun htrue => ⟨(hagain htrue).1, (hagain htrue).2, Nat.sub_le _ _⟩, hsame⟩)
    ((limit + 2 * objects.card) * (limit + 2 * objects.card) + limit) _ hstage (by omega)
  exact ⟨_, result, heq, fun id object => hsolved.closed.pointsTo_iff hsolved.valid hsolved.tracks.carries⟩

end Loop

-- Calls that are resolved so many times: each adds a pointer that takes what the function pointer points to.
namespace FunctionPointer

def resolve (solver : SolverBase Unit) : ℕ → List (Addition Unit) × Bool × ℕ
  | 0 => ([], false, 0)
  | calls + 1 => ([.ptrNode, .constraint 0 solver.graph.nodeNum .copy], true, calls)

def rank (calls : ℕ) : ℕ := 2 * calls

def caller : LangModel Unit where
  State := ℕ
  updateFunPtrs calls solver := resolve solver calls

lemma allowsAll_resolve {solver : PartialUpdateSolver Unit} (hlt : 0 < solver.graph.nodeNum)
    (hb : solver.Built SolverBase.FunctionPointer.fields) (calls : ℕ) :
    AllowsAll (· + ·) SolverBase.FunctionPointer.fields solver.graph.nodeNum solver
      (resolve solver.toSolverBase calls).1 := by
  cases calls with
  | zero => exact trivial
  | succ calls =>
    refine ⟨trivial, fun next heq => ⟨?_, fun _ _ => trivial⟩⟩
    obtain rfl := Option.some.inj heq
    have hr := relabeled_addNewNode hb
    refine (hr.built hb).admits (hlt.trans (Nat.lt_succ_self _)) (Nat.lt_succ_self _) ?_ (by simp) (by simp) ?_ ?_ ?_
      (by simp)
    · exact (hr.superNode _).trans (superNode_fresh hb.sound le_rfl)
    · intro hobj
      have := (hb.objNode (hr.objNode_iff.mp hobj)).1
      omega
    · intro hanon
      obtain ⟨node, hobj, hid⟩ := hr.anonNode_iff.mp hanon
      have := (hb.objNode hobj).1
      omega
    · rintro (⟨src, he⟩ | ⟨object, hm⟩ | ⟨kind, dst, -, he, -⟩)
      · exact lt_irrefl _ (hb.sound.ends ((hr.edge _ _ _).mp he)).2.1
      · exact lt_irrefl _ (hb.handled hm).2.1
      · exact lt_irrefl _ (hb.sound.ends ((hr.edge _ _ _).mp he)).1

lemma lawful_caller : Lawful (· + ·) SolverBase.FunctionPointer.fields caller {()} rank
    (fun _ solver => 0 < solver.graph.nodeNum) where
  follows hlt hfollows := hlt.trans_le hfollows.nodeNum
  allowed := fun {calls solver} hlt hb _ => allowsAll_resolve hlt hb calls
  objects _ _ := Finset.mem_singleton_self _
  unchanged := by
    intro calls solver _ hsame
    change (resolve solver calls).1 = []
    cases calls with
    | zero => rfl
    | succ calls => cases hsame
  rank := by
    intro calls solver _ hagain
    change ((resolve solver calls).1.map Addition.pointers).sum + rank (resolve solver calls).2.2 < rank calls
    cases calls with
    | zero => cases hagain
    | succ calls =>
      change 1 + 0 + 2 * calls < 2 * (calls + 1)
      omega
  knows hlt _ hfollows := hlt.trans_le hfollows.nodeNum

end FunctionPointer

theorem solve_least_called : ∃ fuel result,
    solve (· + ·) SolverBase.FunctionPointer.fields FunctionPointer.caller (2 : ℕ) fuel
      SolverBase.FunctionPointer.called = some result ∧ ∀ id object,
        result.solver.PointsTo id object ↔ (SolverBase.FunctionPointer.fields.system
          (Demanded SolverBase.FunctionPointer.called result.solver.toSolverBase result.added)).Holds
            (result.solver.place id) object := by
  have hobjects : ∀ entry ∈ SolverBase.FunctionPointer.called.objVec, entry.2 ∈ ({()} : Finset Unit) := by simp
  exact solve_least FunctionPointer.lawful_caller SolverBase.FunctionPointer.fresh_called
    SolverBase.FunctionPointer.not_special_called (by decide) (fun _ hindex => by cases hindex) hobjects (by decide)

end PartialUpdateSolver

end OpenRace
