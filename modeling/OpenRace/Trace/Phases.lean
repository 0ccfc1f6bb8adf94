import OpenRace.Trace.Event

/-! Barriers cut a thread into phases. -/

namespace OpenRace.ThreadTrace

open LLVM

variable {Ctx : Type}

def barriers (thread : ThreadTrace Ctx) : List Instruction :=
  (thread.events.filter (·.type = .barrier)).map (·.ir.inst)

/-- How many barrier events precede a position. -/
def phase (thread : ThreadTrace Ctx) (position : ℕ) : ℕ :=
  ((thread.events.take position).filter (·.type = .barrier)).length

def isBarrierAt (thread : ThreadTrace Ctx) (position : ℕ) : Bool :=
  match thread.events[position]? with
  | some event => event.type = .barrier
  | none => false

/-- Even numbers stand for phases, the odd numbers between them for the barriers. -/
def key (thread : ThreadTrace Ctx) (position : ℕ) : ℕ ×ₗ ℕ :=
  if thread.isBarrierAt position then toLex (2 * thread.phase position + 1, 0)
  else toLex (2 * thread.phase position, position)

variable (thread : ThreadTrace Ctx)

lemma phase_succ (q : ℕ) :
    thread.phase (q + 1) = thread.phase q + if thread.isBarrierAt q then 1 else 0 := by
  rw [phase, phase, List.take_add_one, List.filter_append, List.length_append, isBarrierAt]
  cases thread.events[q]? with
  | none => simp
  | some event =>
    by_cases h : event.type = .barrier
    · simp [h]
    · simp [h]

lemma phase_mono {p q : ℕ} (h : p ≤ q) : thread.phase p ≤ thread.phase q := by
  induction q, h using Nat.le_induction with
  | base => exact le_rfl
  | succ q _ ih =>
    rw [phase_succ]
    omega

lemma phase_lt {p q : ℕ} (hp : thread.isBarrierAt p) (h : p < q) : thread.phase p < thread.phase q := by
  have hnext := phase_succ thread p
  rw [if_pos hp] at hnext
  have hmono := phase_mono thread (Nat.succ_le_of_lt h)
  rw [Nat.succ_eq_add_one] at hmono
  omega

lemma barrier_phase_inj {p q : ℕ} (hp : thread.isBarrierAt p) (hq : thread.isBarrierAt q)
    (h : thread.phase p = thread.phase q) : p = q := by
  rcases Nat.lt_trichotomy p q with hlt | heq | hlt
  · have := phase_lt thread hp hlt
    omega
  · exact heq
  · have := phase_lt thread hq hlt
    omega

lemma exists_barrier {i q : ℕ} (h : i < thread.phase q) :
    ∃ r, r < q ∧ thread.isBarrierAt r ∧ thread.phase r = i := by
  induction q with
  | zero => simp [phase] at h
  | succ q ih =>
    by_cases hlt : i < thread.phase q
    · obtain ⟨r, hr, hrest⟩ := ih hlt
      exact ⟨r, by omega, hrest⟩
    · rw [phase_succ] at h
      cases hb : thread.isBarrierAt q with
      | false =>
        rw [hb] at h
        simp at h
        omega
      | true =>
        rw [hb, if_pos rfl] at h
        exact ⟨q, Nat.lt_succ_self q, hb, by omega⟩

lemma isBarrierAt_iff {r : ℕ} : thread.isBarrierAt r ↔
    ∃ event, thread.events[r]? = some event ∧ event.type = .barrier := by
  rw [isBarrierAt]
  cases thread.events[r]? <;> simp

lemma phase_length : thread.phase thread.events.length = thread.barriers.length := by
  simp [phase, barriers]

lemma barriers_at {r : ℕ} {event : Event Ctx} (h : thread.events[r]? = some event)
    (htype : event.type = .barrier) : thread.barriers[thread.phase r]? = some event.ir.inst := by
  obtain ⟨hlt, hget⟩ := List.getElem?_eq_some_iff.mp h
  have hsplit : thread.events = thread.events.take r ++ event :: thread.events.drop (r + 1) := by
    rw [← hget, List.getElem_cons_drop, List.take_append_drop]
  have hfilter : thread.events.filter (·.type = .barrier) =
      (thread.events.take r).filter (·.type = .barrier) ++
        event :: (thread.events.drop (r + 1)).filter (·.type = .barrier) := by
    conv_lhs => rw [hsplit]
    rw [List.filter_append, List.filter_cons_of_pos (by simp [htype])]
  rw [barriers, List.getElem?_map, hfilter, phase, List.getElem?_append_right le_rfl]
  simp

lemma exists_barrier_event {i : ℕ} {inst : Instruction} (h : thread.barriers[i]? = some inst) :
    ∃ r event, thread.events[r]? = some event ∧ event.type = .barrier ∧ event.ir.inst = inst ∧
      thread.phase r = i := by
  have hlt := (List.getElem?_eq_some_iff.mp h).1
  rw [← phase_length] at hlt
  obtain ⟨r, -, hr, hri⟩ := exists_barrier thread hlt
  obtain ⟨event, hget, htype⟩ := (isBarrierAt_iff thread).mp hr
  have hinst := barriers_at thread hget htype
  rw [hri, h, Option.some.injEq] at hinst
  exact ⟨r, event, hget, htype, hinst.symm, hri⟩

lemma key_barrier {q : ℕ} (h : thread.isBarrierAt q) :
    thread.key q = toLex (2 * thread.phase q + 1, 0) := by
  rw [key, if_pos h]

lemma key_plain {q : ℕ} (h : thread.isBarrierAt q = false) :
    thread.key q = toLex (2 * thread.phase q, q) := by
  simp [key, h]

lemma key_lt {p q : ℕ} (h : p < q) : thread.key p < thread.key q := by
  have hmono := phase_mono thread h.le
  cases hp : thread.isBarrierAt p with
  | true =>
    have hlt := phase_lt thread hp h
    rw [key_barrier thread hp, key, Prod.Lex.lt_iff]
    split
    · left
      simp only [ofLex_toLex]
      omega
    · left
      simp only [ofLex_toLex]
      omega
  | false =>
    rw [key_plain thread hp, key, Prod.Lex.lt_iff]
    split
    · left
      simp only [ofLex_toLex]
      omega
    · simp only [ofLex_toLex]
      omega

lemma no_barrier_between (other : ThreadTrace Ctx) {i p q r : ℕ} (middle : ThreadTrace Ctx)
    (hp : thread.isBarrierAt p = false) (hq : other.isBarrierAt q = false)
    (hr : middle.isBarrierAt r) (hpi : thread.phase p = i) (hqi : other.phase q = i) :
    ¬ (thread.key p ≤ middle.key r ∧ middle.key r ≤ other.key q) := by
  rw [key_plain thread hp, key_plain other hq, key_barrier middle hr, Prod.Lex.le_iff,
    Prod.Lex.le_iff]
  simp only [ofLex_toLex]
  omega

end OpenRace.ThreadTrace
