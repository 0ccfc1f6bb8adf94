import Mathlib.Data.List.Basic

/-! Traces of calls that are entered and left, and the stack that a replay of a trace builds. -/

namespace OpenRace.Library

inductive StackAction (C : Type)
  | enter (call : C)
  | leave (call : C)
  | keep
deriving DecidableEq

def StackAction.map {C D : Type} (f : C → D) : StackAction C → StackAction D
  | .enter call => .enter (f call)
  | .leave call => .leave (f call)
  | .keep => .keep

variable {α C D : Type} {action : α → StackAction C}

/-- Every call that is entered is left again, and no other one. -/
inductive Balanced (action : α → StackAction C) : List α → Prop
  | nil : Balanced action []
  | keep {a : α} (h : action a = .keep) : Balanced action [a]
  | call {a b : α} {c : C} {body : List α} (ha : action a = .enter c) (hbody : Balanced action body)
      (hb : action b = .leave c) : Balanced action (a :: (body ++ [b]))
  | append {xs ys : List α} (hxs : Balanced action xs) (hys : Balanced action ys) : Balanced action (xs ++ ys)

inductive Unclosed (action : α → StackAction C) : List α → List C → Prop
  | balanced {xs : List α} (h : Balanced action xs) : Unclosed action xs []
  | enter {xs ys : List α} {a : α} {c : C} {calls : List C} (hxs : Unclosed action xs calls)
      (ha : action a = .enter c) (hys : Balanced action ys) : Unclosed action (xs ++ a :: ys) (calls ++ [c])

/-- There is no stack once an empty one is popped. -/
def replay (action : α → StackAction C) : List C → List α → Option (List C)
  | stack, [] => some stack
  | stack, a :: rest =>
    match action a with
    | .enter c => replay action (stack ++ [c]) rest
    | .leave _ => if stack = [] then none else replay action stack.dropLast rest
    | .keep => replay action stack rest

section Replay

variable {xs ys : List α} {stack calls : List C} {a : α} {c : C}

lemma replay_cons_enter (ha : action a = .enter c) :
    replay action stack (a :: xs) = replay action (stack ++ [c]) xs := by
  rw [replay, ha]

lemma replay_cons_keep (ha : action a = .keep) : replay action stack (a :: xs) = replay action stack xs := by
  rw [replay, ha]

lemma replay_cons_leave (ha : action a = .leave c) (hstack : stack ≠ []) :
    replay action stack (a :: xs) = replay action stack.dropLast xs := by
  rw [replay, ha]
  exact if_neg hstack

lemma replay_nil_leave (ha : action a = .leave c) : replay action [] (a :: xs) = none := by
  rw [replay, ha]
  rfl

lemma replay_append (stack : List C) (xs ys : List α) :
    replay action stack (xs ++ ys) = (replay action stack xs).bind (replay action · ys) := by
  induction xs generalizing stack with
  | nil => rfl
  | cons a xs ih =>
    rw [List.cons_append, replay, replay]
    cases action a with
    | enter c => exact ih _
    | leave c =>
      by_cases hstack : stack = []
      · simp [hstack]
      · simp only [if_neg hstack]
        exact ih _
    | keep => exact ih _

lemma Balanced.of_keep (h : ∀ a ∈ xs, action a = .keep) : Balanced action xs := by
  induction xs with
  | nil => exact .nil
  | cons a xs ih =>
    exact .append (.keep (h a List.mem_cons_self)) (ih fun b hb => h b (List.mem_cons_of_mem _ hb))

lemma Balanced.replay (h : Balanced action xs) (stack : List C) : replay action stack xs = some stack := by
  induction h generalizing stack with
  | nil => rfl
  | keep ha => exact replay_cons_keep ha
  | call ha _ hb ih =>
    rw [replay_cons_enter ha, replay_append, ih, Option.bind_some, replay_cons_leave hb (by simp),
      List.dropLast_concat]
    rfl
  | append _ _ ihxs ihys => rw [replay_append, ihxs, Option.bind_some, ihys]

lemma Unclosed.replay (h : Unclosed action xs calls) (stack : List C) :
    replay action stack xs = some (stack ++ calls) := by
  induction h generalizing stack with
  | balanced h => rw [h.replay, List.append_nil]
  | enter _ ha hys ih =>
    rw [replay_append, ih, Option.bind_some, replay_cons_enter ha, hys.replay, List.append_assoc]

lemma Unclosed.append {calls' : List C} (h : Unclosed action xs calls) (h' : Unclosed action ys calls') :
    Unclosed action (xs ++ ys) (calls ++ calls') := by
  induction h' with
  | balanced hys =>
    rw [List.append_nil]
    cases h with
    | balanced hxs => exact .balanced (.append hxs hys)
    | enter hxs ha hbody =>
      rw [List.append_assoc, List.cons_append]
      exact .enter hxs ha (.append hbody hys)
  | enter _ ha hys ih =>
    rw [← List.append_assoc, ← List.append_assoc]
    exact .enter ih ha hys

/-- By induction on how the whole is balanced: a front part ends in one of its parts. -/
lemma Balanced.front (h : Balanced action (xs ++ ys)) : ∃ calls, Unclosed action xs calls := by
  generalize hwhole : xs ++ ys = whole at h
  induction h generalizing xs ys with
  | nil =>
    obtain ⟨rfl, -⟩ := List.append_eq_nil_iff.mp hwhole
    exact ⟨[], .balanced .nil⟩
  | keep ha =>
    rcases List.append_eq_singleton_iff.mp hwhole with ⟨rfl, -⟩ | ⟨rfl, -⟩
    · exact ⟨[], .balanced .nil⟩
    · exact ⟨[], .balanced (.keep ha)⟩
  | @call a b c body ha hbody hb ih =>
    cases xs with
    | nil => exact ⟨[], .balanced .nil⟩
    | cons x xs =>
      obtain ⟨rfl, hrest⟩ := List.cons.inj hwhole
      rcases List.append_eq_append_iff.mp hrest with ⟨more, hmore, hlast⟩ | ⟨more, hmore, hlast⟩
      · obtain ⟨calls, hcalls⟩ := ih hmore.symm
        have hfront := (Unclosed.enter (.balanced .nil) ha .nil).append hcalls
        exact ⟨_, hfront⟩
      · rcases List.append_eq_singleton_iff.mp hlast.symm with ⟨rfl, -⟩ | ⟨rfl, -⟩
        · have hfront := Unclosed.enter (.balanced .nil) ha hbody
          rw [hmore, List.append_nil]
          exact ⟨_, hfront⟩
        · rw [hmore]
          exact ⟨[], .balanced (.call ha hbody hb)⟩
  | append hxs _ ihxs ihys =>
    rcases List.append_eq_append_iff.mp hwhole with ⟨more, hmore, -⟩ | ⟨more, hmore, hlast⟩
    · exact ihxs hmore.symm
    · obtain ⟨calls, hcalls⟩ := ihys hlast.symm
      exact ⟨calls, hmore ▸ (Unclosed.balanced hxs).append hcalls⟩

lemma Balanced.leaves_own (h : Balanced action (xs ++ a :: ys)) (ha : action a = .leave c) :
    ∃ calls last, Unclosed action xs (calls ++ [last]) := by
  obtain ⟨calls, hcalls⟩ := h.front
  rw [← List.singleton_append, ← List.append_assoc] at h
  obtain ⟨calls', hcalls'⟩ := h.front
  cases hlast : calls.getLast? with
  | none =>
    rw [List.getLast?_eq_none_iff] at hlast
    subst hlast
    have hreplay := hcalls'.replay []
    rw [replay_append, hcalls.replay, Option.bind_some, List.append_nil, replay_nil_leave ha] at hreplay
    cases hreplay
  | some last =>
    obtain ⟨front, rfl⟩ := List.getLast?_eq_some_iff.mp hlast
    exact ⟨front, last, hcalls⟩

lemma Balanced.map (f : C → D) (h : Balanced action xs) : Balanced (fun a => (action a).map f) xs := by
  induction h with
  | nil => exact .nil
  | keep ha => exact .keep (by rw [ha, StackAction.map])
  | call ha _ hb ih => exact .call (by rw [ha, StackAction.map]) ih (by rw [hb, StackAction.map])
  | append _ _ ihxs ihys => exact .append ihxs ihys

lemma Unclosed.map (f : C → D) (h : Unclosed action xs calls) :
    Unclosed (fun a => (action a).map f) xs (calls.map f) := by
  induction h with
  | balanced h => exact .balanced (h.map f)
  | enter _ ha hys ih =>
    rw [List.map_append, List.map_singleton]
    exact .enter ih (by rw [ha, StackAction.map]) (hys.map f)

end Replay

end OpenRace.Library
