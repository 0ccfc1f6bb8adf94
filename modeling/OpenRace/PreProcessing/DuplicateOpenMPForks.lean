import OpenRace.IR.Builder
import Mathlib.Data.List.Forall2
import Mathlib.Order.Lattice

/-! The pass that puts a duplicate before every OpenMP fork call. -/

namespace OpenRace

open LLVM LanguageModel

def LLVM.Value.bound : Value → ℕ
  | .function f => f.id + 1
  | .globalVariable id _ => id + 1
  | .alloca id => id + 1
  | .load id pointer => max (id + 1) pointer.bound
  | .phi id incoming => max (id + 1) incoming.bound
  | .call id => id + 1
  | .taskAlloc id entry => max (id + 1) entry.bound
  | .bitcast value => value.bound
  | .globalAlias value => value.bound
  | .undef | .constantInt _ => 0
  | .other id => id + 1

def LLVM.Instruction.bound : Instruction → ℕ
  | .alloca id => id + 1
  | .load id pointer _ _ => max (id + 1) pointer.bound
  | .store id pointer _ _ => max (id + 1) pointer.bound
  | .call inst => max (inst.id + 1) ((inst.args.map Value.bound).foldr max inst.calledOperand.bound)
  | .other id => id + 1

abbrev LLVM.IRModule := List (List BasicBlock)

def LLVM.IRModule.bound (module : IRModule) : ℕ :=
  (module.flatten.flatten.map Instruction.bound).foldr max 0

inductive DuplicateError
  /-- The fork is the first instruction of its block, and there is nothing to insert its handle before. -/
  | nullPrevNode
  | noHandle
deriving DecidableEq

def isForkCall (call : CallBase) : Bool :=
  match call.getCalledFunction with
  | none => false
  | some f => f.hasName && (OpenMPModel.isFork f.name || OpenMPModel.isForkTeams f.name)

def replaceForkLocArg (ompFork : CallBase) (handle : ℕ) : CallBase :=
  { ompFork with args := ompFork.args.set 0 (.alloca handle) }

def duplicateForkCall (ompFork : CallBase) (handle id : ℕ) : CallBase :=
  { ompFork with id, args := ompFork.args.set 0 (.alloca handle) }

/-- The loop over a block. The instructions before the iterator are the nearest first; the new handle of a fork
is inserted before the instruction that precedes the fork, its duplicate directly before the fork. -/
def duplicateForksIn : List Instruction → BasicBlock → ℕ → Except DuplicateError (BasicBlock × ℕ)
  | visited, [], next => .ok (visited.reverse, next)
  | visited, .call ompFork :: rest, next =>
    if isForkCall ompFork then
      match visited with
      | [] => .error .nullPrevNode
      | prev :: before =>
        if ompFork.args.isEmpty then .error .noHandle
        else
          let fork := replaceForkLocArg ompFork next
          let twin := duplicateForkCall fork (next + 1) (next + 2)
          duplicateForksIn (.call fork :: .call twin :: .alloca (next + 1) :: prev :: .alloca next :: before) rest
            (next + 3)
    else duplicateForksIn (.call ompFork :: visited) rest next
  | visited, inst :: rest, next => duplicateForksIn (inst :: visited) rest next

def forEach {α β : Type} (body : α → ℕ → Except DuplicateError (β × ℕ)) :
    List α → ℕ → Except DuplicateError (List β × ℕ)
  | [], next => .ok ([], next)
  | a :: rest, next => do
    let (b, next) ← body a next
    let (bs, next) ← forEach body rest next
    return (b :: bs, next)

def duplicateOpenMPForks (module : IRModule) : Except DuplicateError IRModule := do
  let (module', _) ← forEach (forEach (duplicateForksIn [])) module (IRModule.bound module)
  return module'

section ForEach

variable {α β : Type} {body : α → ℕ → Except DuplicateError (β × ℕ)}

lemma forEach_cons {a : α} {as : List α} {next middle last : ℕ} {b : β} {bs : List β}
    (h : body a next = .ok (b, middle)) (hrest : forEach body as middle = .ok (bs, last)) :
    forEach body (a :: as) next = .ok (b :: bs, last) := by
  rw [forEach, h]
  change (forEach body as middle >>= _) = _
  rw [hrest]
  rfl

lemma forEach_cons_inv {a : α} {as : List α} {next last : ℕ} {bs : List β}
    (h : forEach body (a :: as) next = .ok (bs, last)) : ∃ b middle bs', body a next = .ok (b, middle) ∧
      forEach body as middle = .ok (bs', last) ∧ bs = b :: bs' := by
  rw [forEach] at h
  cases hbody : body a next with
  | error e =>
    rw [hbody] at h
    cases h
  | ok result =>
    obtain ⟨b, middle⟩ := result
    rw [hbody] at h
    change (forEach body as middle >>= _) = _ at h
    cases hrest : forEach body as middle with
    | error e =>
      rw [hrest] at h
      cases h
    | ok result =>
      obtain ⟨bs', last'⟩ := result
      rw [hrest] at h
      cases h
      exact ⟨b, middle, bs', rfl, hrest, rfl⟩

lemma forEach_of_ok {as : List α} {bs : List β} {next last : ℕ} (h : forEach body as next = .ok (bs, last)) :
    List.Forall₂ (fun a b => ∃ n m, body a n = .ok (b, m)) as bs := by
  induction as generalizing next bs with
  | nil =>
    cases h
    exact .nil
  | cons a rest ih =>
    obtain ⟨b, middle, bs', hbody, hrest, rfl⟩ := forEach_cons_inv h
    exact .cons ⟨next, middle, hbody⟩ (ih hrest)

lemma forEach_ok {R : α → β → ℕ → ℕ → Prop} {Q : List β → ℕ → ℕ → Prop} {start : ℕ} (hnil : ∀ n, Q [] n n)
    (hcons : ∀ a b bs n m k, R a b n m → Q bs m k → Q (b :: bs) n k) {as : List α}
    (h : ∀ a ∈ as, ∀ n, start ≤ n → ∃ b m, body a n = .ok (b, m) ∧ n ≤ m ∧ R a b n m) {next : ℕ}
    (hn : start ≤ next) : ∃ bs last, forEach body as next = .ok (bs, last) ∧ next ≤ last ∧ Q bs next last ∧
      List.Forall₂ (fun a b => ∃ n m, start ≤ n ∧ R a b n m) as bs := by
  induction as generalizing next with
  | nil => exact ⟨[], next, rfl, le_rfl, hnil next, .nil⟩
  | cons a rest ih =>
    obtain ⟨b, middle, hbody, hle, hr⟩ := h a List.mem_cons_self next hn
    obtain ⟨bs, last, hrest, hle', hq, hall⟩ := ih (fun a hm => h a (List.mem_cons_of_mem _ hm)) (hn.trans hle)
    exact ⟨b :: bs, last, forEach_cons hbody hrest, hle.trans hle', hcons a b bs next middle last hr hq,
      .cons ⟨next, middle, hn, hr⟩ hall⟩

end ForEach

end OpenRace
