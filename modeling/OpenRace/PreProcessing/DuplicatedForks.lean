import OpenRace.PreProcessing.ForkPairs
import Mathlib.Data.List.Nodup

/-! The duplicates stand where they are looked for if no fork begins its block or follows another fork. -/

namespace OpenRace

open LLVM LanguageModel

def isForkInst : Instruction → Bool
  | .call call => isForkCall call
  | _ => false

/-- What the loop makes of an instruction it has just passed and of the rest of the block. -/
inductive ForkEmission : Instruction → BasicBlock → ℕ → BasicBlock → ℕ → Prop
  | done {prev next} : ForkEmission prev [] next [prev] next
  | fork {prev fork rest next out last} (hf : isForkCall fork = true) (ha : fork.args ≠ [])
      (hr : ForkEmission (.call (replaceForkLocArg fork next)) rest (next + 3) out last) :
      ForkEmission prev (.call fork :: rest) next (.alloca next :: prev :: .alloca (next + 1) ::
        .call (duplicateForkCall (replaceForkLocArg fork next) (next + 1) (next + 2)) :: out) last
  | plain {prev inst rest next out last} (h : isForkInst inst = false) (hr : ForkEmission inst rest next out last) :
      ForkEmission prev (inst :: rest) next (prev :: out) last

lemma duplicateForksIn_plain {visited rest : BasicBlock} {inst : Instruction} {next : ℕ}
    (h : isForkInst inst = false) :
    duplicateForksIn visited (inst :: rest) next = duplicateForksIn (inst :: visited) rest next := by
  cases inst with
  | call call =>
    rw [isForkInst] at h
    simp [duplicateForksIn, h]
  | _ => rfl

lemma forkEmission_of_ok {prev : Instruction} {visited rest block : BasicBlock} {next last : ℕ}
    (h : duplicateForksIn (prev :: visited) rest next = .ok (block, last)) :
    ∃ out, block = visited.reverse ++ out ∧ ForkEmission prev rest next out last := by
  induction rest generalizing prev visited next with
  | nil =>
    cases h
    exact ⟨[prev], by simp, .done⟩
  | cons inst rest ih =>
    by_cases hplain : isForkInst inst = false
    · rw [duplicateForksIn_plain hplain] at h
      obtain ⟨out, rfl, hout⟩ := ih h
      exact ⟨prev :: out, by simp, .plain hplain hout⟩
    · cases inst with
      | call fork =>
        have hf : isForkCall fork = true := by simpa [isForkInst] using hplain
        rw [duplicateForksIn, if_pos hf] at h
        dsimp only at h
        by_cases ha : fork.args.isEmpty = true
        · rw [if_pos ha] at h
          cases h
        · rw [if_neg ha] at h
          obtain ⟨out, rfl, hout⟩ := ih h
          exact ⟨_, by simp, .fork hf (by simpa using ha) hout⟩
      | _ => exact absurd rfl hplain

lemma ForkEmission.ok {prev : Instruction} {rest out : BasicBlock} {next last : ℕ}
    (h : ForkEmission prev rest next out last) (visited : BasicBlock) :
    duplicateForksIn (prev :: visited) rest next = .ok (visited.reverse ++ out, last) := by
  induction h generalizing visited with
  | done => simp [duplicateForksIn]
  | fork hf ha _ ih =>
    rw [duplicateForksIn, if_pos hf]
    dsimp only
    rw [if_neg (by simpa using ha), ih]
    simp
  | plain hplain _ ih =>
    rw [duplicateForksIn_plain hplain, ih]
    simp

lemma regionOf_fork (fork : CallBase) (handle : ℕ) :
    regionOf (.call (replaceForkLocArg fork handle)) = regionOf (.call fork) := regionOf_call_congr rfl

lemma regionOf_twin (fork : CallBase) (handle id : ℕ) :
    regionOf (.call (duplicateForkCall fork handle id)) = regionOf (.call fork) := regionOf_call_congr rfl

lemma ForksApart.congr {prev prev' : Instruction} {block : BasicBlock} (h : ForksApart (some prev) block)
    (hr : regionOf prev' = regionOf prev) : ForksApart (some prev') block := by
  cases block with
  | nil => trivial
  | cons inst rest =>
    refine ⟨fun call hcall => ⟨fun hfork => ?_, (h.1 call hcall).2⟩, h.2⟩
    obtain ⟨hargs, before, hbefore, hregion⟩ := (h.1 call hcall).1 hfork
    cases hbefore
    exact ⟨hargs, prev', rfl, hr.trans hregion⟩

lemma forkCalls_cons_none {inst : Instruction} {block : BasicBlock} (h : regionOf inst = none) :
    forkCalls (inst :: block) = forkCalls block := by
  cases inst with
  | call call => simp [forkCalls, h]
  | _ => rfl

lemma forkCalls_cons_some {call : CallBase} {block : BasicBlock} {region : RegionKind}
    (h : regionOf (.call call) = some region) : forkCalls (.call call :: block) = (region, call) ::
    forkCalls block := by
  simp [forkCalls, h]

lemma forkHandles_cons_none {inst : Instruction} {block : BasicBlock} (h : regionOf inst = none) :
    forkHandles (inst :: block) = forkHandles block := by
  rw [forkHandles, forkCalls_cons_none h, forkHandles]

def HandlesWithin (handles : List Value) (next last : ℕ) : Prop :=
  ∃ ids : List ℕ, handles = ids.map .alloca ∧ ids.Nodup ∧ ∀ id ∈ ids, next ≤ id ∧ id < last

lemma HandlesWithin.nil (next : ℕ) : HandlesWithin
    [] next next := ⟨[], rfl, .nil, fun _ h => absurd h List.not_mem_nil⟩

lemma HandlesWithin.append {handles handles' : List Value} {next middle last : ℕ}
    (h : HandlesWithin handles next middle) (h' : HandlesWithin handles' middle last) (hle : next ≤ middle)
    (hle' : middle ≤ last) : HandlesWithin (handles ++ handles') next last := by
  obtain ⟨ids, rfl, hnodup, hids⟩ := h
  obtain ⟨ids', rfl, hnodup', hids'⟩ := h'
  refine ⟨ids ++ ids', by simp, List.nodup_append.mpr ⟨hnodup, hnodup', ?_⟩, ?_⟩
  · intro id hm id' hm' heq
    have hlt := (hids id hm).2
    have hge := (hids' id' hm').1
    omega
  · intro id hm
    cases List.mem_append.mp hm with
    | inl hm => exact ⟨(hids id hm).1, (hids id hm).2.trans_le hle'⟩
    | inr hm => exact ⟨hle.trans (hids' id hm).1, (hids' id hm).2⟩

lemma HandlesWithin.mono {handles : List Value} {next next' last : ℕ} (h : HandlesWithin handles next' last)
    (hle : next ≤ next') : HandlesWithin handles next last := by
  obtain ⟨ids, heq, hnodup, hids⟩ := h
  exact ⟨ids, heq, hnodup, fun id hm => ⟨hle.trans (hids id hm).1, (hids id hm).2⟩⟩

/-- What is emitted for a block whose forks are apart: nothing comes between a fork and what follows it. -/
structure EmitsPairs (bound : ℕ) (prev : Instruction) (rest : BasicBlock) (next : ℕ) (out : BasicBlock) (last : ℕ)
    (pre tail : BasicBlock) (pairs : List ForkPair) : Prop where
  emits : ForkEmission prev rest next out last
  le : next ≤ last
  out_eq : out = pre ++ prev :: tail
  pre_other : ∀ inst ∈ pre, regionOf inst = none
  pre_nil : regionOf prev ≠ none → pre = []
  paired : PairedForks tail pairs
  original : List.Forall₂ (ForkPair.IsOf bound) (forkCalls rest) pairs
  handles : HandlesWithin (forkHandles tail) next last

lemma PairedForks.prepend {pre block : BasicBlock} {pairs : List ForkPair} (h : PairedForks block pairs)
    (hpre : ∀ inst ∈ pre, regionOf inst = none) : PairedForks (pre ++ block) pairs := by
  induction pre with
  | nil => exact h
  | cons inst rest ih =>
    exact .other (hpre inst List.mem_cons_self) (ih fun inst hm => hpre inst (List.mem_cons_of_mem _ hm))

lemma forkHandles_prepend {pre block : BasicBlock} (hpre : ∀ inst ∈ pre, regionOf inst = none) :
    forkHandles (pre ++ block) = forkHandles block := by
  induction pre with
  | nil => rfl
  | cons inst rest ih =>
    rw [List.cons_append, forkHandles_cons_none (hpre inst List.mem_cons_self)]
    exact ih fun inst hm => hpre inst (List.mem_cons_of_mem _ hm)

lemma handlesWithin_pair (next : ℕ) : HandlesWithin [.alloca (next + 1), .alloca next] next (next + 3) := by
  refine ⟨[next + 1, next], rfl, by simp, ?_⟩
  intro id hm
  simp only [List.mem_cons, List.not_mem_nil, or_false] at hm
  omega

lemma emitsPairs_fork {bound : ℕ} {prev : Instruction} {fork : CallBase} {rest out pre tail : BasicBlock}
    {next last : ℕ} {pairs : List ForkPair} (hf : isForkCall fork = true) (hargs : fork.args ≠ [])
    (hprev : regionOf prev = none) (hdirect : regionOf (.call fork) ≠ none → fork.getCalledFunction ≠ none)
    (hn : bound ≤ next)
    (he : EmitsPairs bound (.call (replaceForkLocArg fork next)) rest (next + 3) out last pre tail pairs) :
    ∃ pairs, EmitsPairs bound prev (.call fork :: rest) next (.alloca next :: prev :: .alloca (next + 1) ::
      .call (duplicateForkCall (replaceForkLocArg fork next) (next + 1) (next + 2)) :: out) last [.alloca next]
      (.alloca (next + 1) :: .call (duplicateForkCall (replaceForkLocArg fork next) (next + 1) (next + 2)) :: out)
      pairs := by
  have hle := he.le
  have halloca : ∀ id, regionOf (.alloca id) = none := fun _ => rfl
  have hout := he.out_eq
  have htwin := regionOf_twin (replaceForkLocArg fork next) (next + 1) (next + 2)
  have hfork := regionOf_fork fork next
  cases hregion : regionOf (.call fork) with
  | none =>
    rw [hregion] at hfork
    rw [hfork] at htwin
    refine ⟨pairs, .fork hf hargs he.emits, by omega, rfl, by simp [halloca], fun hne => absurd hprev hne, ?_, ?_, ?_⟩
    · rw [hout]
      exact .other (halloca _) (.other htwin ((PairedForks.other hfork he.paired).prepend he.pre_other))
    · rw [forkCalls_cons_none hregion]
      exact he.original
    · rw [hout, forkHandles_cons_none (halloca _), forkHandles_cons_none htwin, forkHandles_prepend he.pre_other,
        forkHandles_cons_none hfork]
      exact he.handles.mono (by omega)
  | some region =>
    rw [hregion] at hfork
    rw [hfork] at htwin
    obtain rfl := he.pre_nil (by rw [hfork]; simp)
    rw [List.nil_append] at hout
    obtain ⟨handle, args, hcons⟩ := List.exists_cons_of_ne_nil hargs
    let pair : ForkPair := ⟨region, duplicateForkCall (replaceForkLocArg fork next) (next + 1) (next + 2),
      replaceForkLocArg fork next⟩
    have hd : pair.fork.getCalledFunction.isSome :=
      Option.isSome_iff_ne_none.mpr (hdirect (by rw [hregion]; simp))
    refine ⟨pair :: pairs, .fork hf hargs he.emits, by omega, rfl, by simp [halloca],
      fun hne => absurd hprev hne, ?_, ?_, ?_⟩
    · rw [hout]
      have hpaired : PairedForks (.call pair.twin :: .call pair.fork :: tail) (pair :: pairs) :=
        .pair htwin hfork hd he.paired
      exact .other (halloca _) hpaired
    · rw [forkCalls_cons_some hregion]
      refine .cons ⟨rfl, next, next + 1, next + 2, hn, by omega, by omega, ?_, ?_⟩ he.original
      · simp [pair, replaceForkLocArg, hcons]
      · simp [pair, duplicateForkCall, replaceForkLocArg, hcons]
    · have hhandles : forkHandles (.alloca (next + 1) :: .call pair.twin :: .call pair.fork :: tail) =
          [.alloca (next + 1), .alloca next] ++ forkHandles tail := by
        rw [forkHandles_cons_none (halloca _), forkHandles, forkCalls_cons_some htwin, forkCalls_cons_some hfork]
        simp [forkHandles, duplicateForkCall, replaceForkLocArg, hcons]
      rw [hout, hhandles]
      exact (handlesWithin_pair next).append he.handles (by omega) hle

lemma exists_emitsPairs {bound : ℕ} {prev : Instruction} {rest : BasicBlock} {next : ℕ}
    (h : ForksApart (some prev) rest) (hn : bound ≤ next) :
    ∃ out last pre tail pairs, EmitsPairs bound prev rest next out last pre tail pairs := by
  induction rest generalizing prev next with
  | nil => exact ⟨[prev], next, [], [], [], .done, le_rfl, rfl, by simp, fun _ => rfl, .nil, .nil, .nil next⟩
  | cons inst rest ih =>
    obtain ⟨hinst, hrest⟩ := h
    by_cases hplain : isForkInst inst = false
    · have hregion : regionOf inst = none := by
        cases inst with
        | call call =>
          by_contra hne
          obtain ⟨region, hregion⟩ := Option.ne_none_iff_exists'.mp hne
          have hfork := isForkCall_of_region hregion ((hinst call rfl).2 hne)
          rw [isForkInst, hfork] at hplain
          cases hplain
        | _ => rfl
      obtain ⟨out, last, pre, tail, pairs, he⟩ := ih hrest hn
      refine ⟨prev :: out, last, [], out, pairs, .plain hplain he.emits, he.le, rfl, by simp, fun _ => rfl, ?_, ?_, ?_⟩
      · rw [he.out_eq]
        exact (PairedForks.other hregion he.paired).prepend he.pre_other
      · rw [forkCalls_cons_none hregion]
        exact he.original
      · rw [he.out_eq, forkHandles_prepend he.pre_other, forkHandles_cons_none hregion]
        exact he.handles
    · cases inst with
      | call fork =>
        have hf : isForkCall fork = true := by simpa [isForkInst] using hplain
        obtain ⟨hargs, before, hbefore, hprev⟩ := (hinst fork rfl).1 hf
        cases hbefore
        have hrec : ∃ out last pre tail pairs, EmitsPairs bound (.call (replaceForkLocArg fork next)) rest (next + 3)
            out last pre tail pairs := ih (hrest.congr (regionOf_fork fork next)) (by omega)
        obtain ⟨out, last, pre, tail, pairs, he⟩ := hrec
        obtain ⟨pairs, he⟩ := emitsPairs_fork hf hargs hprev (hinst fork rfl).2 hn he
        exact ⟨_, _, _, _, pairs, he⟩
      | _ => exact absurd rfl hplain

section Pairing

variable {bound : ℕ} {prev : Instruction} {rest out pre tail block block' : BasicBlock} {next last : ℕ}
  {pairs : List ForkPair} {call : CallBase}

lemma ForkEmission.shape (h : ForkEmission prev rest next out last) :
    ∃ pre tail, out = pre ++ prev :: tail ∧ ∀ inst ∈ pre, ∃ id, inst = .alloca id := by
  cases h with
  | done => exact ⟨[], [], rfl, by simp⟩
  | fork => exact ⟨[.alloca next], _, rfl, by simp⟩
  | plain => exact ⟨[], _, rfl, by simp⟩

lemma PairedForks.not_original (h : PairedForks (pre ++ .call call :: tail) pairs)
    (hpre : ∀ inst ∈ pre, ∃ id, inst = .alloca id) (hpairs : ∀ pair ∈ pairs, bound ≤ pair.twin.id)
    (hid : call.id < bound) : regionOf (.call call) = none := by
  induction pre with
  | nil =>
    cases h with
    | other hnone => exact hnone
    | @pair pair =>
      have hge := hpairs pair List.mem_cons_self
      omega
  | cons inst rest ih =>
    obtain ⟨id, rfl⟩ := hpre inst List.mem_cons_self
    cases h with
    | other _ hrest => exact ih hrest fun inst hm => hpre inst (List.mem_cons_of_mem _ hm)

lemma getCalledFunction_of_isForkCall (h : isForkCall call = true) : call.getCalledFunction ≠ none := by
  intro hnone
  rw [isForkCall, hnone] at h
  cases h

lemma PairedForks.before_alloca {id : ℕ} (h : PairedForks (prev :: .alloca id :: block) pairs) :
    regionOf prev = none ∧ PairedForks block pairs := by
  cases h with
  | other hnone hrest =>
    cases hrest with
    | other _ hrest => exact ⟨hnone, hrest⟩

lemma PairedForks.after_original (h : PairedForks (prev :: block) pairs)
    (hpairs : ∀ pair ∈ pairs, bound ≤ pair.twin.id) (hid : prev.id < bound) : PairedForks block pairs := by
  cases h with
  | other _ hrest => exact hrest
  | @pair pair =>
    have hge := hpairs pair List.mem_cons_self
    change pair.twin.id < bound at hid
    omega

lemma ForkEmission.apart (h : ForkEmission prev rest next out last) (hprev : prev.id < bound)
    (hids : ∀ inst ∈ rest, inst.id < bound)
    (hp : PairedForks out pairs ∨ ∃ tail, out = prev :: tail ∧ PairedForks tail pairs)
    (hpairs : ∀ pair ∈ pairs, bound ≤ pair.twin.id) : ForksApart (some prev) rest := by
  induction h generalizing pairs with
  | done => trivial
  | @fork prev fork rest next out last hf ha hr ih =>
    have hout : PairedForks (prev :: .alloca (next + 1) ::
        .call (duplicateForkCall (replaceForkLocArg fork next) (next + 1) (next + 2)) :: out) pairs := by
      rcases hp with h | ⟨tail, heq, h⟩
      · cases h with
        | other _ hrest => exact hrest
      · obtain ⟨-, rfl⟩ := List.cons.inj heq
        exact h
    obtain ⟨hnone, htwin⟩ := hout.before_alloca
    have hid : fork.id < bound := hids (.call fork) List.mem_cons_self
    have hids' : ∀ inst ∈ rest, inst.id < bound := fun inst hm => hids inst (List.mem_cons_of_mem _ hm)
    refine ⟨?_, ForksApart.congr ?_ (regionOf_fork fork next).symm⟩
    · rintro _ ⟨rfl⟩
      exact ⟨fun _ => ⟨ha, prev, rfl, hnone⟩, fun _ => getCalledFunction_of_isForkCall hf⟩
    · generalize duplicateForkCall (replaceForkLocArg fork next) (next + 1) (next + 2) = twin at htwin
      cases htwin with
      | other _ hrest => exact ih hid hids' (Or.inl hrest) hpairs
      | @pair pair block pairs _ _ _ hrest =>
        obtain ⟨pre, tail, heq, hpre⟩ := hr.shape
        cases pre with
        | nil =>
          obtain ⟨hfork, rfl⟩ := List.cons.inj heq
          exact ih hid hids' (Or.inr ⟨_, by rw [hfork], hrest⟩) fun pair hm => hpairs pair (List.mem_cons_of_mem _ hm)
        | cons inst pre =>
          obtain ⟨id, rfl⟩ := hpre inst List.mem_cons_self
          cases (List.cons.inj heq).1
  | @plain prev inst rest next out last hplain hr ih =>
    have hout : PairedForks out pairs := by
      rcases hp with h | ⟨tail, heq, h⟩
      · exact h.after_original hpairs hprev
      · obtain ⟨-, rfl⟩ := List.cons.inj heq
        exact h
    have hid := hids inst List.mem_cons_self
    refine ⟨?_, ih hid (fun inst hm => hids inst (List.mem_cons_of_mem _ hm)) (Or.inl hout) hpairs⟩
    rintro call rfl
    obtain ⟨pre, tail, rfl, hpre⟩ := hr.shape
    refine ⟨fun hfork => ?_, fun hne => absurd (hout.not_original hpre hpairs hid) hne⟩
    rw [isForkInst, hfork] at hplain
    cases hplain

lemma forksApart_of_paired (h : duplicateForksIn [] block next = .ok (block', last))
    (hids : ∀ inst ∈ block, inst.id < bound) (hp : PairedForks block' pairs)
    (hpairs : ∀ pair ∈ pairs, bound ≤ pair.twin.id) : ForksApart none block := by
  cases block with
  | nil => trivial
  | cons inst rest =>
    have hid := hids inst List.mem_cons_self
    by_cases hplain : isForkInst inst = false
    · rw [duplicateForksIn_plain hplain] at h
      obtain ⟨out, rfl, hout⟩ := forkEmission_of_ok h
      refine ⟨?_, hout.apart hid (fun inst hm => hids inst (List.mem_cons_of_mem _ hm)) (Or.inl hp) hpairs⟩
      rintro call rfl
      obtain ⟨pre, tail, rfl, hpre⟩ := hout.shape
      refine ⟨fun hfork => ?_, fun hne => absurd (hp.not_original hpre hpairs hid) hne⟩
      rw [isForkInst, hfork] at hplain
      cases hplain
    · cases inst with
      | call fork =>
        have hf : isForkCall fork = true := by simpa [isForkInst] using hplain
        rw [duplicateForksIn, if_pos hf] at h
        cases h
      | _ => exact absurd rfl hplain

end Pairing

def BlockDuplicated (bound : ℕ) (block block' : BasicBlock) (pairs : List ForkPair) : Prop :=
  PairedForks block' pairs ∧ List.Forall₂ (ForkPair.IsOf bound) (forkCalls block) pairs

lemma duplicateForksIn_apart {bound next : ℕ} {block : BasicBlock} (h : ForksApart none block) (hn : bound ≤ next) :
    ∃ block' last, duplicateForksIn [] block next = .ok (block', last) ∧ next ≤ last ∧
      HandlesWithin (forkHandles block') next last ∧ ∃ pairs, BlockDuplicated bound block block' pairs := by
  cases block with
  | nil => exact ⟨[], next, rfl, le_rfl, .nil next, [], .nil, .nil⟩
  | cons inst rest =>
    obtain ⟨hinst, hrest⟩ := h
    have hplain : isForkInst inst = false ∧ regionOf inst = none := by
      cases inst with
      | call call =>
        have hfork : isForkCall call = false := by
          by_contra hfork
          obtain ⟨-, before, hbefore, -⟩ := (hinst call rfl).1 (by simpa using hfork)
          cases hbefore
        refine ⟨hfork, ?_⟩
        by_contra hne
        obtain ⟨region, hregion⟩ := Option.ne_none_iff_exists'.mp hne
        rw [isForkCall_of_region hregion ((hinst call rfl).2 hne)] at hfork
        cases hfork
      | _ => exact ⟨rfl, rfl⟩
    obtain ⟨out, last, pre, tail, pairs, he⟩ := exists_emitsPairs hrest hn
    refine ⟨out, last, ?_, he.le, ?_, pairs, ?_, ?_⟩
    · rw [duplicateForksIn_plain hplain.1]
      exact he.emits.ok []
    · rw [he.out_eq, forkHandles_prepend he.pre_other, forkHandles_cons_none hplain.2]
      exact he.handles
    · rw [he.out_eq]
      exact (PairedForks.other hplain.2 he.paired).prepend he.pre_other
    · rw [forkCalls_cons_none hplain.2]
      exact he.original

lemma exists_pairs {bound : ℕ} {blocks blocks' : List BasicBlock}
    (h : List.Forall₂ (fun block block' => ∃ pairs, BlockDuplicated bound block block' pairs) blocks blocks') :
    ∃ pairs, List.Forall₂ PairedForks blocks' pairs ∧
      List.Forall₂ (fun block pairs => List.Forall₂ (ForkPair.IsOf bound) (forkCalls block) pairs) blocks pairs := by
  induction h with
  | nil => exact ⟨[], .nil, .nil⟩
  | cons hblock _ ih =>
    obtain ⟨ps, hpaired, horiginal⟩ := hblock
    obtain ⟨pairs, hpaired', horiginal'⟩ := ih
    exact ⟨ps :: pairs, .cons hpaired hpaired', .cons horiginal horiginal'⟩

lemma functionDuplicated {bound : ℕ} {blocks blocks' : List BasicBlock}
    (h : List.Forall₂ (fun block block' => ∃ pairs, BlockDuplicated bound block block' pairs) blocks blocks') :
    ∃ pairs, FunctionDuplicated bound blocks blocks' pairs := by
  obtain ⟨pairs, hpaired, horiginal⟩ := exists_pairs h
  have hsummary := summary_paired hpaired
  refine ⟨pairs, hpaired, horiginal, ?_, ?_⟩
  · intro summary hs
    rw [hs] at hsummary
    exact hsummary
  · intro error he
    rw [he] at hsummary
    exact hsummary

def Within {β : Type} (handlesOf : β → List Value) (bs : List β) (next last : ℕ) : Prop :=
  next ≤ last ∧ HandlesWithin (bs.flatMap handlesOf) next last

lemma Within.cons {β : Type} {handlesOf : β → List Value} {b : β} {bs : List β} {next middle last : ℕ}
    (hle : next ≤ middle) (hb : HandlesWithin (handlesOf b) next middle) (h : Within handlesOf bs middle last) :
    Within handlesOf (b :: bs) next last := by
  refine ⟨hle.trans h.1, ?_⟩
  rw [List.flatMap_cons]
  exact hb.append h.2 hle h.1

lemma duplicateForks_apart {bound next : ℕ} {blocks : List BasicBlock} (h : ∀ block ∈ blocks, ForksApart none block)
    (hn : bound ≤ next) : ∃ blocks' last, forEach (duplicateForksIn []) blocks next = .ok (blocks', last) ∧
      next ≤ last ∧ HandlesWithin (blocks'.flatMap forkHandles) next last ∧
      ∃ pairs, FunctionDuplicated bound blocks blocks' pairs := by
  have hrun := forEach_ok (R := fun block block' n m => n ≤ m ∧ HandlesWithin (forkHandles block') n m ∧
    ∃ pairs, BlockDuplicated bound block block' pairs) (Q := Within forkHandles) (fun n => ⟨le_rfl, .nil n⟩)
    (fun _ _ _ _ _ _ hr hq => Within.cons hr.1 hr.2.1 hq)
    (fun block hm n hn => by
      obtain ⟨block', last, hrun, hle, hrest⟩ := duplicateForksIn_apart (h block hm) hn
      exact ⟨block', last, hrun, hle, hle, hrest⟩) hn
  obtain ⟨blocks', last, hok, hle, hwithin, hall⟩ := hrun
  refine ⟨blocks', last, hok, hle, hwithin.2, functionDuplicated (hall.imp ?_)⟩
  rintro block block' ⟨n, m, -, -, -, hpairs⟩
  exact hpairs

lemma le_foldr_max {numbers : List ℕ} {init n : ℕ} (h : n ∈ numbers) : n ≤ numbers.foldr max init := by
  induction numbers with
  | nil => exact absurd h List.not_mem_nil
  | cons first rest ih =>
    cases List.mem_cons.mp h with
    | inl heq => exact heq ▸ le_max_left _ _
    | inr hm => exact (ih hm).trans (le_max_right _ _)

lemma id_lt_bound (inst : Instruction) : inst.id < inst.bound := by
  cases inst with
  | alloca id => exact Nat.lt_succ_self id
  | other id => exact Nat.lt_succ_self id
  | load => exact lt_of_lt_of_le (Nat.lt_succ_self _) (le_max_left _ _)
  | store => exact lt_of_lt_of_le (Nat.lt_succ_self _) (le_max_left _ _)
  | call => exact lt_of_lt_of_le (Nat.lt_succ_self _) (le_max_left _ _)

lemma id_lt_moduleBound {module : IRModule} {blocks : List BasicBlock} {block : BasicBlock} {inst : Instruction}
    (hblocks : blocks ∈ module) (hblock : block ∈ blocks) (hm : inst ∈ block) : inst.id < IRModule.bound module := by
  refine (id_lt_bound inst).trans_le (le_foldr_max (List.mem_map_of_mem ?_))
  exact List.mem_flatten.mpr ⟨block, List.mem_flatten.mpr ⟨blocks, hblocks, hblock⟩, hm⟩

theorem duplicated_of_forksApart {module : IRModule}
    (h : ∀ blocks ∈ module, ∀ block ∈ blocks, ForksApart none block) :
    ∃ module', duplicateOpenMPForks module = .ok module' ∧ Duplicated module module' := by
  have hrun := forEach_ok (R := fun blocks blocks' n m => n ≤ m ∧ HandlesWithin (blocks'.flatMap forkHandles) n m ∧
    ∃ pairs, FunctionDuplicated (IRModule.bound module) blocks blocks' pairs)
    (Q := Within fun blocks => blocks.flatMap forkHandles) (fun n => ⟨le_rfl, .nil n⟩)
    (fun _ _ _ _ _ _ hr hq => Within.cons hr.1 hr.2.1 hq) (fun blocks hm n hn => by
      obtain ⟨blocks', last, hrun, hle, hrest⟩ := duplicateForks_apart (h blocks hm) hn
      exact ⟨blocks', last, hrun, hle, hle, hrest⟩) le_rfl
  obtain ⟨module', last, hok, -, ⟨-, ids, hids, hnodup, -⟩, hall⟩ := hrun
  refine ⟨module', ?_, hall.imp ?_, ?_⟩
  · rw [duplicateOpenMPForks, hok]
    rfl
  · rintro blocks blocks' ⟨n, m, -, -, -, hpairs⟩
    exact hpairs
  · rw [hids]
    exact List.Nodup.map (fun _ _ heq => Value.alloca.inj heq) hnodup

lemma twin_bound {bound : ℕ} {forks : List (RegionKind × CallBase)} {pairs : List ForkPair}
    (h : List.Forall₂ (ForkPair.IsOf bound) forks pairs) : ∀ pair ∈ pairs, bound ≤ pair.twin.id := by
  induction h with
  | nil => exact fun _ hm => absurd hm List.not_mem_nil
  | cons hpair _ ih =>
    intro pair hm
    cases List.mem_cons.mp hm with
    | inl heq =>
      obtain ⟨-, handle, handle', id, -, -, hid, -, htwin⟩ := hpair
      rw [heq, htwin]
      exact hid
    | inr hm => exact ih pair hm

lemma blocks_forksApart {bound : ℕ} {blocks blocks' : List BasicBlock} {pairs : List (List ForkPair)}
    (hrun : List.Forall₂ (fun block block' => ∃ n m, duplicateForksIn [] block n = .ok (block', m)) blocks blocks')
    (hpaired : List.Forall₂ PairedForks blocks' pairs)
    (horiginal : List.Forall₂ (fun block pairs => List.Forall₂ (ForkPair.IsOf bound) (forkCalls block) pairs)
      blocks pairs) (hids : ∀ block ∈ blocks, ∀ inst ∈ block, inst.id < bound) :
    ∀ block ∈ blocks, ForksApart none block := by
  induction hrun generalizing pairs with
  | nil => exact fun _ hm => absurd hm List.not_mem_nil
  | cons hblock _ ih =>
    cases hpaired with
    | cons hp hpaired =>
      cases horiginal with
      | cons ho horiginal =>
        obtain ⟨n, m, hok⟩ := hblock
        intro block hm
        cases List.mem_cons.mp hm with
        | inl heq =>
          subst heq
          exact forksApart_of_paired hok (hids block List.mem_cons_self) hp (twin_bound ho)
        | inr hm => exact ih hpaired horiginal (fun block hm => hids block (List.mem_cons_of_mem _ hm)) block hm

theorem forksApart_of_duplicated {module module' : IRModule} (h : duplicateOpenMPForks module = .ok module')
    (hd : Duplicated module module') : ∀ blocks ∈ module, ∀ block ∈ blocks, ForksApart none block := by
  rw [duplicateOpenMPForks] at h
  cases hrun : forEach (forEach (duplicateForksIn [])) module (IRModule.bound module) with
  | error e =>
    rw [hrun] at h
    cases h
  | ok result =>
    obtain ⟨module'', last⟩ := result
    rw [hrun] at h
    obtain rfl : module'' = module' := by
      cases h
      rfl
    have hids : ∀ blocks ∈ module, ∀ block ∈ blocks, ∀ inst ∈ block, inst.id < IRModule.bound module :=
      fun blocks hblocks block hblock inst hm => id_lt_moduleBound hblocks hblock hm
    have hfunctions := hd.functions
    have hruns := forEach_of_ok hrun
    clear hrun h hd
    generalize IRModule.bound module = bound at hids hfunctions
    induction hruns with
    | nil => exact fun _ hm => absurd hm List.not_mem_nil
    | cons hblocks _ ih =>
      cases hfunctions with
      | cons hf hfunctions =>
        obtain ⟨pairs, hf⟩ := hf
        obtain ⟨n, m, hok⟩ := hblocks
        intro blocks hm
        cases List.mem_cons.mp hm with
        | inl heq =>
          subst heq
          exact blocks_forksApart (forEach_of_ok hok) hf.paired hf.original (hids blocks List.mem_cons_self)
        | inr hm => exact ih (fun blocks hm => hids blocks (List.mem_cons_of_mem _ hm)) hfunctions blocks hm

/-- The pass works on a module just where every fork is a direct call that comes after an instruction of its
block, and not directly after another fork. -/
theorem duplicateOpenMPForks_iff (module : IRModule) :
    (∃ module', duplicateOpenMPForks module = .ok module' ∧ Duplicated module module') ↔
      ∀ blocks ∈ module, ∀ block ∈ blocks, ForksApart none block := by
  constructor
  · rintro ⟨module', h, hd⟩
    exact forksApart_of_duplicated h hd
  · exact duplicated_of_forksApart

namespace AdjacentRegions

def forkCall (id handle : ℕ) : CallBase :=
  { id, calledOperand := .function { id := 0, name := "__kmpc_fork_call" }, args := [.globalVariable handle false] }

/-- Two regions one directly after the other. -/
def module : IRModule := [[[.other 1, .call (forkCall 2 3), .call (forkCall 4 5)]]]

theorem first_region_skipped :
    ((duplicateOpenMPForks module).toOption.bind fun module' =>
        (generateFunctionSummary module'.head!).toOption.map fun summary => summary.map fun ir => ir.inst.id) =
        some [11, 4, 11, 4] ∧
      ¬ ∃ module', duplicateOpenMPForks module = .ok module' ∧ Duplicated module module' := by
  refine ⟨by decide +kernel, ?_⟩
  rintro ⟨module', h, hd⟩
  have happly := forksApart_of_duplicated h hd _ List.mem_cons_self _ List.mem_cons_self
  obtain ⟨-, -, hsecond, -⟩ := happly
  obtain ⟨-, before, hbefore, hregion⟩ := (hsecond _ rfl).1 (by decide +kernel)
  cases hbefore
  revert hregion
  decide +kernel

end AdjacentRegions

end OpenRace
