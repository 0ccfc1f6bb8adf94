import OpenRace.Trace.Build.CallNesting

/-! The call stack that is reported for an event. -/

namespace OpenRace

open LLVM Library

variable {Ctx : Type}

def ProgramTrace.eventsOf (program : ProgramTrace Ctx) (tid : ℕ) : List (Event Ctx) :=
  match program.threads.find? (·.id = tid) with
  | some thread => thread.events
  | none => []

/-- `CallSignature` asks the called function for its name: there is no signature of a call without one. -/
def callSignature (call : CallBase) : Option (Option String) :=
  call.getCalledFunction.map fun f => if f.hasName then some f.name else none

/-- The location of a signature is that of its instruction. -/
structure CallSignature where
  inst : Instruction
  call : Option String
deriving DecidableEq

def CallSignature.make (inst : Instruction) : Option CallSignature :=
  match inst with
  | .call call => (callSignature call).map fun name => ⟨inst, name⟩
  | _ => none

/-- No more than an empty call stack is lost. -/
def callstackStep (callstack : List CallSignature) (event : Event Ctx) : Option (List CallSignature) :=
  match event.type with
  | .call => (CallSignature.make event.ir.inst).map fun signature => callstack ++ [signature]
  | .callEnd => if callstack.isEmpty then none else some callstack.dropLast
  | _ => some callstack

/-- The loop over the events of the target's thread ends past the target. -/
def replayUpTo (program : ProgramTrace Ctx) (target : EventPID) (callstack : List CallSignature) :
    Option (List CallSignature) :=
  ((program.eventsOf target.tid).takeWhile (·.id ≤ target.eid)).foldlM callstackStep callstack

/-- The call stack of a spawn site, which comes with those of the threads above it. -/
def computeForkCallstack (program : ProgramTrace Ctx) : List (ForkEvent Ctx) → Option (List CallSignature)
  | [] => some []
  | fork :: spawnSites => do
    let callstack ← replayUpTo program fork.pid (← computeForkCallstack program spawnSites)
    return callstack ++ [← CallSignature.make fork.ir.inst]

/-- There is no call stack where an empty one is popped, or a call has no called function. -/
def computeCallstack (program : ProgramTrace Ctx) (targetEvent : Event Ctx) : Option (List CallSignature) := do
  let inherited ← computeForkCallstack program targetEvent.thread.spawnSites
  let callstack ← replayUpTo program targetEvent.pid inherited
  if targetEvent.type = .fork then return callstack ++ [← CallSignature.make targetEvent.ir.inst]
  else return callstack

def Inherits (program : ProgramTrace Ctx) (thread : ThreadTrace Ctx) (inherited : List CallSignature) : Prop :=
  thread.thread.spawnSite = none ∧ inherited = [] ∨
    ∃ parent ∈ program.threads, ∃ fork ∈ parent.events, fork.type = .fork ∧
      thread.thread.spawnSite = some fork.asFork ∧ computeCallstack program fork = some inherited

def enterReads (program : ProgramTrace Ctx) (target : EventPID) : List Instruction :=
  (((program.eventsOf target.tid).takeWhile (·.id ≤ target.eid)).filter (·.type = .call)).map (·.ir.inst)

/-- The entered calls that `computeCallstack` makes signatures of, those of the outermost thread first. -/
def callstackReads (program : ProgramTrace Ctx) (targetEvent : Event Ctx) : List Instruction :=
  (targetEvent.thread.spawnSites.reverse.flatMap fun fork => enterReads program fork.pid) ++
    enterReads program targetEvent.pid

def forkReads (targetEvent : Event Ctx) : List Instruction :=
  targetEvent.thread.spawnSites.map (·.ir.inst) ++ if targetEvent.type = .fork then [targetEvent.ir.inst] else []

def rawCalledFunction : Instruction → Option Function
  | .call call => call.getCalledFunction
  | _ => none

def HasCalledFunction (inst : Instruction) : Prop := (rawCalledFunction inst).isSome

instance : DecidablePred HasCalledFunction := fun inst => inferInstanceAs (Decidable ((rawCalledFunction inst).isSome))

def CallSignature.named (inst : Instruction) : CallSignature :=
  (CallSignature.make inst).getD ⟨inst, none⟩

section Signatures

variable {program : ProgramTrace Ctx} {events : List (Event Ctx)} {callstack callstack' : List CallSignature}

lemma make_of_called {inst : Instruction} (h : HasCalledFunction inst) :
    CallSignature.make inst = some (CallSignature.named inst) := by
  cases inst with
  | call call =>
    obtain ⟨f, hf⟩ : ∃ f, call.getCalledFunction = some f := Option.isSome_iff_exists.mp h
    rw [CallSignature.named, CallSignature.make, callSignature, hf]
    rfl
  | _ => cases h

lemma called_of_make {inst : Instruction} {signature : CallSignature} (h : CallSignature.make inst = some signature) :
    HasCalledFunction inst := by
  cases inst with
  | call call =>
    rw [CallSignature.make, callSignature] at h
    obtain ⟨name, hname, -⟩ := Option.map_eq_some_iff.mp h
    obtain ⟨f, hf, -⟩ := Option.map_eq_some_iff.mp hname
    exact Option.isSome_iff_exists.mpr ⟨f, hf⟩
  | _ => cases h

lemma foldlM_callstackStep (h : ∀ e ∈ events, e.type = .call → HasCalledFunction e.ir.inst)
    (callstack : List CallSignature) : events.foldlM callstackStep callstack =
      replay (fun e => (stackAction e).map CallSignature.named) callstack events := by
  induction events generalizing callstack with
  | nil => rfl
  | cons event events ih =>
    rw [List.forall_mem_cons] at h
    rw [List.foldlM_cons, callstackStep, replay, stackAction]
    cases htype : event.type with
    | call =>
      rw [make_of_called (h.1 htype)]
      exact ih h.2 _
    | callEnd =>
      dsimp only [StackAction.map]
      cases callstack with
      | nil => rfl
      | cons signature rest => exact ih h.2 _
    | _ => exact ih h.2 _

lemma called_of_foldlM (h : events.foldlM callstackStep callstack = some callstack') :
    ∀ e ∈ events, e.type = .call → HasCalledFunction e.ir.inst := by
  induction events generalizing callstack with
  | nil => simp
  | cons event events ih =>
    rw [List.foldlM_cons, Option.bind_eq_bind, Option.bind_eq_some_iff] at h
    obtain ⟨next, hstep, hrest⟩ := h
    refine List.forall_mem_cons.mpr ⟨fun htype => ?_, ih hrest⟩
    rw [callstackStep, htype] at hstep
    obtain ⟨signature, hmake, -⟩ := Option.map_eq_some_iff.mp hstep
    exact called_of_make hmake

lemma foldlM_unclosed {calls : List Instruction} (hcalls : Unclosed stackAction events calls)
    (h : ∀ e ∈ events, e.type = .call → HasCalledFunction e.ir.inst) (callstack : List CallSignature) :
    events.foldlM callstackStep callstack = some (callstack ++ calls.map CallSignature.named) := by
  rw [foldlM_callstackStep h]
  exact (hcalls.map CallSignature.named).replay callstack

lemma called_enterReads {target : EventPID} : (∀ inst ∈ enterReads program target, HasCalledFunction inst) ↔
    ∀ e ∈ (program.eventsOf target.tid).takeWhile (·.id ≤ target.eid), e.type = .call →
      HasCalledFunction e.ir.inst := by
  rw [enterReads, List.forall_mem_map]
  simp [and_imp]

lemma called_of_replayUpTo {target : EventPID} (h : replayUpTo program target callstack = some callstack') :
    ∀ inst ∈ enterReads program target, HasCalledFunction inst :=
  called_enterReads.mpr (called_of_foldlM h)

lemma replayUpTo_balanced (hbalanced : ∀ t ∈ program.threads, Balanced stackAction t.events)
    (callstack : List CallSignature) {target : EventPID}
    (h : ∀ inst ∈ enterReads program target, HasCalledFunction inst) :
    ∃ calls : List Instruction,
      replayUpTo program target callstack = some (callstack ++ calls.map CallSignature.named) := by
  have hevents : Balanced stackAction (program.eventsOf target.tid) := by
    rw [ProgramTrace.eventsOf]
    cases hfind : program.threads.find? (·.id = target.tid) with
    | none => exact .nil
    | some t => exact hbalanced t (List.mem_of_find?_eq_some hfind)
  have hupTo := List.takeWhile_append_dropWhile (p := fun e : Event Ctx => decide (e.id ≤ target.eid))
    (l := program.eventsOf target.tid)
  rw [← hupTo] at hevents
  obtain ⟨calls, hcalls⟩ := hevents.front
  exact ⟨calls, foldlM_unclosed hcalls (called_enterReads.mp h) callstack⟩

lemma called_of_computeForkCallstack {sites : List (ForkEvent Ctx)}
    (h : computeForkCallstack program sites = some callstack) : ∀ fork ∈ sites,
      HasCalledFunction fork.ir.inst ∧ ∀ inst ∈ enterReads program fork.pid, HasCalledFunction inst := by
  induction sites generalizing callstack with
  | nil => simp
  | cons fork sites ih =>
    simp only [computeForkCallstack, Option.bind_eq_bind, Option.bind_eq_some_iff] at h
    obtain ⟨inherited, hinherited, own, hown, signature, hmake, -⟩ := h
    exact List.forall_mem_cons.mpr ⟨⟨called_of_make hmake, called_of_replayUpTo hown⟩, ih hinherited⟩

lemma computeForkCallstack_balanced (hbalanced : ∀ t ∈ program.threads, Balanced stackAction t.events)
    {sites : List (ForkEvent Ctx)} (h : ∀ fork ∈ sites,
      HasCalledFunction fork.ir.inst ∧ ∀ inst ∈ enterReads program fork.pid, HasCalledFunction inst) :
    ∃ callstack, computeForkCallstack program sites = some callstack := by
  induction sites with
  | nil => exact ⟨[], rfl⟩
  | cons fork sites ih =>
    rw [List.forall_mem_cons] at h
    obtain ⟨inherited, hinherited⟩ := ih h.2
    obtain ⟨calls, hcalls⟩ := replayUpTo_balanced hbalanced inherited h.1.2
    refine ⟨inherited ++ calls.map CallSignature.named ++ [CallSignature.named fork.ir.inst], ?_⟩
    simp [computeForkCallstack, hinherited, hcalls, make_of_called h.1.1]

lemma called_reads_iff {event : Event Ctx} :
    (∀ inst ∈ callstackReads program event ++ forkReads event, HasCalledFunction inst) ↔
      (∀ fork ∈ event.thread.spawnSites,
        HasCalledFunction fork.ir.inst ∧ ∀ inst ∈ enterReads program fork.pid, HasCalledFunction inst) ∧
      (∀ inst ∈ enterReads program event.pid, HasCalledFunction inst) ∧
        (event.type = .fork → HasCalledFunction event.ir.inst) := by
  have hfork : (∀ inst ∈ if event.type = .fork then [event.ir.inst] else [], HasCalledFunction inst) ↔
      (event.type = .fork → HasCalledFunction event.ir.inst) := by
    by_cases htype : event.type = .fork <;> simp [htype]
  simp only [callstackReads, forkReads, List.forall_mem_append, hfork, List.mem_flatMap, List.mem_reverse,
    List.forall_mem_map]
  constructor
  · rintro ⟨⟨hsites, hown⟩, hforks, htype⟩
    exact ⟨fun fork hm => ⟨hforks fork hm, fun inst hi => hsites inst ⟨fork, hm, hi⟩⟩, hown, htype⟩
  · rintro ⟨hsites, hown, htype⟩
    exact ⟨⟨fun inst ⟨fork, hm, hi⟩ => (hsites fork hm).2 inst hi, hown⟩, fun fork hm => (hsites fork hm).1, htype⟩

lemma called_of_computeCallstack {event : Event Ctx} (h : computeCallstack program event = some callstack) :
    ∀ inst ∈ callstackReads program event ++ forkReads event, HasCalledFunction inst := by
  simp only [computeCallstack, Option.bind_eq_bind, Option.bind_eq_some_iff] at h
  obtain ⟨inherited, hinherited, own, hown, hlast⟩ := h
  refine called_reads_iff.mpr ⟨called_of_computeForkCallstack hinherited, called_of_replayUpTo hown, fun htype => ?_⟩
  rw [if_pos htype] at hlast
  obtain ⟨signature, hmake, -⟩ := Option.bind_eq_some_iff.mp hlast
  exact called_of_make hmake

lemma computeCallstack_balanced (hbalanced : ∀ t ∈ program.threads, Balanced stackAction t.events) {event : Event Ctx}
    (h : ∀ inst ∈ callstackReads program event ++ forkReads event, HasCalledFunction inst) :
    ∃ callstack, computeCallstack program event = some callstack := by
  obtain ⟨hsites, hown, hfork⟩ := called_reads_iff.mp h
  obtain ⟨inherited, hinherited⟩ := computeForkCallstack_balanced hbalanced hsites
  obtain ⟨calls, hcalls⟩ := replayUpTo_balanced hbalanced inherited hown
  rw [computeCallstack, hinherited, Option.bind_eq_bind, Option.bind_some, hcalls, Option.bind_some]
  by_cases htype : event.type = .fork
  · rw [if_pos htype, make_of_called (hfork htype)]
    exact ⟨_, rfl⟩
  · rw [if_neg htype]
    exact ⟨_, rfl⟩

end Signatures

lemma computeCallstack_fork (program : ProgramTrace Ctx) {fork : Event Ctx} (h : fork.type = .fork) :
    computeCallstack program fork = computeForkCallstack program (fork.asFork :: fork.thread.spawnSites) := by
  rw [computeCallstack, h]
  rfl

lemma takeWhile_upTo {events before after : List (Event Ctx)} {event : Event Ctx}
    (hn : events.map Event.id = List.range events.length) (h : events = before ++ event :: after) :
    events.takeWhile (·.id ≤ event.id) = before ++ [event] := by
  have hid := id_of_split hn h
  have hbefore : ∀ e ∈ before, decide (e.id ≤ event.id) = true := by
    intro e he
    obtain ⟨front, back, rfl⟩ := List.append_of_mem he
    have hlt := id_of_split hn (h.trans (List.append_assoc front (e :: back) (event :: after)))
    rw [List.length_append, List.length_cons] at hid
    simp only [decide_eq_true_eq]
    omega
  have hafter : after.takeWhile (·.id ≤ event.id) = [] := by
    cases hafter : after with
    | nil => rfl
    | cons next rest =>
      have hlt := lt_id_of_split hn h (hafter ▸ List.mem_cons_self : next ∈ after)
      rw [List.takeWhile_cons_of_neg]
      simp only [decide_eq_true_eq]
      omega
  rw [h, List.takeWhile_append_of_pos hbefore, List.takeWhile_cons_of_pos (by simp), hafter]

lemma stackAction_fork {event : Event Ctx} (htype : event.type = .fork) : stackAction event = .keep := by
  rw [stackAction, htype]

section Built

variable {program : Program Ctx} {fuel : ℕ} {main : CallGraphNode Ctx} {final : ThreadBuildState Ctx}
  (h : buildMainThread program fuel main = .ok final) (storeUsers : Value → List Value)

include h

lemma threads_nested : ∀ t ∈ final.trace.threads, t.Nested :=
  (run_of_buildTrace h).nests.nested rfl rfl

lemma eventsOf_thread {t : ThreadTrace Ctx} (ht : t ∈ final.trace.threads) :
    (buildProgramTrace final storeUsers).eventsOf t.id = t.events := by
  rw [ProgramTrace.eventsOf]
  cases hfind : (buildProgramTrace final storeUsers).threads.find? (·.id = t.id) with
  | none =>
    have hnone := List.find?_eq_none.mp hfind t ht
    simp at hnone
  | some s =>
    have hid : s.id = t.id := by simpa using List.find?_some hfind
    exact congrArg ThreadTrace.events
      (List.inj_on_of_nodup_map (threads_distinct h) (List.mem_of_find?_eq_some hfind) ht hid)

variable {t : ThreadTrace Ctx} {before after : List (Event Ctx)} {event : Event Ctx}

lemma unclosed_upTo (ht : t ∈ final.trace.threads) (hsplit : t.events = before ++ event :: after)
    (hkeep : stackAction event = .keep) : ∃ calls, Unclosed stackAction before calls ∧
      Unclosed stackAction (((buildProgramTrace final storeUsers).eventsOf event.pid.tid).takeWhile
        (·.id ≤ event.pid.eid)) calls := by
  have hbalanced := (threads_nested h t ht).calls
  rw [hsplit] at hbalanced
  obtain ⟨calls, hcalls⟩ := hbalanced.front
  have hevent : event ∈ t.events := by
    rw [hsplit]
    simp
  refine ⟨calls, hcalls, ?_⟩
  rw [Event.pid, events_located h t ht event hevent]
  change Unclosed stackAction
    (((buildProgramTrace final storeUsers).eventsOf t.id).takeWhile (·.id ≤ event.id)) calls
  rw [eventsOf_thread h storeUsers ht, takeWhile_upTo (events_numbered h t ht) hsplit]
  simpa using hcalls.append (.balanced (.keep hkeep))

lemma replayUpTo_event (ht : t ∈ final.trace.threads) (hsplit : t.events = before ++ event :: after)
    (hkeep : stackAction event = .keep)
    (hcalled : ∀ inst ∈ enterReads (buildProgramTrace final storeUsers) event.pid, HasCalledFunction inst) :
    ∃ calls, Unclosed stackAction before calls ∧ ∀ callstack,
      replayUpTo (buildProgramTrace final storeUsers) event.pid callstack =
        some (callstack ++ calls.map CallSignature.named) := by
  obtain ⟨calls, hcalls, hupTo⟩ := unclosed_upTo h storeUsers ht hsplit hkeep
  exact ⟨calls, hcalls, fun callstack => foldlM_unclosed hupTo (called_enterReads.mp hcalled) callstack⟩

/-- By induction on the threads above, which the spawn sites list. -/
lemma inherited_callstack (sites : List (ForkEvent Ctx)) (ht : t ∈ final.trace.threads)
    (hsites : t.thread.spawnSites = sites) (hcalled : ∀ fork ∈ sites, HasCalledFunction fork.ir.inst ∧
      ∀ inst ∈ enterReads (buildProgramTrace final storeUsers) fork.pid, HasCalledFunction inst) :
    ∃ inherited, computeForkCallstack (buildProgramTrace final storeUsers) sites = some inherited ∧
      Inherits (buildProgramTrace final storeUsers) t inherited := by
  induction sites generalizing t with
  | nil => exact ⟨[], rfl, Or.inl ⟨by rw [ThreadRef.spawnSite, hsites]; rfl, rfl⟩⟩
  | cons site sites ih =>
    rcases nested_parent (threads_nested h) ht with rfl | ⟨parent, hparent, fork, hfork, htype, hchild⟩
    · have hmain : final.trace.thread.spawnSites = [] :=
        congrArg ThreadRef.spawnSites (buildMainThread_adds h).2.1.thread
      rw [hmain] at hsites
      cases hsites
    · rw [hsites] at hchild
      obtain ⟨rfl, rfl⟩ := List.cons.inj hchild
      rw [List.forall_mem_cons] at hcalled
      obtain ⟨inherited, hinherited, -⟩ := ih hparent rfl hcalled.2
      obtain ⟨front, back, hsplit⟩ := List.append_of_mem hfork
      obtain ⟨calls, -, hreplay⟩ :=
        replayUpTo_event h storeUsers hparent hsplit (stackAction_fork htype) hcalled.1.2
      have hcallstack : computeForkCallstack (buildProgramTrace final storeUsers)
          (fork.asFork :: parent.thread.spawnSites) =
            some (inherited ++ calls.map CallSignature.named ++ [CallSignature.named fork.ir.inst]) := by
        rw [computeForkCallstack, hinherited]
        change (do return (← replayUpTo _ fork.pid inherited) ++ [← CallSignature.make fork.ir.inst]) = _
        have hmake : CallSignature.make fork.ir.inst = some (CallSignature.named fork.ir.inst) :=
          make_of_called hcalled.1.1
        rw [hreplay, hmake]
        rfl
      refine ⟨_, hcallstack, Or.inr ⟨parent, hparent, fork, hfork, htype, ?_, ?_⟩⟩
      · rw [ThreadRef.spawnSite, hsites]
        rfl
      · rw [computeCallstack_fork _ htype, events_located h parent hparent fork hfork]
        exact hcallstack

omit h storeUsers in
lemma pops_own {popped : Event Ctx} {earlier later : List (Event Ctx)} (inherited : List CallSignature)
    (hbalanced : Balanced stackAction (earlier ++ popped :: later)) (hpopped : popped.type = .callEnd)
    (hcalled : ∀ e ∈ earlier, e.type = .call → HasCalledFunction e.ir.inst) : ∃ callstack,
      earlier.foldlM callstackStep inherited = some callstack ∧ inherited.length < callstack.length := by
  have hleave : stackAction popped = .leave popped.ir.inst := by rw [stackAction, hpopped]
  obtain ⟨calls, last, hcalls⟩ := hbalanced.leaves_own hleave
  refine ⟨_, foldlM_unclosed hcalls hcalled inherited, ?_⟩
  simp

end Built

/-- The call stack of an access or a fork is what the thread inherits, then the calls that are entered and not left
before the event, then the fork itself, and only calls of the thread itself are popped, just where every call that
it has a signature of has a called function. -/
theorem callstack_exact_iff {program : Program Ctx} {fuel : ℕ} {main : CallGraphNode Ctx}
    {final : ThreadBuildState Ctx} (h : buildMainThread program fuel main = .ok final)
    (storeUsers : Value → List Value) {t : ThreadTrace Ctx} (ht : t ∈ (buildProgramTrace final storeUsers).threads)
    {before after : List (Event Ctx)} {event : Event Ctx} (hsplit : t.events = before ++ event :: after)
    (htype : event.type = .read ∨ event.type = .write ∨ event.type = .fork) :
    (∃ inherited calls, Inherits (buildProgramTrace final storeUsers) t inherited ∧
      Unclosed stackAction before calls ∧
      computeCallstack (buildProgramTrace final storeUsers) event = some (inherited ++
        ((calls ++ if event.type = .fork then [event.ir.inst] else []).map CallSignature.named)) ∧
      ∀ earlier popped later, before = earlier ++ popped :: later → popped.type = .callEnd →
        ∃ callstack, earlier.foldlM callstackStep inherited = some callstack ∧
          inherited.length < callstack.length) ↔
      ∀ inst ∈ callstackReads (buildProgramTrace final storeUsers) event ++ forkReads event,
        HasCalledFunction inst := by
  constructor
  · rintro ⟨inherited, calls, -, -, hcallstack, -⟩
    exact called_of_computeCallstack hcallstack
  · intro hcalled
    have hkeep : stackAction event = .keep := by
      rcases htype with htype | htype | htype <;> rw [stackAction, htype]
    have hevent : event ∈ t.events := by
      rw [hsplit]
      simp
    obtain ⟨hsites, hown, hfork⟩ := called_reads_iff.mp hcalled
    have hlocated := events_located h t ht event hevent
    rw [hlocated] at hsites
    obtain ⟨inherited, hinherited, hinherits⟩ := inherited_callstack h storeUsers t.thread.spawnSites ht rfl hsites
    obtain ⟨calls, hcalls, hreplay⟩ := replayUpTo_event h storeUsers ht hsplit hkeep hown
    refine ⟨inherited, calls, hinherits, hcalls, ?_, ?_⟩
    · rw [computeCallstack, hlocated, hinherited, Option.bind_eq_bind, Option.bind_some, hreplay, Option.bind_some]
      by_cases htype : event.type = .fork
      · rw [if_pos htype, if_pos htype, make_of_called (hfork htype), List.map_append, ← List.append_assoc]
        rfl
      · rw [if_neg htype, if_neg htype, List.append_nil]
        rfl
    · rintro earlier popped later rfl hpopped
      have hbalanced := (threads_nested h t ht).calls
      rw [hsplit, List.append_assoc] at hbalanced
      refine pops_own inherited hbalanced hpopped fun e he => called_enterReads.mp hown e ?_
      rw [Event.pid, hlocated]
      change e ∈ ((buildProgramTrace final storeUsers).eventsOf t.id).takeWhile _
      rw [eventsOf_thread h storeUsers ht, takeWhile_upTo (events_numbered h t ht) hsplit]
      simp [he]

namespace CalledFork

def mainFunction : Function := { id := 10, name := "main" }
def start : Function := { id := 11, name := "start" }
def worker : Function := { id := 12, name := "worker" }
def work : Function := { id := 13, name := "work" }

def callTo (id : ℕ) (calledOperand : Value) (args : List Value) : Instruction := .call { id, calledOperand, args }

/-- The worker is forked in a function that main calls, and stores in one that it calls itself. -/
def body (callee : Value) (f : Function) : List BasicBlock :=
  if f = mainFunction then [[callTo 1 (.function start) []]]
  else if f = start then
    [[callTo 2 (.function { id := 0, name := "pthread_create" }) [.alloca 20, .undef, .function worker, .undef]]]
  else if f = worker then [[callTo 3 callee []]]
  else [[.store 4 (.globalVariable 21 false) false false]]

def program (callee : Value) : Program Unit where
  getFunctionSummary f := generateFunctionSummary (body callee f)
  contextEvolve _ _ := ()
  getDirectNodeOrNull context f :=
    some { context := context, function := f, isExtFunction := decide (f.id = 0) }
  getResolvedNode _ _ := []

def entry : CallGraphNode Unit := { context := (), function := mainFunction }

def isStore (event : Event Unit) : Bool := event.type = .write && event.ir.inst.id = 4

lemma built : EndsIn (buildMainThread (program (.function work)) 5 entry) (fun final =>
    ∃ t ∈ final.trace.threads, ∃ event ∈ t.events, isStore event = true ∧
      ∀ inst ∈ callstackReads (buildProgramTrace final fun _ => []) event ++ forkReads event,
        HasCalledFunction inst) := by decide +kernel

theorem callstack_exact_store : EndsIn (buildMainThread (program (.function work)) 5 entry) (fun final =>
    ∃ t ∈ (buildProgramTrace final fun _ => []).threads, ∃ before event after, t.events = before ++ event :: after ∧
      isStore event = true ∧ ∃ inherited calls, Inherits (buildProgramTrace final fun _ => []) t inherited ∧
        Unclosed stackAction before calls ∧
        computeCallstack (buildProgramTrace final fun _ => []) event = some (inherited ++
          ((calls ++ if event.type = .fork then [event.ir.inst] else []).map CallSignature.named)) ∧
        ∀ earlier popped later, before = earlier ++ popped :: later → popped.type = .callEnd →
          ∃ callstack, earlier.foldlM callstackStep inherited = some callstack ∧
            inherited.length < callstack.length) := by
  obtain ⟨final, h, t, ht, event, hevent, hstore, hcalled⟩ := built
  obtain ⟨before, after, hsplit⟩ := List.append_of_mem hevent
  have htype : event.type = .write := by
    simp only [isStore, Bool.and_eq_true, decide_eq_true_eq] at hstore
    exact hstore.1
  exact ⟨final, h, t, ht, before, event, after, hsplit, hstore,
    (callstack_exact_iff h (fun _ => []) ht hsplit (Or.inr (Or.inl htype))).mpr hcalled⟩

/-- Through a cast of its type, the call that the store is in has no called function to ask for a name. -/
theorem no_callstack_through_cast :
    EndsIn (buildMainThread (program (.bitcast (.function work))) 5 entry) (fun final =>
      ∃ t ∈ (buildProgramTrace final fun _ => []).threads, ∃ event ∈ t.events, isStore event = true ∧
        computeCallstack (buildProgramTrace final fun _ => []) event = none) := by decide +kernel

end CalledFork

end OpenRace
