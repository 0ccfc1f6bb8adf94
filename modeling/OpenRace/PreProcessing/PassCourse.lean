import OpenRace.PreProcessing.RepeatedRun

/-! The states that the constant propagation goes through. -/

namespace OpenRace

open LLVM PassState

inductive Passed (lib : PassLibrary) (fuel : ℕ) (m : FunctionModule) : PassState → Prop
  | loaded : Passed lib fuel m m.loaded
  | inside {s s' : PassState} {i : ℕ} {changed : Bool} :
    Passed lib fuel m s → s.intraConstantProp lib fuel i = some (s', changed) → Passed lib fuel m s'
  | arguments {s s' : PassState} {i : ℕ} {made : Bool} :
    Passed lib fuel m s → propagateConstantsIntoArguments lib s i = some (s', made) → Passed lib fuel m s'

def ReplacedThroughArgument (lib : PassLibrary) (s : PassState) (i : ℕ) (s' : PassState) (id : ℕ)
    (c : Constant) : Prop :=
  (∃ made, propagateConstantsIntoArguments lib s i = some (s', made)) ∧ (id, c) ∈ s'.replaced ∧
    (id, c) ∉ s.replaced

def ReplacedInside (lib : PassLibrary) (fuel : ℕ) (s : PassState) (i : ℕ) (s' : PassState) (id : ℕ)
    (c : Constant) : Prop :=
  (∃ changed, s.intraConstantProp lib fuel i = some (s', changed)) ∧ (id, c) ∈ s'.replaced ∧
    (id, c) ∉ s.replaced

section Course

variable {lib : PassLibrary} {fuel : ℕ} {m : FunctionModule} {s s' : PassState}

lemma intraConstantProp_module {i : ℕ} {changed : Bool} (h : s.intraConstantProp lib fuel i = some (s', changed)) :
    s'.module = s.module := by
  rw [PassState.intraConstantProp] at h
  split at h
  · cases h
    rfl
  · dsimp only at h
    split at h
    · cases h
      rfl
    · cases h

lemma Passed.replaced (h : Passed lib fuel m s) {id : ℕ} {c : Constant} (hentry : (id, c) ∈ s.replaced) :
    ∃ before after i, Passed lib fuel m before ∧
      (ReplacedInside lib fuel before i after id c ∨ ReplacedThroughArgument lib before i after id c) := by
  induction h with
  | loaded => cases hentry
  | @inside s s' i changed hs hintra ih =>
    by_cases hold : (id, c) ∈ s.replaced
    · exact ih hold
    · exact ⟨s, s', i, hs, .inl ⟨⟨changed, hintra⟩, hentry, hold⟩⟩
  | @arguments s s' i made hs hargs ih =>
    by_cases hold : (id, c) ∈ s.replaced
    · exact ih hold
    · exact ⟨s, s', i, hs, .inr ⟨⟨made, hargs⟩, hentry, hold⟩⟩

lemma foldlM_keeps {σ α : Type} {holds : σ → Prop} {f : σ → α → Option σ} (l : List α)
    (hstep : ∀ a ∈ l, ∀ state state', holds state → f state a = some state' → holds state') :
    ∀ {state state' : σ}, holds state → l.foldlM f state = some state' → holds state' := by
  induction l with
  | nil =>
    intro state state' hstate h
    cases h
    exact hstate
  | cons a rest ih =>
    intro state state' hstate h
    rw [List.foldlM_cons] at h
    obtain ⟨state₁, hfirst, hrest⟩ := Option.bind_eq_some_iff.mp h
    apply ih (fun b hb => hstep b (List.mem_cons_of_mem _ hb)) _ hrest
    exact hstep a List.mem_cons_self _ _ hstate hfirst

lemma Passed.scanFunction {state state' : PassState × UserEdges} {i : ℕ} (hstate : Passed lib fuel m state.1)
    (h : scanFunction lib fuel state i = some state') : Passed lib fuel m state'.1 := by
  rw [OpenRace.scanFunction] at h
  obtain ⟨⟨s₁, changed⟩, hintra, hscan⟩ := Option.bind_eq_some_iff.mp h
  have hpassed : Passed lib fuel m s₁ := hstate.inside hintra
  dsimp only at hscan
  cases hf : s₁.module.functions[i]? with
  | none =>
    rw [hf] at hscan
    cases hscan
    exact hpassed
  | some f =>
    rw [hf] at hscan
    cases hscan
    exact hpassed

lemma Passed.propagateInto {state state' : RoundState} {i : ℕ} (hstate : Passed lib fuel m state.st)
    (h : propagateInto lib state i = some state') : Passed lib fuel m state'.st := by
  rw [OpenRace.propagateInto] at h
  split at h
  · cases h
    exact hstate
  · obtain ⟨⟨s₁, made⟩, hargs, hnext⟩ := Option.bind_eq_some_iff.mp h
    cases hnext
    exact hstate.arguments hargs

lemma Passed.propagateInside {edges : UserEdges} {state state' : InsideState} {i : ℕ}
    (hstate : Passed lib fuel m state.st) (h : propagateInside lib fuel edges state i = some state') :
    Passed lib fuel m state'.st := by
  rw [OpenRace.propagateInside] at h
  obtain ⟨⟨s₁, changed⟩, hintra, hnext⟩ := Option.bind_eq_some_iff.mp h
  cases hnext
  exact hstate.inside hintra

lemma Passed.argumentRounds (rounds : ℕ) : ∀ {s s' : PassState} {work changed changed' : List ℕ},
    Passed lib fuel m s → argumentRounds lib rounds s work changed = some (s', changed') → Passed lib fuel m s' := by
  induction rounds with
  | zero =>
    intro s s' work changed changed' _ h
    cases h
  | succ rounds ih =>
    intro s s' work changed changed' hs h
    rw [OpenRace.argumentRounds] at h
    obtain ⟨state, hround, h⟩ := Option.bind_eq_some_iff.mp h
    have hstate : Passed lib fuel m state.st := foldlM_keeps _ (fun _ _ _ _ => Passed.propagateInto) hs hround
    split at h
    · exact ih hstate h
    · cases h
      exact hstate

lemma Passed.whileFunctionsChange {edges : UserEdges} (rounds : ℕ) : ∀ {s s' : PassState} {argPropagated : Bool}
    {work : List ℕ}, Passed lib fuel m s → whileFunctionsChange lib fuel edges rounds s argPropagated work = some s' →
      Passed lib fuel m s' := by
  induction rounds with
  | zero =>
    intro s s' argPropagated work _ h
    cases h
  | succ rounds ih =>
    intro s s' argPropagated work hs h
    rw [OpenRace.whileFunctionsChange] at h
    have hinside {s₁ : PassState} {changed : List ℕ} (hs₁ : Passed lib fuel m s₁)
        (h : ((lib.order changed).foldlM (OpenRace.propagateInside lib fuel edges) ⟨s₁, false, []⟩).bind (fun inside =>
          if inside.functionChanged then OpenRace.whileFunctionsChange lib fuel edges rounds inside.st false inside.work
          else some inside.st) = some s') : Passed lib fuel m s' := by
      obtain ⟨inside, hround, h⟩ := Option.bind_eq_some_iff.mp h
      have hstate : Passed lib fuel m inside.st := foldlM_keeps _ (fun _ _ _ _ => Passed.propagateInside) hs₁ hround
      split at h
      · exact ih hstate h
      · cases h
        exact hstate
    cases argPropagated with
    | false => exact hinside hs h
    | true =>
      obtain ⟨⟨s₁, changed⟩, hargs, h⟩ := Option.bind_eq_some_iff.mp h
      exact hinside (hs.argumentRounds fuel hargs) h

lemma run_passed {out : PassState} (h : runOpenMPConstantPropagation lib fuel m.loaded = some out) :
    Passed lib fuel m out := by
  rw [runOpenMPConstantPropagation] at h
  obtain ⟨⟨s, edges⟩, hscan, h⟩ := Option.bind_eq_some_iff.mp h
  have hs : Passed lib fuel m s := @foldlM_keeps _ _ (fun state => Passed lib fuel m state.1) _ _
    (fun _ _ _ _ => Passed.scanFunction) _ _ .loaded hscan
  exact hs.whileFunctionsChange fuel h

/-- In the end every constant has been put by a visit of a function, inside it or through its arguments. -/
theorem run_replaced {out : PassState} (h : runOpenMPConstantPropagation lib fuel m.loaded = some out) {id : ℕ}
    {c : Constant} (hentry : (id, c) ∈ out.replaced) : ∃ before after i, Passed lib fuel m before ∧
      (ReplacedInside lib fuel before i after id c ∨ ReplacedThroughArgument lib before i after id c) :=
  (run_passed h).replaced hentry

end Course

structure ComesFrom (m m' : FunctionModule) : Prop where
  home : m'.instFunction = m.instFunction
  heads : m'.functions.map head = m.functions.map head
  loads : ∀ {id : ℕ} {type : Ty} {arg : ℕ}, .load id type (.argument arg) ∈ m'.ir.instructions →
    .load id type (.argument arg) ∈ m.ir.instructions
  stores : ∀ {id size : ℕ} {value pointer : Operand}, .store id size value pointer ∈ m'.ir.instructions →
    ∃ value' pointer', .store id size value' pointer' ∈ m.ir.instructions

namespace ComesFrom

variable {lib : PassLibrary} {fuel : ℕ} {m m' m'' : FunctionModule} {s s' : PassState}

lemma refl (m : FunctionModule) : ComesFrom m m := ⟨rfl, rfl, id, fun h => ⟨_, _, h⟩⟩

lemma trans (h : ComesFrom m m') (h' : ComesFrom m' m'') : ComesFrom m m'' where
  home := h'.home.trans h.home
  heads := h'.heads.trans h.heads
  loads := fun hload => h.loads (h'.loads hload)
  stores := by
    intro id size value pointer hstore
    obtain ⟨value', pointer', hstore'⟩ := h'.stores hstore
    exact h.stores hstore'

lemma replaceArgument (m : FunctionModule) (arg : ℕ) (c : Constant) : ComesFrom m (m.replaceArgument arg c) where
  home := rfl
  heads := List.map_map
  loads := by
    intro id type arg' hload
    rw [FunctionModule.ir_replaceArgument] at hload
    obtain ⟨inst, hinst, heq⟩ := List.mem_map.mp hload
    cases inst with
    | load id' type' pointer =>
      injection heq with hid htype hpointer
      cases pointer with
      | argument number =>
        rw [Operand.replaceArgument] at hpointer
        split at hpointer
        · cases hpointer
        · cases hpointer
          rw [← hid, ← htype]
          exact hinst
      | constant _ => cases hpointer
      | result _ => cases hpointer
      | castResult _ _ => cases hpointer
    | store _ _ _ _ => cases heq
    | cast _ _ _ => cases heq
    | operation _ _ _ _ => cases heq
  stores := by
    intro id size value pointer hstore
    rw [FunctionModule.ir_replaceArgument] at hstore
    obtain ⟨inst, hinst, heq⟩ := List.mem_map.mp hstore
    cases inst with
    | store id' size' value' pointer' =>
      injection heq with hid hsize
      rw [← hid, ← hsize]
      exact ⟨value', pointer', hinst⟩
    | load _ _ _ => cases heq
    | cast _ _ _ => cases heq
    | operation _ _ _ _ => cases heq

lemma replaceArguments {f : FunctionIR} (slots : List (Argument × ArgumentConstant)) : ∀ {state : PassState × Bool},
    ComesFrom state.1.module (slots.foldl (OpenRace.replaceArgument lib f) state).1.module := by
  induction slots with
  | nil => exact fun {state} => .refl _
  | cons slot rest ih =>
    intro state
    have hfirst : ComesFrom state.1.module (OpenRace.replaceArgument lib f state slot).1.module := by
      rw [OpenRace.replaceArgument]
      split
      · exact .refl _
      · exact replaceArgument _ _ _
    exact hfirst.trans ih

end ComesFrom

end OpenRace
