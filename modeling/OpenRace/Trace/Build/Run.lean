import OpenRace.Trace.Build.TraceBuilder

/-! Runs of the trace builder. -/

namespace OpenRace

open LLVM

variable {Ctx : Type}

inductive Task (Ctx : Type)
  | build (node : CallGraphNode Ctx)
  | body (node : CallGraphNode Ctx) (summary : List IR)

/-- `Run program task state state'`: the builder does `task` from `state` and ends in `state'`. -/
inductive Run (program : Program Ctx) : Task Ctx → ThreadBuildState Ctx → ThreadBuildState Ctx → Prop
  | recursive {node state} (h : node.function ∈ state.callstack) : Run program (.build node) state state
  | function {node summary state last} (h : node.function ∉ state.callstack)
      (hs : program.getFunctionSummary node.function = .ok summary)
      (hbody : Run program (.body node summary) (state.enter node) last) :
      Run program (.build node) state last.leave
  | done {node state} : Run program (.body node []) state state
  | next {node ir rest state state' last} (h : visitStart program node ir state = .ok (.next state'))
      (hrest : Run program (.body node rest) state' last) :
      Run program (.body node (ir :: rest)) state last
  | call {node ir rest state callee state' returned last}
      (h : visitStart program node ir state = .ok (.call callee state'))
      (hcall : Run program (.build callee) (state'.logCall node callee) returned)
      (hrest : Run program (.body node rest) (returned.push node .callEnd ir) last) :
      Run program (.body node (ir :: rest)) state last
  | fork {node ir rest state fork entry state' childState last}
      (h : visitStart program node ir state = .ok (.fork fork entry state'))
      (hchild : Run program (.build entry) (state'.child fork entry) childState)
      (hrest : Run program (.body node rest) (state'.finishFork ir childState) last) :
      Run program (.body node (ir :: rest)) state last

lemma run_of_visits {program : Program Ctx}
    {build : CallGraphNode Ctx → ThreadBuildState Ctx → Except BuildError (ThreadBuildState Ctx)}
    (hbuild : ∀ node state last, build node state = .ok last → Run program (.build node) state last)
    (node : CallGraphNode Ctx) (summary : List IR) (state last : ThreadBuildState Ctx)
    (h : summary.foldlM (visit program build node) state = .ok last) :
    Run program (.body node summary) state last := by
  induction summary generalizing state with
  | nil =>
    obtain rfl : state = last := by simpa [pure, Except.pure] using h
    exact .done
  | cons ir rest ih =>
    rw [List.foldlM_cons] at h
    cases hstart : visitStart program node ir state with
    | error e => simp [visit, hstart, bind, Except.bind] at h
    | ok step =>
      cases step with
      | next state' =>
        simp only [visit, hstart, bind, Except.bind, pure, Except.pure] at h
        exact .next hstart (ih state' h)
      | call callee state' =>
        cases hcall : build callee (state'.logCall node callee) with
        | error e => simp [visit, hstart, hcall, bind, Except.bind] at h
        | ok returned =>
          simp only [visit, hstart, hcall, bind, Except.bind, pure, Except.pure] at h
          exact .call hstart (hbuild _ _ _ hcall) (ih _ h)
      | fork fork entry state' =>
        cases hchild : build entry (state'.child fork entry) with
        | error e => simp [visit, hstart, hchild, bind, Except.bind] at h
        | ok childState =>
          simp only [visit, hstart, hchild, bind, Except.bind, pure, Except.pure] at h
          exact .fork hstart (hbuild _ _ _ hchild) (ih _ h)

theorem run_of_buildTrace {program : Program Ctx} {fuel : ℕ} {node : CallGraphNode Ctx}
    {state last : ThreadBuildState Ctx} (h : buildTrace program fuel node state = .ok last) :
    Run program (.build node) state last := by
  induction fuel generalizing node state last with
  | zero => simp [buildTrace] at h
  | succ fuel ih =>
    rw [buildTrace] at h
    split at h
    · rename_i hmem
      obtain rfl : state = last := by simpa using h
      exact .recursive hmem
    · rename_i hmem
      cases hs : program.getFunctionSummary node.function with
      | error e => simp [hs] at h
      | ok summary =>
        cases hbody : summary.foldlM (visit program (buildTrace program fuel) node)
            (state.enter node) with
        | error e => simp [hs, hbody, bind, Except.bind] at h
        | ok final =>
          obtain rfl : final.leave = last := by
            simpa [hs, hbody, bind, Except.bind, pure, Except.pure] using h
          exact .function hmem hs (run_of_visits (fun _ _ _ => ih) node summary _ _ hbody)

def EndsIn (built : Except BuildError (ThreadBuildState Ctx))
    (property : ThreadBuildState Ctx → Prop) : Prop :=
  ∃ final, built = .ok final ∧ property final

instance (built : Except BuildError (ThreadBuildState Ctx))
    (property : ThreadBuildState Ctx → Prop) [DecidablePred property] :
    Decidable (EndsIn built property) :=
  match built with
  | .ok final => decidable_of_iff (property final) ⟨fun h => ⟨final, rfl, h⟩, fun ⟨_, h, hp⟩ => by
      cases h
      exact hp⟩
  | .error _ => isFalse fun ⟨_, h, _⟩ => by cases h

end OpenRace
