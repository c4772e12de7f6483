import ToolDialogue.Proofs.Simulation

/-! Tools over a state, and toolboxes that also record which tools ran on which values. The record
changes nothing else. -/
namespace ToolDialogue

open Json (Value)

variable {σ α β : Type}

/-- The result of a computation and the state behind it. -/
def runFrom (x : ExceptT CallError (StateM σ) α) (s : σ) : Except CallError α × σ :=
  StateT.run (ExceptT.run x) s

section runFrom

variable {x : ExceptT CallError (StateM σ) α} {f : α → ExceptT CallError (StateM σ) β} {s s' : σ}

@[simp] theorem runFrom_pure (a : α) (s : σ) :
    runFrom (pure a : ExceptT CallError (StateM σ) α) s = (.ok a, s) := rfl

@[simp] theorem runFrom_throw (e : CallError) (s : σ) :
    runFrom (throw e : ExceptT CallError (StateM σ) α) s = (.error e, s) := rfl

theorem runFrom_bind_ok {a : α} (h : runFrom x s = (.ok a, s')) :
    runFrom (x >>= f) s = runFrom (f a) s' := by
  have hx : StateT.run (ExceptT.run x) s = pure (.ok a, s') := h
  rw [runFrom, ExceptT.run_bind, StateT.run_bind, hx]
  rfl

theorem runFrom_bind_error {e : CallError} (h : runFrom x s = (.error e, s')) :
    runFrom (x >>= f) s = (.error e, s') := by
  have hx : StateT.run (ExceptT.run x) s = pure (.error e, s') := h
  rw [runFrom, ExceptT.run_bind, StateT.run_bind, hx]
  rfl

theorem runFrom_bind_eq_ok {b : β} (h : runFrom (x >>= f) s = (.ok b, s')) :
    ∃ a s₁, runFrom x s = (.ok a, s₁) ∧ runFrom (f a) s₁ = (.ok b, s') := by
  cases hx : runFrom x s with | mk r s₁ =>
  cases r with
  | error e =>
    rw [runFrom_bind_error hx] at h
    simp at h
  | ok a =>
    rw [runFrom_bind_ok hx] at h
    exact ⟨a, s₁, rfl, h⟩

end runFrom

/-- A run of a tool's body. -/
structure Execution where
  name : String
  args : List Value
  outcome : Except ToolFailure Output

namespace Execution

def succeeded (e : Execution) : Bool :=
  match e.outcome with
  | .ok _ => true
  | .error _ => false

def result (e : Execution) : Except CallError String :=
  match e.outcome with
  | .ok output => .ok output.content
  | .error failure => .error (.toolFailed e.name failure)

theorem succeeded_of_result {e : Execution} {content : String} (h : e.result = .ok content) :
    e.succeeded = true := by
  unfold result at h
  unfold succeeded
  cases hout : e.outcome with
  | ok output => rfl
  | error failure =>
    rw [hout] at h
    contradiction

end Execution

def Tool.record (tool : Tool (StateM σ)) (args : List Value) :
    StateM (σ × List Execution) (Except ToolFailure Output) := fun (s, trace) =>
  let (outcome, s') := StateT.run (tool.run args) s
  pure (outcome, (s', trace ++ [⟨tool.name, args, outcome⟩]))

def Tool.execution (tool : Tool (StateM σ)) (args : List Value) (s : σ) : Execution :=
  ⟨tool.name, args, (StateT.run (tool.run args) s).1⟩

theorem runFrom_run (tool : Tool (StateM σ)) (args : List Value) (s : σ) :
    runFrom (ReadyCall.run ⟨tool, args⟩) s =
      ((tool.execution args s).result, (StateT.run (tool.run args) s).2) := by
  cases h : StateT.run (tool.run args) s with | mk outcome s' =>
  have hrun : StateT.run (tool.run args) s = pure (outcome, s') := h
  unfold runFrom ReadyCall.run Tool.execution Execution.result
  rw [ExceptT.run_mk, StateT.run_bind, hrun, pure_bind]
  cases outcome <;> rfl

theorem runFrom_record (tool : Tool (StateM σ)) (args : List Value) (s : σ) (trace : List Execution) :
    runFrom (ReadyCall.run ⟨tool.withBody tool.record, args⟩) (s, trace) =
      ((tool.execution args s).result,
        ((StateT.run (tool.run args) s).2, trace ++ [tool.execution args s])) := by
  rw [runFrom_run]
  rfl

namespace Toolbox

/-- The toolbox that records which tools ran. -/
def recorded (box : Toolbox (StateM σ)) : Toolbox (StateM (σ × List Execution)) :=
  box.withBodies Tool.record

end Toolbox

/-- Equal errors or related results. -/
inductive Alike (R : α → β → Prop) : Except CallError α → Except CallError β → Prop
  | ok {a : α} {b : β} (h : R a b) : Alike R (.ok a) (.ok b)
  | error (e : CallError) : Alike R (.error e) (.error e)

theorem Alike.eq {r r' : Except CallError α} (h : Alike Eq r r') : r = r' := by
  cases h with
  | ok h => rw [h]
  | error e => rfl

/-- The computation with a record does the same and only adds to the record, whatever that holds
already. -/
def recording (σ : Type) : Simulation (StateM σ) (StateM (σ × List Execution)) where
  Rel R x y := ∀ s, ∃ r new, Alike R (runFrom x s).1 r ∧
    ∀ trace, runFrom y (s, trace) = (r, ((runFrom x s).2, trace ++ new))
  pure h s := ⟨_, [], .ok h, by simp⟩
  throw e s := ⟨_, [], .error e, by simp⟩
  bind {_ _ _ _ R S x y f g} h hf s := by
    obtain ⟨r, new, hr, hy⟩ := h s
    cases hx : runFrom x s with | mk r' s' =>
    rw [hx] at hy hr
    cases hr with
    | error e =>
      rw [runFrom_bind_error hx]
      exact ⟨_, new, .error e, fun trace => runFrom_bind_error (hy trace)⟩
    | ok hab =>
      rw [runFrom_bind_ok hx]
      obtain ⟨r, more, hr, hg⟩ := hf _ _ hab s'
      refine ⟨r, new ++ more, hr, fun trace => ?_⟩
      rw [runFrom_bind_ok (hy trace), hg, List.append_assoc]

section recording

variable (box : Toolbox (StateM σ))

theorem recording_run (tool : Tool (StateM σ)) (args : List Value) :
    (recording σ).Rel Eq (ReadyCall.run ⟨tool, args⟩)
      (ReadyCall.run ⟨tool.withBody tool.record, args⟩) := by
  intro s
  refine ⟨(tool.execution args s).result, [tool.execution args s], ?_, fun trace => ?_⟩
  · rw [runFrom_run]
    cases (tool.execution args s).result with
    | error e => exact .error e
    | ok content => exact .ok rfl
  · rw [runFrom_record, runFrom_run]

theorem recording_tools : ∀ tool ∈ box.tools, ∀ args, (recording σ).Rel Eq
    (ReadyCall.run ⟨tool, args⟩) (ReadyCall.run ⟨tool.withBody (Tool.record tool), args⟩) :=
  fun tool _ args => recording_run tool args

theorem recording_ready (call : Call) : (recording σ).Rel (Simulation.Ready box Tool.record)
    (box.ready call) (box.recorded.ready call) :=
  (recording σ).ready (recording_tools box) call

theorem recording_evaluate (call : Call) :
    (recording σ).Rel Eq (box.evaluate call) (box.recorded.evaluate call) :=
  (recording σ).evaluate (recording_tools box) call

end recording

end ToolDialogue
