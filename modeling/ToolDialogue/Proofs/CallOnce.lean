import ToolDialogue.Proofs.Trace

/-! What a call against a log can do, and how that compares with evaluating the call. -/
namespace ToolDialogue

variable {σ : Type}

/-- The ways in which a call against `log` goes from one state to another. -/
inductive CallStep (box : Toolbox (StateM σ)) (call : Call) (log : CallLog) (s : σ) :
    CallOutcome → CallLog → σ → Prop
  | unready {e : CallError} {s' : σ} (hready : runFrom (box.ready call) s = (.error e, s')) :
      CallStep box call log s (.failed e) log s'
  | known {ready : ReadyCall (StateM σ)} {s' : σ} {previous : String}
      (hready : runFrom (box.ready call) s = (.ok ready, s'))
      (hlog : log.find? ready.key = some previous) :
      CallStep box call log s (.known ready.key previous) log s'
  | failed {ready : ReadyCall (StateM σ)} {s₁ s' : σ} {e : CallError}
      (hready : runFrom (box.ready call) s = (.ok ready, s₁)) (hlog : log.find? ready.key = none)
      (hrun : runFrom ready.run s₁ = (.error e, s')) :
      CallStep box call log s (.failed e) log s'
  | ran {ready : ReadyCall (StateM σ)} {s₁ s' : σ} {result : String}
      (hready : runFrom (box.ready call) s = (.ok ready, s₁)) (hlog : log.find? ready.key = none)
      (hrun : runFrom ready.run s₁ = (.ok result, s')) :
      CallStep box call log s (.ran ready.key result) (log.put ready.key result) s'

section steps

variable {box : Toolbox (StateM σ)} {call : Call} {log log' : CallLog} {s s' : σ}
  {outcome : CallOutcome}

theorem CallStep.run_eq (h : CallStep box call log s outcome log' s') :
    StateT.run (box.callOnce call log) s = ((outcome, log'), s') := by
  unfold Toolbox.callOnce
  cases h with
  | unready hready =>
    have hx : StateT.run (ExceptT.run (box.ready call)) s = pure (_, s') := hready
    rw [StateT.run_bind, hx, pure_bind]
    rfl
  | known hready hlog =>
    have hx : StateT.run (ExceptT.run (box.ready call)) s = pure (_, s') := hready
    rw [StateT.run_bind, hx, pure_bind]
    dsimp only
    rw [hlog]
    rfl
  | @failed ready s₁ _ e hready hlog hrun =>
    have hx : StateT.run (ExceptT.run (box.ready call)) s = pure (_, s₁) := hready
    have hy : StateT.run (ExceptT.run ready.run) s₁ = pure (_, s') := hrun
    rw [StateT.run_bind, hx, pure_bind]
    dsimp only
    rw [hlog]
    dsimp only
    rw [StateT.run_bind, hy, pure_bind]
    rfl
  | @ran ready s₁ _ result hready hlog hrun =>
    have hx : StateT.run (ExceptT.run (box.ready call)) s = pure (_, s₁) := hready
    have hy : StateT.run (ExceptT.run ready.run) s₁ = pure (_, s') := hrun
    rw [StateT.run_bind, hx, pure_bind]
    dsimp only
    rw [hlog]
    dsimp only
    rw [StateT.run_bind, hy, pure_bind]
    rfl

theorem exists_callStep (box : Toolbox (StateM σ)) (call : Call) (log : CallLog) (s : σ) :
    ∃ outcome log' s', CallStep box call log s outcome log' s' := by
  cases hready : runFrom (box.ready call) s with | mk r s₁ =>
  cases r with
  | error e => exact ⟨_, _, _, .unready hready⟩
  | ok ready =>
    cases hlog : log.find? ready.key with
    | some previous => exact ⟨_, _, _, .known hready hlog⟩
    | none =>
      cases hrun : runFrom ready.run s₁ with | mk r s' =>
      cases r with
      | error e => exact ⟨_, _, _, .failed hready hlog hrun⟩
      | ok result => exact ⟨_, _, _, .ran hready hlog hrun⟩

theorem run_callOnce_iff : StateT.run (box.callOnce call log) s = ((outcome, log'), s') ↔
    CallStep box call log s outcome log' s' := by
  refine ⟨fun h => ?_, CallStep.run_eq⟩
  obtain ⟨outcome₁, log₁, s₁, hstep⟩ := exists_callStep box call log s
  have heq : ((outcome₁, log₁), s₁) = ((outcome, log'), s') := hstep.run_eq.symm.trans h
  cases heq
  exact hstep

theorem evaluate_of_ready {ready : ReadyCall (StateM σ)}
    (h : runFrom (box.ready call) s = (.ok ready, s')) :
    runFrom (box.evaluate call) s = runFrom ready.run s' :=
  runFrom_bind_ok h

theorem evaluate_of_unready {e : CallError} (h : runFrom (box.ready call) s = (.error e, s')) :
    runFrom (box.evaluate call) s = (.error e, s') :=
  runFrom_bind_error h

/-- A call whose key is not in the log comes to what its evaluation comes to, and leaves the
tools in the same state. -/
theorem callStep_evaluate (h : CallStep box call log s outcome log' s')
    (hnew : ∀ ready s₁, runFrom (box.ready call) s = (.ok ready, s₁) → log.find? ready.key = none) :
    (∃ e, outcome = .failed e ∧ runFrom (box.evaluate call) s = (.error e, s')) ∨
      ∃ key result, outcome = .ran key result ∧
        runFrom (box.evaluate call) s = (.ok result, s') := by
  cases h with
  | unready hready => exact .inl ⟨_, rfl, evaluate_of_unready hready⟩
  | known hready hlog =>
    rw [hnew _ _ hready] at hlog
    contradiction
  | failed hready _ hrun => exact .inl ⟨_, rfl, (evaluate_of_ready hready).trans hrun⟩
  | ran hready _ hrun => exact .inr ⟨_, _, rfl, (evaluate_of_ready hready).trans hrun⟩

end steps

section records

variable {box : Toolbox (StateM σ)} {call : Call} {log log' : CallLog} {s s' : σ}
  {trace : List Execution} {outcome : CallOutcome}

theorem runFrom_evaluate_recorded (box : Toolbox (StateM σ)) (call : Call) (s : σ)
    (trace : List Execution) : ∃ new, runFrom (box.recorded.evaluate call) (s, trace) =
      ((runFrom (box.evaluate call) s).1, ((runFrom (box.evaluate call) s).2, trace ++ new)) := by
  obtain ⟨r, new, halike, hrun⟩ := recording_evaluate box call s
  rw [← halike.eq] at hrun
  exact ⟨new, hrun trace⟩

theorem run_ready_recorded {ready : ReadyCall (StateM σ)} {r : Except CallError String}
    (h : runFrom ready.run s = (r, s')) : ∃ e, ∀ trace,
      runFrom (ReadyCall.run ⟨ready.tool.withBody ready.tool.record, ready.args⟩) (s, trace) =
        (r, (s', trace ++ [e])) := by
  rw [runFrom_run] at h
  obtain ⟨rfl, rfl⟩ := Prod.mk.inj h
  exact ⟨_, runFrom_record ready.tool ready.args s⟩

theorem key_withBody (ready : ReadyCall (StateM σ)) : ready.key =
    ReadyCall.key (m := StateM (σ × List Execution))
      ⟨ready.tool.withBody ready.tool.record, ready.args⟩ := rfl

/-- With a record, a call against a log takes the same step; what it adds to the record does not
depend on what that holds already. -/
theorem callStep_recorded_anywhere (h : CallStep box call log s outcome log' s') : ∃ new, ∀ trace,
    CallStep box.recorded call log (s, trace) outcome log' (s', trace ++ new) := by
  obtain ⟨r, new, halike, hrec⟩ := recording_ready box call s
  cases h with
  | unready hready =>
    rw [hready] at hrec halike
    cases halike
    exact ⟨new, fun trace => .unready (hrec trace)⟩
  | @known ready _ previous hready hlog =>
    rw [hready] at hrec halike
    rw [key_withBody] at hlog ⊢
    cases halike with
    | ok h =>
      obtain ⟨-, rfl⟩ := h
      exact ⟨new, fun trace => .known (hrec trace) hlog⟩
  | @failed ready s₁ _ e hready hlog hrun =>
    rw [hready] at hrec halike
    rw [key_withBody] at hlog
    cases halike with
    | ok h =>
      obtain ⟨-, rfl⟩ := h
      obtain ⟨e, hrun'⟩ := run_ready_recorded hrun
      refine ⟨new ++ [e], fun trace => ?_⟩
      rw [← List.append_assoc]
      exact .failed (hrec trace) hlog (hrun' _)
  | @ran ready s₁ _ result hready hlog hrun =>
    rw [hready] at hrec halike
    rw [key_withBody] at hlog ⊢
    cases halike with
    | ok h =>
      obtain ⟨-, rfl⟩ := h
      obtain ⟨e, hrun'⟩ := run_ready_recorded hrun
      refine ⟨new ++ [e], fun trace => ?_⟩
      rw [← List.append_assoc]
      exact .ran (hrec trace) hlog (hrun' _)

theorem callStep_recorded (h : CallStep box call log s outcome log' s') (trace : List Execution) :
    ∃ new, CallStep box.recorded call log (s, trace) outcome log' (s', trace ++ new) := by
  obtain ⟨new, hrec⟩ := callStep_recorded_anywhere h
  exact ⟨new, hrec trace⟩

end records

end ToolDialogue
