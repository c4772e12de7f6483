import ToolDialogue.Proofs.CallOnce
import ToolDialogue.Proofs.Order

/-! What a call executes: which tools, in which order, and on which values. -/
namespace ToolDialogue

open Json (Value)

variable {σ : Type}

/-- The evaluation of a call from a state, with the executions in it. -/
def Evaluates (box : Toolbox (StateM σ)) (call : Call) (s : σ) (r : Except CallError String) (s' : σ)
    (trace : List Execution) : Prop :=
  runFrom (box.evaluate call) s = (r, s') ∧
    runFrom (box.recorded.evaluate call) (s, []) = (r, (s', trace))

/-- A call against a log from a state, with the executions in it. -/
def Attempts (box : Toolbox (StateM σ)) (call : Call) (log : CallLog) (s : σ) (outcome : CallOutcome)
    (log' : CallLog) (s' : σ) (trace : List Execution) : Prop :=
  StateT.run (box.callOnce call log) s = ((outcome, log'), s') ∧
    StateT.run (box.recorded.callOnce call log) (s, []) = ((outcome, log'), (s', trace))

def RanAll (box : Toolbox (StateM σ)) (calls : List Call) (trace : List Execution) : Prop :=
  List.Forall₂ (Runs box) calls trace ∧ ∀ e ∈ trace, e.succeeded = true

/-- Some of these calls were executed, each at most once and in order, and none behind one that
failed. -/
def RanSome (box : Toolbox (StateM σ)) (calls : List Call) (trace : List Execution) : Prop :=
  (∃ made, made.Sublist calls ∧ List.Forall₂ (Runs box) made trace) ∧
    ∀ e ∈ trace.dropLast, e.succeeded = true

/-- What was executed if the evaluation of a call came to a result or an error. -/
def RanToResult (box : Toolbox (StateM σ)) (call : Call) (trace : List Execution) :
    Except CallError String → Prop
  | .ok _ => RanAll box (call.requested box) trace
  | .error _ => RanSome box (call.requested box) trace

/-- What was executed if a call against a log came to an outcome: not the call itself if it was
known. -/
def RanToOutcome (box : Toolbox (StateM σ)) (call : Call) (trace : List Execution) :
    CallOutcome → Prop
  | .ran _ _ => RanAll box (call.requested box) trace
  | .known _ _ => RanAll box (call.requested box).dropLast trace
  | .failed _ => RanSome box (call.requested box) trace

section order

variable {box : Toolbox (StateM σ)} {call : Call} {log log' : CallLog} {s s' : σ}
  {r : Except CallError String} {outcome : CallOutcome} {trace : List Execution}

theorem exists_evaluates (box : Toolbox (StateM σ)) (call : Call) (s : σ) :
    ∃ r s' trace, Evaluates box call s r s' trace := by
  obtain ⟨trace, hrec⟩ := runFrom_evaluate_recorded box call s []
  exact ⟨_, _, trace, rfl, hrec⟩

theorem exists_attempts (box : Toolbox (StateM σ)) (call : Call) (log : CallLog) (s : σ) :
    ∃ outcome log' s' trace, Attempts box call log s outcome log' s' trace := by
  obtain ⟨outcome, log', s', hstep⟩ := exists_callStep box call log s
  obtain ⟨trace, hrec⟩ := callStep_recorded hstep []
  exact ⟨outcome, log', s', trace, hstep.run_eq, hrec.run_eq⟩

theorem ended_of_evaluates (h : runFrom (box.recorded.evaluate call) (s, []) = (r, (s', trace))) :
    Ended box (call.requested box) (fun _ => True) trace r := by
  obtain ⟨r₁, s₁, new, hrun, hended⟩ := makes_evaluate call s []
  rw [hrun, List.nil_append] at h
  cases h
  exact hended

theorem ranAll_of_ended {α : Type} {calls : List Call} {a : α}
    (h : Ended box calls (fun _ => True) trace (.ok a)) : RanAll box calls trace := by
  obtain ⟨⟨made, -, hall, hruns⟩, hsucceeded⟩ := h
  exact ⟨hall trivial ▸ hruns, hsucceeded⟩

theorem ranSome_of_ended {α : Type} {calls : List Call} {P : α → Prop} {e : CallError}
    (h : Ended box calls P trace (.error e)) : RanSome box calls trace := by
  obtain ⟨⟨made, hsub, -, hruns⟩, hlast⟩ := h
  exact ⟨⟨made, hsub, hruns⟩, hlast⟩

theorem ranAll_of_ready {ready : ReadyCall (StateM (σ × List Execution))}
    (h : runFrom (box.recorded.ready call) (s, []) = (.ok ready, (s', trace))) :
    RanAll box (call.requested box).dropLast trace := by
  obtain ⟨hmakes, hready⟩ := @ready_spec σ box call
  obtain ⟨r₁, s₁, new, hrun, hended⟩ := hmakes s []
  obtain ⟨hknown, -⟩ := hready _ _ _ h
  rw [hrun, List.nil_append] at h
  cases h
  rw [requested_known hknown, List.dropLast_concat]
  exact ranAll_of_ended hended

theorem ran_of_evaluates (h : Evaluates box call s r s' trace) : RanToResult box call trace r := by
  have hended := ended_of_evaluates h.2
  cases r with
  | ok result => exact ranAll_of_ended hended
  | error e => exact ranSome_of_ended hended

theorem ran_of_attempts (h : Attempts box call log s outcome log' s' trace) :
    RanToOutcome box call trace outcome := by
  cases run_callOnce_iff.1 h.2 with
  | unready hready => exact ranSome_of_ended (ended_of_evaluates (evaluate_of_unready hready))
  | known hready _ => exact ranAll_of_ready hready
  | failed hready _ hrun =>
    exact ranSome_of_ended (ended_of_evaluates ((evaluate_of_ready hready).trans hrun))
  | ran hready _ hrun =>
    exact ranAll_of_ended (ended_of_evaluates ((evaluate_of_ready hready).trans hrun))

/-- Each call of a tool in the tree of a call is executed once, those below it first, and nothing
else is. A call that is known is not executed itself, and nothing is executed behind a tool that
failed. -/
theorem executions_in_order (box : Toolbox (StateM σ)) (call : Call) (s : σ) :
    (∃ r s' trace, Evaluates box call s r s' trace ∧ RanToResult box call trace r) ∧
    ∀ log, ∃ outcome log' s' trace, Attempts box call log s outcome log' s' trace ∧
      RanToOutcome box call trace outcome := by
  constructor
  · obtain ⟨r, s', trace, h⟩ := exists_evaluates box call s
    exact ⟨r, s', trace, h, ran_of_evaluates h⟩
  · intro log
    obtain ⟨outcome, log', s', trace, h⟩ := exists_attempts box call log s
    exact ⟨outcome, log', s', trace, h, ran_of_attempts h⟩

end order

def Execution.Typed (box : Toolbox (StateM σ)) (e : Execution) : Prop :=
  ∃ tool, box.find? e.name = some tool ∧
    ConformsAll (tool.signature.params.map Param.type) e.args

section values

variable {box : Toolbox (StateM σ)} {call : Call} {calls : List Call} {trace : List Execution}

theorem typed_of_runs {e : Execution} (h : Runs box call e) : e.Typed box := by
  obtain ⟨hname, results, hbinds⟩ := h
  obtain ⟨tool, htool, hargs⟩ := conformsAll_of_binds hbinds
  exact ⟨tool, hname ▸ htool, hargs⟩

theorem typed_of_forall₂ (h : List.Forall₂ (Runs box) calls trace) : ∀ e ∈ trace, e.Typed box :=
  forall_of_forall₂ h fun _ _ _ hruns => typed_of_runs hruns

theorem typed_of_ranAll (h : RanAll box calls trace) : ∀ e ∈ trace, e.Typed box :=
  typed_of_forall₂ h.1

theorem typed_of_ranSome (h : RanSome box calls trace) : ∀ e ∈ trace, e.Typed box := by
  obtain ⟨⟨made, -, hruns⟩, -⟩ := h
  exact typed_of_forall₂ hruns

/-- Whatever a call executes receives one value of the declared type for each parameter. The
arguments of a call are shared out exactly if the signature accepts their number, and then each
parameter finds its own by its position. -/
theorem executions_typed (box : Toolbox (StateM σ)) (call : Call) (s : σ) :
    (∃ r s' trace, Evaluates box call s r s' trace ∧ ∀ e ∈ trace, e.Typed box) ∧
    (∀ log, ∃ outcome log' s' trace, Attempts box call log s outcome log' s' trace ∧
      ∀ e ∈ trace, e.Typed box) ∧
    ∀ (signature : Signature) (args : List String),
      (assign? signature.params args).isSome = signature.accepts args.length ∧
      ∀ slots, assign? signature.params args = some slots → ∀ i < signature.params.length,
        ∃ slot, slotAt? signature.params args i = some slot ∧ slots[i]? = some slot := by
  refine ⟨?_, fun log => ?_, fun signature args => ⟨?_, ?_⟩⟩
  · obtain ⟨r, s', trace, h⟩ := exists_evaluates box call s
    refine ⟨r, s', trace, h, ?_⟩
    have hran := ran_of_evaluates h
    cases r with
    | ok result => exact typed_of_ranAll hran
    | error e => exact typed_of_ranSome hran
  · obtain ⟨outcome, log', s', trace, h⟩ := exists_attempts box call log s
    refine ⟨outcome, log', s', trace, h, ?_⟩
    have hran := ran_of_attempts h
    cases outcome with
    | ran key result => exact typed_of_ranAll hran
    | known key previous => exact typed_of_ranAll hran
    | failed e => exact typed_of_ranSome hran
  · exact isSome_assign? signature.name signature.description signature.params args
  · intro slots hslots i hi
    have hlen := congrArg List.length (map_type_assign? hslots)
    rw [List.length_map, List.length_map] at hlen
    have hslot : slots[i]? = some slots[i] := List.getElem?_eq_getElem (hlen ▸ hi)
    exact ⟨slots[i], (getElem?_assign? hslots i).symm.trans hslot, hslot⟩

end values

end ToolDialogue
