import ToolDialogue.Proofs.Executions

/-! Attempts: calls one after another against the same log. Each key runs at most once, and the
log is the list of what ran. -/
namespace ToolDialogue

variable {σ : Type}

section logs

variable {log : CallLog} {key result : String}

theorem filter_key_of_nodup {entries : List Entry} (hd : (entries.map Entry.key).Nodup) {e : Entry}
    (h : e ∈ entries) : entries.filter (·.key == e.key) = [e] := by
  induction entries with
  | nil => contradiction
  | cons first rest ih =>
    rw [List.map_cons, List.nodup_cons] at hd
    rcases List.mem_cons.1 h with rfl | hmem
    · have hrest : rest.filter (·.key == e.key) = [] := by
        rw [List.filter_eq_nil_iff]
        intro other hother hkey
        exact hd.1 (List.mem_map.2 ⟨other, hother, eq_of_beq hkey⟩)
      rw [List.filter_cons_of_pos (by simp), hrest]
    · have hne : first.key ≠ e.key := fun heq => hd.1 (heq ▸ List.mem_map_of_mem hmem)
      rw [List.filter_cons_of_neg (by simpa using hne)]
      exact ih hd.2 hmem

theorem filter_key_of_find? (h : log.find? key = some result) :
    log.entries.filter (·.key == key) = [⟨key, result⟩] :=
  filter_key_of_nodup log.distinct (CallLog.find?_eq_some_iff.1 h)

theorem find?_of_entries {log' : CallLog} {more : List Entry}
    (h : log'.entries = log.entries ++ more) (hfind : log.find? key = some result) :
    log'.find? key = some result := by
  rw [CallLog.find?_eq_some_iff] at hfind ⊢
  rw [h]
  exact List.mem_append_left _ hfind

end logs

/-- A call against a log, with what it came to. -/
structure Step (σ : Type) where
  call : Call
  log : CallLog
  state : σ
  outcome : CallOutcome
  log' : CallLog
  state' : σ

def Step.Valid (box : Toolbox (StateM σ)) (step : Step σ) : Prop :=
  StateT.run (box.callOnce step.call step.log) step.state = ((step.outcome, step.log'), step.state')

/-- Calls one after another against one log. Between two of them the state of the tools may
change in other ways. -/
inductive Attempt (box : Toolbox (StateM σ)) : CallLog → List (Step σ) → CallLog → Prop
  | done (log : CallLog) : Attempt box log [] log
  | call {step : Step σ} {rest : List (Step σ)} {final : CallLog} :
      step.Valid box → Attempt box step.log' rest final → Attempt box step.log (step :: rest) final

theorem exists_attempt (box : Toolbox (StateM σ)) (log : CallLog) (calls : List (Call × σ)) :
    ∃ steps final, Attempt box log steps final ∧
      steps.map (fun step => (step.call, step.state)) = calls := by
  induction calls generalizing log with
  | nil => exact ⟨[], log, .done log, rfl⟩
  | cons first rest ih =>
    obtain ⟨call, s⟩ := first
    obtain ⟨outcome, log', s', hstep⟩ := exists_callStep box call log s
    obtain ⟨steps, final, hrest, hcalls⟩ := ih log'
    have hvalid : Step.Valid box ⟨call, log, s, outcome, log', s'⟩ := hstep.run_eq
    exact ⟨_, final, .call hvalid hrest, by rw [List.map_cons, hcalls]⟩

def CallOutcome.entry? : CallOutcome → Option Entry
  | .ran key result => some ⟨key, result⟩
  | _ => none

/-- The result that a call came to, whether its tool ran or not. -/
def CallOutcome.result? : CallOutcome → Option String
  | ran _ result => some result
  | known _ previous => some previous
  | failed _ => none

def entered (steps : List (Step σ)) : List Entry :=
  steps.filterMap fun step => step.outcome.entry?

section steps

variable {box : Toolbox (StateM σ)} {call : Call} {log log' : CallLog} {s s' : σ}
  {outcome : CallOutcome}

theorem entries_of_callStep (h : CallStep box call log s outcome log' s') :
    log'.entries = log.entries ++ outcome.entry?.toList := by
  cases h with
  | ran _ hlog _ => exact CallLog.entries_put_of_find? hlog
  | _ => exact (List.append_nil _).symm

theorem log_of_entry?_eq_none (h : CallStep box call log s outcome log' s')
    (hnone : outcome.entry? = none) : log' = log := by
  cases h with
  | ran => contradiction
  | _ => rfl

theorem known_of_callStep {key previous : String}
    (h : CallStep box call log s (.known key previous) log' s') :
    log.find? key = some previous ∧
      ∃ ready, runFrom (box.ready call) s = (.ok ready, s') ∧ ready.key = key := by
  cases h with
  | known hready hlog => exact ⟨hlog, _, hready, rfl⟩

theorem find?_of_result {result : String} (h : CallStep box call log s outcome log' s')
    (hresult : outcome.result? = some result) :
    ∃ ready s₁, runFrom (box.ready call) s = (.ok ready, s₁) ∧
      (outcome = .ran ready.key result ∨ outcome = .known ready.key result) ∧
      log'.find? ready.key = some result := by
  cases h with
  | unready => contradiction
  | failed => contradiction
  | known hready hlog =>
    cases hresult
    exact ⟨_, _, hready, .inr rfl, hlog⟩
  | @ran ready s₁ _ _ hready hlog _ =>
    cases hresult
    refine ⟨ready, s₁, hready, .inl rfl, ?_⟩
    rw [CallLog.find?_eq_some_iff, CallLog.entries_put_of_find? hlog]
    simp

end steps

section attempts

variable {box : Toolbox (StateM σ)} {log final : CallLog} {step : Step σ} {steps : List (Step σ)}

theorem entries_of_attempt (h : Attempt box log steps final) :
    final.entries = log.entries ++ entered steps := by
  induction h with
  | done log => exact (List.append_nil _).symm
  | @call step rest final hvalid _ ih =>
    rw [ih, entries_of_callStep (run_callOnce_iff.1 hvalid), List.append_assoc, entered, entered,
      List.filterMap_cons]
    cases step.outcome.entry? <;> rfl

theorem attempt_append {before later : List (Step σ)}
    (h : Attempt box log (before ++ step :: later) final) :
    Attempt box log before step.log ∧ step.Valid box := by
  induction before generalizing log with
  | nil =>
    cases h with
    | call hvalid _ => exact ⟨.done _, hvalid⟩
  | cons first rest ih =>
    cases h with
    | call hvalid hrest =>
      obtain ⟨hbefore, hstep⟩ := ih hrest
      exact ⟨.call hvalid hbefore, hstep⟩

/-- What an attempt leaves behind, call by call. -/
structure KeepsLog (box : Toolbox (StateM σ)) (log : CallLog) (steps : List (Step σ))
    (final : CallLog) : Prop where
  /-- The log grows by the results, in order. -/
  entries : final.entries = log.entries ++ entered steps
  /-- No key runs twice, or runs although the log had it. -/
  distinct : ((log.entries ++ entered steps).map Entry.key).Nodup
  /-- A known call gives the one result under its key so far. It only is made ready: all calls
  below it are executed, but it is not. -/
  known : ∀ before step later, steps = before ++ step :: later →
    ∀ key previous, step.outcome = .known key previous →
      (log.entries ++ entered before).filter (·.key == key) = [⟨key, previous⟩] ∧
      (∃ ready, runFrom (box.ready step.call) step.state = (.ok ready, step.state') ∧
        ready.key = key) ∧
      ∃ trace, Attempts box step.call step.log step.state step.outcome step.log' step.state' trace ∧
        RanAll box (step.call.requested box).dropLast trace
  /-- A call that fails or is known leaves the log as it was. -/
  unchanged : ∀ step ∈ steps, step.outcome.entry? = none → step.log' = step.log

/-- Attempts keep the log. Where the key of a call is not in the log, the call comes to what its
evaluation comes to. -/
theorem attempt_keepsLog (h : Attempt box log steps final) : KeepsLog box log steps final ∧
    ∀ call log s outcome log' s',
      StateT.run (box.callOnce call log) s = ((outcome, log'), s') →
      (∀ ready s₁, runFrom (box.ready call) s = (.ok ready, s₁) → log.find? ready.key = none) →
        (∀ result, (∃ key, outcome = .ran key result) ↔
          (runFrom (box.evaluate call) s).1 = .ok result) ∧
        (∀ e, outcome = .failed e ↔ (runFrom (box.evaluate call) s).1 = .error e) ∧
        (runFrom (box.evaluate call) s).2 = s' := by
  have hentries := entries_of_attempt h
  refine ⟨⟨hentries, hentries ▸ final.distinct, ?_, ?_⟩, ?_⟩
  · rintro before step later rfl key previous houtcome
    obtain ⟨hbefore, hvalid⟩ := attempt_append h
    have hstep := run_callOnce_iff.1 hvalid
    obtain ⟨trace, hrec⟩ := callStep_recorded hstep []
    have hattempts : Attempts box step.call step.log step.state step.outcome step.log' step.state'
        trace := ⟨hvalid, hrec.run_eq⟩
    have hran := ran_of_attempts hattempts
    rw [houtcome] at hstep hran
    obtain ⟨hfind, hready⟩ := known_of_callStep hstep
    refine ⟨?_, hready, trace, hattempts, hran⟩
    rw [← entries_of_attempt hbefore]
    exact filter_key_of_find? hfind
  · intro step hmem hnone
    obtain ⟨before, later, rfl⟩ := List.append_of_mem hmem
    exact log_of_entry?_eq_none (run_callOnce_iff.1 (attempt_append h).2) hnone
  · intro call log s outcome log' s' hrun hnew
    rcases callStep_evaluate (run_callOnce_iff.1 hrun) hnew with
      ⟨e, rfl, heval⟩ | ⟨key, result, rfl, heval⟩
    · rw [heval]
      simp
    · rw [heval]
      simp

end attempts

namespace Counter

def tick : Tool (StateM Nat) where
  signature := .named "tick" ""
  attachment := .custom
  run _ := fun n => pure (.ok (.ofInt64 (.ofNat (n + 1))), n + 1)

def box : Toolbox (StateM Nat) :=
  .ofList [tick]

theorem ready_tick (n : Nat) : runFrom (box.ready ⟨"tick", []⟩) n = (.ok ⟨tick, []⟩, n) := by
  have htool : box.find? "tick" = some tick := rfl
  have hslots : assign? tick.signature.params [] = some [] := rfl
  rw [Toolbox.ready, nestingLimit, Toolbox.readyWithin_succ, Toolbox.readyWith_slots htool hslots]
  rfl

def first : Step Nat :=
  ⟨⟨"tick", []⟩, .empty, 0, .ran "tick()" "1", CallLog.empty.put "tick()" "1", 1⟩

/-- The second call is known, though the counter would give another result. -/
def second : Step Nat :=
  ⟨⟨"tick", []⟩, first.log', 1, .known "tick()" "1", first.log', 1⟩

theorem attempt_twice : Attempt box .empty [first, second] first.log' := by
  have hran : CallStep box ⟨"tick", []⟩ .empty 0 (.ran "tick()" "1") first.log' 1 :=
    .ran (ready_tick 0) rfl rfl
  have hknown : CallStep box ⟨"tick", []⟩ first.log' 1 (.known "tick()" "1") first.log' 1 :=
    .known (ready_tick 1) rfl
  have hfirst : first.Valid box := hran.run_eq
  have hsecond : second.Valid box := hknown.run_eq
  have hdone : Attempt box second.log' [] first.log' := .done _
  have hlast : Attempt box first.log' [second] first.log' := hdone.call hsecond
  exact .call hfirst hlast

theorem keepsLog_twice : Attempt box .empty [first, second] first.log' ∧
    KeepsLog box .empty [first, second] first.log' :=
  ⟨attempt_twice, (attempt_keepsLog attempt_twice).1⟩

end Counter

end ToolDialogue
