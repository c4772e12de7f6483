import ToolDialogue.Proofs.CarriedResults
import ToolDialogue.Proofs.Scanning

/-! Which calls of a response a turn makes: the longest prefix of them that succeeds, and the call
behind it, if there is one. That call is a repeat or fails, and no call behind it matters. -/
namespace ToolDialogue

variable {σ : Type}

/-- What succeeds, call after call, each against the log that the one before it left. -/
inductive Succeed (box : Toolbox (StateM σ)) :
    CallLog → σ → List Performed → List Execution → CallLog → σ → Prop
  | none (log : CallLog) (s : σ) : Succeed box log s [] [] log s
  | more {p : Performed} {log log₁ log' : CallLog} {s s₁ s' : σ} {performed : List Performed}
      {trace traces : List Execution}
      (hran : Attempts box p.call log s (.ran p.key p.result) log₁ s₁ trace)
      (hrest : Succeed box log₁ s₁ performed traces log' s') :
      Succeed box log s (p :: performed) (trace ++ traces) log' s'

/-- What stops these calls: nothing if there are none, and else the first of them. -/
inductive Halts (box : Toolbox (StateM σ)) (log : CallLog) (s : σ) :
    List Call → Stop → List Execution → σ → Prop
  | none : Halts box log s [] .none [] s
  | repeated {call : Call} {key previous : String} {trace : List Execution} {s' : σ}
      (hknown : Attempts box call log s (.known key previous) log s' trace) (later : List Call) :
      Halts box log s (call :: later) (.repeated key previous) trace s'
  | failed {call : Call} {error : CallError} {trace : List Execution} {s' : σ}
      (hfailed : Attempts box call log s (.failed error) log s' trace) (later : List Call) :
      Halts box log s (call :: later) (.failed call error) trace s'

section calls

variable {box : Toolbox (StateM σ)} {call : Call} {calls rest : List Call}
  {log log₁ log₂ log' : CallLog} {s s₁ s₂ s' : σ} {outcome outcome' : CallOutcome}
  {performed longer : List Performed} {stop : Stop} {trace ran more : List Execution}

theorem Attempts.callStep (h : Attempts box call log s outcome log' s' trace) :
    CallStep box call log s outcome log' s' :=
  run_callOnce_iff.1 h.1

theorem Attempts.recorded (h : Attempts box call log s outcome log' s' trace)
    (before : List Execution) :
    CallStep box.recorded call log (s, before) outcome log' (s', before ++ trace) := by
  obtain ⟨new, hnew⟩ := callStep_recorded_anywhere h.callStep
  have heq : ((outcome, log'), (s', [] ++ new)) = ((outcome, log'), (s', trace)) :=
    (hnew []).run_eq.symm.trans h.2
  have htrace : new = trace := by simpa using heq
  exact htrace ▸ hnew before

theorem exists_attempts_of_callStep (h : CallStep box call log s outcome log' s') :
    ∃ trace, Attempts box call log s outcome log' s' trace := by
  obtain ⟨trace, hrec⟩ := callStep_recorded h []
  exact ⟨trace, h.run_eq, hrec.run_eq⟩

theorem CallStep.unique (h : CallStep box call log s outcome log₁ s₁)
    (h' : CallStep box call log s outcome' log₂ s₂) :
    outcome = outcome' ∧ log₁ = log₂ ∧ s₁ = s₂ := by
  have heq : ((outcome, log₁), s₁) = ((outcome', log₂), s₂) := h.run_eq.symm.trans h'.run_eq
  simpa [and_assoc] using heq

theorem Halts.with_others {later : List Call} (h : Halts box log s (call :: later) stop trace s')
    (others : List Call) : Halts box log s (call :: others) stop trace s' := by
  cases h with
  | repeated hknown => exact .repeated hknown others
  | failed hfailed => exact .failed hfailed others

theorem exists_succeed (h : MakesCalls box calls log s performed stop log' s') :
    ∃ rest s₁ ran more, calls = performed.map Performed.call ++ rest ∧
      Succeed box log s performed ran log' s₁ ∧ Halts box log' s₁ rest stop more s' := by
  induction h with
  | done log s => exact ⟨[], s, [], [], rfl, .none log s, .none⟩
  | ran hstep _ ih =>
    obtain ⟨rest, s₁, ran, more, rfl, hsucceed, hhalts⟩ := ih
    obtain ⟨trace, hran⟩ := exists_attempts_of_callStep hstep
    exact ⟨rest, s₁, trace ++ ran, more, rfl, .more hran hsucceed, hhalts⟩
  | known hstep =>
    obtain rfl := log_of_entry?_eq_none hstep rfl
    obtain ⟨trace, hknown⟩ := exists_attempts_of_callStep hstep
    exact ⟨_, _, [], trace, rfl, .none _ _, .repeated hknown _⟩
  | failed hstep =>
    obtain rfl := log_of_entry?_eq_none hstep rfl
    obtain ⟨trace, hfailed⟩ := exists_attempts_of_callStep hstep
    exact ⟨_, _, [], trace, rfl, .none _ _, .failed hfailed _⟩

theorem makesCalls_of_halts (h : Halts box log s rest stop more s') (before : List Execution) :
    MakesCalls box.recorded rest log (s, before) [] stop log (s', before ++ more) := by
  cases h with
  | none =>
    rw [List.append_nil]
    exact .done _ _
  | repeated hknown => exact .known (hknown.recorded before)
  | failed hfailed => exact .failed (hfailed.recorded before)

theorem makesCalls_of_succeed (h : Succeed box log s performed ran log' s₁)
    (hhalts : Halts box log' s₁ rest stop more s') (before : List Execution) :
    MakesCalls box.recorded (performed.map Performed.call ++ rest) log (s, before) performed stop
      log' (s', before ++ (ran ++ more)) := by
  induction h generalizing before with
  | none => exact makesCalls_of_halts hhalts before
  | @more p _ _ _ _ _ _ _ trace traces hran _ ih =>
    have hlater := ih hhalts (before ++ trace)
    rw [List.append_assoc, ← List.append_assoc trace] at hlater
    exact .ran (hran.recorded before) hlater

theorem isPrefix_of_succeed (h : Succeed box log s longer ran log₁ s₁)
    (hmade : MakesCalls box (longer.map Performed.call ++ rest) log s performed stop log' s') :
    longer <+: performed := by
  induction h generalizing performed with
  | none => exact List.nil_prefix
  | more hran _ ih =>
    cases hmade with
    | ran hstep hrest =>
      obtain ⟨houtcome, rfl, rfl⟩ := hran.callStep.unique hstep
      cases houtcome
      exact List.cons_prefix_cons.2 ⟨rfl, ih hrest⟩
    | known hstep => cases (hran.callStep.unique hstep).1
    | failed hstep => cases (hran.callStep.unique hstep).1

theorem lines_of_makesCalls (h : MakesCalls box calls log s performed stop log' s') :
    log'.lines = log.lines ++ String.join (performed.map fun p => p.entry.line) := by
  rw [CallLog.lines_eq, CallLog.lines_eq, entries_of_makesCalls h, List.map_append,
    String.join_append, List.map_map]
  rfl

theorem keys_of_makesCalls (h : MakesCalls box calls log s performed stop log' s') :
    (∀ p ∈ performed, p.key ∉ log.entries.map Entry.key) ∧
      (performed.map Performed.key).Nodup := by
  have hkeys : (performed.map Performed.entry).map Entry.key = performed.map Performed.key := by
    rw [List.map_map]
    rfl
  have hdistinct := log'.distinct
  rw [entries_of_makesCalls h, List.map_append, hkeys] at hdistinct
  obtain ⟨-, hnodup, hdisjoint⟩ := List.nodup_append.1 hdistinct
  refine ⟨fun p hp hmem => ?_, hnodup⟩
  exact hdisjoint _ hmem _ (List.mem_map_of_mem hp) rfl

end calls

namespace TurnByTurn

/-- The request that a restart states again. -/
def requestOf (conversation : Conversation) : String :=
  match conversation.lastRequest? with
  | some message => requestIn message.content
  | none => "(no request found)"

/-- What is said, and what is given back for the calls that succeeded. A response without text says
the calls that it asks for. -/
def given (response : Response) (performed : List Performed) : List Message :=
  let said := if response.text.toList.all Text.isBlank then
    "\n".intercalate (response.calls.map Call.text) else response.text
  ⟨.assistant, said, none⟩ :: performed.map fun p => ⟨.tool, p.result, some p.key⟩

/-- What a correction says besides the error: which functions there are, if the call named none of
them. -/
def available (error : CallError) (names : List String) : String :=
  if error.isUnknownTool then " Available functions: " ++ ", ".intercalate names ++ "." else ""

/-- The next action and the messages of a turn, by what stops it behind the calls that succeeded. -/
inductive Exits (nudging : Bool) (names : List String) (conversation : Conversation)
    (response : Response) (performed : List Performed) (log : CallLog) :
    Stop → NextStep → List Message → Prop
  | proceed : Exits nudging names conversation response performed log .none .proceed
      (given response performed ++ if nudging then [.system ("If these results answer the " ++
        "request, state your final answer now without further calls.")] else [])
  | retry (call : Call) (error : CallError) :
      Exits nudging names conversation response performed log (.failed call error) .retry
        (given response performed ++
          [.system (s!"The call `{call.text}` failed: {error.message}." ++ available error names ++
            " Correct the call and try again.")])
  | restart {key previous : String} (hlog : log.find? key = some previous) :
      Exits nudging names conversation response performed log (.repeated key previous) .restart
        [.system (s!"`{key}` was already called and returned {previous}. " ++
            "Repeating a call does not change its result."),
          .user ("Original request:\n" ++ requestOf conversation ++
            "\n\nResults obtained so far:\n" ++ log.lines ++
            s!"\nUse these results to answer the request. Do not call `{key}` again.")]

/-- A turn makes the calls of `performed`, the longest prefix of the calls that succeeds, and the
first of the rest if there is any. -/
structure MakesPrefix (nudging : Bool) (box : Toolbox (StateM σ)) (conversation : Conversation)
    (response : Response) (log : CallLog) (s : σ) (performed : List Performed) (rest : List Call)
    (turn : Turn) (log' : CallLog) (s' : σ) (trace : List Execution) : Prop where
  run : StateT.run ((Strategy.turnByTurn nudging).process box conversation response log) s =
    ((.ok turn, log'), s')
  recorded : StateT.run
      ((Strategy.turnByTurn nudging).process box.recorded conversation response log) (s, []) =
    ((.ok turn, log'), (s', trace))
  calls : response.calls = performed.map Performed.call ++ rest
  made : ∃ s₁ ran more stop, trace = ran ++ more ∧ Succeed box log s performed ran log' s₁ ∧
    Halts box log' s₁ rest stop more s' ∧
    Exits nudging box.names conversation response performed log' stop turn.next turn.messages
  longest : ∀ longer others ran log₁ s₁, response.calls = longer.map Performed.call ++ others →
    Succeed box log s longer ran log₁ s₁ → longer <+: performed
  /-- Other calls behind the one that stops the turn would have made no difference. -/
  behind : ∀ call later others, rest = call :: later →
    StateT.run (runCalls box.recorded response.calls log) (s, []) =
      StateT.run (runCalls box.recorded (performed.map Performed.call ++ call :: others) log) (s, [])
  results : turn.results = performed.map fun p => (p.call, p.result)
  entries : log'.entries = log.entries ++ performed.map Performed.entry
  lines : log'.lines = log.lines ++ String.join (performed.map fun p => p.entry.line)
  fresh : ∀ p ∈ performed, p.key ∉ log.entries.map Entry.key
  distinct : (performed.map Performed.key).Nodup

section turns

variable {nudging : Bool} {box : Toolbox (StateM σ)} {conversation : Conversation}
  {response : Response} {log log' : CallLog} {s s' : σ} {performed : List Performed} {stop : Stop}

theorem names_recorded (box : Toolbox (StateM σ)) : box.recorded.names = box.names := by
  rw [Toolbox.names, Toolbox.recorded, Toolbox.names, Toolbox.withBodies, List.map_map]
  rfl

theorem given_eq (response : Response) (performed : List Performed) : given response performed =
    .assistant (spoken response) :: performed.map fun p => .result p.key p.result := by
  have hblank : (Text.trim response.text.toList).isEmpty =
      response.text.toList.all Text.isBlank := by
    rw [Bool.eq_iff_iff, List.isEmpty_iff, Text.trim_eq_nil_iff, List.all_eq_true]
  rw [given, spoken, hblank]
  rfl

theorem exits_turn (names : List String)
    (h : MakesCalls box response.calls log s performed stop log' s') :
    Exits nudging names conversation response performed log' stop
      (turn nudging conversation response names performed stop log').next
      (turn nudging conversation response names performed stop log').messages := by
  cases stop with
  | none =>
    simp only [turn, ← given_eq]
    exact .proceed
  | repeated key previous => exact .restart (find?_of_repeated h)
  | failed call error =>
    simp only [turn, ← given_eq]
    exact .retry call error

theorem exists_makesPrefix (nudging : Bool) (conversation : Conversation)
    (hcalls : response.calls ≠ [])
    (h : MakesCalls box response.calls log s performed stop log' s') :
    ∃ rest trace, MakesPrefix nudging box conversation response log s performed rest
      (turn nudging conversation response box.names performed stop log') log' s' trace := by
  obtain ⟨rest, s₁, ran, more, hsplit, hsucceed, hhalts⟩ := exists_succeed h
  have hrecorded := makesCalls_of_succeed hsucceed hhalts []
  refine ⟨rest, ran ++ more, ?_⟩
  constructor
  case run => exact (Processes.called hcalls h).run_eq
  case recorded =>
    rw [← names_recorded box]
    exact (Processes.called hcalls (hsplit ▸ hrecorded)).run_eq
  case calls => exact hsplit
  case made => exact ⟨s₁, ran, more, stop, rfl, hsucceed, hhalts, exits_turn box.names h⟩
  case longest =>
    intro longer others ran₁ log₁ s₂ hlonger hran
    exact isPrefix_of_succeed hran (hlonger ▸ h)
  case behind =>
    rintro call later others rfl
    have hothers := makesCalls_of_succeed hsucceed (hhalts.with_others others) []
    rw [hsplit, hrecorded.run_eq, hothers.run_eq]
  case results => cases stop <;> rfl
  case entries => exact entries_of_makesCalls h
  case lines => exact lines_of_makesCalls h
  case fresh => exact (keys_of_makesCalls h).1
  case distinct => exact (keys_of_makesCalls h).2

/-- A turn whose response asks for calls makes them in order up to the first that repeats an earlier
one or fails, with that one as the last. Which turn it is depends on what that one comes to; what
succeeded before is in the results and in the log in every case. -/
theorem turn_makes_longest_prefix (nudging : Bool) (box : Toolbox (StateM σ))
    (conversation : Conversation) (response : Response) (log : CallLog) (s : σ)
    (hcalls : response.calls ≠ []) :
    ∃ performed rest turn log' s' trace,
      MakesPrefix nudging box conversation response log s performed rest turn log' s' trace := by
  obtain ⟨performed, stop, log', s', hmade⟩ := exists_makesCalls box response.calls log s
  obtain ⟨rest, trace, h⟩ := exists_makesPrefix nudging conversation hcalls hmade
  exact ⟨performed, rest, _, log', s', trace, h⟩

end turns

end TurnByTurn

namespace Counter

/-- What a response that asks for two ticks comes to: the first is in the results, and the second
restarts the thread. -/
def secondTick : Turn where
  next := .restart
  messages :=
    [⟨.system, "`tick()` was already called and returned 1. " ++
        "Repeating a call does not change its result.", none⟩,
      ⟨.user, "Original request:\nCount.\n\nResults obtained so far:\n- tick() = 1\n\n" ++
        "Use these results to answer the request. Do not call `tick()` again.", none⟩]
  results := [(⟨"tick", []⟩, "1")]

theorem second_tick_restarts : (twice "tick").calls ≠ [] ∧
    ∃ performed rest log' s' trace,
      TurnByTurn.MakesPrefix true clock (Conversation.empty.append [.user "Count."]) (twice "tick")
        .empty 0 performed rest secondTick log' s' trace := by
  have hcalls : (twice "tick").calls ≠ [] := by decide
  obtain ⟨performed, rest, turn, log', s', trace, h⟩ := TurnByTurn.turn_makes_longest_prefix true
    clock (Conversation.empty.append [.user "Count."]) (twice "tick") .empty 0 hcalls
  have hturn : (StateT.run ((Strategy.turnByTurn true).process clock
      (Conversation.empty.append [.user "Count."]) (twice "tick") .empty) 0).1.1 =
        .ok secondTick := by decide +kernel
  rw [h.run] at hturn
  obtain rfl : turn = secondTick := Except.ok.inj hturn
  exact ⟨hcalls, performed, rest, log', s', trace, h⟩

end Counter

end ToolDialogue
