import ToolDialogue.Proofs.Course
import ToolDialogue.Proofs.Policies
import ToolDialogue.Proofs.Simulation
import ToolDialogue.Provider.Script

/-! Runs with a record: of what the provider was sent, of the calls that were tried for each of its
responses, and of the calls that it was told of. The record changes nothing else. -/
namespace ToolDialogue

variable {σ α : Type}

structure RunRecord where
  sent : List Sent
  /-- What became of the calls, response by response. -/
  tried : List (List Tried)
  noticed : List (Call × String)
  deriving DecidableEq, Repr

namespace RunRecord

def empty : RunRecord :=
  ⟨[], [], []⟩

instance : Inhabited RunRecord := ⟨empty⟩

def send (record : RunRecord) (sent : Sent) : RunRecord :=
  { record with sent := record.sent ++ [sent] }

def respond (record : RunRecord) (tried : List Tried) : RunRecord :=
  { record with tried := record.tried ++ [tried] }

def notice (record : RunRecord) (results : List (Call × String)) : RunRecord :=
  { record with noticed := record.noticed ++ results }

end RunRecord

theorem run_map_of_run {β : Type} {x : StateM σ α} {f : α → β} {s s' : σ} {a : α}
    (h : StateT.run x s = (a, s')) : StateT.run (f <$> x) s = (f a, s') :=
  congrArg (fun (out : α × σ) => (f out.1, out.2)) h

/-- Does the same and changes the record by what that gives. -/
def noted (x : StateM σ α) (change : RunRecord → α → RunRecord) : StateM (σ × RunRecord) α :=
  fun (s, record) =>
    let (a, s') := StateT.run x s
    pure (a, (s', change record a))

theorem run_noted {x : StateM σ α} {s s' : σ} {a : α} (h : StateT.run x s = (a, s'))
    (change : RunRecord → α → RunRecord) (record : RunRecord) :
    StateT.run (noted x change) (s, record) = (a, (s', change record a)) :=
  congrArg (fun (out : α × σ) => (out.1, (out.2, change record out.1))) h

def Provider.recorded (provider : Provider (StateM σ)) : Provider (StateM (σ × RunRecord)) where
  name := provider.name
  wait := noted provider.wait fun record _ => record
  send messages tools :=
    noted (provider.send messages tools) fun record _ => record.send ⟨messages, tools⟩
  notice call result :=
    noted (provider.notice call result) fun record _ => record.notice [(call, result)]

/-- The same tools beside a record. -/
def Toolbox.beside (box : Toolbox (StateM σ)) : Toolbox (StateM (σ × RunRecord)) :=
  box.withBodies fun tool args => noted (tool.run args) fun record _ => record

theorem Toolbox.signatures_beside (box : Toolbox (StateM σ)) :
    box.beside.signatures = box.signatures := by
  simp [signatures, beside, withBodies, Tool.withBody, Function.comp_def]

namespace Policy

variable (policy : Policy) (provider : Provider (StateM σ)) (box : Toolbox (StateM σ))
  (limits : Limits)

/-- The strategy that records what became of the calls for which it made use of the tools. -/
def recorded : Strategy (StateM (σ × RunRecord)) where
  name := (policy.strategy : Strategy (StateM σ)).name
  preamble := (policy.strategy : Strategy (StateM σ)).preamble
  process _ conversation response log :=
    (fun (tried, log) => (policy.conclude box.names conversation response tried log, log)) <$>
      noted (policy.tries box response log) fun record (tried, _) => record.respond tried

def runner : Runner (StateM σ) :=
  ⟨provider, box, policy.strategy, limits⟩

def recordedRunner : Runner (StateM (σ × RunRecord)) :=
  ⟨provider.recorded, box.beside, policy.recorded box, limits⟩

theorem opening_recordedRunner (conversation : Conversation) :
    (policy.recordedRunner provider box limits).opening conversation =
      (policy.runner provider box limits).opening conversation := by
  unfold Runner.opening
  simp only [recordedRunner, recorded, runner, Toolbox.signatures_beside]

end Policy

/-- What a round adds to the record. -/
inductive Round.Adds (policy : Policy) (box : Toolbox (StateM σ)) :
    Round → RunRecord → RunRecord → Prop
  | overdue {p : Progress} {delay limit : Nat} {record : RunRecord} :
      Adds policy box ⟨p, delay, .overdue limit⟩ record record
  | refused {p : Progress} {delay : Nat} {error : RunError} {record : RunRecord} :
      Adds policy box ⟨p, delay, .refused error⟩ record
        (record.send ⟨p.conversation.messages, box.signatures⟩)
  | stopped {p : Progress} {delay : Nat} {response : Response} {error : CallError}
      {record : RunRecord} {tried : List Tried} {log : CallLog}
      (htried : UpTo policy.halts (policy.asked response) tried)
      (hmade : policy.conclude box.names p.conversation response tried log = .error error) :
      Adds policy box ⟨p, delay, .stopped response error⟩ record
        ((record.send ⟨p.conversation.messages, box.signatures⟩).respond tried)
  | answered {p : Progress} {delay : Nat} {response : Response} {turn : Turn} {log : CallLog}
      {record : RunRecord} {tried : List Tried}
      (htried : UpTo policy.halts (policy.asked response) tried)
      (hmade : policy.conclude box.names p.conversation response tried log = .ok turn) :
      Adds policy box ⟨p, delay, .answered response turn log⟩ record
        (((record.send ⟨p.conversation.messages, box.signatures⟩).respond tried).notice
          turn.results)

section takes

variable {policy : Policy} {provider : Provider (StateM σ)} {box : Toolbox (StateM σ)}
  {limits : Limits} {s s' : σ}

theorem upTo_of_tryCalls {halts : CallOutcome → Bool} {calls : List Call} {log log' : CallLog}
    {tried : List Tried}
    (h : StateT.run (box.tryCalls halts calls log) s = ((tried, log'), s')) :
    UpTo halts calls tried := by
  induction calls generalizing log s tried with
  | nil =>
    cases h
    exact .done
  | cons call rest ih =>
    cases hcall : StateT.run (box.callOnce call log) s with | mk out s₁ =>
    obtain ⟨outcome, log₁⟩ := out
    rw [Toolbox.tryCalls, run_bind_of_run hcall] at h
    cases hhalts : halts outcome with
    | true =>
      simp only [hhalts] at h
      cases h
      exact .halted hhalts
    | false =>
      cases hrest : StateT.run (box.tryCalls halts rest log₁) s₁ with | mk out s₂ =>
      simp only [hhalts, Bool.false_eq_true, if_false] at h
      rw [run_bind_of_run hrest] at h
      cases h
      exact .next hhalts (ih hrest)

theorem run_wait_recorded {delay : Nat} (h : StateT.run provider.wait s = (delay, s'))
    (record : RunRecord) : StateT.run provider.recorded.wait (s, record) = (delay, (s', record)) :=
  run_noted h (fun record _ => record) record

theorem run_send_recorded {messages : List Message} {tools : List Signature}
    {reply : Except RunError Response}
    (h : StateT.run (provider.send messages tools) s = (reply, s')) (record : RunRecord) :
    StateT.run (provider.recorded.send messages tools) (s, record) =
      (reply, (s', record.send ⟨messages, tools⟩)) :=
  run_noted h (fun record _ => record.send ⟨messages, tools⟩) record

theorem run_notice_recorded {results : List (Call × String)}
    (h : StateT.run (results.forM fun result => provider.notice result.1 result.2) s = ((), s'))
    (record : RunRecord) :
    StateT.run (results.forM fun result => provider.recorded.notice result.1 result.2) (s, record) =
      ((), (s', record.notice results)) := by
  rw [List.forM_eq_forM] at h ⊢
  induction results generalizing s record with
  | nil =>
    cases h
    show ((), (s', record)) = _
    simp [RunRecord.notice]
  | cons first rest ih =>
    cases hfirst : StateT.run (provider.notice first.1 first.2) s with | mk u s₁ =>
    have hnoted : StateT.run (provider.recorded.notice first.1 first.2) (s, record) =
        (u, (s₁, record.notice [first])) :=
      run_noted hfirst (fun record _ => record.notice [first]) record
    rw [List.forM_cons, run_bind_of_run hfirst] at h
    rw [List.forM_cons, run_bind_of_run hnoted, ih h]
    simp [RunRecord.notice]

theorem sends_recorded {p : Progress} {delay : Nat} {reply : Except RunError Response}
    (h : (policy.runner provider box limits).Sends p delay s reply s') (record : RunRecord) :
    (policy.recordedRunner provider box limits).Sends p delay (s, record) reply
      (s', record.send ⟨p.conversation.messages, box.signatures⟩) := by
  obtain ⟨s₁, hwait, hpassed, hsend⟩ := h
  refine ⟨(s₁, record), run_wait_recorded hwait record, hpassed, ?_⟩
  show StateT.run (provider.recorded.send p.conversation.messages box.beside.signatures) _ = _
  rw [box.signatures_beside]
  exact run_send_recorded hsend record

theorem exists_tries {conversation : Conversation} {response : Response} {log log' : CallLog}
    {made : Except CallError Turn}
    (h : StateT.run (policy.strategy.process box conversation response log) s = ((made, log'), s')) :
    ∃ tried, UpTo policy.halts (policy.asked response) tried ∧
      policy.conclude box.names conversation response tried log' = made ∧
      ∀ record, StateT.run ((policy.recorded box).process box.beside conversation response log)
        (s, record) = ((made, log'), (s', record.respond tried)) := by
  cases htries : StateT.run (policy.tries box response log) s with | mk out s₁ =>
  obtain ⟨tried, log₁⟩ := out
  rw [Policy.process_eq, run_map_of_run htries] at h
  cases h
  refine ⟨tried, upTo_of_tryCalls htries, rfl, fun record => ?_⟩
  exact run_map_of_run (run_noted htries (fun record out => record.respond out.1) record)

theorem takes_recorded {round : Round} (h : (policy.runner provider box limits).Takes s round s')
    (record : RunRecord) :
    ∃ record', (policy.recordedRunner provider box limits).Takes (s, record) round (s', record') ∧
      round.Adds policy box record record' := by
  cases h with
  | overdue hwait hpassed => exact ⟨record, .overdue (run_wait_recorded hwait record) hpassed, .overdue⟩
  | refused hsend => exact ⟨_, .refused (sends_recorded hsend record), .refused⟩
  | stopped hsend hprocess =>
    obtain ⟨tried, htried, hmade, hrecorded⟩ := exists_tries hprocess
    exact ⟨_, .stopped (sends_recorded hsend record) (hrecorded _), .stopped htried hmade⟩
  | answered hsend hprocess hnotice =>
    obtain ⟨tried, htried, hmade, hrecorded⟩ := exists_tries hprocess
    exact ⟨_, .answered (sends_recorded hsend record) (hrecorded _) (run_notice_recorded hnotice _),
      .answered htried hmade⟩

end takes

/-- What rounds add to the record, one after another. -/
inductive Recorded (policy : Policy) (box : Toolbox (StateM σ)) :
    List Round → RunRecord → RunRecord → Prop
  | nil (record : RunRecord) : Recorded policy box [] record record
  | cons {round : Round} {rounds : List Round} {record record₁ record' : RunRecord}
      (hround : round.Adds policy box record record₁)
      (hrest : Recorded policy box rounds record₁ record') :
      Recorded policy box (round :: rounds) record record'

def Round.sent? (tools : List Signature) (round : Round) : Option Sent :=
  round.event.reply?.map fun _ => ⟨round.progress.conversation.messages, tools⟩

theorem Round.Adds.sent {policy : Policy} {box : Toolbox (StateM σ)} {round : Round}
    {record record' : RunRecord} (h : round.Adds policy box record record') :
    record'.sent = record.sent ++ (round.sent? box.signatures).toList := by
  cases h with
  | overdue => exact (List.append_nil _).symm
  | _ => rfl

theorem Recorded.sent {policy : Policy} {box : Toolbox (StateM σ)} {rounds : List Round}
    {record record' : RunRecord} (h : Recorded policy box rounds record record') :
    record'.sent = record.sent ++ rounds.filterMap (Round.sent? box.signatures) := by
  induction h with
  | nil => exact (List.append_nil _).symm
  | @cons round rounds record record₁ record' hround _ ih =>
    rw [ih, hround.sent, List.append_assoc, List.filterMap_cons]
    cases round.sent? box.signatures <;> rfl

section courses

variable {policy : Policy} {provider : Provider (StateM σ)} {box : Toolbox (StateM σ)}
  {limits : Limits} {left : Nat} {p : Progress} {s s' : σ} {rounds : List Round}
  {out : Except RunError Outcome × Conversation}

theorem course_recorded (h : Course (policy.runner provider box limits) left p s rounds out s')
    (record : RunRecord) :
    ∃ record', Course (policy.recordedRunner provider box limits) left p (s, record) rounds out
        (s', record') ∧ Recorded policy box rounds record record' := by
  induction h generalizing record with
  | spent p s => exact ⟨record, .spent p _, .nil record⟩
  | done htakes hdone =>
    obtain ⟨record', htakes', hadds⟩ := takes_recorded htakes record
    exact ⟨record', .done htakes' hdone, .cons hadds (.nil record')⟩
  | next htakes hnext _ ih =>
    obtain ⟨record₁, htakes', hadds⟩ := takes_recorded htakes record
    obtain ⟨record', hcourse, hrecorded⟩ := ih record₁
    exact ⟨record', .next htakes' hnext hcourse, .cons hadds hrecorded⟩

/-- A run, its course, and what is recorded if the same run is recorded. -/
structure RunsTo (policy : Policy) (provider : Provider (StateM σ)) (box : Toolbox (StateM σ))
    (limits : Limits) (conversation : Conversation) (s : σ) (rounds : List Round)
    (out : Except RunError Outcome × Conversation) (s' : σ) (record : RunRecord) : Prop where
  plain : StateT.run ((policy.runner provider box limits).run conversation) s = (out, s')
  recorded : StateT.run ((policy.recordedRunner provider box limits).run conversation) (s, .empty) =
    (out, (s', record))
  course : Course (policy.runner provider box limits) limits.maxTurns
    (.start ((policy.runner provider box limits).opening conversation)) s rounds out s'

theorem exists_runsTo (policy : Policy) (provider : Provider (StateM σ)) (box : Toolbox (StateM σ))
    (limits : Limits) (conversation : Conversation) (s : σ) : ∃ rounds out s' record,
    RunsTo policy provider box limits conversation s rounds out s' record ∧
      Recorded policy box rounds .empty record := by
  obtain ⟨rounds, out, s', hcourse⟩ := exists_course (policy.runner provider box limits)
    limits.maxTurns (.start ((policy.runner provider box limits).opening conversation)) s
  obtain ⟨record, hrecorded, hgrows⟩ := course_recorded hcourse .empty
  refine ⟨rounds, out, s', record, ⟨hcourse.run_eq, ?_, hcourse⟩, hgrows⟩
  rw [Runner.run, Policy.opening_recordedRunner]
  exact hrecorded.run_eq

end courses

end ToolDialogue
