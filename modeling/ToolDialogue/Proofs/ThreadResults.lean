import ToolDialogue.Proofs.ResponseTurns

/-! The results in a thread and the log of a turn-by-turn run stay in step: what a provider sees
of the calls made since the last restart is what repeated calls are recognised by. -/
namespace ToolDialogue

variable {σ : Type}

def resultsIn (messages : List Message) : List Message :=
  messages.filter (·.role = .tool)

def Entry.message (e : Entry) : Message :=
  .result e.key e.result

theorem call_message (e : Entry) : e.message.call = some e.key := rfl

/-- What the rounds so far left in the thread, once this one is done. -/
def Round.written (before : List Message) (round : Round) : List Message :=
  match round.event with
  | .answered _ turn _ => if turn.next = .restart then turn.messages else before ++ turn.messages
  | _ => before

def Round.restarts (round : Round) : Bool :=
  match round.event with
  | .answered _ turn _ => turn.next = .restart
  | _ => false

/-- The messages of these rounds in the thread that the last of them leaves. -/
def written (rounds : List Round) : List Message :=
  rounds.foldl Round.written []

/-- The state of a run that started with the conversation `start`, after these rounds. -/
structure InStep (start : Conversation) (rounds : List Round) (conversation : Conversation)
    (log : CallLog) (interventions : Nat) : Prop where
  /-- A restart drops what the thread held at the start. -/
  thread : conversation.thread =
    (if interventions = 0 then start.thread else []) ++ written rounds
  results : resultsIn (written rounds) = log.entries.map Entry.message
  distinct : ((resultsIn (written rounds)).map Message.call).Nodup
  count : interventions = rounds.countP Round.restarts
  restarts : conversation.restarts = start.restarts + .ofNat interventions

namespace InStep

variable {start conversation : Conversation} {rounds : List Round} {log log' : CallLog}
  {interventions : Nat} {round : Round}

theorem of_results
    (thread : conversation.thread =
      (if interventions = 0 then start.thread else []) ++ written rounds)
    (results : resultsIn (written rounds) = log.entries.map Entry.message)
    (count : interventions = rounds.countP Round.restarts)
    (restarts : conversation.restarts = start.restarts + .ofNat interventions) :
    InStep start rounds conversation log interventions := by
  refine ⟨thread, results, ?_, count, restarts⟩
  have hcalls : (log.entries.map Entry.message).map Message.call =
      (log.entries.map Entry.key).map some := by
    simp [List.map_map, Function.comp_def, call_message]
  rw [results, hcalls]
  exact List.Pairwise.map some (fun _ _ hne heq => hne (Option.some.inj heq)) log.distinct

theorem written_concat (rounds : List Round) (round : Round) :
    written (rounds ++ [round]) = round.written (written rounds) := by
  simp [written]

theorem reset (h : InStep start rounds conversation log interventions) {messages : List Message}
    (hwritten : ∀ before, round.written before = messages) (hrestarts : round.restarts = true)
    (hresults : resultsIn messages = []) :
    InStep start (rounds ++ [round]) (conversation.restart.append messages) .empty
      (interventions + 1) := by
  have hw : written (rounds ++ [round]) = messages := by
    rw [written_concat, hwritten]
  refine of_results ?_ ?_ ?_ ?_
  · rw [hw]
    rfl
  · rw [hw, hresults]
    rfl
  · simp [h.count, hrestarts]
  · show conversation.restarts + 1 = _
    rw [h.restarts, UInt32.ofNat_add, UInt32.add_assoc, UInt32.ofNat_one]

end InStep

/-- `P` holds of what a turn leaves, unless the run failed. -/
def TurnEnd.Leaves (P : Conversation → CallLog → Nat → Prop) : TurnEnd → Prop
  | .next p => P p.conversation p.log p.interventions
  | .done conversation (.ok outcome) => P conversation outcome.log outcome.interventions
  | .done _ (.error _) => True

variable {r : Runner (StateM σ)} {nudging : Bool} {start : Conversation} {rounds : List Round}
  {round : Round}

end ToolDialogue
