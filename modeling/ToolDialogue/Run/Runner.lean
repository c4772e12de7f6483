import ToolDialogue.Provider.Basic
import ToolDialogue.Strategy.Basic

/-! Runs of a conversation to an answer. In each turn the provider gets the conversation and the
tools, the strategy processes its response, the provider is told the calls that succeeded, and
the step that the strategy names is taken. A run ends with an answer, when the strategy fails,
when its turns are used up, or when the provider has taken longer than the time limit. -/
namespace ToolDialogue

structure Limits where
  maxTurns : Nat
  /-- The limit in milliseconds for the time that the provider takes in a run. -/
  timeoutMs : Option Nat
  deriving DecidableEq, Repr

def Limits.standard : Limits :=
  ⟨10, none⟩

instance : Inhabited Limits := ⟨.standard⟩

/-- The time limit, if the provider has taken longer. -/
def Limits.passed? (limits : Limits) (elapsedMs : Nat) : Option Nat :=
  limits.timeoutMs.filter (· < elapsedMs)

structure Outcome where
  answer : String
  /-- The turns used, failed ones among them. -/
  turns : Nat
  /-- The calls made since the last thread started. -/
  log : CallLog
  /-- How often a repeated call made a new thread start. -/
  interventions : Nat
  deriving DecidableEq, Repr

/-- The state of a run between two turns. -/
structure Progress where
  conversation : Conversation
  log : CallLog
  interventions : Nat
  lastError : Option String
  turns : Nat
  elapsedMs : Nat
  deriving DecidableEq, Repr

/-- A run goes on, or it is done with an outcome or an error. -/
inductive TurnEnd where
  | next (progress : Progress)
  | done (conversation : Conversation) (result : Except RunError Outcome)

namespace Progress

/-- The state at the start of a run. -/
def start (conversation : Conversation) : Progress :=
  ⟨conversation, .empty, 0, none, 0, 0⟩

/-- Takes the step that a turn names; `log` is the log after it. -/
def after (p : Progress) (turn : Turn) (log : CallLog) : TurnEnd :=
  match turn.next with
  | .finish | .finishFilled =>
    .done (p.conversation.append turn.messages)
      (.ok ⟨turn.answer?.getD "", p.turns, log, p.interventions⟩)
  | .proceed =>
    .next { p with
      conversation := p.conversation.append turn.messages
      log := log
      lastError := none }
  | .retry =>
    .next { p with
      conversation := p.conversation.append turn.messages
      log := log
      lastError := turn.messages.getLast?.map Message.content }
  | .restart =>
    .next { p with
      conversation := p.conversation.restart.append turn.messages
      log := .empty
      interventions := p.interventions + 1
      lastError := some "repeated an identical call" }

end Progress

structure Runner (m : Type → Type) where
  provider : Provider m
  toolbox : Toolbox m
  strategy : Strategy m
  limits : Limits

namespace Runner

variable {m : Type → Type} [Monad m]

/-- Hands a response to the strategy and takes the step it names. -/
def answered (r : Runner m) (p : Progress) (response : Response) : m TurnEnd := do
  match ← r.strategy.process r.toolbox p.conversation response p.log with
  | (.error e, _) => return .done p.conversation (.error (.callFailed (.call e)))
  | (.ok turn, log) =>
    turn.results.forM fun result => r.provider.notice result.1 result.2
    return p.after turn log

/-- One turn. The time limit is judged before anything is sent. -/
def turn (r : Runner m) (p : Progress) : m TurnEnd := do
  let delay ← r.provider.wait
  let p := { p with turns := p.turns + 1, elapsedMs := p.elapsedMs + delay }
  match r.limits.passed? p.elapsedMs with
  | some limit => return .done p.conversation (.error (.timeout limit))
  | none =>
    match ← r.provider.send p.conversation.messages r.toolbox.signatures with
    | .error e => return .next { p with lastError := some e.message }
    | .ok response => r.answered p response

/-- Takes up to `left` turns. -/
def turns (r : Runner m) : Nat → Progress → m (Except RunError Outcome × Conversation)
  | 0, p => return (.error (.outOfTurns p.turns p.lastError), p.conversation)
  | left + 1, p => do
    match ← r.turn p with
    | .next p => r.turns left p
    | .done conversation result => return (result, conversation)

/-- The conversation with the strategy's preamble, if it has one. -/
def opening (r : Runner m) (conversation : Conversation) : Conversation :=
  match r.strategy.preamble r.toolbox.signatures with
  | some message => conversation.withPreamble message
  | none => conversation

/-- Runs a conversation to an answer, and gives the conversation afterwards as well. -/
def run (r : Runner m) (conversation : Conversation) :
    m (Except RunError Outcome × Conversation) :=
  r.turns r.limits.maxTurns (.start (r.opening conversation))

/-- Runs a single request on a conversation of its own. -/
def ask (r : Runner m) (request : String) : m (Except RunError Outcome) :=
  Prod.fst <$> r.run (Conversation.empty.append [.user request])

end Runner

end ToolDialogue
