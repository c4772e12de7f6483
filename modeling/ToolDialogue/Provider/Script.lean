import ToolDialogue.Provider.Basic

/-! A provider that plays prepared replies. -/
namespace ToolDialogue

/-- What was sent to a provider. -/
structure Sent where
  messages : List Message
  tools : List Signature
  deriving DecidableEq, Repr, Inhabited

/-- Replies yet to come, the time that each coming send takes, and a record of what happened. -/
structure Script where
  info : ProviderInfo
  replies : List (Except RunError Response)
  delays : List Nat
  sent : List Sent
  noticed : List (Call × String)
  deriving Inhabited

/-- The script has no reply for a send. -/
inductive Exhausted where
  | noReply
  deriving DecidableEq, Repr

def Exhausted.message : Exhausted → String
  | noReply => "MockProvider: no queued responses remaining"

namespace Script

/-- What a script tells of itself unless told otherwise. -/
def standardInfo : ProviderInfo :=
  ⟨"mock", "mock-model"⟩

def new (info : ProviderInfo) : Script :=
  ⟨info, [], [], [], []⟩

/-- Adds a reply at the end, whose send takes `delay` milliseconds. -/
def queue (s : Script) (reply : Except RunError Response) (delay : Nat) : Script :=
  { s with replies := s.replies ++ [reply], delays := s.delays ++ [delay] }

def wait (s : Script) : Nat × Script :=
  match s.delays with
  | [] => (0, s)
  | delay :: rest => (delay, { s with delays := rest })

/-- Plays the next reply and keeps what was sent. -/
def send (s : Script) (messages : List Message) (tools : List Signature) :
    Except Exhausted (Except RunError Response × Script) :=
  match s.replies with
  | [] => .error .noReply
  | reply :: rest => .ok (reply, { s with replies := rest, sent := s.sent ++ [⟨messages, tools⟩] })

def notice (s : Script) (call : Call) (result : String) : Script :=
  { s with noticed := s.noticed ++ [(call, result)] }

/-- The provider that plays the script held in the state. -/
def provider {m : Type → Type} [Monad m] (name : String) :
    Provider (StateT Script (ExceptT Exhausted m)) where
  name := name
  wait := modifyGet wait
  send messages tools := do
    match (← get).send messages tools with
    | .ok (reply, s) =>
      set s
      return reply
    | .error e => throw e
  notice call result := modify (·.notice call result)

end Script

end ToolDialogue
