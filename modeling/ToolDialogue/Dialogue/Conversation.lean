import ToolDialogue.Dialogue.Message

/-! A conversation: a thread of messages, and a preamble that stays when a new thread starts. -/
namespace ToolDialogue

structure Conversation where
  preamble : Option Message
  /-- The messages of the current thread, the oldest first. -/
  thread : List Message
  /-- How often a new thread was started. -/
  restarts : UInt32
  deriving DecidableEq, Repr

namespace Conversation

def empty : Conversation :=
  ⟨none, [], 0⟩

instance : Inhabited Conversation := ⟨empty⟩

def withPreamble (c : Conversation) (message : Message) : Conversation :=
  { c with preamble := some message }

def append (c : Conversation) (messages : List Message) : Conversation :=
  { c with thread := c.thread ++ messages }

/-- Starts a new thread. -/
def restart (c : Conversation) : Conversation :=
  { c with thread := [], restarts := c.restarts + 1 }

/-- The preamble and then the thread. -/
def messages (c : Conversation) : List Message :=
  c.preamble.toList ++ c.thread

def size (c : Conversation) : Nat :=
  c.messages.length

/-- The latest message of the user in the current thread. -/
def lastRequest? (c : Conversation) : Option Message :=
  c.thread.reverse.find? (·.role = .user)

end Conversation

end ToolDialogue
