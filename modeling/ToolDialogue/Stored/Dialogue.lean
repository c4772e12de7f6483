import ToolDialogue.Dialogue.Conversation
import ToolDialogue.Provider.Basic
import ToolDialogue.Stored.Record

/-! Stored forms of messages, calls, responses, conversations and providers. -/
namespace ToolDialogue

open Json (Value)
open Stored

namespace Role

def encode (r : Role) : Value :=
  .string r.name

def decode? (v : Value) : Option Role := do
  let name ← name? v
  [system, user, assistant, tool].find? (·.name = name)

end Role

namespace Message

def encode (m : Message) : Value :=
  .object ([("role", m.role.encode), ("content", .string m.content)] ++
    (m.call.map fun key => ("call", Value.string key)).toList)

def decode? (v : Value) : Option Message := do
  let [role, content, call] ← fields? ["role", "content", "call"] v | none
  return ⟨← Role.decode? (← role), ← string? (← content), ← optional? string? call⟩

end Message

namespace Call

def encode (c : Call) : Value :=
  .object [("name", .string c.name), ("args", strings c.args)]

def decode? (v : Value) : Option Call := do
  let [name, args] ← fields? ["name", "args"] v | none
  return ⟨← string? (← name), ← list? string? (← args)⟩

end Call

namespace Response

def encode (r : Response) : Value :=
  .object [("text", .string r.text), ("calls", .array (r.calls.map Call.encode))]

def decode? (v : Value) : Option Response := do
  let [text, calls] ← fields? ["text", "calls"] v | none
  return ⟨← string? (← text), ← optionalList? Call.decode? calls⟩

end Response

namespace Conversation

def encode (c : Conversation) : Value :=
  .object [("system", (c.preamble.map Message.encode).getD .null),
    ("messages", .array (c.thread.map Message.encode)),
    ("threads_started", ofUInt32 c.restarts)]

def decode? (v : Value) : Option Conversation := do
  let [preamble, thread, restarts] ← fields? ["system", "messages", "threads_started"] v | none
  return ⟨← optional? Message.decode? preamble, ← list? Message.decode? (← thread),
    ← uint32? (← restarts)⟩

end Conversation

namespace ProviderInfo

def encode (info : ProviderInfo) : Value :=
  .object [("name", .string info.name), ("model", .string info.model)]

def decode? (v : Value) : Option ProviderInfo := do
  let [name, model] ← fields? ["name", "model"] v | none
  return ⟨← string? (← name), ← string? (← model)⟩

end ProviderInfo

end ToolDialogue
