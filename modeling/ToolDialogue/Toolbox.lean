import ToolDialogue.Tool.Basic

/-! A toolbox holds one tool for each name, in ascending order of names. -/
namespace ToolDialogue

variable {m : Type → Type}

/-- Puts a tool in its place among tools in ascending order of names; a tool of the same name
is replaced. -/
def insertTool (tool : Tool m) : List (Tool m) → List (Tool m)
  | [] => [tool]
  | t :: rest =>
    if tool.name < t.name then tool :: t :: rest
    else if tool.name = t.name then tool :: rest
    else t :: insertTool tool rest

theorem mem_insertTool {tool t : Tool m} {tools : List (Tool m)} (h : t ∈ insertTool tool tools) :
    t = tool ∨ t ∈ tools := by
  induction tools with
  | nil => simpa [insertTool] using h
  | cons u rest ih =>
    simp only [insertTool] at h
    split at h
    · simpa using h
    · split at h
      · simp only [List.mem_cons] at h ⊢
        exact h.imp_right .inr
      · simp only [List.mem_cons] at h ⊢
        rcases h with h | h
        · exact .inr (.inl h)
        · exact (ih h).imp_right .inr

theorem pairwise_insertTool (tool : Tool m) {tools : List (Tool m)}
    (h : tools.Pairwise fun a b => a.name < b.name) :
    (insertTool tool tools).Pairwise fun a b => a.name < b.name := by
  induction tools with
  | nil => simp [insertTool]
  | cons t rest ih =>
    obtain ⟨ht, hr⟩ := List.pairwise_cons.1 h
    simp only [insertTool]
    split
    · rename_i hlt
      refine List.pairwise_cons.2 ⟨fun u hu => ?_, h⟩
      rcases List.mem_cons.1 hu with rfl | hu
      · exact hlt
      · exact String.lt_trans hlt (ht u hu)
    · split
      · rename_i heq
        exact List.pairwise_cons.2 ⟨fun u hu => heq ▸ ht u hu, hr⟩
      · rename_i hlt hne
        refine List.pairwise_cons.2 ⟨fun u hu => ?_, ih hr⟩
        rcases mem_insertTool hu with rfl | hu
        · exact Std.lt_of_le_of_ne (String.not_lt.1 hlt) (Ne.symm hne)
        · exact ht u hu

structure Toolbox (m : Type → Type) where
  tools : List (Tool m)
  ascending : tools.Pairwise fun a b => a.name < b.name

namespace Toolbox

def empty : Toolbox m :=
  ⟨[], .nil⟩

instance : Inhabited (Toolbox m) := ⟨empty⟩

/-- Adds a tool under its name, in place of a tool that has the name already. -/
def add (box : Toolbox m) (tool : Tool m) : Toolbox m :=
  ⟨insertTool tool box.tools, pairwise_insertTool tool box.ascending⟩

/-- The toolbox to which these tools are added one after another. -/
def ofList (tools : List (Tool m)) : Toolbox m :=
  tools.foldl add empty

def find? (box : Toolbox m) (name : String) : Option (Tool m) :=
  box.tools.find? (·.name == name)

def contains (box : Toolbox m) (name : String) : Bool :=
  (box.find? name).isSome

def signature? (box : Toolbox m) (name : String) : Option Signature :=
  (box.find? name).map Tool.signature

/-- The signatures in ascending order of names. -/
def signatures (box : Toolbox m) : List Signature :=
  box.tools.map Tool.signature

/-- The names in ascending order. -/
def names (box : Toolbox m) : List String :=
  box.tools.map Tool.name

def size (box : Toolbox m) : Nat :=
  box.tools.length

def filter (box : Toolbox m) (keep : String → Bool) : Toolbox m :=
  ⟨box.tools.filter fun tool => keep tool.name, box.ascending.filter _⟩

/-- The toolbox less the tools of these names. -/
def erase (box : Toolbox m) (names : List String) : Toolbox m :=
  box.filter fun name => !names.contains name

/-- The toolbox of only the tools of these names. -/
def restrict (box : Toolbox m) (names : List String) : Toolbox m :=
  box.filter names.contains

end Toolbox

end ToolDialogue
