import ToolDialogue.Proofs.Agreement
import ToolDialogue.Proofs.ResultText

/-! Evaluation looks up no tools but those that an expression names: what else a toolbox holds does
not matter, whatever the tools return. -/
namespace ToolDialogue

namespace Toolbox

section filter

variable {m : Type → Type} {box : Toolbox m} {c : Call} {names : List String}

theorem find?_filter {keep : String → Bool} {name : String} (h : keep name = true) :
    (box.filter keep).find? name = box.find? name := by
  rw [find?, filter, List.find?_filter, find?]
  congr 1
  funext tool
  -- only the tool of this name counts, and that one is kept
  cases hname : tool.name == name with
  | false => simp
  | true => simp [eq_of_beq hname, h]

theorem sameTools_filter {keep : String → Bool} (h : ∀ d ∈ c.postorder, keep d.name = true) :
    (box.filter keep).SameTools box c :=
  fun d hd => find?_filter (h d hd)

theorem sameTools_restrict (h : ∀ d ∈ c.postorder, d.name ∈ names) :
    (box.restrict names).SameTools box c :=
  sameTools_filter fun d hd => List.contains_iff_mem.2 (h d hd)

theorem sameTools_erase (h : ∀ d ∈ c.postorder, d.name ∉ names) :
    (box.erase names).SameTools box c := by
  refine sameTools_filter fun d hd => ?_
  rw [Bool.not_eq_true', Bool.eq_false_iff, Ne, List.contains_iff_mem]
  exact h d hd

end filter

section record

variable {σ : Type} {box box' : Toolbox (StateM σ)} {call : Call}

/-- A call goes alike with both toolboxes, from every state: it comes to the same result or error
with the same executions, and so it does against every log. -/
structure GoesAlike (box box' : Toolbox (StateM σ)) (call : Call) : Prop where
  evaluate : box.evaluate call = box'.evaluate call
  executions : box.recorded.evaluate call = box'.recorded.evaluate call
  callOnce : ∀ log, box.callOnce call log = box'.callOnce call log
  callOnce_executions : ∀ log, box.recorded.callOnce call log = box'.recorded.callOnce call log

theorem SameTools.recorded (h : box.SameTools box' call) :
    box.recorded.SameTools box'.recorded call := by
  intro d hd
  rw [Toolbox.recorded, Toolbox.recorded, find?_withBodies, find?_withBodies, h d hd]

theorem SameTools.goesAlike (h : box.SameTools box' call) : box.GoesAlike box' call where
  evaluate := evaluate_agree h
  executions := evaluate_agree h.recorded
  callOnce := callOnce_agree h
  callOnce_executions := callOnce_agree h.recorded

/-- A call goes in the same way if the toolbox is restricted to names among which are those of the
calls in its tree, or if names are taken away among which are none of these. -/
theorem named_tools_suffice (box : Toolbox (StateM σ)) (call : Call) (names : List String) :
    ((∀ c ∈ call.postorder, c.name ∈ names) → (box.restrict names).GoesAlike box call) ∧
      ((∀ c ∈ call.postorder, c.name ∉ names) → (box.erase names).GoesAlike box call) :=
  ⟨fun h => (sameTools_restrict h).goesAlike, fun h => (sameTools_erase h).goesAlike⟩

end record

end Toolbox

namespace Echo

/-- The tool `answer` does not matter to the echo of a title. -/
theorem title_without_answer :
    (∀ c ∈ Call.postorder ⟨"echo", ["title()"]⟩, c.name ∉ ["answer"]) ∧
      (box.erase ["answer"]).GoesAlike box ⟨"echo", ["title()"]⟩ := by
  have hread : Argument.ofText "title()" = .call ⟨"title", []⟩ := ofText_fixed "title" (by decide)
  have htree : Call.postorder ⟨"echo", ["title()"]⟩ = [⟨"title", []⟩, ⟨"echo", ["title()"]⟩] := by
    have htitle : Call.postorder ⟨"title", []⟩ = [⟨"title", []⟩] := Call.postorder_eq _
    rw [Call.postorder_eq, Call.inner, List.flatMap_singleton, hread, Argument.calls,
      List.flatMap_singleton, htitle]
    rfl
  have hnames : ∀ c ∈ Call.postorder ⟨"echo", ["title()"]⟩, c.name ∉ ["answer"] := by
    rw [htree]
    intro c hc
    rcases List.mem_pair.1 hc with rfl | rfl <;> simp
  exact ⟨hnames, (Toolbox.named_tools_suffice box _ _).2 hnames⟩

end Echo

end ToolDialogue
