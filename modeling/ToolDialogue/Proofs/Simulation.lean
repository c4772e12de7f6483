import ToolDialogue.Proofs.Binding

/-! Toolboxes of the same signatures are evaluated alike: what relates the runs of their tools
relates the evaluation of every call. -/
namespace ToolDialogue

open Json (Value)

variable {m n : Type → Type}

/-- The tool with another body. -/
def Tool.withBody (tool : Tool m) (body : List Value → n (Except ToolFailure Output)) : Tool n :=
  ⟨tool.signature, tool.attachment, body⟩

namespace Toolbox

variable (body : Tool m → List Value → n (Except ToolFailure Output))

def withBodies (box : Toolbox m) : Toolbox n where
  tools := box.tools.map fun tool => tool.withBody (body tool)
  ascending := List.pairwise_map.2 box.ascending

theorem find?_withBodies (box : Toolbox m) (name : String) :
    (box.withBodies body).find? name = (box.find? name).map fun tool => tool.withBody (body tool) :=
  List.find?_map

theorem contains_withBodies (box : Toolbox m) (name : String) :
    (box.withBodies body).contains name = box.contains name := by
  rw [contains, find?_withBodies, Option.isSome_map, contains]

end Toolbox

/-- A relation between computations that contains equal results and equal errors and that
sequencing keeps. -/
structure Simulation (m n : Type → Type) [Monad m] [Monad n] where
  Rel {α β : Type} (R : α → β → Prop) : ExceptT CallError m α → ExceptT CallError n β → Prop
  pure {α β : Type} {R : α → β → Prop} {a : α} {b : β} (h : R a b) : Rel R (pure a) (pure b)
  throw {α β : Type} {R : α → β → Prop} (e : CallError) : Rel R (throw e) (throw e)
  bind {α β γ δ : Type} {R : α → β → Prop} {S : γ → δ → Prop} {x : ExceptT CallError m α}
    {y : ExceptT CallError n β} {f : α → ExceptT CallError m γ} {g : β → ExceptT CallError n δ}
    (h : Rel R x y) (hf : ∀ a b, R a b → Rel S (f a) (g b)) : Rel S (x >>= f) (y >>= g)

namespace Simulation

variable [Monad m] [Monad n] (sim : Simulation m n)

theorem converted (param : String) (type : ValueType) (arg : Argument) :
    sim.Rel Eq (converted param type arg) (converted param type arg) := by
  unfold ToolDialogue.converted
  split
  · exact sim.pure rfl
  · exact sim.throw _

variable [LawfulMonad m] [LawfulMonad n]

theorem mapM {α β : Type} {f : α → ExceptT CallError m β} {g : α → ExceptT CallError n β}
    {items : List α} (h : ∀ item ∈ items, sim.Rel Eq (f item) (g item)) :
    sim.Rel Eq (items.mapM f) (items.mapM g) := by
  induction items with
  | nil => exact sim.pure rfl
  | cons item rest ih =>
    obtain ⟨hitem, hrest⟩ := List.forall_mem_cons.1 h
    rw [List.mapM_cons, List.mapM_cons]
    refine sim.bind hitem fun b _ hb => sim.bind (ih hrest) fun bs _ hbs => ?_
    subst hb hbs
    exact sim.pure rfl

section evaluation

variable {box : Toolbox m} {body : Tool m → List Value → n (Except ToolFailure Output)}
  {run : Nat → Call → ExceptT CallError m String} {run' : Nat → Call → ExceptT CallError n String}
  (hrun : ∀ passed call, sim.Rel Eq (run passed call) (run' passed call))
include hrun

theorem settle (lists passed : Nat) (arg : Argument) : sim.Rel Eq (box.settle run lists passed arg)
    ((box.withBodies body).settle run' lists passed arg) := by
  have hname : ∀ {name b}, box.contains name = b → (box.withBodies body).contains name = b :=
    fun h => (box.contains_withBodies body _).trans h
  induction lists, passed, arg using box.settle_induct with
  | known lists passed call h =>
    rw [Toolbox.settle_known _ _ h, Toolbox.settle_known _ _ (hname h)]
    refine sim.bind (hrun passed call) fun a _ ha => ?_
    subst ha
    exact sim.pure rfl
  | unknown passed call h =>
    rw [Toolbox.settle_unknown _ h, Toolbox.settle_unknown _ (hname h)]
    exact sim.throw _
  | listed lists passed call h ih =>
    rw [Toolbox.settle_listed _ _ h, Toolbox.settle_listed _ _ (hname h)]
    refine sim.bind (sim.mapM fun arg _ => ih arg) fun a _ ha => ?_
    subst ha
    exact sim.pure rfl
  | closed passed items =>
    rw [Toolbox.settle_group_zero, Toolbox.settle_group_zero]
    exact sim.pure rfl
  | group lists passed items ih =>
    rw [Toolbox.settle_group, Toolbox.settle_group]
    refine sim.bind (sim.mapM fun item _ => ih item) fun a _ ha => ?_
    subst ha
    exact sim.pure rfl
  | plain lists passed arg hcall hgroup =>
    rw [Toolbox.settle_plain _ _ hcall hgroup, Toolbox.settle_plain _ _ hcall hgroup]
    exact sim.pure rfl

theorem valueOf (param : String) (type : ValueType) (arg : String) :
    sim.Rel Eq (box.valueOf run param type arg) ((box.withBodies body).valueOf run' param type arg) := by
  refine sim.bind (sim.settle hrun _ _ _) fun a _ ha => ?_
  subst ha
  exact sim.converted param type a

theorem listOf (param : String) (elem : ValueType) (args : List String) :
    sim.Rel Eq (box.listOf run param elem args) ((box.withBodies body).listOf run' param elem args) := by
  unfold Toolbox.listOf
  split
  · refine sim.bind (sim.settle hrun _ _ _) fun a _ ha => ?_
    subst ha
    split
    · exact sim.converted _ _ _
    · refine sim.bind (sim.converted param elem a) fun v _ hv => ?_
      subst hv
      exact sim.pure rfl
  · refine sim.bind (sim.mapM fun arg _ => sim.valueOf hrun param elem arg) fun a _ ha => ?_
    subst ha
    exact sim.pure rfl

theorem fill (slot : String × Slot) :
    sim.Rel Eq (box.fill run slot) ((box.withBodies body).fill run' slot) := by
  obtain ⟨param, ⟨type, arg⟩ | ⟨elem, args⟩⟩ := slot
  · exact sim.valueOf hrun param type arg
  · exact sim.listOf hrun param elem args

/-- What is ready is ready on both sides, with the same values. -/
def Ready (box : Toolbox m) (body : Tool m → List Value → n (Except ToolFailure Output))
    (ready : ReadyCall m) (ready' : ReadyCall n) : Prop :=
  ready.tool ∈ box.tools ∧ ready' = ⟨ready.tool.withBody (body ready.tool), ready.args⟩

theorem readyWith (call : Call) : sim.Rel (Ready box body) (box.readyWith run call)
    ((box.withBodies body).readyWith run' call) := by
  have hfind := box.find?_withBodies body call.name
  cases htool : box.find? call.name with
  | none =>
    rw [htool] at hfind
    rw [Toolbox.readyWith_unknown htool, Toolbox.readyWith_unknown hfind]
    exact sim.throw _
  | some tool =>
    rw [htool] at hfind
    cases hslots : assign? tool.signature.params call.args with
    | none =>
      rw [Toolbox.readyWith_count htool hslots, Toolbox.readyWith_count hfind hslots]
      exact sim.throw _
    | some slots =>
      rw [Toolbox.readyWith_slots htool hslots, Toolbox.readyWith_slots hfind hslots]
      refine sim.bind (sim.mapM fun slot _ => sim.fill hrun slot) fun a _ ha => ?_
      subst ha
      exact sim.pure ⟨Toolbox.mem_of_find? htool, rfl⟩

end evaluation

section runs

variable {box : Toolbox m} {body : Tool m → List Value → n (Except ToolFailure Output)}
  (hbody : ∀ tool ∈ box.tools, ∀ args, sim.Rel Eq (ReadyCall.run ⟨tool, args⟩)
    (ReadyCall.run ⟨tool.withBody (body tool), args⟩))
include hbody

theorem readyWithin (room : Nat) (call : Call) : sim.Rel (Ready box body)
    (box.readyWithin room call) ((box.withBodies body).readyWithin room call) := by
  induction room using Nat.strongRecOn generalizing call with
  | ind room ih =>
    cases room with
    | zero =>
      rw [Toolbox.readyWithin_zero, Toolbox.readyWithin_zero]
      exact sim.throw _
    | succ room =>
      rw [Toolbox.readyWithin_succ, Toolbox.readyWithin_succ]
      refine sim.readyWith (fun passed inner => ?_) call
      refine sim.bind (ih (room - passed) (by omega) inner) fun ready _ h => ?_
      obtain ⟨htool, rfl⟩ := h
      exact hbody _ htool _

theorem ready (call : Call) :
    sim.Rel (Ready box body) (box.ready call) ((box.withBodies body).ready call) :=
  sim.readyWithin hbody nestingLimit call

theorem evaluate (call : Call) :
    sim.Rel Eq (box.evaluate call) ((box.withBodies body).evaluate call) := by
  refine sim.bind (sim.ready hbody call) fun ready _ h => ?_
  obtain ⟨htool, rfl⟩ := h
  exact hbody _ htool _

end runs

end Simulation

end ToolDialogue
