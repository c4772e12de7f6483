import Mathlib.Data.List.Forall2
import ToolDialogue.Proofs.CallTree

/-! What evaluation takes from a toolbox: the tools that the calls in an expression name, and nothing
else. Toolboxes that agree on these make the expression ready alike. -/
namespace ToolDialogue

variable {m : Type → Type}

section slots

variable {R : String → String → Prop} {args args' : List String}

/-- Slots of one kind whose arguments are related one by one. -/
inductive Slot.Rel (R : String → String → Prop) : Slot → Slot → Prop
  | single (type : ValueType) {arg arg' : String} : R arg arg' →
      Slot.Rel R (.single type arg) (.single type arg')
  | rest (elem : ValueType) {args args' : List String} : List.Forall₂ R args args' →
      Slot.Rel R (.rest elem args) (.rest elem args')

theorem rel_assign? (params : List Param) (h : List.Forall₂ R args args') :
    (assign? params args = none ∧ assign? params args' = none) ∨
      ∃ slots slots', assign? params args = some slots ∧ assign? params args' = some slots' ∧
        List.Forall₂ (fun slot slot' => slot.1 = slot'.1 ∧ slot.2.Rel R slot'.2) slots slots' := by
  fun_induction assign? params args generalizing args' with
  | case1 =>
    cases h
    exact .inr ⟨[], [], rfl, rfl, .nil⟩
  | case2 arg args =>
    cases h
    exact .inl ⟨rfl, rfl⟩
  | case3 name elem description args =>
    exact .inr ⟨_, [(name, .rest elem args')], rfl, by rw [assign?], .cons ⟨rfl, .rest elem h⟩ .nil⟩
  | case4 param params hv =>
    cases h
    exact .inl ⟨rfl, by rw [assign?]; exact hv⟩
  | case5 param params arg args hv ih =>
    cases h with
    | @cons _ arg' _ args' harg hargs =>
      have hassign : assign? (param :: params) (arg' :: args') =
          (assign? params args').map ((param.name, .single param.type arg') :: ·) := by
        rw [assign?]
        exact hv
      rw [hassign]
      rcases ih hargs with ⟨hnone, hnone'⟩ | ⟨slots, slots', hs, hs', hslots⟩
      · exact .inl ⟨by rw [hnone]; rfl, by rw [hnone']; rfl⟩
      · rw [hs, hs']
        exact .inr ⟨_, _, rfl, rfl, .cons ⟨rfl, .single param.type harg⟩ hslots⟩

end slots

theorem mapM_congr {n : Type → Type} [Monad n] [LawfulMonad n] {α β γ : Type} {f : α → n γ}
    {g : β → n γ} {as : List α} {bs : List β} (h : List.Forall₂ (fun a b => f a = g b) as bs) :
    as.mapM f = bs.mapM g := by
  induction h with
  | nil => rfl
  | cons hab _ ih => rw [List.mapM_cons, List.mapM_cons, hab, ih]

/-- Passes from a call to the calls among its arguments, which stand a level further down. -/
def Descends (P : Nat → Call → Prop) : Prop :=
  ∀ passed c, P passed c → ∀ inner ∈ c.inner, P (passed + 1) inner

namespace Toolbox

variable [Monad m] [LawfulMonad m] {box box' : Toolbox m}
  {run run' : Nat → Call → ExceptT CallError m String}

/-- Where toolboxes agree on the calls in an argument and on the calls below these, they settle it
alike. -/
theorem settle_agree {P : Nat → Call → Prop} (hP : Descends P)
    (hname : ∀ passed c, P passed c → box.contains c.name = box'.contains c.name)
    (hrun : ∀ passed c, P passed c → run passed c = run' passed c)
    (lists : Nat) {passed : Nat} {arg : Argument} (h : ∀ c ∈ arg.calls, P passed c) :
    box.settle run lists passed arg = box'.settle run' lists passed arg := by
  induction lists, passed, arg using box.settle_induct with
  | known lists passed c hbox =>
    have hc := Argument.forall_mem_calls_call.1 h
    rw [settle_known _ _ hbox, settle_known _ _ (hname passed c hc ▸ hbox), hrun passed c hc]
  | unknown passed c hbox =>
    have hc := Argument.forall_mem_calls_call.1 h
    rw [settle_unknown _ hbox, settle_unknown _ (hname passed c hc ▸ hbox)]
  | listed lists passed c hbox ih =>
    have hc := Argument.forall_mem_calls_call.1 h
    -- a list takes up a level, and so do the calls among its items
    have hargs : ∀ arg ∈ c.args, box.settle run lists (passed + 1) (.ofText arg) =
        box'.settle run' lists (passed + 1) (.ofText arg) :=
      fun arg harg => ih arg fun d hd => hP passed c hc d (List.mem_flatMap.2 ⟨arg, harg, hd⟩)
    rw [settle_listed _ _ hbox, settle_listed _ _ (hname passed c hc ▸ hbox),
      mapM_congr (List.forall₂_same.2 hargs)]
  | closed passed items => rw [settle_group_zero, settle_group_zero]
  | group lists passed items ih =>
    have hitems : ∀ item ∈ items, box.settle run lists passed item =
        box'.settle run' lists passed item :=
      fun item hitem => ih item fun d hd => h d (Argument.mem_calls_group.2 ⟨item, hitem, hd⟩)
    rw [settle_group, settle_group, mapM_congr (List.forall₂_same.2 hitems)]
  | plain lists passed arg hcall hgroup =>
    rw [settle_plain _ _ hcall hgroup, settle_plain _ _ hcall hgroup]

/-- The same comes of both texts, whatever lists the declared type allows. -/
def Agree (box box' : Toolbox m) (run run' : Nat → Call → ExceptT CallError m String)
    (arg arg' : String) : Prop :=
  ∀ lists, box.settle run lists 0 (.ofText arg) = box'.settle run' lists 0 (.ofText arg')

omit [LawfulMonad m] in
theorem valueOf_agree (param : String) (type : ValueType) {arg arg' : String}
    (h : box.Agree box' run run' arg arg') :
    box.valueOf run param type arg = box'.valueOf run' param type arg' := by
  rw [valueOf, valueOf, h]

theorem listOf_agree (param : String) (elem : ValueType) {args args' : List String}
    (h : List.Forall₂ (box.Agree box' run run') args args') :
    box.listOf run param elem args = box'.listOf run' param elem args' := by
  have hvalues : args.mapM (box.valueOf run param elem) =
      args'.mapM (box'.valueOf run' param elem) :=
    mapM_congr (h.imp fun _ _ => valueOf_agree param elem)
  unfold listOf
  cases elem.isList with
  | true => dsimp only; rw [hvalues]
  | false =>
    cases h with
    | nil => rfl
    | cons harg hrest =>
      cases hrest with
      | nil => dsimp only; rw [harg 1]
      | cons hnext hrest => dsimp only; rw [hvalues]

theorem fill_agree {slot slot' : String × Slot} (hname : slot.1 = slot'.1)
    (h : Slot.Rel (box.Agree box' run run') slot.2 slot'.2) :
    box.fill run slot = box'.fill run' slot' := by
  obtain ⟨param, slot⟩ := slot
  obtain ⟨param', slot'⟩ := slot'
  obtain rfl : param = param' := hname
  cases h with
  | single type harg => exact valueOf_agree param type harg
  | rest elem hargs => exact listOf_agree param elem hargs

theorem readyWith_agree {c c' : Call} (hname : c.name = c'.name)
    (hfind : box.find? c.name = box'.find? c.name)
    (h : List.Forall₂ (box.Agree box' run run') c.args c'.args) :
    box.readyWith run c = box'.readyWith run' c' := by
  cases htool : box.find? c.name with
  | none =>
    have htool' : box'.find? c'.name = none := by rw [← hname, ← hfind, htool]
    rw [readyWith_unknown htool, readyWith_unknown htool', hname]
  | some tool =>
    have htool' : box'.find? c'.name = some tool := by rw [← hname, ← hfind, htool]
    rcases rel_assign? tool.signature.params h with ⟨hs, hs'⟩ | ⟨slots, slots', hs, hs', hslots⟩
    · rw [readyWith_count htool hs, readyWith_count htool' hs', hname, h.length_eq]
    · have hvalues : slots.mapM (box.fill run) = slots'.mapM (box'.fill run') :=
        mapM_congr (hslots.imp fun _ _ hslot => fill_agree hslot.1 hslot.2)
      rw [readyWith_slots htool hs, readyWith_slots htool' hs', hvalues]

/-- The toolboxes have the same tools for the names in the tree of a call. -/
def SameTools (box box' : Toolbox m) (c : Call) : Prop :=
  ∀ d ∈ c.postorder, box.find? d.name = box'.find? d.name

section sameTools

omit [Monad m] [LawfulMonad m]
variable {c : Call}

theorem SameTools.find?_eq (h : box.SameTools box' c) : box.find? c.name = box'.find? c.name :=
  h c c.mem_postorder_self

theorem SameTools.contains_eq (h : box.SameTools box' c) :
    box.contains c.name = box'.contains c.name := by
  rw [contains, contains, h.find?_eq]

theorem descends_sameTools : Descends fun _ c => box.SameTools box' c :=
  fun _ _ h _ hinner d hd => h d (Call.mem_postorder_of_mem_inner hinner hd)

end sameTools

theorem readyWithin_agree (room : Nat) {c : Call} (h : box.SameTools box' c) :
    box.readyWithin room c = box'.readyWithin room c := by
  -- a list written as a call takes a level too, so a call below may have much less room
  induction room using Nat.strongRecOn generalizing c with
  | ind room ih =>
    cases room with
    | zero => rw [readyWithin_zero, readyWithin_zero]
    | succ room =>
      have hrun : ∀ passed c, box.SameTools box' c →
          box.runWithin room passed c = box'.runWithin room passed c := by
        intro passed c hc
        rw [runWithin, runWithin, ih (room - passed) (by omega) hc]
      rw [readyWithin_succ, readyWithin_succ]
      refine readyWith_agree rfl h.find?_eq (List.forall₂_same.2 fun arg harg lists => ?_)
      refine settle_agree descends_sameTools (fun _ _ => SameTools.contains_eq) hrun lists ?_
      exact fun d hd => descends_sameTools 0 c h d (List.mem_flatMap.2 ⟨arg, harg, hd⟩)

theorem evaluate_agree {c : Call} (h : box.SameTools box' c) :
    box.evaluate c = box'.evaluate c := by
  rw [evaluate, evaluate, ready, ready, readyWithin_agree nestingLimit h]

theorem callOnce_agree {c : Call} (h : box.SameTools box' c) (log : CallLog) :
    box.callOnce c log = box'.callOnce c log := by
  rw [callOnce, callOnce, ready, ready, readyWithin_agree nestingLimit h]

end Toolbox

end ToolDialogue
