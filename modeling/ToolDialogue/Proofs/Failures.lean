import ToolDialogue.Proofs.Agreement
import ToolDialogue.Proofs.CallOnce
import ToolDialogue.Proofs.SettledArguments

/-! The errors that a call can come to. None of them reports a call that was not evaluated. -/
namespace ToolDialogue

open Json (Value)

variable {σ α β : Type}

theorem runFrom_bind_eq_error {x : ExceptT CallError (StateM σ) α}
    {f : α → ExceptT CallError (StateM σ) β} {s s' : σ} {e : CallError}
    (h : runFrom (x >>= f) s = (.error e, s')) :
    runFrom x s = (.error e, s') ∨
      ∃ a s₁, runFrom x s = (.ok a, s₁) ∧ runFrom (f a) s₁ = (.error e, s') := by
  cases hx : runFrom x s with | mk r s₁ =>
  cases r with
  | error e' =>
    rw [runFrom_bind_error hx] at h
    cases h
    exact .inl rfl
  | ok a =>
    rw [runFrom_bind_ok hx] at h
    exact .inr ⟨a, s₁, rfl, h⟩

/-- Whatever error the computation comes to has the property. -/
def FailsOnly (x : ExceptT CallError (StateM σ) α) (E : CallError → Prop) : Prop :=
  ∀ s e s', runFrom x s = (.error e, s') → E e

namespace FailsOnly

variable {x : ExceptT CallError (StateM σ) α} {f : α → ExceptT CallError (StateM σ) β}
  {E : CallError → Prop} {A : α → Prop}

theorem pure (a : α) : FailsOnly (Pure.pure a : ExceptT CallError (StateM σ) α) E := by
  intro s e s' h
  simp at h

theorem throw {e : CallError} (h : E e) :
    FailsOnly (MonadExcept.throw e : ExceptT CallError (StateM σ) α) E := by
  intro s e' s' hx
  obtain ⟨he, -⟩ := Prod.mk.inj hx
  cases he
  exact h

theorem bind_of_ensures (hx : FailsOnly x E) (hA : Ensures x A) (hf : ∀ a, A a → FailsOnly (f a) E) :
    FailsOnly (x >>= f) E := by
  intro s e s' h
  rcases runFrom_bind_eq_error h with h | ⟨a, s₁, ha, h⟩
  · exact hx s e s' h
  · exact hf a (hA s a s₁ ha) s₁ e s' h

theorem bind (hx : FailsOnly x E) (hf : ∀ a, FailsOnly (f a) E) : FailsOnly (x >>= f) E := by
  have hA : Ensures x fun _ => True := fun _ _ _ _ => trivial
  exact hx.bind_of_ensures hA fun a _ => hf a

theorem mapM {items : List α} (h : ∀ item ∈ items, FailsOnly (f item) E) :
    FailsOnly (items.mapM f) E := by
  induction items with
  | nil => exact pure []
  | cons item rest ih =>
    obtain ⟨hitem, hrest⟩ := List.forall_mem_cons.1 h
    rw [List.mapM_cons]
    exact hitem.bind fun _ => (ih hrest).bind fun _ => pure _

end FailsOnly

/-- Errors among which are all that a call can come to, but for the limit of nesting. -/
structure Usual (E : CallError → Prop) : Prop where
  unknownTool (name : String) : E (.unknownTool name)
  argumentCount (name expected : String) (found : Nat) : E (.argumentCount name expected found)
  toolFailed (name : String) (failure : ToolFailure) : E (.toolFailed name failure)
  /-- Only settled arguments are converted. -/
  conversion {param : String} {type : ValueType} {arg : Argument} {error : ConversionError} :
    Settled type arg → convert param type arg = .error error → E (.conversion error)

section evaluation

variable {box : Toolbox (StateM σ)} {E : CallError → Prop} (hE : Usual E)
include hE

theorem failsOnly_run (ready : ReadyCall (StateM σ)) : FailsOnly ready.run E := by
  intro s e s' h
  rw [runFrom_run] at h
  obtain ⟨hresult, -⟩ := Prod.mk.inj h
  unfold Execution.result at hresult
  split at hresult <;> cases hresult
  exact hE.toolFailed _ _

theorem failsOnly_converted {param : String} {type : ValueType} {arg : Argument}
    (h : Settled type arg) :
    FailsOnly (converted param type arg : ExceptT CallError (StateM σ) Value) E := by
  unfold converted
  split
  · exact .pure _
  · exact .throw (hE.conversion h (by assumption))

variable {run : Nat → Call → ExceptT CallError (StateM σ) String} {P : Nat → Call → Prop}
  (hP : Descends P)
  (hrun : ∀ passed c, P passed c → box.contains c.name = true → FailsOnly (run passed c) E)
include hP hrun

theorem failsOnly_settle (lists : Nat) {passed : Nat} {arg : Argument}
    (h : ∀ c ∈ arg.calls, P passed c) : FailsOnly (box.settle run lists passed arg) E := by
  induction lists, passed, arg using box.settle_induct with
  | known lists passed c hbox =>
    rw [Toolbox.settle_known _ _ hbox]
    exact (hrun passed c (Argument.forall_mem_calls_call.1 h) hbox).bind fun _ => .pure _
  | unknown passed c hbox =>
    rw [Toolbox.settle_unknown _ hbox]
    exact .throw (hE.unknownTool c.name)
  | listed lists passed c hbox ih =>
    rw [Toolbox.settle_listed _ _ hbox]
    refine (FailsOnly.mapM fun arg harg => ih arg fun d hd => ?_).bind fun _ => .pure _
    exact hP passed c (Argument.forall_mem_calls_call.1 h) d (List.mem_flatMap.2 ⟨arg, harg, hd⟩)
  | closed passed items =>
    rw [Toolbox.settle_group_zero]
    exact .pure _
  | group lists passed items ih =>
    rw [Toolbox.settle_group]
    refine (FailsOnly.mapM fun item hitem => ih item fun d hd => ?_).bind fun _ => .pure _
    exact h d (Argument.mem_calls_group.2 ⟨item, hitem, hd⟩)
  | plain lists passed arg hcall hgroup =>
    rw [Toolbox.settle_plain _ _ hcall hgroup]
    exact .pure _

theorem failsOnly_valueOf (param : String) (type : ValueType) {arg : String}
    (h : ∀ c ∈ (Argument.ofText arg).calls, P 0 c) :
    FailsOnly (box.valueOf run param type arg) E :=
  (failsOnly_settle hE hP hrun type.listDepth h).bind_of_ensures (ensures_settled type 0 _)
    fun _ hsettled => failsOnly_converted hE hsettled

theorem failsOnly_listOf (param : String) (elem : ValueType) {args : List String}
    (h : ∀ arg ∈ args, ∀ c ∈ (Argument.ofText arg).calls, P 0 c) :
    FailsOnly (box.listOf run param elem args) E := by
  unfold Toolbox.listOf
  split
  · rename_i arg helem
    have hscalar : elem.elem? = none := by simpa [ValueType.isList] using helem
    have hsettled : Ensures (box.settle run 1 0 (.ofText arg)) (Settled (.variadic elem)) :=
      ValueType.listDepth_variadic helem ▸ ensures_settled (.variadic elem) 0 (.ofText arg)
    refine (failsOnly_settle hE hP hrun 1 (List.forall_mem_singleton.1 h)).bind_of_ensures hsettled
      fun settled hs => ?_
    split
    · exact failsOnly_converted hE hs
    · -- the argument is an item by itself, and no item here can be a list
      have hitem : Settled elem settled := settled_scalar hscalar hs.ne_call
      exact (failsOnly_converted hE hitem).bind fun _ => .pure _
  · exact (FailsOnly.mapM fun arg harg => failsOnly_valueOf hE hP hrun param elem (h arg harg)).bind
      fun _ => .pure _

theorem failsOnly_fill {slot : String × Slot}
    (h : ∀ arg ∈ slot.2.args, ∀ c ∈ (Argument.ofText arg).calls, P 0 c) :
    FailsOnly (box.fill run slot) E := by
  obtain ⟨param, ⟨type, arg⟩ | ⟨elem, args⟩⟩ := slot
  · exact failsOnly_valueOf hE hP hrun param type (h arg List.mem_cons_self)
  · exact failsOnly_listOf hE hP hrun param elem h

theorem failsOnly_readyWith {c : Call} (h : ∀ inner ∈ c.inner, P 0 inner) :
    FailsOnly (box.readyWith run c) E := by
  cases htool : box.find? c.name with
  | none =>
    rw [Toolbox.readyWith_unknown htool]
    exact .throw (hE.unknownTool c.name)
  | some tool =>
    cases hslots : assign? tool.signature.params c.args with
    | none =>
      rw [Toolbox.readyWith_count htool hslots]
      exact .throw (hE.argumentCount _ _ _)
    | some slots =>
      rw [Toolbox.readyWith_slots htool hslots]
      refine (FailsOnly.mapM fun slot hslot => ?_).bind fun _ => .pure _
      refine failsOnly_fill hE hP hrun fun arg harg d hd => h d (List.mem_flatMap.2 ⟨arg, ?_, hd⟩)
      rw [← flatMap_args_assign? hslots]
      exact List.mem_flatMap.2 ⟨slot, hslot, harg⟩

end evaluation

/-- No conversion has found a call. -/
def CallError.Evaluated (e : CallError) : Prop :=
  ∀ error, e = .conversion error → ∀ name, error.fault ≠ .unevaluated name

theorem usual_evaluated : Usual CallError.Evaluated where
  unknownTool _ _ h := by contradiction
  argumentCount _ _ _ _ h := by contradiction
  toolFailed _ _ _ h := by contradiction
  conversion hsettled hconv _ h := by
    cases h
    exact fault_of_convert hsettled hconv

section evaluated

variable {box : Toolbox (StateM σ)}

theorem evaluated_readyWithin (room : Nat) (c : Call) :
    FailsOnly (box.readyWithin room c) CallError.Evaluated := by
  have hall : Descends fun _ _ => True := fun _ _ _ _ _ => trivial
  induction room using Nat.strongRecOn generalizing c with
  | ind room ih =>
    cases room with
    | zero =>
      rw [Toolbox.readyWithin_zero]
      exact .throw fun _ h => by contradiction
    | succ room =>
      rw [Toolbox.readyWithin_succ]
      refine failsOnly_readyWith usual_evaluated hall (fun passed d _ _ => ?_) fun _ _ => trivial
      exact (ih (room - passed) (by omega) d).bind (failsOnly_run usual_evaluated)

theorem evaluated_evaluate (c : Call) : FailsOnly (box.evaluate c) CallError.Evaluated :=
  (evaluated_readyWithin nestingLimit c).bind (failsOnly_run usual_evaluated)

theorem failsOnly_callOnce {E : CallError → Prop} (hE : Usual E) {c : Call}
    (hready : FailsOnly (box.ready c) E) {log log' : CallLog} {s s' : σ} {e : CallError}
    (h : StateT.run (box.callOnce c log) s = ((.failed e, log'), s')) : E e := by
  cases run_callOnce_iff.1 h with
  | unready h => exact hready _ _ _ h
  | failed _ _ hrun => exact failsOnly_run hE _ _ _ _ hrun

end evaluated

theorem third_append {start : String} {c : Char} (h : start.toList[2]? = some c) (rest : String) :
    (start ++ rest).toList[2]? = some c := by
  obtain ⟨hlen, -⟩ := List.getElem?_eq_some_iff.1 h
  rw [String.toList_append, List.getElem?_append_left hlen, h]

theorem third_unevaluated (name : String) :
    (ConversionFault.unevaluated name).message.toList[2]? = some 'l' := by
  have hstart : "call `".toList[2]? = some 'l' := by decide
  exact third_append (third_append hstart name) "` was not evaluated"

theorem message_ne_unevaluated {fault : ConversionFault} (h : ∀ name, fault ≠ .unevaluated name)
    (name : String) : fault.message ≠ (ConversionFault.unevaluated name).message := by
  have hexpected : ∀ start rest : String, start.toList[2]? = some 'p' →
      (start ++ rest).toList[2]? ≠ some 'l' := by
    intro start rest hstart
    rw [third_append hstart]
    decide
  -- the texts differ in their third character
  have hthird : fault.message.toList[2]? ≠ some 'l' := by
    cases fault with
    | unevaluated name => exact absurd rfl (h name)
    | integerText fault => cases fault <;> decide
    | notInteger shape => exact hexpected "expected an integer, found a " shape (by decide)
    | notFinite shape => exact hexpected "expected a finite number, found a " shape (by decide)
    | notBoolean shape => exact hexpected "expected true or false, found a " shape (by decide)
    | notChar shape => exact hexpected "expected a character, found a " shape (by decide)
    | charCount count => exact hexpected "expected one character, found " (toString count) (by decide)
    | notInt64 | booleanText | notText => decide
  intro heq
  exact hthird (heq ▸ third_unevaluated name)

/-- No call fails because a conversion found a call: where the conversion of a settled argument
looks, each call has been replaced. -/
theorem no_call_unevaluated (box : Toolbox (StateM σ)) (call : Call) :
    (∀ s error s', runFrom (box.evaluate call) s = (.error (.conversion error), s') →
      ∀ name, error.fault.message ≠ (ConversionFault.unevaluated name).message) ∧
    (∀ log s error log' s',
      StateT.run (box.callOnce call log) s = ((.failed (.conversion error), log'), s') →
      ∀ name, error.fault.message ≠ (ConversionFault.unevaluated name).message) ∧
    ∀ run type passed arg s settled s',
      runFrom (box.settle run type.listDepth passed arg) s = (.ok settled, s') →
      ∀ expected found, Looks type settled expected found → ∀ c, found ≠ .call c := by
  refine ⟨?_, ?_, ?_⟩
  · intro s error s' h
    exact message_ne_unevaluated (evaluated_evaluate call s _ s' h error rfl)
  · intro log s error log' s' h
    have hready : FailsOnly (box.ready call) CallError.Evaluated :=
      evaluated_readyWithin nestingLimit call
    exact message_ne_unevaluated (failsOnly_callOnce usual_evaluated hready h error rfl)
  · intro run type passed arg
    exact ensures_settled type passed arg

end ToolDialogue
