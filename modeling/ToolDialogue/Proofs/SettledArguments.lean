import ToolDialogue.Proofs.CallTree
import ToolDialogue.Proofs.Replay

/-! Settled arguments. Conversion looks at an argument and, where a list is expected, at its items;
once the argument is settled for a type, no call is left where the conversion to it looks. -/
namespace ToolDialogue

open Json (Value)

/-- What the conversion of an argument to a type looks at, and the type of the value that it looks
for there. -/
inductive Looks : ValueType → Argument → ValueType → Argument → Prop
  | here (type : ValueType) (arg : Argument) : Looks type arg type arg
  | item {type elem expected : ValueType} {arg item found : Argument} :
      type.elem? = some elem → item ∈ arg.items → Looks elem item expected found →
      Looks type arg expected found

/-- No call is left where the conversion of the argument to the type looks. -/
def Settled (type : ValueType) (arg : Argument) : Prop :=
  ∀ expected found, Looks type arg expected found → ∀ c, found ≠ .call c

section settled

variable {type elem : ValueType} {arg : Argument}

theorem Settled.ne_call (h : Settled type arg) (c : Call) : arg ≠ .call c :=
  h type arg (.here type arg) c

theorem Settled.items (h : Settled type arg) (he : type.elem? = some elem) :
    ∀ item ∈ arg.items, Settled elem item :=
  fun _ hitem expected found hlooks => h expected found (.item he hitem hlooks)

theorem settled_scalar (he : type.elem? = none) (h : ∀ c, arg ≠ .call c) : Settled type arg := by
  intro expected found hlooks
  cases hlooks with
  | here => exact h
  | item helem =>
    rw [he] at helem
    contradiction

theorem settled_list (he : type.elem? = some elem) (h : ∀ c, arg ≠ .call c)
    (hitems : ∀ item ∈ arg.items, Settled elem item) : Settled type arg := by
  intro expected found hlooks
  cases hlooks with
  | here => exact h
  | item helem hitem hlooks =>
    obtain rfl := Option.some.inj (he.symm.trans helem)
    exact hitems _ hitem expected found hlooks

theorem calls_items (h : arg.calls = []) : ∀ item ∈ arg.items, item.calls = [] := by
  cases arg with
  | call c => exact absurd rfl (Argument.ne_call_of_calls h c)
  | group items => rwa [Argument.calls, List.flatMap_eq_nil_iff] at h
  | bare text =>
    intro item hitem
    obtain ⟨piece, -, rfl⟩ := List.mem_map.1 hitem
    exact Argument.calls_ofResult _
  | _ =>
    rw [Argument.items]
    · exact List.forall_mem_singleton.2 h
    all_goals simp

theorem settled_of_no_calls (h : arg.calls = []) : Settled type arg := by
  intro expected found hlooks
  induction hlooks with
  | here type arg => exact Argument.ne_call_of_calls h
  | item _ hitem _ ih => exact ih (calls_items h _ hitem)

end settled

namespace Argument

variable {arg : Argument} {fault : ConversionFault}

theorem fault_of_oneChar {text : String} (h : oneChar text = .error fault) (name : String) :
    fault ≠ .unevaluated name := by
  unfold oneChar at h
  split at h <;> cases h
  simp

theorem fault_of_scalar? {type : ValueType} {result : Except ConversionFault Value}
    (hs : arg.scalar? type = some result) (h : result = .error fault) (name : String) :
    fault ≠ .unevaluated name := by
  cases type <;> cases hs
  · unfold toInteger at h
    split at h
    · split at h <;> cases h
      simp
    · split at h <;> cases h
      simp
    · split at h <;> cases h
      simp
    · cases h
      simp
  · unfold toFloat at h
    extract_lets read at h
    split at h <;> cases h
    simp
  · unfold toBoolean at h
    split at h
    · contradiction
    · split at h <;> cases h
      simp
    · split at h <;> cases h
      simp
    · cases h
      simp
  · unfold toChar at h
    split at h
    · exact fault_of_oneChar h name
    · exact fault_of_oneChar h name
    · exact fault_of_oneChar h name
    · cases h
      simp
  · unfold toText at h
    split at h <;> cases h
    simp

end Argument

section convert

variable {param : String} {type : ValueType} {arg : Argument} {error : ConversionError}

theorem mapM_eq_error {α β ε : Type} {f : α → Except ε β} {items : List α} {e : ε}
    (h : items.mapM f = .error e) : ∃ item ∈ items, f item = .error e := by
  induction items with
  | nil => contradiction
  | cons item rest ih =>
    rw [List.mapM_cons] at h
    cases hitem : f item with
    | error e' =>
      rw [hitem] at h
      cases h
      exact ⟨item, List.mem_cons_self, hitem⟩
    | ok value =>
      cases hrest : rest.mapM f with
      | error e' =>
        rw [hitem, hrest] at h
        cases h
        obtain ⟨item, hmem, he⟩ := ih hrest
        exact ⟨item, List.mem_cons_of_mem _ hmem, he⟩
      | ok values =>
        rw [hitem, hrest] at h
        contradiction

theorem fault_of_scalar {result : Except ConversionFault Value} (hs : arg.scalar? type = some result)
    (hc : ∀ c, arg ≠ .call c) (h : convert param type arg = .error error) (name : String) :
    error.fault ≠ .unevaluated name := by
  rw [convert_scalar hs hc] at h
  cases hr : result with
  | ok v =>
    rw [hr] at h
    contradiction
  | error fault =>
    rw [hr] at h
    cases h
    exact Argument.fault_of_scalar? hs hr name

theorem fault_of_convert (hsettled : Settled type arg) (h : convert param type arg = .error error)
    (name : String) : error.fault ≠ .unevaluated name := by
  induction type generalizing arg error with
  | integer | float | boolean | char | string => exact fault_of_scalar rfl hsettled.ne_call h name
  | array elem ih | variadic elem ih =>
    rw [convert_list rfl hsettled.ne_call] at h
    cases hitems : arg.items.mapM (convert param elem) with
    | ok values =>
      rw [hitems] at h
      contradiction
    | error e =>
      rw [hitems] at h
      cases h
      obtain ⟨item, hitem, he⟩ := mapM_eq_error hitems
      exact ih (hsettled.items rfl item hitem) he

end convert

section settle

variable {σ : Type} {box : Toolbox (StateM σ)}
  {run : Nat → Call → ExceptT CallError (StateM σ) String}

theorem ensures_settled_known (type : ValueType) (lists passed : Nat) {call : Call}
    (h : box.contains call.name = true) :
    Ensures (box.settle run lists passed (.call call)) (Settled type) := by
  rw [Toolbox.settle_known _ _ h]
  exact .bind_last fun result => .pure (settled_of_no_calls (Argument.calls_ofResult result))

theorem ensures_settled_scalar {type : ValueType} (he : type.elem? = none) (passed : Nat)
    (arg : Argument) : Ensures (box.settle run 0 passed arg) (Settled type) := by
  cases arg with
  | call call =>
    cases h : box.contains call.name with
    | true => exact ensures_settled_known type 0 passed h
    | false =>
      rw [Toolbox.settle_unknown _ h]
      exact .throw _
  | _ =>
    -- a group stays as it is here; its conversion fails without a look at the items
    rw [Toolbox.settle_zero _ (by simp)]
    exact .pure (settled_scalar he (by simp))

theorem ensures_settled_list {type elem : ValueType} (he : type.elem? = some elem)
    (ih : ∀ passed arg, Ensures (box.settle run elem.listDepth passed arg) (Settled elem))
    (passed : Nat) (arg : Argument) :
    Ensures (box.settle run (elem.listDepth + 1) passed arg) (Settled type) := by
  have hgroup : ∀ {α : Type} {results : List Argument} {args : List α},
      List.Forall₂ (fun _ result => Settled elem result) args results →
        Settled type (.group results) := fun hall =>
    settled_list he (by simp) (forall_of_forall₂ hall fun _ _ _ h => h)
  cases arg with
  | call call =>
    cases h : box.contains call.name with
    | true => exact ensures_settled_known type _ passed h
    | false =>
      rw [Toolbox.settle_listed _ _ h]
      exact (Ensures.mapM fun arg => ih (passed + 1) (.ofText arg)).bind fun _ hall =>
        .pure (hgroup hall)
  | group items =>
    rw [Toolbox.settle_group]
    exact (Ensures.mapM fun item => ih passed item).bind fun _ hall => .pure (hgroup hall)
  | _ =>
    rw [Toolbox.settle_plain _ _ (by simp) (by simp)]
    exact .pure (settled_of_no_calls (by simp [Argument.calls]))

/-- An argument that is settled for a type has each call replaced wherever its conversion to the
type looks. -/
theorem ensures_settled (type : ValueType) (passed : Nat) (arg : Argument) :
    Ensures (box.settle run type.listDepth passed arg) (Settled type) := by
  induction type generalizing passed arg with
  | integer | float | boolean | char | string => exact ensures_settled_scalar rfl passed arg
  | array elem ih | variadic elem ih => exact ensures_settled_list rfl ih passed arg

end settle

end ToolDialogue
