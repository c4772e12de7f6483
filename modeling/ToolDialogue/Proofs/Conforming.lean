import Mathlib.Data.List.Forall2
import ToolDialogue.Conversion

/-! Values that belong to a type. Conversion to a type gives nothing else. -/
namespace ToolDialogue

open Json (Number Value)

inductive Conforms : ValueType → Value → Prop
  | integer (n : Int64) : Conforms .integer (.ofInt64 n)
  | float (x : Float) (finite : x.isFinite = true) : Conforms .float (.number (.float x finite))
  | boolean (b : Bool) : Conforms .boolean (.bool b)
  | char (s : String) : s.length = 1 → Conforms .char (.string s)
  | string (s : String) : Conforms .string (.string s)
  | array {elem : ValueType} {items : List Value} :
      (∀ item ∈ items, Conforms elem item) → Conforms (.array elem) (.array items)
  | variadic {elem : ValueType} {items : List Value} :
      (∀ item ∈ items, Conforms elem item) → Conforms (.variadic elem) (.array items)

/-- A list of values for a list of types. -/
abbrev ConformsAll : List ValueType → List Value → Prop :=
  List.Forall₂ Conforms

theorem mapM_eq_ok_iff {α β ε : Type} {f : α → Except ε β} {items : List α} {values : List β} :
    items.mapM f = .ok values ↔ List.Forall₂ (fun item value => f item = .ok value) items values := by
  induction items generalizing values with
  | nil => cases values <;> simp [pure, Except.pure]
  | cons item rest ih =>
    rw [List.mapM_cons, List.forall₂_cons_left_iff]
    cases hitem : f item with
    | error e => simp [bind, Except.bind]
    | ok value =>
      cases hrest : rest.mapM f with
      | error e => simp [bind, Except.bind, ← ih, hrest]
      | ok tail =>
        simp only [bind, Except.bind, pure, Except.pure, Except.ok.injEq, ← ih, hrest]
        constructor
        · rintro rfl
          exact ⟨value, tail, rfl, rfl, rfl⟩
        · rintro ⟨_, _, rfl, rfl, rfl⟩
          rfl

theorem forall_of_forall₂ {α β : Type} {R : α → β → Prop} {P : β → Prop} {as : List α} {bs : List β}
    (h : List.Forall₂ R as bs) (hP : ∀ a ∈ as, ∀ b, R a b → P b) : ∀ b ∈ bs, P b := by
  induction h with
  | nil => simp
  | cons hab _ ih =>
    obtain ⟨hfirst, hrest⟩ := List.forall_mem_cons.1 hP
    exact List.forall_mem_cons.2 ⟨hfirst _ hab, ih hrest⟩

theorem exists_last_of_forall₂ {α β γ : Type} {R : α → γ → Prop} {S : β → γ → Prop} {as : List α}
    {bs : List β} {a : α} {b : β} {values : List γ} (h : List.Forall₂ R (as ++ [a]) values)
    (h' : List.Forall₂ S (bs ++ [b]) values) : ∃ value, R a value ∧ S b value := by
  rw [← List.forall₂_reverse_iff, List.reverse_concat] at h h'
  obtain ⟨value, rest, hvalue, -, heq⟩ := List.forall₂_cons_left_iff.1 h
  obtain ⟨value', rest', hvalue', -, heq'⟩ := List.forall₂_cons_left_iff.1 h'
  rw [heq] at heq'
  obtain ⟨rfl, -⟩ := List.cons.inj heq'
  exact ⟨value, hvalue, hvalue'⟩

theorem forall₂_iff_of_mem {α β : Type} {R S : α → β → Prop} {as : List α}
    (h : ∀ a ∈ as, ∀ b, R a b ↔ S a b) (bs : List β) :
    List.Forall₂ R as bs ↔ List.Forall₂ S as bs := by
  constructor
  · exact fun hR => (List.forall₂_and_left _ _ |>.2 ⟨h, hR⟩).imp fun _ b hb => (hb.1 b).1 hb.2
  · exact fun hS => (List.forall₂_and_left _ _ |>.2 ⟨h, hS⟩).imp fun _ b hb => (hb.1 b).2 hb.2

theorem forall₂_map_eq {α β γ : Type} {R S : α → β → Prop} {f : α → γ} {as as' : List α}
    {values : List β} (h : List.Forall₂ R as values) (h' : List.Forall₂ S as' values)
    (hf : ∀ a a' value, R a value → S a' value → f a = f a') : as.map f = as'.map f := by
  induction h generalizing as' with
  | nil => cases h'; rfl
  | cons hab _ ih =>
    cases h' with
    | cons hab' hrest => rw [List.map_cons, List.map_cons, hf _ _ _ hab hab', ih hrest]

/-- An item of a list with a last one is the last, or the last stands behind it. -/
theorem append_cons_eq_concat_iff {α : Type} {before later front : List α} {a last : α} :
    before ++ a :: later = front ++ [last] ↔
      (later = [] ∧ before = front ∧ a = last) ∨
        ∃ rest, later = rest ++ [last] ∧ before ++ a :: rest = front := by
  constructor
  · intro h
    rcases List.eq_nil_or_concat later with rfl | ⟨rest, b, rfl⟩
    · obtain ⟨hfront, hlast⟩ := List.append_inj' h rfl
      exact .inl ⟨rfl, hfront, (List.cons.inj hlast).1⟩
    · rw [List.concat_eq_append, ← List.cons_append, ← List.append_assoc] at h
      obtain ⟨hfront, hlast⟩ := List.append_inj' h rfl
      rw [List.concat_eq_append, hlast]
      exact .inr ⟨rest, rfl, hfront⟩
  · rintro (⟨rfl, rfl, rfl⟩ | ⟨rest, rfl, rfl⟩)
    · rfl
    · rw [List.append_assoc, List.cons_append]

theorem exists_last_concat_iff {α : Type} {P : α → Prop} {items : List α} {a last : α} :
    (∃ before later, items ++ [last] = before ++ a :: later ∧ ∀ b ∈ later, P b) ↔
      last = a ∨ (∃ before later, items = before ++ a :: later ∧ ∀ b ∈ later, P b) ∧ P last := by
  constructor
  · rintro ⟨before, later, hitems, hlater⟩
    rcases append_cons_eq_concat_iff.1 hitems.symm with ⟨-, -, rfl⟩ | ⟨rest, rfl, rfl⟩
    · exact .inl rfl
    · obtain ⟨hrest, hlast⟩ := List.forall_mem_append.1 hlater
      exact .inr ⟨⟨before, rest, rfl, hrest⟩, List.forall_mem_singleton.1 hlast⟩
  · rintro (rfl | ⟨⟨before, later, rfl, hlater⟩, hlast⟩)
    · exact ⟨items, [], rfl, by simp⟩
    · refine ⟨before, later ++ [last], by simp, ?_⟩
      exact List.forall_mem_append.2 ⟨hlater, List.forall_mem_singleton.2 hlast⟩

namespace Argument

variable {arg : Argument} {v : Value}

theorem conforms_of_toInteger (h : arg.toInteger = .ok v) : Conforms .integer v := by
  unfold toInteger at h
  split at h
  · split at h <;> cases h
    exact .integer _
  · split at h <;> cases h
    exact .integer _
  · split at h <;> cases h
    exact .integer _
  · contradiction

theorem conforms_of_ofFloat? {x : Float} {n : Number} (h : Number.ofFloat? x = some n) :
    Conforms .float (.number n) := by
  unfold Number.ofFloat? at h
  split at h <;> cases h
  exact .float x _

theorem conforms_of_toFloat (h : arg.toFloat = .ok v) : Conforms .float v := by
  unfold toFloat at h
  extract_lets read at h
  cases hn : read.bind Number.ofFloat? with
  | none => simp [hn] at h
  | some n =>
    simp only [hn, Except.ok.injEq] at h
    obtain ⟨x, -, hx⟩ := Option.bind_eq_some_iff.1 hn
    exact h ▸ conforms_of_ofFloat? hx

theorem conforms_of_toBoolean (h : arg.toBoolean = .ok v) : Conforms .boolean v := by
  unfold toBoolean at h
  split at h
  · cases h
    exact .boolean _
  · split at h <;> cases h
    exact .boolean _
  · split at h <;> cases h
    exact .boolean _
  · contradiction

theorem conforms_of_oneChar {text : String} (h : oneChar text = .ok v) : Conforms .char v := by
  unfold oneChar at h
  split at h <;> cases h
  exact .char text (by assumption)

theorem conforms_of_toChar (h : arg.toChar = .ok v) : Conforms .char v := by
  unfold toChar at h
  split at h
  · exact conforms_of_oneChar h
  · exact conforms_of_oneChar h
  · exact conforms_of_oneChar h
  · contradiction

theorem conforms_of_toText (h : arg.toText = .ok v) : Conforms .string v := by
  unfold toText at h
  split at h <;> cases h
  exact .string _

/-- The reading of an argument for a type that is no list. -/
def scalar? (arg : Argument) : ValueType → Option (Except ConversionFault Value)
  | .integer => some arg.toInteger
  | .float => some arg.toFloat
  | .boolean => some arg.toBoolean
  | .char => some arg.toChar
  | .string => some arg.toText
  | .array _ | .variadic _ => none

theorem conforms_of_scalar? {type : ValueType} {result : Except ConversionFault Value}
    (hs : arg.scalar? type = some result) (h : result = .ok v) : Conforms type v := by
  cases type <;> cases hs
  · exact conforms_of_toInteger h
  · exact conforms_of_toFloat h
  · exact conforms_of_toBoolean h
  · exact conforms_of_toChar h
  · exact conforms_of_toText h

end Argument

section convert

variable {param : String} {type elem : ValueType} {arg : Argument} {v : Value}

theorem eq_ok_of_mapError {α ε δ : Type} {result : Except ε α} {f : ε → δ} {a : α}
    (h : result.mapError f = .ok a) : result = .ok a := by
  cases result with
  | error e => contradiction
  | ok b => exact congrArg Except.ok (Except.ok.inj h)

theorem ne_call_of_convert (h : convert param type arg = .ok v) (c : Call) : arg ≠ .call c := by
  rintro rfl
  unfold convert at h
  contradiction

theorem convert_scalar {result : Except ConversionFault Value} (hs : arg.scalar? type = some result)
    (h : ∀ c, arg ≠ .call c) :
    convert param type arg = result.mapError (⟨param, type, arg.text, ·⟩) := by
  cases type <;> cases hs <;>
  · rw [convert.eq_def]
    split
    · exact absurd rfl (h _)
    · rfl

theorem convert_list (he : type.elem? = some elem) (h : ∀ c, arg ≠ .call c) :
    convert param type arg = Value.array <$> arg.items.mapM (convert param elem) := by
  cases type <;> cases he <;>
  · rw [convert.eq_def]
    split
    · exact absurd rfl (h _)
    · rfl

theorem items_of_convert (he : type.elem? = some elem) (h : convert param type arg = .ok v) :
    ∃ values, v = .array values ∧
      List.Forall₂ (fun item value => convert param elem item = .ok value) arg.items values := by
  rw [convert_list he (ne_call_of_convert h)] at h
  cases hv : arg.items.mapM (convert param elem) with
  | error e =>
    rw [hv] at h
    contradiction
  | ok values =>
    rw [hv] at h
    exact ⟨values, (Except.ok.inj h).symm, mapM_eq_ok_iff.1 hv⟩

theorem convert_items {values : List Value} (he : type.elem? = some elem) (hc : ∀ c, arg ≠ .call c)
    (h : List.Forall₂ (fun item v => convert param elem item = .ok v) arg.items values) :
    convert param type arg = .ok (.array values) := by
  rw [convert_list he hc, mapM_eq_ok_iff.2 h]
  rfl

theorem convert_list_iff (he : type.elem? = some elem) (hc : ∀ c, arg ≠ .call c) :
    convert param type arg = .ok v ↔ ∃ values, v = .array values ∧
      List.Forall₂ (fun item value => convert param elem item = .ok value) arg.items values := by
  refine ⟨items_of_convert he, ?_⟩
  rintro ⟨values, rfl, hvalues⟩
  exact convert_items he hc hvalues

/-- Conversion gives values of the type. -/
theorem conforms_of_convert (h : convert param type arg = .ok v) : Conforms type v := by
  induction type generalizing arg v with
  | integer | float | boolean | char | string =>
    rw [convert_scalar rfl (ne_call_of_convert h)] at h
    exact Argument.conforms_of_scalar? rfl (eq_ok_of_mapError h)
  | array elem ih =>
    obtain ⟨values, rfl, hvalues⟩ := items_of_convert rfl h
    exact .array (forall_of_forall₂ hvalues fun _ _ _ => ih)
  | variadic elem ih =>
    obtain ⟨values, rfl, hvalues⟩ := items_of_convert rfl h
    exact .variadic (forall_of_forall₂ hvalues fun _ _ _ => ih)

/-- What is neither a call nor a list is a text. -/
theorem convert_text (hcall : ∀ c, arg ≠ .call c) (hgroup : ∀ items, arg ≠ .group items) :
    convert param .string arg = .ok (.string arg.text) := by
  rw [convert_scalar rfl hcall]
  cases arg with
  | group items => exact absurd rfl (hgroup items)
  | _ =>
    rw [Argument.toText]
    · rfl
    · exact hgroup

theorem convert_string_quoted (param content : String) :
    convert param .string (.quoted content) = .ok (.string content) := by
  rw [convert_text (by simp) (by simp), Argument.text]

theorem convert_string_bare (param content : String) :
    convert param .string (.bare content) = .ok (.string content) := by
  rw [convert_text (by simp) (by simp), Argument.text]

theorem convert_group_ne_ok (hscalar : elem.isList = false) (param : String)
    (items : List Argument) (v : Value) : convert param elem (.group items) ≠ .ok v := by
  intro h
  cases elem with
  | array | variadic => contradiction
  | _ =>
    rw [convert_scalar rfl (by simp)] at h
    have h := eq_ok_of_mapError h
    contradiction

end convert

end ToolDialogue
