import ToolDialogue.Proofs.JsonText
import ToolDialogue.Stored.Dialogue
import ToolDialogue.Stored.Signature

/-! Stored forms read back as what was stored, also when the members of their objects have come into
another order since. So the form tells any two values apart. -/
namespace ToolDialogue

open Json (Value)
open Stored

namespace Json.Value

/-- The same value up to the order of members in objects. -/
inductive Same : Value → Value → Prop
  | refl (v : Value) : Same v v
  | array {items items' : List Value} (h : List.Forall₂ Same items items') :
      Same (.array items) (.array items')
  | object {members members' : List (String × Value)}
      (h : ∀ key, Option.Rel Same (members.lookup key) (members'.lookup key)) :
      Same (.object members) (.object members')

theorem eq_of_same_string {s : String} {v : Value} (h : (string s).Same v) : v = .string s := by
  cases h
  rfl

theorem eq_of_same_number {n : Number} {v : Value} (h : (number n).Same v) : v = .number n := by
  cases h
  rfl

theorem eq_some_of_rel_string {s : String} {field : Option Value}
    (h : Option.Rel Same (some (.string s)) field) : field = some (.string s) := by
  cases h with
  | some h => rw [eq_of_same_string h]

theorem eq_null_of_same {v : Value} (h : v.Same null) : v = .null := by
  cases h
  rfl

theorem same_array {items : List Value} {v : Value} (h : (array items).Same v) :
    ∃ items', v = .array items' ∧ List.Forall₂ Same items items' := by
  cases h with
  | refl => exact ⟨items, rfl, List.forall₂_same.2 fun v _ => .refl v⟩
  | array h => exact ⟨_, rfl, h⟩

theorem same_object {members : List (String × Value)} {v : Value} (h : (object members).Same v) :
    ∃ members', v = .object members' ∧
      ∀ key, Option.Rel Same (members.lookup key) (members'.lookup key) := by
  cases h with
  | refl =>
    refine ⟨members, rfl, fun key => ?_⟩
    cases members.lookup key with
    | none => exact .none
    | some v => exact .some (.refl v)
  | object h => exact ⟨_, rfl, h⟩

theorem text_injective : Function.Injective text := by
  intro v w h
  have hchars : v.chars ++ [] = w.chars ++ [] := by
    rw [List.append_nil, List.append_nil]
    exact String.ofList_injective h
  exact (v.selfDelimited w [] [] hchars (by simp [EndsValue]) (by simp [EndsValue])).1

end Json.Value

namespace Stored

section reads

variable {α : Type} {encode : α → Value} {decode? : Value → Option α}

/-- Every value that is the same as the form of `a` is read as `a`. -/
def Reads (encode : α → Value) (decode? : Value → Option α) : Prop :=
  ∀ a v, (encode a).Same v → decode? v = some a

theorem Reads.field (h : Reads encode decode?) {a : α} {field : Option Value}
    (hfield : Option.Rel Value.Same (some (encode a)) field) :
    ∃ v, field = some v ∧ decode? v = some a := by
  cases hfield with
  | some hv => exact ⟨_, rfl, h a _ hv⟩

theorem reads_string : Reads .string string? := by
  intro s v h
  rw [Value.eq_of_same_string h]
  rfl

theorem reads_ofUInt32 : Reads ofUInt32 uint32? := by
  intro n v h
  rw [Value.eq_of_same_number h]
  have hlt := n.toNat_lt
  have hfits : (0 : Int) ≤ n.toNat ∧ (n.toNat : Int) < UInt32.size := by
    simp only [UInt32.size]
    omega
  rw [uint32?, if_pos hfits, Int.toNat_natCast, UInt32.ofNat_toNat]

theorem Reads.list (h : Reads encode decode?) :
    Reads (fun items => .array (items.map encode)) (list? decode?) := by
  intro items v hv
  obtain ⟨values, rfl, hvalues⟩ := Value.same_array hv
  clear hv
  rw [List.forall₂_map_left_iff] at hvalues
  rw [list?]
  induction hvalues with
  | nil => rfl
  | @cons item value items values hvalue _ ih =>
    rw [List.mapM_cons, h item value hvalue]
    simp [ih]

theorem reads_strings : Reads strings (list? string?) :=
  reads_string.list

theorem optional?_some {v : Value} (h : v ≠ .null) :
    optional? decode? (some v) = (decode? v).map some := by
  cases v with
  | null => exact absurd rfl h
  | _ => rfl

/-- A member that is left out where there is nothing to say. -/
theorem Reads.optional (h : Reads encode decode?) (hnull : ∀ a, encode a ≠ .null) {o : Option α}
    {field : Option Value} (hfield : Option.Rel Value.Same (o.map encode) field) :
    optional? decode? field = some o := by
  cases o with
  | none =>
    cases hfield
    rfl
  | some a =>
    cases hfield with
    | @some _ v hv =>
      have hne : v ≠ .null := by
        rintro rfl
        exact hnull a (Value.eq_null_of_same hv)
      rw [optional?_some hne, h a v hv, Option.map_some]

/-- A member that is null where there is nothing to say. -/
theorem Reads.nullable (h : Reads encode decode?) (hnull : ∀ a, encode a ≠ .null) {o : Option α}
    {field : Option Value}
    (hfield : Option.Rel Value.Same (some ((o.map encode).getD .null)) field) :
    optional? decode? field = some o := by
  cases o with
  | none =>
    cases hfield with
    | some hv =>
      cases hv
      rfl
  | some a => exact h.optional hnull hfield

end reads

end Stored

theorem reads_role : Reads Role.encode Role.decode? := by
  intro role v h
  rw [Value.eq_of_same_string h]
  cases role <;> rfl

theorem reads_message : Reads Message.encode Message.decode? := by
  rintro ⟨role, content, call⟩ v h
  obtain ⟨members, rfl, hmembers⟩ := Value.same_object h
  obtain ⟨v₁, hrole, hreadRole⟩ := reads_role.field (hmembers "role")
  obtain ⟨v₂, hcontent, hreadContent⟩ := reads_string.field (hmembers "content")
  have hcall : optional? string? (members.lookup "call") = some call := by
    refine reads_string.optional (by simp) ?_
    cases call <;> exact hmembers "call"
  simp [Message.decode?, fields?, hrole, hreadRole, hcontent, hreadContent, hcall]

theorem reads_call : Reads Call.encode Call.decode? := by
  intro call v h
  obtain ⟨members, rfl, hmembers⟩ := Value.same_object h
  obtain ⟨v₁, hname, hreadName⟩ := reads_string.field (hmembers "name")
  obtain ⟨v₂, hargs, hreadArgs⟩ := reads_strings.field (hmembers "args")
  simp [Call.decode?, fields?, hname, hreadName, hargs, hreadArgs]

theorem reads_response : Reads Response.encode Response.decode? := by
  intro response v h
  obtain ⟨members, rfl, hmembers⟩ := Value.same_object h
  obtain ⟨v₁, htext, hreadText⟩ := reads_string.field (hmembers "text")
  obtain ⟨v₂, hcalls, hreadCalls⟩ := reads_call.list.field (hmembers "calls")
  simp [Response.decode?, fields?, optionalList?, htext, hreadText, hcalls, hreadCalls]

theorem reads_conversation : Reads Conversation.encode Conversation.decode? := by
  intro conversation v h
  obtain ⟨members, rfl, hmembers⟩ := Value.same_object h
  have hpreamble := reads_message.nullable (by simp [Message.encode]) (hmembers "system")
  obtain ⟨v₁, hthread, hreadThread⟩ := reads_message.list.field (hmembers "messages")
  obtain ⟨v₂, hrestarts, hreadRestarts⟩ := reads_ofUInt32.field (hmembers "threads_started")
  simp [Conversation.decode?, fields?, hpreamble, hthread, hreadThread, hrestarts, hreadRestarts]

namespace ValueType

/-- The name by which a stored type is told. -/
def tag : ValueType → String
  | integer => "integer"
  | float => "float"
  | boolean => "boolean"
  | char => "char"
  | string => "string"
  | array _ => "array"
  | variadic _ => "vararg"

theorem encode_eq (type : ValueType) : type.encode = .object (("type", .string type.tag) ::
    (type.elem?.map fun elem => ("of", elem.encode)).toList) := by
  cases type <;> rfl

theorem ofParts?_tag (type : ValueType) {content : Option Value}
    (h : content.isSome = type.isList) :
    ofParts? (.string type.tag) content type.elem? = some type := by
  cases content with
  | none => cases type <;> rfl
  | some v => cases type <;> first | rfl | contradiction

theorem decodeElem?_eq (members : List (String × Value)) :
    decodeElem? members = (members.lookup "of").bind decode? := by
  induction members with
  | nil => rfl
  | cons member rest ih =>
    obtain ⟨key, v⟩ := member
    rw [decodeElem?, List.lookup_cons]
    by_cases hkey : key = "of"
    · rw [if_pos hkey, hkey]
      rfl
    · rw [if_neg hkey, ih, beq_eq_false_iff_ne.2 (Ne.symm hkey)]

theorem reads_of_elem {type : ValueType}
    (helem : ∀ elem, type.elem? = some elem → ∀ v, elem.encode.Same v → decode? v = some elem)
    {v : Value} (h : type.encode.Same v) : decode? v = some type := by
  rw [encode_eq] at h
  obtain ⟨members, rfl, hmembers⟩ := Value.same_object h
  have htag : members.lookup "type" = some (.string type.tag) :=
    Value.eq_some_of_rel_string (hmembers "type")
  have hof : Option.Rel Value.Same (type.elem?.map encode) (members.lookup "of") := by
    cases type <;> exact hmembers "of"
  have hcontent : (members.lookup "of").isSome = type.isList ∧
      (members.lookup "of").bind decode? = type.elem? := by
    rw [isList]
    cases htype : type.elem? with
    | none =>
      rw [htype] at hof
      generalize members.lookup "of" = content at hof ⊢
      cases hof
      exact ⟨rfl, rfl⟩
    | some elem =>
      rw [htype] at hof
      generalize members.lookup "of" = content at hof ⊢
      cases hof with
      | some hv => exact ⟨rfl, helem elem htype _ hv⟩
  rw [decode?, decodeElem?_eq, htag, hcontent.2]
  exact ofParts?_tag type hcontent.1

theorem reads_encode : Reads encode decode? := by
  intro type
  induction type with
  | array elem ih =>
    refine fun v => reads_of_elem fun elem helem => ?_
    cases helem
    exact ih
  | variadic elem ih =>
    refine fun v => reads_of_elem fun elem helem => ?_
    cases helem
    exact ih
  | _ => exact fun v => reads_of_elem fun elem helem => by contradiction

end ValueType

theorem reads_param : Reads Param.encode Param.decode? := by
  rintro ⟨name, type, description⟩ v h
  obtain ⟨members, rfl, hmembers⟩ := Value.same_object h
  obtain ⟨v₁, hname, hreadName⟩ := reads_string.field (hmembers "name")
  obtain ⟨v₂, htype, hreadType⟩ := ValueType.reads_encode.field (hmembers "type")
  have hdescription : optional? string? (members.lookup "description") = some description := by
    refine reads_string.optional (by simp) ?_
    cases description <;> exact hmembers "description"
  simp [Param.decode?, fields?, hname, hreadName, htype, hreadType, hdescription]

theorem reads_signature : Reads Signature.encode Signature.decode? := by
  intro signature v h
  obtain ⟨members, rfl, hmembers⟩ := Value.same_object h
  obtain ⟨v₁, hname, hreadName⟩ := reads_string.field (hmembers "name")
  obtain ⟨v₂, hdescription, hreadDescription⟩ := reads_string.field (hmembers "description")
  obtain ⟨v₃, hparams, hreadParams⟩ := reads_param.list.field (hmembers "params")
  simp [Signature.decode?, fields?, optionalList?, hname, hreadName, hdescription,
    hreadDescription, hparams, hreadParams]

/-- The stored form of a value gives it back, also with the members of objects in another order, and
no other value has the same form or the same text. -/
structure Stored.Faithful {α : Type} (encode : α → Value) (decode? : Value → Option α) : Prop where
  reads_back : ∀ a, decode? (encode a) = some a
  reads_same : ∀ a v, (encode a).Same v → decode? v = some a
  form_injective : ∀ a b, (encode a).Same (encode b) → a = b
  text_injective : ∀ a b, (encode a).text = (encode b).text → a = b

theorem Stored.Reads.faithful {α : Type} {encode : α → Value} {decode? : Value → Option α}
    (h : Reads encode decode?) : Faithful encode decode? := by
  have hback (a : α) : decode? (encode a) = some a := h a _ (.refl _)
  have hform (a b : α) (hsame : (encode a).Same (encode b)) : a = b :=
    (Option.some.inj ((hback b).symm.trans (h a _ hsame))).symm
  refine ⟨hback, h, hform, fun a b htext => hform a b ?_⟩
  rw [Value.text_injective htext]
  exact .refl _

/-- Signatures, conversations and responses survive being stored. -/
theorem stored_forms_faithful : Stored.Faithful Signature.encode Signature.decode? ∧
    Stored.Faithful Conversation.encode Conversation.decode? ∧
    Stored.Faithful Response.encode Response.decode? :=
  ⟨reads_signature.faithful, reads_conversation.faithful, reads_response.faithful⟩

end ToolDialogue
