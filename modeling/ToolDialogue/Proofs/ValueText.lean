import ToolDialogue.Proofs.Conforming
import ToolDialogue.Proofs.Reading
import ToolDialogue.Tool.Basic

/-! Integers, truth values and lists of them survive being written as text and converted back,
also where their lists nest deeper than text is taken apart. -/
namespace ToolDialogue

open Json (Number Value)
open Text

def ValueType.isPlain : ValueType → Bool
  | integer | boolean => true
  | array elem => elem.isPlain
  | _ => false

theorem ValueType.isVariadic_of_isPlain {type : ValueType} (h : type.isPlain = true) :
    type.isVariadic = false := by
  cases type with
  | variadic => contradiction
  | _ => rfl

/-- Integers, truth values, and lists of either kind over them. -/
def ValueType.isDiscrete : ValueType → Bool
  | integer | boolean => true
  | array elem | variadic elem => elem.isDiscrete
  | _ => false

theorem ValueType.isDiscrete_of_isPlain {type : ValueType} (h : type.isPlain = true) :
    type.isDiscrete = true := by
  induction type with
  | integer | boolean => rfl
  | array elem ih => exact ih h
  | _ => contradiction

theorem commaSeparated_eq_intercalate (pieces : List (List Char)) :
    Json.commaSeparated pieces = [','].intercalate pieces := by
  fun_induction Json.commaSeparated pieces with
  | case1 => rfl
  | case2 item => simp [List.intercalate]
  | case3 item rest hne ih =>
    obtain ⟨next, more, rfl⟩ := List.exists_cons_of_ne_nil hne
    rw [ih]
    simp [List.intercalate]

theorem chars_array (items : List Value) : (Value.array items).chars =
    '[' :: [','].intercalate (items.map Value.chars) ++ [']'] := by
  rw [Value.chars, Value.itemsChars_eq, commaSeparated_eq_intercalate]

section lists

variable {gap : List Char} (hg : ∀ c ∈ gap, isBlank c = true)
  {pieces : List (List Char)} (h : ∀ p ∈ pieces, Piece p)
include hg h

theorem neutral_list : Neutral 1 ((',' :: gap).intercalate pieces) :=
  .intercalate (fun c hc => isInert_of_isBlank (hg c hc)) fun p hp => (h p hp).neutral

theorem piece_bracketed : Piece ('[' :: (',' :: gap).intercalate pieces ++ [']']) where
  solid := .enclosed (by decide) (by decide)
  neutral := .enclosed (by decide) (neutral_list hg h)

end lists

theorem piece_boolean (b : Bool) : Piece (if b then "true" else "false").toList where
  solid := by
    have hall : (if b then "true" else "false").toList.all (fun c => !isBlank c) = true := by
      cases b <;> decide
    refine .of_forall ?_ fun c hc => by simpa using List.all_eq_true.1 hall c hc
    cases b <;> decide
  neutral := by
    have hall : (if b then "true" else "false").toList.all isInert = true := by
      cases b <;> decide
    exact .of_inert (List.all_eq_true.1 hall)

theorem piece_chars {type : ValueType} {v : Value} (ht : type.isDiscrete = true)
    (h : Conforms type v) : Piece v.chars := by
  induction h with
  | integer n => exact Number.piece_intChars n.toInt
  | boolean b => exact piece_boolean b
  | array _ ih | variadic _ ih =>
    rw [chars_array]
    exact piece_bracketed (by simp) (List.forall_mem_map.2 fun item hitem => ih item hitem ht)
  | _ => contradiction

theorem content_ofValue {type : ValueType} {v : Value} (ht : type.isDiscrete = true)
    (h : Conforms type v) : (Output.ofValue v).content = v.text := by
  cases h with
  | string | char => contradiction
  | _ => rfl

theorem toInt64?_ofInt64 (n : Int64) : (Number.ofInt64 n).toInt64? = some n := by
  have hle : n.toInt ≤ Int64.maxValue.toInt := n.toInt_le
  rw [Number.ofInt64, Number.toInt64?, if_pos hle, Int64.ofInt_toInt]

theorem convert_integer_number (param : String) (n : Int64) :
    convert param .integer (.number (.ofInt64 n)) = .ok (.ofInt64 n) := by
  rw [convert_scalar rfl (by simp), Argument.toInteger, toInt64?_ofInt64]
  rfl

theorem convert_boolean_boolean (param : String) (b : Bool) :
    convert param .boolean (.boolean b) = .ok (.bool b) := by
  rw [convert_scalar rfl (by simp)]
  rfl

theorem items_bare_bracketed (body : List Char) :
    (Argument.bare (String.ofList ('[' :: body ++ [']']))).items =
      (splitArgs body).map fun piece => .ofResult (String.ofList piece) := by
  rw [Argument.items, String.toList_ofList, Argument.trim_bracketed, Argument.unbracket?_bracketed]
  rfl

/-- A written list is converted back to itself if its items are, both where it is taken apart as
a group and where it is read from bare text. -/
theorem convert_read_list (param : String) {type elem : ValueType} {items : List Value}
    (he : type.elem? = some elem) (hpieces : ∀ item ∈ items, Piece item.chars)
    (hitems : ∀ item ∈ items, ∀ room,
      convert param elem (Argument.read false room item.chars) = .ok item) (room : Nat) :
    convert param type (Argument.read false room (Value.array items).chars) =
      .ok (.array items) := by
  have hsplit := @splitArgs_intercalate [] (by simp) _ (List.forall_mem_map.2 hpieces)
  have hback : ∀ room, List.Forall₂ (fun arg v => convert param elem arg = .ok v)
      (items.map fun item => Argument.read false room item.chars) items := by
    intro room
    rw [List.forall₂_map_left_iff, List.forall₂_same]
    exact fun item hitem => hitems item hitem room
  rw [chars_array]
  cases room with
  | zero =>
    -- the text of the list is cut again, and each item has all the room
    rw [Argument.read_group_full]
    apply convert_items he (by simp)
    rw [items_bare_bracketed, hsplit, List.map_map]
    simpa [Argument.ofResult, Function.comp_def] using hback groupLimit
  | succ room =>
    rw [Argument.read_group]
    apply convert_items he (by simp)
    rw [Argument.items, hsplit, List.map_map]
    exact hback room

/-- A written value is converted back to itself. Below the limit of nested groups its lists are
read from bare text. -/
theorem convert_read_chars (param : String) {type : ValueType} {v : Value}
    (ht : type.isDiscrete = true) (h : Conforms type v) (room : Nat) :
    convert param type (Argument.read false room v.chars) = .ok v := by
  induction h generalizing room with
  | integer n =>
    have hread : Argument.read false room (Value.ofInt64 n).chars = .number (.ofInt64 n) :=
      Argument.read_intChars false room _
    rw [hread, convert_integer_number]
  | boolean b =>
    have hread : Argument.read false room (Value.bool b).chars = .boolean b :=
      Argument.read_boolean false room b
    rw [hread, convert_boolean_boolean]
  | @array elem items hitems ih | @variadic elem items hitems ih =>
    have helem : elem.isDiscrete = true := ht
    exact convert_read_list param rfl (fun item hitem => piece_chars helem (hitems item hitem))
      (fun item hitem => ih item hitem ht) room
  | _ => contradiction

/-- What a tool returns comes back when its text is read as an argument, however deep its lists
nest. -/
theorem convert_returned_value (param : String) {type : ValueType} {v : Value}
    (ht : type.isDiscrete = true) (h : Conforms type v) :
    convert param type (.ofResult (Output.ofValue v).content) = .ok v := by
  rw [content_ofValue ht h, Argument.ofResult, Value.text, String.toList_ofList]
  exact convert_read_chars param ht h groupLimit

namespace Layers

/-- The extreme integers below pairs of lists, each with an empty list in it. -/
def value : Nat → Value
  | 0 => .array [.ofInt64 Int64.minValue, .ofInt64 Int64.maxValue]
  | n + 1 => .array [.array [value n], .array []]

def type : Nat → ValueType
  | 0 => .array .integer
  | n + 1 => .variadic (.array (type n))

theorem conforms (n : Nat) : Conforms (type n) (value n) := by
  induction n with
  | zero =>
    refine .array fun item hitem => ?_
    simp only [List.mem_cons, List.not_mem_nil, or_false] at hitem
    rcases hitem with rfl | rfl <;> exact .integer _
  | succ n ih =>
    refine .variadic fun item hitem => ?_
    simp only [List.mem_cons, List.not_mem_nil, or_false] at hitem
    rcases hitem with rfl | rfl
    · exact .array (List.forall_mem_singleton.2 ih)
    · exact .array (by simp)

/-- More lists in one another than are taken apart as groups. -/
theorem convert_ten_layers :
    ((type 10).isDiscrete = true ∧ Conforms (type 10) (value 10) ∧
        groupLimit < (type 10).listDepth) ∧
      convert "layers" (type 10) (.ofResult (Output.ofValue (value 10)).content) =
        .ok (value 10) :=
  ⟨⟨rfl, conforms 10, by decide⟩, convert_returned_value "layers" rfl (conforms 10)⟩

end Layers

end ToolDialogue
