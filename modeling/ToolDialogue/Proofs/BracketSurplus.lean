import Mathlib.Algebra.BigOperators.Group.List.Basic
import ToolDialogue.Proofs.Cutting
import ToolDialogue.Proofs.DecimalText
import ToolDialogue.Proofs.GroupLimit
import ToolDialogue.Proofs.ScalarText

/-! How many more square brackets a text closes than it opens. Reading and conversion take brackets
away in pairs only, so what is converted to the same value has the same surplus. -/
namespace ToolDialogue

open Json (Number Value)
open Text

def bracketWeight (c : Char) : Int :=
  if c = ']' then 1 else if c = '[' then -1 else 0

/-- Closing square brackets less opening ones, wherever they stand. -/
def surplus (text : List Char) : Int :=
  (text.map bracketWeight).sum

section surplus

variable {text a b gap : List Char} {c : Char}

@[simp] theorem surplus_nil : surplus [] = 0 := rfl

@[simp] theorem surplus_cons : surplus (c :: text) = bracketWeight c + surplus text :=
  List.sum_cons

@[simp] theorem surplus_append : surplus (a ++ b) = surplus a + surplus b := by
  rw [surplus, List.map_append, List.sum_append]
  rfl

theorem surplus_of_not_mem (hopen : '[' ∉ text) (hclose : ']' ∉ text) : surplus text = 0 := by
  refine List.sum_eq_zero (List.forall_mem_map.2 fun c hc => ?_)
  rw [bracketWeight, if_neg, if_neg]
  · rintro rfl
    exact hopen hc
  · rintro rfl
    exact hclose hc

theorem surplus_of_forall {p : Char → Bool} (hopen : p '[' = false) (hclose : p ']' = false)
    (h : ∀ c ∈ text, p c = true) : surplus text = 0 := by
  refine surplus_of_not_mem (fun hmem => ?_) fun hmem => ?_
  · simp [h _ hmem] at hopen
  · simp [h _ hmem] at hclose

@[simp] theorem surplus_bracketed : surplus ('[' :: text ++ [']']) = surplus text := by
  have hopen : bracketWeight '[' = -1 := rfl
  have hclose : bracketWeight ']' = 1 := rfl
  simp only [List.cons_append, surplus_cons, surplus_append, surplus_nil, hopen, hclose]
  omega

@[simp] theorem surplus_trim : surplus (trim text) = surplus text := by
  obtain ⟨before, behind, hbefore, hbehind, htext⟩ := exists_blanks text
  have hzero : ∀ {gap : List Char}, (∀ c ∈ gap, isBlank c = true) → surplus gap = 0 :=
    surplus_of_forall (by decide) (by decide)
  conv_rhs => rw [htext]
  rw [surplus_append, surplus_append, hzero hbefore, hzero hbehind]
  omega

theorem surplus_unescape (text : List Char) : surplus (unescape text) = surplus text := by
  have hescape : bracketWeight '\\' = 0 ∧ bracketWeight 'n' = 0 ∧ bracketWeight 't' = 0 ∧
      bracketWeight '\n' = 0 ∧ bracketWeight '\t' = 0 := by decide
  fun_induction unescape text <;> simp_all only [surplus_cons, surplus_nil, Int.zero_add]

theorem surplus_unquote? {content : List Char} (h : unquote? text = some content) :
    surplus content = surplus text := by
  obtain ⟨q, body, hq, rfl, rfl⟩ := unquote?_eq_some_iff.1 h
  have hquote : bracketWeight q = 0 := by
    rcases hq with rfl | rfl <;> rfl
  simp [surplus_unescape, hquote]

theorem surplus_intercalate (hgap : surplus gap = 0) (pieces : List (List Char)) :
    surplus (gap.intercalate pieces) = (pieces.map surplus).sum := by
  induction pieces with
  | nil => rfl
  | cons piece rest ih =>
    cases rest with
    | nil => simp
    | cons next rest =>
      rw [List.intercalate_cons_cons, surplus_append, surplus_append, hgap, ih]
      simp

theorem surplus_splitArgs (body : List Char) :
    ((splitArgs body).map surplus).sum = surplus body := by
  by_cases hblank : trim body = []
  · have hnil : splitArgs body = [] := by
      rw [splitArgs, hblank]
      rfl
    rw [hnil, ← surplus_trim, hblank]
    rfl
  · rw [(cuts_splitArgs hblank).1, List.map_map]
    conv_rhs => rw [← (cuts_cutAtCommas 0 .outside body).2, surplus_intercalate rfl]
    exact congrArg List.sum (List.map_congr_left fun piece _ => surplus_trim)

end surplus

namespace Argument

/-- The surplus of an argument, counted in its text. -/
def surplus (arg : Argument) : Int :=
  ToolDialogue.surplus arg.text.toList

theorem surplus_quoted (s : String) : (quoted s).surplus = ToolDialogue.surplus s.toList := by
  rw [surplus, text]

theorem surplus_bare (s : String) : (bare s).surplus = ToolDialogue.surplus s.toList := by
  rw [surplus, text]

theorem surplus_number (n : Number) : (number n).surplus = 0 := by
  rw [surplus, text, Number.text, String.toList_ofList]
  exact surplus_of_forall (p := fun c => Number.alphabet.contains c) (by decide) (by decide)
    fun c hc => by simpa using n.mem_alphabet c hc

theorem surplus_boolean (b : Bool) : (boolean b).surplus = 0 := by
  rw [surplus, text]
  cases b <;> rfl

theorem surplus_group (items : List Argument) :
    (group items).surplus = (items.map surplus).sum := by
  have htext : (group items).text.toList =
      '[' :: [',', ' '].intercalate ((items.map text).map String.toList) ++ [']'] := by
    rw [text]
    simp
  rw [surplus, htext, surplus_bracketed, surplus_intercalate rfl, List.map_map, List.map_map]
  rfl

theorem surplus_plain (text : List Char) : (plain text).surplus = ToolDialogue.surplus text := by
  unfold plain
  cases hn : Number.ofText? text with
  | none =>
    dsimp only
    rw [surplus_bare, String.toList_ofList]
  | some n =>
    have hforeign : isForeign '[' = true ∧ isForeign ']' = true := by decide
    rw [surplus_of_not_mem (not_mem_of_ofText? hforeign.1 hn) (not_mem_of_ofText? hforeign.2 hn)]
    exact surplus_number n

theorem surplus_read_zero (text : List Char) :
    (read false 0 text).surplus = ToolDialogue.surplus text := by
  rcases read_shapes false text with ⟨_, hcalls, -⟩ | ⟨content, hq, h⟩ | ⟨b, hb, h⟩ |
    ⟨_, -, h, -⟩ | ⟨-, -, -, h⟩
  · contradiction
  · rw [h, surplus_quoted, String.toList_ofList, surplus_unquote? hq, surplus_trim]
  · rw [h, surplus_boolean, ← surplus_trim, surplus_of_not_mem (not_mem_of_readBoolean? (by decide) hb)
      (not_mem_of_readBoolean? (by decide) hb)]
  · rw [h, surplus_bare, String.toList_ofList, surplus_trim]
  · rw [h, surplus_plain, surplus_trim]

/-- A text in which no call is read keeps its surplus. -/
theorem surplus_read (room : Nat) (text : List Char) :
    (read false room text).surplus = ToolDialogue.surplus text := by
  induction room generalizing text with
  | zero => exact surplus_read_zero text
  | succ room ih =>
    rcases read_rooms text with ⟨arg, h⟩ | ⟨body, h⟩
    · rw [h, ← h 0, surplus_read_zero]
    · have hbody : ToolDialogue.surplus text = ToolDialogue.surplus body := by
        rw [← surplus_read_zero, h, surplus_read_zero, surplus_bracketed]
      rw [h, read_group, surplus_group, List.map_map, hbody, ← surplus_splitArgs body]
      exact congrArg List.sum (List.map_congr_left fun piece _ => ih piece)

theorem surplus_items (arg : Argument) : (arg.items.map surplus).sum = arg.surplus := by
  unfold items
  split
  · rw [surplus_group]
  · rename_i s
    have hbody : ToolDialogue.surplus ((unbracket? (trim s.toList)).getD (trim s.toList)) =
        ToolDialogue.surplus s.toList := by
      cases hu : unbracket? (trim s.toList) with
      | none => rw [Option.getD_none, surplus_trim]
      | some inner => rw [Option.getD_some, ← surplus_bracketed, ← unbracket?_eq_some_iff.1 hu,
          surplus_trim]
    rw [List.map_map, surplus_bare, ← hbody, ← surplus_splitArgs]
    refine congrArg List.sum (List.map_congr_left fun piece _ => ?_)
    rw [Function.comp_apply, ofResult, surplus_read, String.toList_ofList]
  · simp

variable {v : Value} {a : Argument}

theorem surplus_of_foreign {s : String} (h : ∀ x, isForeign x = true → x ∉ trim s.toList) :
    ToolDialogue.surplus s.toList = 0 := by
  rw [← surplus_trim]
  exact surplus_of_not_mem (h '[' (by decide)) (h ']' (by decide))

theorem surplus_of_toInteger (h : a.toInteger = .ok v) : a.surplus = 0 := by
  have hcontent : ∀ s : String, ∀ n, Decimal.readInt64 (trim s.toList) = .ok n →
      ToolDialogue.surplus s.toList = 0 :=
    fun s n hn => surplus_of_foreign fun x hx => not_mem_of_readInt64 hx hn
  unfold toInteger at h
  split at h
  · exact surplus_number _
  · split at h
    · rw [surplus_quoted, hcontent _ _ (by assumption)]
    · contradiction
  · split at h
    · rw [surplus_bare, hcontent _ _ (by assumption)]
    · contradiction
  · contradiction

theorem surplus_of_toFloat (h : a.toFloat = .ok v) : a.surplus = 0 := by
  have hcontent : ∀ s : String, (Decimal.readFloat (trim s.toList)).bind Number.ofFloat? ≠ none →
      ToolDialogue.surplus s.toList = 0 := by
    intro s hread
    obtain ⟨n, hn⟩ := Option.ne_none_iff_exists'.1 hread
    obtain ⟨y, hy, -⟩ := Option.bind_eq_some_iff.1 hn
    exact surplus_of_foreign fun x hx => not_mem_of_readFloat hx hy
  unfold toFloat at h
  extract_lets read at h
  have hread : read.bind Number.ofFloat? ≠ none := by
    intro hnone
    rw [hnone] at h
    contradiction
  cases a with
  | number n => exact surplus_number n
  | quoted s => rw [surplus_quoted, hcontent s hread]
  | bare s => rw [surplus_bare, hcontent s hread]
  | boolean | call | group => contradiction

theorem surplus_of_toBoolean (h : a.toBoolean = .ok v) : a.surplus = 0 := by
  have hcontent : ∀ s : String, ∀ b, readBoolean? (trim s.toList) = some b →
      ToolDialogue.surplus s.toList = 0 :=
    fun s b hb => surplus_of_foreign fun x hx => not_mem_of_readBoolean? hx hb
  unfold toBoolean at h
  split at h
  · exact surplus_boolean _
  · split at h
    · rw [surplus_quoted, hcontent _ _ (by assumption)]
    · contradiction
  · split at h
    · rw [surplus_bare, hcontent _ _ (by assumption)]
    · contradiction
  · contradiction

theorem eq_text_of_toChar (h : a.toChar = .ok v) : v = .string a.text := by
  have hone : ∀ s, oneChar s = .ok v → v = .string s := by
    intro s hs
    unfold oneChar at hs
    split at hs <;> cases hs
    rfl
  unfold toChar at h
  split at h
  · rw [hone _ h, text]
  · rw [hone _ h, text]
  · rw [hone _ h, text]
  · contradiction

theorem eq_text_of_toText (h : a.toText = .ok v) : v = .string a.text := by
  unfold toText at h
  split at h <;> cases h
  rfl

end Argument

section convert

variable {param : String} {type : ValueType} {v : Value} {a b : Argument}

theorem ok_of_convert_scalar {result : Except ConversionFault Value}
    (hs : a.scalar? type = some result) (h : convert param type a = .ok v) : result = .ok v := by
  rw [convert_scalar hs (ne_call_of_convert h)] at h
  exact eq_ok_of_mapError h

theorem surplus_eq_of_text (ha : v = .string a.text) (hb : v = .string b.text) :
    a.surplus = b.surplus := by
  rw [Argument.surplus, Argument.surplus, Value.string.inj (ha.symm.trans hb)]

/-- Arguments that are converted to one value have one surplus. -/
theorem surplus_eq_of_convert (ha : convert param type a = .ok v)
    (hb : convert param type b = .ok v) : a.surplus = b.surplus := by
  induction type generalizing a b v with
  | integer =>
    rw [Argument.surplus_of_toInteger (ok_of_convert_scalar rfl ha),
      Argument.surplus_of_toInteger (ok_of_convert_scalar rfl hb)]
  | float =>
    rw [Argument.surplus_of_toFloat (ok_of_convert_scalar rfl ha),
      Argument.surplus_of_toFloat (ok_of_convert_scalar rfl hb)]
  | boolean =>
    rw [Argument.surplus_of_toBoolean (ok_of_convert_scalar rfl ha),
      Argument.surplus_of_toBoolean (ok_of_convert_scalar rfl hb)]
  | char =>
    exact surplus_eq_of_text (Argument.eq_text_of_toChar (ok_of_convert_scalar rfl ha))
      (Argument.eq_text_of_toChar (ok_of_convert_scalar rfl hb))
  | string =>
    exact surplus_eq_of_text (Argument.eq_text_of_toText (ok_of_convert_scalar rfl ha))
      (Argument.eq_text_of_toText (ok_of_convert_scalar rfl hb))
  | array elem ih | variadic elem ih =>
    obtain ⟨values, rfl, hvalues⟩ := items_of_convert rfl ha
    obtain ⟨values', heq, hvalues'⟩ := items_of_convert rfl hb
    obtain rfl := Value.array.inj heq
    rw [← a.surplus_items, ← b.surplus_items]
    exact congrArg List.sum (forall₂_map_eq hvalues hvalues' fun _ _ _ => ih)

end convert

end ToolDialogue
