import ToolDialogue.Proofs.IntegerText

/-! What the written forms of calls, lists, integers, truth values and words are read as. -/
namespace ToolDialogue

open Text

theorem isNameChar_of_isNameStart {c : Char} (h : isNameStart c = true) : isNameChar c = true := by
  simp only [isNameStart, isNameChar, Char.isAlphanum, Bool.or_eq_true] at h ⊢
  grind

theorem isNameChar_code {c : Char} (h : isNameChar c = true) :
    46 ≤ c.toNat ∧ c.toNat ≤ 58 ∨ 65 ≤ c.toNat ∧ c.toNat ≤ 90 ∨ c.toNat = 95 ∨
      97 ≤ c.toNat ∧ c.toNat ≤ 122 := by
  have hdigit : c.isDigit = (decide (48 ≤ c.toNat) && decide (c.toNat ≤ 57)) := rfl
  have hupper : c.isUpper = decide (65 ≤ c.toNat ∧ c.toNat ≤ 90) := rfl
  have hlower : c.isLower = (decide (97 ≤ c.toNat) && decide (c.toNat ≤ 122)) := rfl
  have halnum : c.isAlphanum = ((c.isUpper || c.isLower) || c.isDigit) := rfl
  simp only [isNameChar, halnum, hdigit, hupper, hlower, Bool.or_eq_true, Bool.and_eq_true,
    decide_eq_true_eq] at h
  rcases h with ((h | rfl) | rfl) | rfl
  · omega
  all_goals decide

theorem isBlank_of_isNameChar {c : Char} (h : isNameChar c = true) : isBlank c = false := by
  have hc := isNameChar_code h
  simp only [isBlank, blankRanges, List.any_cons, List.any_nil, Bool.or_false,
    Bool.or_eq_false_iff, Bool.and_eq_false_iff, decide_eq_false_iff_not]
  omega

theorem isInert_of_isNameChar {c : Char} (h : isNameChar c = true) : isInert c = true :=
  isInert_of_code (by have := isNameChar_code h; omega)

theorem isNameChar_of_mem {name : List Char} (h : isIdentifier name = true) :
    ∀ c ∈ name, isNameChar c = true := by
  cases name with
  | nil => simp
  | cons first rest =>
    simp only [isIdentifier, Bool.and_eq_true, List.all_eq_true] at h
    intro c hc
    rcases List.mem_cons.1 hc with rfl | hc
    · exact isNameChar_of_isNameStart h.1
    · exact h.2 c hc

theorem solid_of_isIdentifier {name : List Char} (h : isIdentifier name = true) : Solid name := by
  refine .of_forall ?_ fun c hc => isBlank_of_isNameChar (isNameChar_of_mem h c hc)
  rintro rfl
  simp [isIdentifier] at h

theorem neutral_of_isIdentifier {name : List Char} (h : isIdentifier name = true) :
    Neutral 0 name :=
  .of_inert fun c hc => isInert_of_isNameChar (isNameChar_of_mem h c hc)

theorem ne_paren_of_mem {name : List Char} (h : isIdentifier name = true) :
    ∀ c ∈ name, (c != '(') = true := by
  intro c hc
  have := isInert_of_isNameChar (isNameChar_of_mem h c hc)
  simp_all [isInert, brackets]

theorem isNameStart_code {c : Char} (h : isNameStart c = true) :
    65 ≤ c.toNat ∧ c.toNat ≤ 90 ∨ c.toNat = 95 ∨ 97 ≤ c.toNat ∧ c.toNat ≤ 122 := by
  have hupper : c.isUpper = decide (65 ≤ c.toNat ∧ c.toNat ≤ 90) := rfl
  have hlower : c.isLower = (decide (97 ≤ c.toNat) && decide (c.toNat ≤ 122)) := rfl
  have halpha : c.isAlpha = (c.isUpper || c.isLower) := rfl
  simp only [isNameStart, halpha, hupper, hlower, Bool.or_eq_true, Bool.and_eq_true,
    decide_eq_true_eq] at h
  rcases h with h | rfl
  · omega
  · decide

theorem ne_of_isNameStart {c d : Char} (h : isNameStart c = true) (hd : isNameStart d = false) :
    c ≠ d := by
  rintro rfl
  simp [h] at hd

/-- No number starts like an identifier. -/
theorem ofText?_of_isNameStart {c : Char} (h : isNameStart c = true) (rest : List Char) :
    Json.Number.ofText? (c :: rest) = none := by
  have hdigit : Decimal.digit? c = none := by
    have hcode := isNameStart_code h
    have hrange : ¬ ('0' ≤ c ∧ c ≤ '9') := by
      show ¬ (48 ≤ c.toNat ∧ c.toNat ≤ 57)
      omega
    rw [Decimal.digit?, if_neg hrange]
  have hread : Json.Number.read? (c :: rest) = Json.Number.readUnsigned? false (c :: rest) := by
    unfold Json.Number.read?
    split
    · rename_i heq
      exact absurd (List.cons.inj heq).1 (ne_of_isNameStart h (by decide))
    · rfl
  rw [Json.Number.ofText?, hread, Json.Number.readUnsigned?, Json.Number.wholeDigits?,
    Decimal.leadingDigits, hdigit]
  rfl

/-- The written form of a call. -/
def callChars (name body : List Char) : List Char :=
  name ++ '(' :: body ++ [')']

theorem Call.text_eq_callChars (call : Call) :
    call.text.toList = callChars call.name.toList (", ".intercalate call.args).toList := by
  simp [Call.text, callChars]

section callChars

variable {name body : List Char} (hn : isIdentifier name = true)
include hn

theorem solid_callChars : Solid (callChars name body) :=
  (solid_of_isIdentifier hn).append_last (by decide)

theorem takeWhile_callChars : (callChars name body).takeWhile (· != '(') = name := by
  rw [callChars, List.append_assoc, List.takeWhile_append_of_pos (ne_paren_of_mem hn)]
  simp

theorem dropWhile_callChars :
    (callChars name body).dropWhile (· != '(') = '(' :: (body ++ [')']) := by
  rw [callChars, List.append_assoc, List.dropWhile_append_of_pos (ne_paren_of_mem hn)]
  simp

variable (hb : Neutral 1 body)
include hb

theorem piece_callChars : Piece (callChars name body) where
  solid := solid_callChars hn
  neutral := by
    have hparens : Neutral 0 ('(' :: body ++ [')']) :=
      Neutral.enclosed (by decide) hb
    rw [callChars, List.append_assoc]
    exact (neutral_of_isIdentifier hn).append hparens

omit hn in
theorem closing?_body : closing? '(' ')' 0 .outside (body ++ [')']) = some (body, []) :=
  Neutral.closing?_eq (by decide) hb []

theorem isCallText_callChars : isCallText (callChars name body) = true := by
  rw [isCallText, (solid_callChars hn).trim_eq]
  simp [dropWhile_callChars hn, takeWhile_callChars hn, (solid_of_isIdentifier hn).trimEnd_eq,
    hn, closing?_body hb]

theorem Call.read_callChars : Call.read (callChars name body) =
    .ok ⟨String.ofList name, (splitArgs body).map String.ofList⟩ := by
  have hne : name.isEmpty = false := by
    simpa using (solid_of_isIdentifier hn).ne_nil
  rw [Call.read, (solid_callChars hn).trim_eq]
  simp [dropWhile_callChars hn, takeWhile_callChars hn, (solid_of_isIdentifier hn).trim_eq,
    hne, closing?_body hb]

end callChars

namespace Argument

/-- The text of a call starts with a letter or `_`. -/
theorem call?_eq_none {c : Char} {rest : List Char} (hb : isBlank c = false)
    (hc : isNameStart c = false) : call? (c :: rest) = none := by
  have hcall : isCallText (c :: rest) = false := by
    rw [isCallText, trim_cons hb]
    by_cases hp : c = '('
    · subst hp
      rfl
    · have htake : ∃ tail, (c :: trimEnd rest).takeWhile (· != '(') = c :: tail := by
        rw [List.takeWhile_cons_of_pos (by simpa using hp)]
        exact ⟨_, rfl⟩
      obtain ⟨tail, htake⟩ := htake
      have hident : isIdentifier (trimEnd (c :: tail)) = false := by
        rw [trimEnd_cons hb, isIdentifier, hc, Bool.false_and]
      simp only [htake, hident, Bool.false_and]
      split <;> rfl
  rw [call?, hcall]
  rfl

/-! The shapes of a text in the order in which they are tried. -/

section shapes

variable {calls : Bool} {room : Nat} {text inner content : List Char} {c : Call} {b : Bool}

theorem read_of_call (hc : (if calls then call? (trim text) else none) = some c) :
    read calls room text = call c := by
  unfold read
  simp only [hc]

variable (hc : (if calls then call? (trim text) else none) = none)
include hc

theorem read_of_quoted (hq : unquote? (trim text) = some content) :
    read calls room text = quoted (String.ofList content) := by
  unfold read
  simp only [hc, hq]

variable (hq : unquote? (trim text) = none)
include hq

theorem read_of_boolean (hb : readBoolean? (trim text) = some b) :
    read calls room text = boolean b := by
  unfold read
  simp only [hc, hq, hb]

variable (hb : readBoolean? (trim text) = none)
include hb

theorem read_of_plain (hu : unbracket? (trim text) = none) :
    read calls room text = plain (trim text) := by
  unfold read
  simp only [hc, hq, hb, hu]

theorem read_of_group (hu : unbracket? (trim text) = some inner) :
    read calls (room + 1) text = group ((splitArgs inner).map (read calls room)) := by
  unfold read
  simp only [hc, hq, hb, hu]

/-- Below the limit a list is not taken apart. -/
theorem read_of_full (hu : unbracket? (trim text) = some inner) :
    read calls 0 text = bare (String.ofList (trim text)) := by
  unfold read
  simp only [hc, hq, hb, hu]

end shapes

/-- The shapes of a text. Only a list depends on how many groups may nest. -/
theorem read_shapes (calls : Bool) (text : List Char) :
    (∃ c, calls = true ∧ call? (trim text) = some c ∧ ∀ room, read calls room text = call c) ∨
    (∃ content, unquote? (trim text) = some content ∧
      ∀ room, read calls room text = quoted (String.ofList content)) ∨
    (∃ b, readBoolean? (trim text) = some b ∧ ∀ room, read calls room text = boolean b) ∨
    (∃ inner, unbracket? (trim text) = some inner ∧
      read calls 0 text = bare (String.ofList (trim text)) ∧
      ∀ room, read calls (room + 1) text = group ((splitArgs inner).map (read calls room))) ∨
    (unquote? (trim text) = none ∧ readBoolean? (trim text) = none ∧
      unbracket? (trim text) = none ∧ ∀ room, read calls room text = plain (trim text)) := by
  cases hc : (if calls then call? (trim text) else none) with
  | some c =>
    have hcall : calls = true ∧ call? (trim text) = some c := by
      cases calls <;> simp_all
    exact .inl ⟨c, hcall.1, hcall.2, fun _ => read_of_call hc⟩
  | none =>
    cases hq : unquote? (trim text) with
    | some content => exact .inr (.inl ⟨content, rfl, fun _ => read_of_quoted hc hq⟩)
    | none =>
      cases hb : readBoolean? (trim text) with
      | some b => exact .inr (.inr (.inl ⟨b, rfl, fun _ => read_of_boolean hc hq hb⟩))
      | none =>
        cases hu : unbracket? (trim text) with
        | some inner =>
          exact .inr (.inr (.inr (.inl
            ⟨inner, rfl, read_of_full hc hq hb hu, fun _ => read_of_group hc hq hb hu⟩)))
        | none =>
          exact .inr (.inr (.inr (.inr ⟨rfl, rfl, rfl, fun _ => read_of_plain hc hq hb hu⟩)))

theorem read_call_iff {calls : Bool} {room : Nat} {text : List Char} {c : Call} :
    read calls room text = call c ↔ calls = true ∧ call? (trim text) = some c := by
  constructor
  · intro h
    rcases read_shapes calls text with ⟨c, hcalls, hc, hread⟩ | ⟨_, -, hread⟩ | ⟨_, -, hread⟩ |
      ⟨_, -, hfull, hread⟩ | ⟨-, -, -, hread⟩
    · rw [hread] at h
      cases h
      exact ⟨hcalls, hc⟩
    · rw [hread] at h
      contradiction
    · rw [hread] at h
      contradiction
    · cases room with
      | zero =>
        rw [hfull] at h
        contradiction
      | succ room =>
        rw [hread] at h
        contradiction
    · rw [hread, plain] at h
      split at h <;> contradiction
  · rintro ⟨rfl, hc⟩
    exact read_of_call (by rw [if_pos rfl, hc])

/-- Only a list is read differently where fewer groups may nest, and it is a list all the same. -/
theorem read_limits (calls : Bool) (text : List Char) :
    (∃ arg, ∀ room, read calls room text = arg) ∨ ∃ inner, ∀ room,
      read calls (room + 1) text = group ((splitArgs inner).map (read calls room)) := by
  rcases read_shapes calls text with ⟨_, -, -, h⟩ | ⟨_, -, h⟩ | ⟨_, -, h⟩ | ⟨inner, -, -, h⟩ |
    ⟨-, -, -, h⟩
  · exact .inl ⟨_, h⟩
  · exact .inl ⟨_, h⟩
  · exact .inl ⟨_, h⟩
  · exact .inr ⟨inner, h⟩
  · exact .inl ⟨_, h⟩

variable (calls : Bool) (room : Nat)

theorem read_congr {a b : List Char} (h : trim a = trim b) :
    read calls room a = read calls room b := by
  unfold read
  rw [h]

theorem read_callChars {name body : List Char} (hn : isIdentifier name = true)
    (hb : Neutral 1 body) : read true room (callChars name body) =
      call ⟨String.ofList name, (splitArgs body).map String.ofList⟩ := by
  apply read_of_call
  rw [(solid_callChars hn).trim_eq, if_pos rfl, call?, isCallText_callChars hn hb,
    Call.read_callChars hn hb]
  rfl

theorem read_boolean (b : Bool) :
    read calls room (if b then "true" else "false").toList = boolean b := by
  cases b <;> exact read_of_boolean (by cases calls <;> rfl) rfl rfl

section bracketed

variable (body : List Char)

theorem trim_bracketed : trim ('[' :: body ++ [']']) = '[' :: body ++ [']'] :=
  (Solid.enclosed (by decide) (by decide)).trim_eq

theorem call?_bracketed : (if calls then call? ('[' :: body ++ [']']) else none) = none := by
  rw [List.cons_append, call?_eq_none (by decide) (by decide), ite_self]

theorem unquote?_bracketed : unquote? ('[' :: body ++ [']']) = none := by
  simp [unquote?]

theorem readBoolean?_bracketed : readBoolean? ('[' :: body ++ [']']) = none := by
  simp [readBoolean?, sameIgnoringCase]

theorem unbracket?_bracketed : unbracket? ('[' :: body ++ [']']) = some body := by
  simp [unbracket?]

theorem read_group : read calls (room + 1) ('[' :: body ++ [']']) =
    group ((splitArgs body).map (read calls room)) := by
  apply read_of_group <;> rw [trim_bracketed]
  · exact call?_bracketed calls body
  · exact unquote?_bracketed body
  · exact readBoolean?_bracketed body
  · exact unbracket?_bracketed body

theorem read_group_full : read calls 0 ('[' :: body ++ [']']) =
    bare (String.ofList ('[' :: body ++ [']'])) := by
  rw [@read_of_full calls ('[' :: body ++ [']']) body] <;> rw [trim_bracketed]
  · exact call?_bracketed calls body
  · exact unquote?_bracketed body
  · exact readBoolean?_bracketed body
  · exact unbracket?_bracketed body

end bracketed

/-! Arguments that are written as lists of pieces. -/

section pieces

variable {args : List String} (h : ∀ arg ∈ args, Piece arg.toList)
include h

theorem splitArgs_joined : splitArgs (", ".intercalate args).toList = args.map String.toList := by
  rw [toList_joined]
  exact splitArgs_intercalate blank_behind_comma (List.forall_mem_map.2 h)

theorem splitArgs_pieces : (splitArgs (", ".intercalate args).toList).map String.ofList = args := by
  rw [splitArgs_joined h, List.map_map]
  exact (List.map_congr_left fun arg _ => String.ofList_toList).trans (List.map_id args)

theorem neutral_pieces : Neutral 1 (", ".intercalate args).toList := by
  have hinert : ∀ c ∈ [' '], isInert c = true :=
    fun c hc => isInert_of_isBlank (blank_behind_comma c hc)
  rw [toList_joined]
  exact .intercalate hinert (List.forall_mem_map.2 fun arg harg => (h arg harg).neutral)

theorem ofText_call {name : String} (hn : isIdentifier name.toList = true) :
    ofText (Call.text ⟨name, args⟩) = call ⟨name, args⟩ := by
  rw [ofText, Call.text_eq_callChars, read_callChars groupLimit hn (neutral_pieces h),
    splitArgs_pieces h, String.ofList_toList]

theorem ofText_list : ofText ("[" ++ ", ".intercalate args ++ "]") =
    group (args.map fun arg => read true (groupLimit - 1) arg.toList) := by
  rw [ofText, toList_bracketed, groupLimit, read_group, splitArgs_joined h, List.map_map]
  rfl

end pieces

theorem read_intChars {n : Int} (h : Json.minInteger ≤ n ∧ n ≤ Json.maxInteger) :
    read calls room (Json.Number.intChars n) = number (.integer n h) := by
  have htrim := (Json.Number.piece_intChars n).solid.trim_eq
  obtain ⟨c, rest, heq, hb⟩ := (Json.Number.piece_intChars n).solid.head
  have hc : c ∈ Json.Number.intChars n := by
    rw [heq]
    exact List.mem_cons_self
  rw [read_of_plain] <;> rw [htrim]
  · rw [plain, Json.Number.ofText?_intChars h]
  · have hstart := Json.Number.of_mem_intChars (p := fun c => !isNameStart c) (by decide) hc
    rw [heq, call?_eq_none hb (by simpa using hstart), ite_self]
  · have hquote := Json.Number.of_mem_intChars (p := fun c => c != '"' && c != '\x27') (by decide) hc
    rw [heq, unquote?, if_neg fun h => by simp_all]
  · have hlower := Json.Number.of_mem_intChars
      (p := fun c => c.toLower != 't' && c.toLower != 'f') (by decide) hc
    simp only [Bool.and_eq_true, bne_iff_ne] at hlower
    simp [heq, readBoolean?, sameIgnoringCase, hlower]
  · have hbracket := Json.Number.of_mem_intChars (p := fun c => c != '[') (by decide) hc
    simp only [bne_iff_ne] at hbracket
    simp [heq, unbracket?, hbracket]

/-! An identifier alone has no other shape than that of a word, unless it is a truth value. -/

section word

variable {name : List Char} (hname : isIdentifier name = true)
include hname

theorem call?_identifier : call? name = none := by
  have hcall : isCallText name = false := by
    rw [isCallText, (solid_of_isIdentifier hname).trim_eq,
      List.dropWhile_eq_nil_iff.2 (ne_paren_of_mem hname)]
  rw [call?, hcall]
  rfl

theorem read_identifier (htrue : sameIgnoringCase name "true".toList = false)
    (hfalse : sameIgnoringCase name "false".toList = false) :
    read calls room name = bare (String.ofList name) := by
  have htrim := (solid_of_isIdentifier hname).trim_eq
  obtain ⟨c, rest, rfl⟩ := List.exists_cons_of_ne_nil (solid_of_isIdentifier hname).ne_nil
  have hstart : isNameStart c = true := by
    rw [isIdentifier, Bool.and_eq_true] at hname
    exact hname.1
  rw [read_of_plain] <;> rw [htrim]
  · rw [plain, ofText?_of_isNameStart hstart]
  · rw [call?_identifier hname, ite_self]
  · have hquote : ¬ (c = '"' ∨ c = '\x27') :=
      not_or.2 ⟨ne_of_isNameStart hstart (by decide), ne_of_isNameStart hstart (by decide)⟩
    rw [unquote?, if_neg fun h => hquote h.1]
  · rw [readBoolean?, htrue, hfalse]
    rfl
  · unfold unbracket?
    split
    · rename_i heq
      exact absurd (List.cons.inj heq).1 (ne_of_isNameStart hstart (by decide))
    · rfl

end word

end Argument

theorem length_unescape_le (text : List Char) : (unescape text).length ≤ text.length := by
  fun_induction unescape text with
  | case5 => exact Nat.le_refl 0
  | _ => simp only [List.length_cons] at *; omega

section enclosed

variable {text : List Char}

theorem unquote?_eq_some_iff {content : List Char} : unquote? text = some content ↔
    ∃ q body, (q = '"' ∨ q = '\x27') ∧ text = q :: body ++ [q] ∧ unescape body = content := by
  cases text with
  | nil => simp [unquote?]
  | cons first rest =>
    rw [unquote?]
    constructor
    · intro h
      split at h
      · rename_i hquoted
        obtain ⟨body, rfl⟩ := List.getLast?_eq_some_iff.1 hquoted.2
        rw [List.dropLast_concat] at h
        exact ⟨first, body, hquoted.1, rfl, Option.some.inj h⟩
      · contradiction
    · rintro ⟨q, body, hq, htext, rfl⟩
      rw [List.cons_append] at htext
      obtain ⟨rfl, rfl⟩ := List.cons.inj htext
      rw [if_pos ⟨hq, List.getLast?_concat⟩, List.dropLast_concat]

theorem unbracket?_eq_some_iff {inner : List Char} :
    unbracket? text = some inner ↔ text = '[' :: inner ++ [']'] := by
  constructor
  · intro h
    unfold unbracket? at h
    split at h
    · split at h
      · rename_i hlast
        obtain ⟨body, rfl⟩ := List.getLast?_eq_some_iff.1 hlast
        rw [List.dropLast_concat] at h
        rw [Option.some.inj h]
        rfl
      · contradiction
    · contradiction
  · rintro rfl
    exact Argument.unbracket?_bracketed inner

end enclosed

/-- Between quotes of either kind everything is content. -/
theorem Argument.read_of_quotes {q : Char} (hq : q = '"' ∨ q = '\x27') (calls : Bool) (room : Nat)
    (body : List Char) :
    read calls room (q :: body ++ [q]) = quoted (String.ofList (unescape body)) := by
  have hquote : isBlank q = false ∧ isNameStart q = false := by
    rcases hq with rfl | rfl <;> decide
  apply read_of_quoted <;> rw [(Solid.enclosed hquote.1 hquote.1).trim_eq]
  · rw [List.cons_append, call?_eq_none hquote.1 hquote.2, ite_self]
  · exact unquote?_eq_some_iff.2 ⟨q, body, hq, rfl, rfl⟩

end ToolDialogue
