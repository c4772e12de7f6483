import ToolDialogue.Proofs.DecimalText
import ToolDialogue.Proofs.QuotedText
import ToolDialogue.Proofs.ValueText

/-! Items of argument lists as trees: numbers, truth values, quoted texts, words, groups and calls,
with blanks around any of them. What an item spells is what its text is read as. -/
namespace ToolDialogue

open Json (Number)
open Text

/-- White space, none included. -/
structure Gap where
  chars : List Char
  blank : ∀ c ∈ chars, isBlank c = true

structure Identifier where
  chars : List Char
  valid : isIdentifier chars = true

def Identifier.text (name : Identifier) : String :=
  String.ofList name.chars

inductive Item where
  | number (n : Number)
  | boolean (b : Bool)
  | quoted (content : String)
  | word (name : Identifier)
  | group (items : List Item)
  | call (name : Identifier) (args : List Item)
  /-- An item between blanks. -/
  | spaced (before : Gap) (item : Item) (behind : Gap)

namespace Item

/-- The blank that often follows a comma stands before the next item. -/
def chars : Item → List Char
  | number n => n.chars
  | boolean b => (if b then "true" else "false").toList
  | quoted content => inQuotes '"' content.toList
  | word name => name.chars
  | group items => '[' :: [','].intercalate (items.map chars) ++ [']']
  | call name args => callChars name.chars ([','].intercalate (args.map chars))
  | spaced before item behind => before.chars ++ item.chars ++ behind.chars

def text (item : Item) : String :=
  String.ofList item.chars

def core : Item → Item
  | spaced _ item _ => item.core
  | item => item

theorem piece_number (n : Number) : Piece n.chars where
  solid := by
    have hall : Number.alphabet.all (!isBlank ·) = true := by decide
    refine .of_forall n.chars_ne_nil fun c hc => ?_
    simpa using List.all_eq_true.1 hall c (n.mem_alphabet c hc)
  neutral := by
    have hall : Number.alphabet.all isInert = true := by decide
    exact .of_inert fun c hc => List.all_eq_true.1 hall c (n.mem_alphabet c hc)

theorem neutral_gap (gap : Gap) : Neutral 0 gap.chars :=
  .of_inert fun c hc => isInert_of_isBlank (gap.blank c hc)

theorem neutral_intercalate {items : List Item} (h : ∀ item ∈ items, Neutral 0 item.chars) :
    Neutral 1 ([','].intercalate (items.map chars)) :=
  .intercalate (by simp) (List.forall_mem_map.2 h)

theorem neutral_chars (item : Item) : Neutral 0 item.chars := by
  fun_induction chars item with
  | case1 n => exact (piece_number n).neutral
  | case2 b => exact (piece_boolean b).neutral
  | case3 content => exact (piece_inQuotes _).neutral
  | case4 name => exact neutral_of_isIdentifier name.valid
  | case5 items ih => exact .enclosed (by decide) (neutral_intercalate ih)
  | case6 name args ih => exact (piece_callChars name.valid (neutral_intercalate ih)).neutral
  | case7 before item behind ih => exact ((neutral_gap before).append ih).append (neutral_gap behind)

theorem solid_core (item : Item) : Solid item.core.chars := by
  fun_induction core item with
  | case1 before item behind ih => exact ih
  | case2 item hcore =>
    cases item with
    | number n =>
      rw [chars]
      exact (piece_number n).solid
    | boolean b =>
      rw [chars]
      exact (piece_boolean b).solid
    | quoted content =>
      rw [chars]
      exact (piece_inQuotes _).solid
    | word name =>
      rw [chars]
      exact solid_of_isIdentifier name.valid
    | group items =>
      rw [chars]
      exact .enclosed (by decide) (by decide)
    | call name args =>
      rw [chars]
      exact solid_callChars name.valid
    | spaced before item behind => exact absurd rfl (hcore before item behind)

theorem trim_chars (item : Item) : trim item.chars = item.core.chars := by
  have hsolid := solid_core item
  induction item using core.induct with
  | case1 before item behind ih =>
    rw [chars, trim_around before.blank behind.blank]
    exact ih hsolid
  | case2 item hcore =>
    have hself : item.core = item := core.eq_2 item hcore
    rw [hself] at hsolid ⊢
    exact hsolid.trim_eq

theorem neutral_list (items : List Item) : Neutral 1 ([','].intercalate (items.map chars)) :=
  neutral_intercalate fun item _ => neutral_chars item

theorem splitArgs_chars (items : List Item) :
    splitArgs ([','].intercalate (items.map chars)) = items.map fun item => item.core.chars := by
  rw [splitArgs_of_neutral]
  · rw [List.map_map]
    exact List.map_congr_left fun item _ => trim_chars item
  · exact List.forall_mem_map.2 fun item _ => neutral_chars item
  · refine List.forall_mem_map.2 fun item _ => ?_
    rw [trim_chars]
    exact (solid_core item).ne_nil

theorem read_call (name : Identifier) (args : List Item) :
    Call.read (call name args).chars = .ok ⟨name.text, args.map fun arg => arg.core.text⟩ := by
  rw [chars, Call.read_callChars name.valid (neutral_list args), splitArgs_chars, List.map_map]
  rfl

/-- What an item spells. The arguments of a call stay text. -/
def argument : Item → Argument
  | number n => .number n
  | boolean b => .boolean b
  | quoted content => .quoted content
  | word name => .bare name.text
  | group items => .group (items.map argument)
  | call name args => .call ⟨name.text, args.map fun arg => arg.core.text⟩
  | spaced _ item _ => item.argument

/-- The calls in an item, each before those in its arguments. -/
def calls : Item → List (Identifier × List Item)
  | group items => items.flatMap calls
  | call name args => (name, args) :: args.flatMap calls
  | spaced _ item _ => item.calls
  | _ => []

/-- Numbers are integers, no word is a truth value in any case, and groups stand at most `room`
deep directly in one another, in each argument of a call at most `groupLimit` deep. -/
inductive Legible : Nat → Item → Prop
  | integer {room : Nat} {n : Int} (fits : Json.minInteger ≤ n ∧ n ≤ Json.maxInteger) :
      Legible room (number (.integer n fits))
  | boolean {room : Nat} (b : Bool) : Legible room (boolean b)
  | quoted {room : Nat} (content : String) : Legible room (quoted content)
  | word {room : Nat} {name : Identifier}
      (htrue : sameIgnoringCase name.chars "true".toList = false)
      (hfalse : sameIgnoringCase name.chars "false".toList = false) : Legible room (word name)
  | group {room : Nat} {items : List Item} (hitems : ∀ item ∈ items, Legible room item) :
      Legible (room + 1) (group items)
  | call {room : Nat} {name : Identifier} {args : List Item}
      (hargs : ∀ arg ∈ args, Legible groupLimit arg) : Legible room (call name args)
  | spaced {room : Nat} {before behind : Gap} {item : Item} (hitem : Legible room item) :
      Legible room (spaced before item behind)

end Item

namespace Argument

theorem read_inQuotes {q : Char} (hq : q = '"' ∨ q = '\x27') (calls : Bool) (room : Nat)
    (text : List Char) : read calls room (inQuotes q text) = quoted (String.ofList text) := by
  rw [inQuotes, read_of_quotes hq, unescape_escaped hq]

end Argument

namespace Item

theorem read_core (item : Item) (calls : Bool) (room : Nat) :
    Argument.read calls room item.core.chars = Argument.read calls room item.chars := by
  apply Argument.read_congr
  rw [(solid_core item).trim_eq, trim_chars]

variable {room : Nat} {item : Item}

theorem read_chars (h : item.Legible room) : Argument.read true room item.chars = item.argument := by
  induction h with
  | integer fits =>
    rw [chars, argument]
    exact Argument.read_intChars true _ fits
  | boolean b => rw [chars, argument, Argument.read_boolean]
  | quoted content => rw [chars, argument, Argument.read_inQuotes (.inl rfl), String.ofList_toList]
  | @word room name htrue hfalse =>
    rw [chars, argument, Argument.read_identifier true room name.valid htrue hfalse]
    rfl
  | @group room items _ ih =>
    have hitems : ∀ item ∈ items, Argument.read true room item.core.chars = item.argument :=
      fun item hitem => (read_core item true room).trans (ih item hitem)
    rw [chars, argument, Argument.read_group, splitArgs_chars, List.map_map]
    exact congrArg Argument.group (List.map_congr_left hitems)
  | @call room name args _ _ =>
    rw [chars, argument, Argument.read_callChars room name.valid (neutral_list args),
      splitArgs_chars, List.map_map]
    rfl
  | @spaced room before behind item _ ih =>
    rw [chars, argument, ← ih]
    exact Argument.read_congr true _ (trim_around before.blank behind.blank _)

theorem legible_of_mem_calls (h : item.Legible room) {name : Identifier} {args : List Item}
    (hcall : (name, args) ∈ item.calls) : ∀ arg ∈ args, arg.Legible groupLimit := by
  induction h with
  | group _ ih =>
    rw [calls] at hcall
    obtain ⟨item, hitem, hcall⟩ := List.mem_flatMap.1 hcall
    exact ih item hitem hcall
  | call hargs ih =>
    rw [calls] at hcall
    rcases List.mem_cons.1 hcall with heq | hcall
    · cases heq
      exact hargs
    · obtain ⟨arg, harg, hcall⟩ := List.mem_flatMap.1 hcall
      exact ih arg harg hcall
  | spaced _ ih =>
    rw [calls] at hcall
    exact ih hcall
  | _ =>
    rw [calls] at hcall
    · contradiction
    all_goals simp

/-- The text of an item is read as what the item spells, and so is, in each of its calls, the text
that the call keeps of an argument. -/
theorem ofText_text (h : item.Legible groupLimit) :
    Argument.ofText item.text = item.argument ∧
      ∀ name args, (name, args) ∈ item.calls → ∀ arg ∈ args,
        Argument.ofText arg.core.text = arg.argument := by
  have hread : ∀ {item : Item}, item.Legible groupLimit →
      Argument.ofText item.text = item.argument := by
    intro item h
    rw [Argument.ofText, text, String.toList_ofList, read_chars h]
  refine ⟨hread h, fun name args hcall arg harg => ?_⟩
  have hlegible := legible_of_mem_calls h hcall arg harg
  rw [← hread hlegible, Argument.ofText, Argument.ofText, text, text, String.toList_ofList,
    String.toList_ofList, read_core]

namespace Greeting

def blank : Gap := ⟨[' '], List.forall_mem_singleton.2 (by decide)⟩

def greet : Identifier := ⟨"greet".toList, by decide⟩

def nobody : Identifier := ⟨"nobody".toList, by decide⟩

def guest : String := "Ada), \"C\\"

/-- `[ greet("Ada), \"C\\",[-3, nobody]) ,true]` -/
def numbered : Item :=
  .group [.number (.integer (-3) (by decide)), .spaced blank (.word nobody) ⟨[], by simp⟩]

/-- A list of a call, with a blank on both sides, and `true`. -/
def greeting : Item :=
  .group [.spaced blank (.call greet [.quoted guest, numbered]) blank, .boolean true]

theorem legible_greeting : greeting.Legible groupLimit := by
  refine .group fun part hpart => ?_
  obtain rfl | rfl := List.mem_pair.1 hpart
  · refine .spaced (.call fun arg harg => ?_)
    obtain rfl | rfl := List.mem_pair.1 harg
    · exact .quoted guest
    · refine .group fun part hpart => ?_
      obtain rfl | rfl := List.mem_pair.1 hpart
      · exact .integer (by decide)
      · exact .spaced (.word (by decide) (by decide))
  · exact .boolean true

theorem ofText_greeting :
    greeting.Legible groupLimit ∧
      Argument.ofText "[ greet(\"Ada), \\\"C\\\\\",[-3, nobody]) ,true]" = .group
        [.call ⟨"greet", ["\"Ada), \\\"C\\\\\"", "[-3, nobody]"]⟩, .boolean true] ∧
      Argument.ofText "\"Ada), \\\"C\\\\\"" = .quoted guest ∧
      Argument.ofText "[-3, nobody]" =
        .group [.number (.integer (-3) (by decide)), .bare "nobody"] := by
  have htext : greeting.text = "[ greet(\"Ada), \\\"C\\\\\",[-3, nobody]) ,true]" := by
    simp [greeting, numbered, text, chars]
    rfl
  have hquoted : (quoted guest).core.text = "\"Ada), \\\"C\\\\\"" := by
    simp [core, text, chars]
    rfl
  have hlist : numbered.core.text = "[-3, nobody]" := by
    simp [numbered, core, text, chars]
    rfl
  obtain ⟨hitem, hargs⟩ := ofText_text legible_greeting
  have hmem : (greet, [quoted guest, numbered]) ∈ greeting.calls := by
    simp [greeting, calls]
  have hfirst := hargs _ _ hmem (quoted guest) (by simp)
  have hsecond := hargs _ _ hmem numbered (by simp)
  rw [htext] at hitem
  rw [hquoted] at hfirst
  rw [hlist] at hsecond
  refine ⟨legible_greeting, hitem.trans ?_, hfirst.trans ?_, hsecond.trans ?_⟩
  · simp [greeting, argument, hquoted, hlist]
    rfl
  · rw [argument]
  · simp [numbered, argument]
    rfl

end Greeting

end Item

end ToolDialogue
