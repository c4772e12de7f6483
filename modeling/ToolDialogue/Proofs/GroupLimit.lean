import ToolDialogue.Proofs.ValueText

/-! Conversion of lists that nest deeper than groups may. What is left as text below the limit is
taken apart again where a list is expected, with all the room there was at the top, so the limit is
met anew every so many levels. It decides about nothing but lists in the place of text. -/
namespace ToolDialogue

open Json (Value)
open Text

namespace ValueType

def base : ValueType → ValueType
  | array elem | variadic elem => elem.base
  | type => type

end ValueType

/-- How many groups may nest in the items of a list. Where the list itself is left as text, its
items are read afresh. -/
def roomWithin : Nat → Nat
  | 0 => groupLimit
  | room + 1 => room

theorem roomWithin_le {room : Nat} (h : room ≤ groupLimit) : roomWithin room ≤ groupLimit := by
  cases room with
  | zero => exact Nat.le_refl groupLimit
  | succ room => exact Nat.le_of_succ_le h

theorem mod_eq_roomWithin_iff {depth room : Nat} (h : room ≤ groupLimit) :
    depth % (groupLimit + 1) = roomWithin room ↔ (depth + 1) % (groupLimit + 1) = room := by
  cases room <;> simp only [roomWithin, groupLimit] at * <;> omega

section bracketed

variable (body : List Char)

theorem readInt64_bracketed :
    Decimal.readInt64 ('[' :: body ++ [']']) = .error .invalidDigit := rfl

theorem readFloat_bracketed : Decimal.readFloat ('[' :: body ++ [']']) = none := by
  simp [Decimal.readFloat, Decimal.sign, sameIgnoringCase, Decimal.readPointed,
    Decimal.leadingDigits, Decimal.digit?]

variable {param : String} {type elem : ValueType} {v : Value}

theorem convert_bare_bracketed (hscalar : type.isList = false) :
    convert param type (.bare (String.ofList ('[' :: body ++ [']']))) = .ok v ↔
      type = .string ∧ v = .string (String.ofList ('[' :: body ++ [']'])) := by
  have htrim := Argument.trim_bracketed body
  cases type with
  | array | variadic => contradiction
  | integer =>
    rw [convert_scalar rfl (by simp), Argument.toInteger, String.toList_ofList, htrim,
      readInt64_bracketed]
    exact iff_of_false (by simp [Except.mapError]) (by simp)
  | float =>
    rw [convert_scalar rfl (by simp)]
    unfold Argument.toFloat
    simp only [String.toList_ofList, htrim, readFloat_bracketed]
    exact iff_of_false (by simp [Except.mapError]) (by simp)
  | boolean =>
    rw [convert_scalar rfl (by simp), Argument.toBoolean, String.toList_ofList, htrim,
      Argument.readBoolean?_bracketed]
    exact iff_of_false (by simp [Except.mapError]) (by simp)
  | char =>
    have hlong : (String.ofList ('[' :: body ++ [']'])).length ≠ 1 := by
      rw [String.length_ofList]
      simp
    rw [convert_scalar rfl (by simp), Argument.toChar, Argument.oneChar, if_neg hlong]
    exact iff_of_false (by simp [Except.mapError]) (by simp)
  | string =>
    simp [convert_string_bare, eq_comm]

theorem convert_read_scalar (hscalar : type.isList = false) (room : Nat) :
    convert param type (Argument.read false room ('[' :: body ++ [']'])) = .ok v ↔
      type = .string ∧ room = 0 ∧ v = .string (String.ofList ('[' :: body ++ [']'])) := by
  cases room with
  | zero =>
    rw [Argument.read_group_full, convert_bare_bracketed body hscalar]
    simp
  | succ room =>
    rw [Argument.read_group]
    exact iff_of_false (convert_group_ne_ok hscalar param _ v) (by simp)

/-- A list is converted item by item, at the limit as above it. -/
theorem convert_read_list_iff (he : type.elem? = some elem) (room : Nat) :
    convert param type (Argument.read false room ('[' :: body ++ [']'])) = .ok v ↔
      ∃ values, v = .array values ∧ List.Forall₂
        (fun piece value => convert param elem (.read false (roomWithin room) piece) = .ok value)
        (splitArgs body) values := by
  cases room with
  | zero =>
    rw [Argument.read_group_full, convert_list_iff he (by simp), items_bare_bracketed]
    simp only [List.forall₂_map_left_iff, Argument.ofResult, String.toList_ofList, roomWithin]
  | succ room =>
    rw [Argument.read_group, convert_list_iff he (by simp), Argument.items]
    simp only [List.forall₂_map_left_iff, roomWithin]

theorem convert_read_single (he : type.elem? = some elem) {piece : List Char}
    (hpiece : splitArgs body = [piece]) (room : Nat) :
    convert param type (Argument.read false room ('[' :: body ++ [']'])) = .ok v ↔
      ∃ w, v = .array [w] ∧ convert param elem (.read false (roomWithin room) piece) = .ok w := by
  rw [convert_read_list_iff body he, hpiece]
  constructor
  · rintro ⟨values, rfl, hvalues⟩
    obtain ⟨w, rest, hw, hrest, rfl⟩ := List.forall₂_cons_left_iff.1 hvalues
    exact ⟨w, by rw [List.forall₂_nil_left_iff.1 hrest], hw⟩
  · rintro ⟨w, rfl, hw⟩
    exact ⟨[w], rfl, .cons hw .nil⟩

end bracketed

theorem Argument.read_rooms (text : List Char) :
    (∃ arg, ∀ room, read false room text = arg) ∨
      ∃ body, ∀ room, read false room text = read false room ('[' :: body ++ [']']) := by
  rcases read_shapes false text with ⟨_, hcalls, -⟩ | ⟨_, -, h⟩ | ⟨_, -, h⟩ | ⟨body, hbody, -⟩ |
    ⟨-, -, -, h⟩
  · contradiction
  · exact .inl ⟨_, h⟩
  · exact .inl ⟨_, h⟩
  · refine .inr ⟨body, fun room => read_congr false room ?_⟩
    rw [unbracket?_eq_some_iff.1 hbody, trim_bracketed]
  · exact .inl ⟨_, h⟩

/-- With how much room a text is read does not matter for the values of a type, unless it is a type
of texts and one of the two limits stands where the texts do. -/
theorem convert_read_congr {param : String} {type : ValueType} {room room' : Nat}
    (hroom : room ≤ groupLimit) (hroom' : room' ≤ groupLimit)
    (hbase : type.base = .string → type.listDepth % (groupLimit + 1) ≠ room ∧
      type.listDepth % (groupLimit + 1) ≠ room') (text : List Char) (v : Value) :
    convert param type (.read false room text) = .ok v ↔
      convert param type (.read false room' text) = .ok v := by
  induction type generalizing room room' text v with
  | array elem ih | variadic elem ih =>
    rcases Argument.read_rooms text with ⟨arg, h⟩ | ⟨body, h⟩
    · rw [h, h]
    · have helem : elem.base = .string → elem.listDepth % (groupLimit + 1) ≠ roomWithin room ∧
          elem.listDepth % (groupLimit + 1) ≠ roomWithin room' := by
        intro hstring
        rw [ne_eq, ne_eq, mod_eq_roomWithin_iff hroom, mod_eq_roomWithin_iff hroom']
        exact hbase hstring
      rw [h, h, convert_read_list_iff body rfl, convert_read_list_iff body rfl]
      simp only [ih (roomWithin_le hroom) (roomWithin_le hroom') helem]
  | _ =>
    rcases Argument.read_rooms text with ⟨arg, h⟩ | ⟨body, h⟩
    · rw [h, h]
    · -- both limits are somewhere else
      rw [h, h, convert_read_scalar body rfl, convert_read_scalar body rfl]
      constructor
      all_goals
        rintro ⟨hstring, rfl, -⟩
        have hlimit := hbase hstring
        simp [ValueType.listDepth] at hlimit

/-- So many lists in one another, the innermost of them empty. -/
def hollow (n : Nat) : List Char :=
  List.replicate n '[' ++ List.replicate n ']'

def inLists : Nat → Value → Value
  | 0, v => v
  | n + 1, v => .array [inLists n v]

theorem hollow_succ (n : Nat) : hollow (n + 1) = '[' :: hollow n ++ [']'] := by
  rw [hollow, hollow, List.replicate_succ, List.replicate_succ']
  simp

theorem piece_hollow (n : Nat) : Piece (hollow (n + 1)) := by
  induction n with
  | zero => exact ⟨.enclosed (by decide) (by decide), .enclosed (by decide) .nil⟩
  | succ n ih =>
    rw [hollow_succ]
    exact ⟨.enclosed (by decide) (by decide),
      .enclosed (by decide) (ih.neutral.mono (Nat.zero_le 1))⟩

theorem splitArgs_hollow (n : Nat) : splitArgs (hollow (n + 1)) = [hollow (n + 1)] := by
  have hsplit := @splitArgs_intercalate [] (by simp) _ (List.forall_mem_singleton.2 (piece_hollow n))
  simpa using hsplit

theorem read_hollow (calls : Bool) (room n : Nat) :
    Argument.read calls room (hollow (n + 1)) = Argument.read false room (hollow (n + 1)) := by
  induction n generalizing room with
  | zero =>
    rw [hollow_succ]
    cases room with
    | zero => rw [Argument.read_group_full, Argument.read_group_full]
    | succ room =>
      rw [Argument.read_group, Argument.read_group]
      rfl
  | succ n ih =>
    rw [hollow_succ]
    cases room with
    | zero => rw [Argument.read_group_full, Argument.read_group_full]
    | succ room =>
      rw [Argument.read_group, Argument.read_group, splitArgs_hollow, List.map_singleton,
        List.map_singleton, ih]

theorem convert_read_hollow {param : String} {type : ValueType} {room : Nat}
    (hroom : room ≤ groupLimit) (n : Nat) (v : Value) :
    convert param type (.read false room (hollow (n + 1))) = .ok v ↔
      n < type.listDepth ∧ v = inLists n (.array []) ∨
      type.listDepth ≤ n ∧ type.base = .string ∧
        type.listDepth % (groupLimit + 1) = room ∧ v = inLists type.listDepth
          (.string (String.ofList (hollow (n + 1 - type.listDepth)))) := by
  induction type generalizing room n v with
  | array elem ih | variadic elem ih =>
    cases n with
    | zero =>
      have hnil : splitArgs (hollow 0) = [] := rfl
      rw [hollow_succ, convert_read_list_iff _ rfl]
      simp [hnil, ValueType.listDepth, inLists]
    | succ n =>
      rw [hollow_succ, convert_read_single _ rfl (splitArgs_hollow n)]
      simp only [ih (roomWithin_le hroom), mod_eq_roomWithin_iff hroom, ValueType.listDepth,
        ValueType.base, Nat.add_lt_add_iff_right, Nat.add_le_add_iff_right,
        Nat.add_sub_add_right, inLists]
      constructor
      · rintro ⟨w, rfl, ⟨hlt, rfl⟩ | ⟨hle, hbase, hlimit, rfl⟩⟩
        · exact .inl ⟨hlt, rfl⟩
        · exact .inr ⟨hle, hbase, hlimit, rfl⟩
      · rintro (⟨hlt, rfl⟩ | ⟨hle, hbase, hlimit, rfl⟩)
        · exact ⟨_, rfl, .inl ⟨hlt, rfl⟩⟩
        · exact ⟨_, rfl, .inr ⟨hle, hbase, hlimit, rfl⟩⟩
  | _ =>
    rw [hollow_succ, convert_read_scalar _ rfl]
    simp [ValueType.listDepth, ValueType.base, inLists, hollow_succ, eq_comm]

theorem ofResult_hollow (n : Nat) : Argument.ofResult (String.ofList (hollow n)) =
    Argument.read false groupLimit (hollow n) := by
  rw [Argument.ofResult, String.toList_ofList]

theorem ofText_hollow (n : Nat) : Argument.ofText (String.ofList (hollow (n + 1))) =
    Argument.ofResult (String.ofList (hollow (n + 1))) := by
  rw [ofResult_hollow, Argument.ofText, String.toList_ofList, read_hollow]

/-- What lists in one another, however deep, are converted to. A type with as many lists takes them
all, also below the limit of groups. A type with fewer takes them only if it is one of texts that
stand where the limit is met: then what is left below the limit is a text. -/
theorem hollow_lists_converted (param : String) (type : ValueType) (n : Nat) :
    Argument.ofText (String.ofList (hollow (n + 1))) =
        Argument.ofResult (String.ofList (hollow (n + 1))) ∧
      (∀ v, convert param type (.ofResult (String.ofList (hollow (n + 1)))) = .ok v ↔
        n < type.listDepth ∧ v = inLists n (.array []) ∨
        type.listDepth ≤ n ∧ type.base = .string ∧
          type.listDepth % (groupLimit + 1) = groupLimit ∧ v = inLists type.listDepth
            (.string (String.ofList (hollow (n + 1 - type.listDepth))))) ∧
      ((∃ e, convert param type (.ofResult (String.ofList (hollow (n + 1)))) = .error e) ↔
        type.listDepth ≤ n ∧
          (type.base = .string → type.listDepth % (groupLimit + 1) ≠ groupLimit)) := by
  have hok := fun v => @convert_read_hollow param type groupLimit (Nat.le_refl _) n v
  rw [← ofResult_hollow] at hok
  refine ⟨ofText_hollow n, hok, ?_⟩
  cases hresult : convert param type (.ofResult (String.ofList (hollow (n + 1)))) with
  | ok v =>
    have hv := (hok v).1 hresult
    refine iff_of_false (by simp) ?_
    rintro ⟨hle, hlimit⟩
    rcases hv with ⟨hlt, -⟩ | ⟨-, hbase, hmod, -⟩
    · omega
    · exact hlimit hbase hmod
  | error e =>
    have hne : ∀ v, convert param type (.ofResult (String.ofList (hollow (n + 1)))) ≠ .ok v := by
      rw [hresult]
      simp
    refine iff_of_true ⟨e, rfl⟩ ⟨?_, fun hbase hmod => ?_⟩
    · by_contra hlt
      exact hne _ ((hok _).2 (.inl ⟨by omega, rfl⟩))
    · by_cases hlt : n < type.listDepth
      · exact hne _ ((hok _).2 (.inl ⟨hlt, rfl⟩))
      · exact hne _ ((hok _).2 (.inr ⟨by omega, hbase, hmod, rfl⟩))

/-- One list more than groups may nest: it is taken as a list by a type of that depth, and what is
left below the limit is taken as a text by a type of lists of texts. -/
theorem seventeen_lists_accepted : groupLimit < 17 ∧
    convert "xs" (Nat.repeat .array 17 .integer) (.ofText (String.ofList (hollow 17))) =
      .ok (inLists 16 (.array [])) ∧
    convert "xs" (Nat.repeat .array 16 .string) (.ofText (String.ofList (hollow 17))) =
      .ok (inLists 16 (.string "[]")) := by
  rw [ofText_hollow, ofResult_hollow]
  refine ⟨by decide, ?_, ?_⟩
  · exact (convert_read_hollow (Nat.le_refl groupLimit) 16 _).2 (.inl ⟨by decide, rfl⟩)
  · exact (convert_read_hollow (Nat.le_refl groupLimit) 16 _).2
      (.inr ⟨by decide, rfl, rfl, rfl⟩)

end ToolDialogue
