import ToolDialogue.Proofs.CallGrammar

/-! The arguments inside an argument, and the texts they were read from. A path through lists leads
to both, so it is known for every depth and every branch what stands there: no more lists in one
another than the limit allows, no call in a result, and elsewhere a call exactly where the text of
the element is one. -/
namespace ToolDialogue

open Text

namespace Argument

/-- The argument at a path through groups. Each number is the position of an item. -/
def at? : List Nat → Argument → Option Argument
  | [], arg => some arg
  | i :: path, group items => items[i]?.bind (at? path)
  | _ :: _, _ => none

/-- How many groups stand in one another, along the branch on which most do. -/
def depth : Argument → Nat
  | group items => (items.map depth).foldr max 0 + 1
  | _ => 0

theorem at?_cons_eq_some_iff {i : Nat} {path : List Nat} {arg sub : Argument} :
    arg.at? (i :: path) = some sub ↔
      ∃ items item, arg = group items ∧ items[i]? = some item ∧ item.at? path = some sub := by
  cases arg with
  | group items => simp [at?, Option.bind_eq_some_iff]
  | _ => simp [at?]

theorem depth_group_le_iff {items : List Argument} {n : Nat} :
    (group items).depth ≤ n + 1 ↔ ∀ item ∈ items, item.depth ≤ n := by
  rw [depth, Nat.add_le_add_iff_right]
  induction items with
  | nil => simp
  | cons item rest ih => rw [List.map_cons, List.foldr_cons, Nat.max_le, ih, List.forall_mem_cons]

theorem depth_plain_le_iff {arg : Argument} (h : ∀ items, arg ≠ group items) (n : Nat) :
    arg.depth ≤ n ↔ ∀ path items, arg.at? path = some (group items) → path.length < n := by
  refine iff_of_true (by cases arg <;> simp_all [depth]) fun path items hat => ?_
  cases path with
  | nil => exact absurd (Option.some.inj hat) (h items)
  | cons i path =>
    obtain ⟨items, -, hgroup, -⟩ := at?_cons_eq_some_iff.1 hat
    exact absurd hgroup (h items)

theorem depth_le_iff {arg : Argument} {n : Nat} :
    arg.depth ≤ n ↔ ∀ path items, arg.at? path = some (group items) → path.length < n := by
  induction n generalizing arg with
  | zero =>
    cases arg with
    | group items => exact iff_of_false (by simp [depth]) fun h => absurd (h [] items rfl) (by simp)
    | _ => exact depth_plain_le_iff (by simp) 0
  | succ n ih =>
    cases arg with
    | group items =>
      rw [depth_group_le_iff]
      constructor
      · intro h path below hat
        cases path with
        | nil => simp
        | cons i path =>
          obtain ⟨_, item, hgroup, hitem, hat⟩ := at?_cons_eq_some_iff.1 hat
          cases hgroup
          exact Nat.succ_lt_succ (ih.1 (h item (List.mem_of_getElem? hitem)) path below hat)
      · intro h item hmem
        obtain ⟨i, hitem⟩ := List.mem_iff_getElem?.1 hmem
        refine ih.2 fun path below hat => Nat.lt_of_succ_lt_succ ?_
        exact h (i :: path) below (at?_cons_eq_some_iff.2 ⟨items, item, rfl, hitem, hat⟩)
    | _ => exact depth_plain_le_iff (by simp) (n + 1)

end Argument

/-- The text of the element at a path through lists in square brackets, without the blanks around
it. -/
def elementAt? : List Nat → List Char → Option (List Char)
  | [], text => some (trim text)
  | i :: path, text =>
    (unbracket? (trim text)).bind fun inner => (splitArgs inner)[i]?.bind (elementAt? path)

theorem elementAt?_cons_eq_some_iff {i : Nat} {path : List Nat} {text element : List Char} :
    elementAt? (i :: path) text = some element ↔ ∃ inner piece, unbracket? (trim text) = some inner ∧
      (splitArgs inner)[i]? = some piece ∧ elementAt? path piece = some element := by
  simp [elementAt?, Option.bind_eq_some_iff]

namespace Argument

variable {calls : Bool} {room : Nat} {text : List Char} {path : List Nat}

theorem read_eq_group_iff {items : List Argument} : read calls room text = group items ↔
    ∃ below inner, room = below + 1 ∧ unbracket? (trim text) = some inner ∧
      (splitArgs inner).map (read calls below) = items := by
  constructor
  · intro h
    rcases read_shapes calls text with ⟨_, -, -, hread⟩ | ⟨_, -, hread⟩ | ⟨_, -, hread⟩ |
      ⟨inner, hinner, hfull, hread⟩ | ⟨-, -, -, hread⟩
    · rw [hread] at h
      contradiction
    · rw [hread] at h
      contradiction
    · rw [hread] at h
      contradiction
    · cases room with
      | zero =>
        rw [hfull] at h
        contradiction
      | succ below =>
        rw [hread] at h
        exact ⟨below, inner, rfl, hinner, group.inj h⟩
    · rw [hread, plain] at h
      split at h <;> contradiction
  · rintro ⟨below, inner, rfl, hinner, rfl⟩
    rw [← read_group]
    refine read_congr calls (below + 1) ?_
    rw [unbracket?_eq_some_iff.1 hinner, trim_bracketed]

theorem at?_read_iff {arg : Argument} : (read calls room text).at? path = some arg ↔
    path.length ≤ room ∧ ∃ element, elementAt? path text = some element ∧
      read calls (room - path.length) element = arg := by
  induction path generalizing room text with
  | nil => simp [at?, elementAt?, read_congr calls room (trim_trim text)]
  | cons i path ih =>
    simp only [at?_cons_eq_some_iff, elementAt?_cons_eq_some_iff, read_eq_group_iff]
    constructor
    · rintro ⟨_, item, ⟨below, inner, rfl, hinner, rfl⟩, hitem, hat⟩
      rw [List.getElem?_map, Option.map_eq_some_iff] at hitem
      obtain ⟨piece, hpiece, rfl⟩ := hitem
      obtain ⟨hlen, element, helement, hread⟩ := ih.1 hat
      refine ⟨Nat.succ_le_succ hlen, element, ⟨inner, piece, hinner, hpiece, helement⟩, ?_⟩
      rw [List.length_cons, Nat.add_sub_add_right, hread]
    · rintro ⟨hlen, element, ⟨inner, piece, hinner, hpiece, helement⟩, hread⟩
      obtain ⟨below, rfl⟩ : ∃ below, room = below + 1 :=
        Nat.exists_eq_succ_of_ne_zero (by rw [List.length_cons] at hlen; omega)
      rw [List.length_cons, Nat.add_sub_add_right] at hread
      refine ⟨_, read calls below piece, ⟨below, inner, rfl, hinner, rfl⟩, ?_, ?_⟩
      · rw [List.getElem?_map, hpiece, Option.map_some]
      · exact ih.2 ⟨Nat.le_of_succ_le_succ hlen, element, helement, hread⟩

theorem depth_read_le (calls : Bool) (room : Nat) (text : List Char) :
    (read calls room text).depth ≤ room := by
  refine depth_le_iff.2 fun path items hat => ?_
  obtain ⟨-, element, -, hread⟩ := at?_read_iff.1 hat
  -- a group is only read where there is room for one
  obtain ⟨below, -, hroom, -⟩ := read_eq_group_iff.1 hread
  omega

/-- Arguments nest groups no deeper than the limit on any branch. A result holds no call at any
depth; an argument of a call holds one exactly where the element there is the text of a call whose
name is an identifier, and it is that call. -/
theorem branches_bounded (text : String) :
    (ofText text).depth ≤ groupLimit ∧ (ofResult text).depth ≤ groupLimit ∧
    (∀ path c, (ofResult text).at? path ≠ some (call c)) ∧
    ∀ path c, (ofText text).at? path = some (call c) ↔ path.length ≤ groupLimit ∧
      ∃ element, elementAt? path text.toList = some element ∧
        Call.read element = .ok c ∧ isIdentifier c.name.toList = true := by
  refine ⟨depth_read_le _ _ _, depth_read_le _ _ _, fun path c hat => ?_, fun path c => ?_⟩
  · obtain ⟨-, element, -, hread⟩ := at?_read_iff.1 hat
    exact Bool.false_ne_true (read_call_iff.1 hread).1
  · have hcall (element : List Char) : isCallText element = true ∧ Call.read element = .ok c ↔
        Call.read element = .ok c ∧ isIdentifier c.name.toList = true := by
      rw [isCallText_iff_read, and_comm]
      refine and_congr_right fun hread => ?_
      simp [hread]
    rw [ofText, at?_read_iff]
    simp only [read_eq_call_iff, hcall]

example : elementAt? [1, 0] "[1, [ f(2) ]]".toList = some "f(2)".toList := rfl

end Argument

end ToolDialogue
