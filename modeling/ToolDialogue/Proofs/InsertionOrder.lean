import Mathlib.Data.List.DropRight
import ToolDialogue.Proofs.CarriedResults

/-! A log is a map in order of insertion. Whatever was put into it and however often it was cleared,
its entries are the keys put since, in the order in which they first came, each with what was put
last, and its index is in step with them. -/
namespace ToolDialogue

namespace CallLog

/-- A change to a log. -/
inductive Edit where
  | put (key result : String)
  | clear
  deriving DecidableEq

namespace Edit

def apply (log : CallLog) : Edit → CallLog
  | put key result => log.put key result
  | clear => .empty

def key? : Edit → Option String
  | put key _ => some key
  | clear => none

def Leaves (key : String) : Edit → Prop
  | put key' _ => key' ≠ key
  | clear => False

end Edit

def edited (edits : List Edit) : CallLog :=
  edits.foldl Edit.apply .empty

/-- `result` was put under the key, and no later edit put another there or cleared the log. -/
def Stands (edits : List Edit) (key result : String) : Prop :=
  ∃ before after, edits = before ++ .put key result :: after ∧ ∀ edit ∈ after, edit.Leaves key

/-- The keys that were put since the log was last cleared, as often as they were put. -/
def keysPut (edits : List Edit) : List String :=
  (edits.rtakeWhile (· ≠ .clear)).filterMap Edit.key?

section puts

variable {edits : List Edit} {edit : Edit} {key result : String}

theorem not_stands_nil : ¬ Stands [] key result := by
  rintro ⟨before, after, h, -⟩
  simp at h

theorem stands_concat : Stands (edits ++ [edit]) key result ↔
    edit = .put key result ∨ Stands edits key result ∧ edit.Leaves key :=
  exists_last_concat_iff

theorem keysPut_concat_put (edits : List Edit) (key result : String) :
    keysPut (edits ++ [.put key result]) = keysPut edits ++ [key] := by
  rw [keysPut, List.rtakeWhile_concat_pos _ _ _ (by simp), List.filterMap_append]
  rfl

theorem keysPut_concat_clear (edits : List Edit) : keysPut (edits ++ [.clear]) = [] := by
  rw [keysPut, List.rtakeWhile_concat_neg _ _ _ (by simp)]
  rfl

theorem eraseDups_concat (keys : List String) (key : String) : (keys ++ [key]).eraseDups =
    if key ∈ keys then keys.eraseDups else keys.eraseDups ++ [key] := by
  rw [List.eraseDups_append, List.removeAll]
  split <;> simp_all [List.eraseDups_cons]

end puts

section steps

variable {log : CallLog} {key result : String}

theorem index_eq_none_iff :
    log.index[key]? = none ↔ key ∉ log.entries.map Entry.key := by
  rw [List.mem_iff_getElem?, Option.eq_none_iff_forall_ne_some, not_exists]
  exact forall_congr' fun i => not_congr (log.inStep key i)

theorem contains_eq_isSome (log : CallLog) (key : String) :
    log.contains key = (log.find? key).isSome := by
  rw [contains, Std.ExtTreeMap.contains_eq_isSome_getElem?, Bool.eq_iff_iff,
    Option.isSome_iff_ne_none, Option.isSome_iff_ne_none, Ne, Ne, find?_eq_none_iff]

theorem keys_put (log : CallLog) (key result : String) :
    (log.put key result).entries.map Entry.key =
      if key ∈ log.entries.map Entry.key then log.entries.map Entry.key
      else log.entries.map Entry.key ++ [key] := by
  unfold put
  split
  · rename_i i h
    have hmem : key ∈ log.entries.map Entry.key := List.mem_of_getElem? ((log.inStep key i).1 h)
    rw [if_pos hmem, map_key_set]
  · rename_i h
    rw [if_neg (index_eq_none_iff.1 h), List.map_append]
    rfl

theorem index_inj {key' : String} {i : Nat} (h : log.index[key]? = some i)
    (h' : log.index[key']? = some i) : key = key' := by
  obtain ⟨result, he⟩ := index_eq_some_iff.1 h
  obtain ⟨result', he'⟩ := index_eq_some_iff.1 h'
  rw [he] at he'
  cases he'
  rfl

theorem find?_put (log : CallLog) (key result key' : String) :
    (log.put key result).find? key' = if key = key' then some result else log.find? key' := by
  rw [find?_eq, find?_eq]
  unfold put
  split
  · rename_i i h
    split
    · subst key'
      simp [h, lt_of_index h]
    · rename_i hne
      cases h' : log.index[key']? with
      | none => simp
      | some j =>
        have hij : i ≠ j := fun hij => hne (index_inj h (hij ▸ h'))
        simp [List.getElem?_set_ne hij]
  · rename_i h
    split
    · subst key'
      simp
    · rename_i hne
      cases h' : log.index[key']? with
      | none => simp [h', hne, Std.ExtTreeMap.getElem?_insert]
      | some j =>
        have hj : j < log.entries.length := lt_of_index h'
        simp [h', hne, Std.ExtTreeMap.getElem?_insert, List.getElem?_append_left hj]

theorem find?_apply_iff (edit : Edit) : (edit.apply log).find? key = some result ↔
    edit = .put key result ∨ log.find? key = some result ∧ edit.Leaves key := by
  cases edit with
  | put key' result' =>
    rw [Edit.apply, find?_put]
    by_cases hkey : key' = key <;> simp [hkey, Edit.Leaves]
  | clear => simp [Edit.apply, Edit.Leaves, find?_eq_some_iff]

end steps

theorem find?_edited_iff {edits : List Edit} {key result : String} :
    (edited edits).find? key = some result ↔ Stands edits key result := by
  induction edits using List.reverseRecOn with
  | nil => simp [edited, find?_eq_some_iff, not_stands_nil]
  | append_singleton edits edit ih =>
    rw [edited, List.foldl_concat, find?_apply_iff, stands_concat, ← ih]
    rfl

theorem keys_edited (edits : List Edit) :
    (edited edits).entries.map Entry.key = (keysPut edits).eraseDups := by
  induction edits using List.reverseRecOn with
  | nil => rfl
  | append_singleton edits edit ih =>
    rw [edited, List.foldl_concat, ← edited]
    cases edit with
    | put key result =>
      rw [Edit.apply, keys_put, keysPut_concat_put, eraseDups_concat, ih]
      simp
    | clear =>
      rw [keysPut_concat_clear]
      rfl

/-- What a log holds after edits. -/
structure Keeps (edits : List Edit) (log : CallLog) : Prop where
  /-- The index has the keys of the entries and no others, each at its only place. -/
  index : ∀ key (i : Nat), log.index[key]? = some i ↔ ∃ result, log.entries[i]? = some ⟨key, result⟩
  find : ∀ key result, log.find? key = some result ↔ Stands edits key result
  contains : ∀ key, log.contains key = (log.find? key).isSome
  /-- The keys stand in the order in which they first came. -/
  keys : log.entries.map Entry.key = (keysPut edits).eraseDups
  results : ∀ e ∈ log.entries, Stands edits e.key e.result
  size : log.size = (keysPut edits).eraseDups.length
  /-- A line for each entry, in this order. -/
  lines : log.lines = String.join (log.entries.map Entry.line)

/-- However a log is edited, it is the map in order of insertion that the edits describe. -/
theorem edited_keeps (edits : List Edit) : Keeps edits (edited edits) where
  index _ _ := index_eq_some_iff
  find _ _ := find?_edited_iff
  contains := contains_eq_isSome (edited edits)
  keys := keys_edited edits
  results e he := find?_edited_iff.1 (find?_eq_some_iff.2 he)
  size := by rw [size, ← keys_edited, List.length_map]
  lines := lines_eq (edited edits)

example : (edited [.put "a()" "1", .put "b()" "2", .put "a()" "3"]).entries =
    [⟨"a()", "3"⟩, ⟨"b()", "2"⟩] := rfl

end CallLog

end ToolDialogue
