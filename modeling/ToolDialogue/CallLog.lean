import ToolDialogue.Json.Value
import Std.Data.ExtTreeMap

/-! A log of finished calls, each under the key of the call. Entries stand in the order in which
their keys first came; a later result for the same key takes the place of the earlier. An index
tells where the entry of a key stands. -/
namespace ToolDialogue

/-- The identity of a call: its name and the values it passes. -/
def callKey (name : String) (args : List Json.Value) : String :=
  name ++ "(" ++ ", ".intercalate (args.map Json.Value.text) ++ ")"

/-- A finished call. -/
structure Entry where
  key : String
  result : String
  deriving DecidableEq, Repr, Inhabited

/-- A new result leaves every key where it is. -/
theorem map_key_set (entries : List Entry) {i : Nat} (h : i < entries.length) (result : String) :
    (entries.set i { entries[i] with result }).map Entry.key = entries.map Entry.key := by
  have hi : i < (entries.map Entry.key).length := by simpa using h
  have hkey : entries[i].key = (entries.map Entry.key)[i] := by simp
  rw [List.map_set, hkey, List.set_getElem_self]

/-- Positions by key. -/
abbrev KeyIndex := Std.ExtTreeMap String Nat

/-- The index holds exactly these keys, each with the one position where it stands. -/
def KeyIndex.Holds (index : KeyIndex) (keys : List String) : Prop :=
  ∀ key (i : Nat), index[key]? = some i ↔ keys[i]? = some key

namespace KeyIndex.Holds

variable {index : KeyIndex} {keys : List String} {key : String}

theorem empty : Holds ∅ [] := by
  simp [Holds]

theorem concat (h : index.Holds keys) (hnew : index[key]? = none) :
    Holds (index.insert key keys.length) (keys ++ [key]) := by
  intro key' i
  have hconcat : (keys ++ [key])[i]? = some key' ↔
      keys[i]? = some key' ∨ i = keys.length ∧ key = key' := by grind
  rw [hconcat, ← h key' i]
  simp only [Std.ExtTreeMap.getElem?_insert, Std.compare_eq_iff_eq]
  by_cases hkey : key = key'
  · subst hkey
    simp [hnew, eq_comm]
  · simp [hkey]

theorem nodup (h : index.Holds keys) : keys.Nodup := by
  rw [List.nodup_iff_pairwise_ne, List.pairwise_iff_getElem]
  intro i j hi hj hij heq
  have hfirst := (h _ i).2 (List.getElem?_eq_getElem hi)
  have hsecond := (h _ j).2 (List.getElem?_eq_getElem hj)
  rw [heq, hsecond] at hfirst
  cases hfirst
  exact Nat.lt_irrefl _ hij

end KeyIndex.Holds

structure CallLog where
  entries : List Entry
  index : KeyIndex
  inStep : index.Holds (entries.map Entry.key)
  deriving DecidableEq, Repr

namespace CallLog

def empty : CallLog :=
  ⟨[], ∅, .empty⟩

instance : Inhabited CallLog := ⟨empty⟩

theorem distinct (log : CallLog) : (log.entries.map Entry.key).Nodup :=
  log.inStep.nodup

variable {key : String} {i : Nat}

theorem index_eq_some_iff {log : CallLog} :
    log.index[key]? = some i ↔ ∃ result, log.entries[i]? = some ⟨key, result⟩ := by
  rw [log.inStep key i, List.getElem?_map, Option.map_eq_some_iff]
  constructor
  · rintro ⟨e, he, rfl⟩
    exact ⟨e.result, he⟩
  · rintro ⟨result, he⟩
    exact ⟨_, he, rfl⟩

theorem lt_of_index {log : CallLog} (h : log.index[key]? = some i) : i < log.entries.length := by
  obtain ⟨result, he⟩ := index_eq_some_iff.1 h
  exact (List.getElem?_eq_some_iff.1 he).1

/-- The result under `key`. -/
def find? (log : CallLog) (key : String) : Option String :=
  match h : log.index[key]? with
  | some i =>
    have : i < log.entries.length := lt_of_index h
    some log.entries[i].result
  | none => none

def contains (log : CallLog) (key : String) : Bool :=
  log.index.contains key

/-- Gives the entry with this key the new result, or adds an entry at the end. -/
def put (log : CallLog) (key result : String) : CallLog :=
  match h : log.index[key]? with
  | some i =>
    have hi : i < log.entries.length := lt_of_index h
    { log with
      entries := log.entries.set i { log.entries[i] with result }
      inStep := by rw [map_key_set]; exact log.inStep }
  | none =>
    { entries := log.entries ++ [⟨key, result⟩]
      index := log.index.insert key log.entries.length
      inStep := by simpa using log.inStep.concat h }

def size (log : CallLog) : Nat :=
  log.entries.length

/-- One line for each entry. -/
def lines (log : CallLog) : String :=
  String.join (log.entries.map fun e => s!"- {e.key} = {e.result}\n")

@[simp] theorem entries_empty : empty.entries = [] := rfl

theorem find?_eq (log : CallLog) (key : String) :
    log.find? key = log.index[key]?.bind fun i => log.entries[i]?.map Entry.result := by
  unfold find?
  split
  · rename_i i h
    simp [h, lt_of_index h]
  · rename_i h
    simp [h]

theorem find?_eq_some_iff {log : CallLog} {result : String} :
    log.find? key = some result ↔ ⟨key, result⟩ ∈ log.entries := by
  rw [find?_eq, Option.bind_eq_some_iff, List.mem_iff_getElem?]
  constructor
  · rintro ⟨i, hi, hresult⟩
    obtain ⟨previous, he⟩ := index_eq_some_iff.1 hi
    rw [he] at hresult
    cases hresult
    exact ⟨i, he⟩
  · rintro ⟨i, he⟩
    exact ⟨i, index_eq_some_iff.2 ⟨result, he⟩, by rw [he]; rfl⟩

theorem find?_eq_none_iff {log : CallLog} :
    log.find? key = none ↔ log.index[key]? = none := by
  rw [find?_eq]
  cases h : log.index[key]? with
  | none => simp
  | some i => simp [lt_of_index h]

theorem entries_put_of_find? {log : CallLog} {result : String} (h : log.find? key = none) :
    (log.put key result).entries = log.entries ++ [⟨key, result⟩] := by
  have hnew := find?_eq_none_iff.1 h
  unfold put
  split
  · simp_all
  · rfl

end CallLog

end ToolDialogue
