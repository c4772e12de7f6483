import ToolDialogue.Json.Value

/-! Stored forms of records as JSON values. A record is an object with its fields in declared
order. It is also read from a list of its fields in that order, and members of other names are
passed over. -/
namespace ToolDialogue.Stored

open Json (Value)

/-- The fields of a record by their names, each if it is there. -/
def fields? (names : List String) : Value → Option (List (Option Value))
  | .object members => some (names.map fun name => members.lookup name)
  | .array items =>
    if items.length ≤ names.length then
      some ((List.range names.length).map fun i => items[i]?)
    else none
  | _ => none

/-- A name out of a fixed set: a string, or an object that gives the name the member null. -/
def name? : Value → Option String
  | .string name => some name
  | .object [(name, .null)] => some name
  | _ => none

/-- A field that may be left out or be null. -/
def optional? {α : Type} (decode : Value → Option α) : Option Value → Option (Option α)
  | none => some none
  | some .null => some none
  | some v => (decode v).map some

def list? {α : Type} (decode : Value → Option α) : Value → Option (List α)
  | .array items => items.mapM decode
  | _ => none

/-- A list that may be left out. -/
def optionalList? {α : Type} (decode : Value → Option α) : Option Value → Option (List α)
  | none => some []
  | some v => list? decode v

def string? : Value → Option String :=
  Value.toString?

def uint32? : Value → Option UInt32
  | .number (.integer n _) => if 0 ≤ n ∧ n < UInt32.size then some (.ofNat n.toNat) else none
  | _ => none

def strings (texts : List String) : Value :=
  .array (texts.map .string)

def ofUInt32 (n : UInt32) : Value :=
  .number (.integer n.toNat (by
    have := n.toNat_lt
    simp only [Json.minInteger, Json.maxInteger]
    omega))

end ToolDialogue.Stored
