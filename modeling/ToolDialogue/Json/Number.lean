import ToolDialogue.Decimal.Layout
import ToolDialogue.Decimal.Reading

/-! Numbers of JSON text: integers of the signed or unsigned 64-bit range, and finite floats.
Reading keeps the leading digits that fit in 64 bits and scales them once by a power of ten, so
a long decimal may come out beside the nearest float. -/
namespace ToolDialogue.Json

/-- The least signed 64-bit integer. -/
def minInteger : Int := -9223372036854775808

/-- The greatest unsigned 64-bit integer. -/
def maxInteger : Int := 18446744073709551615

inductive Number where
  | integer (n : Int) (fits : minInteger ≤ n ∧ n ≤ maxInteger)
  | float (x : Float) (finite : x.isFinite = true)
  deriving DecidableEq

namespace Number

/-- The integer `n` if it is in range. -/
def ofInt? (n : Int) : Option Number :=
  if h : minInteger ≤ n ∧ n ≤ maxInteger then some (.integer n h) else none

/-- The float `x` if it is finite. -/
def ofFloat? (x : Float) : Option Number :=
  if h : x.isFinite = true then some (.float x h) else none

def ofInt64 (n : Int64) : Number :=
  .integer n.toInt ⟨n.le_toInt, by have := n.toInt_lt; simp only [maxInteger]; omega⟩

/-- The value as a signed 64-bit integer; a float is none, whole or not. -/
def toInt64? : Number → Option Int64
  | integer n _ => if n ≤ Int64.maxValue.toInt then some (.ofInt n) else none
  | float _ _ => none

/-- The value as a float; integers go to the nearest one. -/
def toFloat : Number → Float
  | integer n _ => Float.ofInt n
  | float x _ => x

/-- Floats are written with a point, positionally from `0.00001` up to sixteen digits. -/
def layout : Decimal.Layout := ⟨some (-5, 15), ".0", .toEven⟩

def intChars : Int → List Char
  | .ofNat n => Nat.toDigits 10 n
  | .negSucc n => '-' :: Nat.toDigits 10 (n + 1)

def chars : Number → List Char
  | integer n _ => intChars n
  | float x _ => layout.text x

def text (n : Number) : String :=
  String.ofList n.chars

/-- `significand * 10 ^ exponent`, as far as it has been read; `full` once a digit did not fit
in 64 bits. -/
structure Reading where
  significand : Nat
  exponent : Int
  full : Bool
  deriving DecidableEq, Repr

/-- Adds a digit before the point; one that no longer fits is replaced by a zero. -/
def Reading.whole (r : Reading) (d : Nat) : Reading :=
  if r.full || maxInteger < r.significand * 10 + d then
    { r with exponent := r.exponent + 1, full := true }
  else { r with significand := r.significand * 10 + d }

/-- Adds a digit behind the point; from the first that does not fit on, digits are dropped. -/
def Reading.fraction (r : Reading) (d : Nat) : Reading :=
  if r.full || maxInteger < r.significand * 10 + d then { r with full := true }
  else { r with significand := r.significand * 10 + d, exponent := r.exponent - 1 }

/-- Divides by `10 ^ n`, by `10 ^ 308` at a time. -/
def scaleDown (x : Float) (n : Nat) : Float :=
  if n ≤ 308 then x / Float.ofScientific 1 false n
  else if x == 0.0 then x
  else scaleDown (x / Float.ofScientific 1 false 308) (n - 308)
termination_by n

/-- The float `significand * 10 ^ exponent`, or none if it is beyond the greatest one. -/
def scale? (significand : Nat) (exponent : Int) : Option Float :=
  let x := Float.ofNat significand
  match exponent with
  | .ofNat n =>
    if n ≤ 308 then
      let y := x * Float.ofScientific 1 false n
      if y.isInf then none else some y
    else if x == 0.0 then some x
    else none
  | .negSucc n => some (scaleDown x (n + 1))

def signedFloat? (minus : Bool) (significand : Nat) (exponent : Int) : Option Number := do
  let x ← scale? significand exponent
  ofFloat? (if minus then -x else x)

/-- An integer without point and exponent; minus zero and values out of range are floats. -/
def ofSignificand? (minus : Bool) (n : Nat) : Option Number :=
  if minus then
    if n = 0 then ofFloat? (-0.0)
    else
      match ofInt? (-n) with
      | some r => some r
      | none => ofFloat? (-(Float.ofNat n))
  else ofInt? n

/-- The digits before the point: zero alone, or digits that do not start with zero. -/
def wholeDigits? (text : List Char) : Option (List Nat × List Char) :=
  match Decimal.leadingDigits text with
  | ([], _) => none
  | (0 :: _ :: _, _) => none
  | parts => some parts

/-- Reads a number behind its sign. -/
def readUnsigned? (minus : Bool) (text : List Char) : Option (Number × List Char) := do
  let (ds, rest) ← wholeDigits? text
  let r := ds.foldl Reading.whole ⟨0, 0, false⟩
  match rest with
  | '.' :: rest =>
    match Decimal.leadingDigits rest with
    | ([], _) => none
    | (fs, rest) =>
      let r := fs.foldl Reading.fraction { r with full := false }
      let (e, rest) ← Decimal.readExponent rest
      return (← signedFloat? minus r.significand (r.exponent + e), rest)
  | _ =>
    let (e, after) ← Decimal.readExponent rest
    if r.full || after.length < rest.length then
      return (← signedFloat? minus r.significand (r.exponent + e), after)
    else return (← ofSignificand? minus r.significand, rest)

/-- Reads a number at the start of a text. -/
def read? (text : List Char) : Option (Number × List Char) :=
  match text with
  | '-' :: rest => readUnsigned? true rest
  | _ => readUnsigned? false text

/-- The number that the whole text spells. -/
def ofText? (text : List Char) : Option Number :=
  match read? text with
  | some (n, []) => some n
  | _ => none

end Number

end ToolDialogue.Json
