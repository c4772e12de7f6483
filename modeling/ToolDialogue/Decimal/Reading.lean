import ToolDialogue.Text.Blank

/-! Numbers written as decimal text: signed 64-bit integers, with the first fault found from
left to right, and floats, rounded to the nearest. -/
namespace ToolDialogue.Decimal

def digit? (c : Char) : Option Nat :=
  if '0' ≤ c ∧ c ≤ '9' then some (c.toNat - '0'.toNat) else none

/-- The digits a text starts with, and what follows them. -/
def leadingDigits (text : List Char) : List Nat × List Char :=
  match text with
  | [] => ([], [])
  | c :: rest =>
    match digit? c with
    | some d => (leadingDigits rest).map (d :: ·) id
    | none => ([], text)

def ofDigits (digits : List Nat) : Nat :=
  digits.foldl (fun n d => n * 10 + d) 0

/-- Splits an optional sign off; true is minus. -/
def sign (text : List Char) : Bool × List Char :=
  match text with
  | '-' :: rest => (true, rest)
  | '+' :: rest => (false, rest)
  | _ => (false, text)

/-- Why a text is not a signed 64-bit integer. -/
inductive IntegerFault where
  | empty
  | invalidDigit
  | tooLarge
  | tooSmall
  deriving DecidableEq, Repr

def IntegerFault.message : IntegerFault → String
  | empty => "cannot parse integer from empty string"
  | invalidDigit => "invalid digit found in string"
  | tooLarge => "number too large to fit in target type"
  | tooSmall => "number too small to fit in target type"

/-- Reads digits onto `n`, downwards if `minus`; at each character the digit is judged before
the range. -/
def int64Digits (minus : Bool) (n : Int) : List Char → Except IntegerFault Int
  | [] => .ok n
  | c :: rest =>
    match digit? c with
    | none => .error .invalidDigit
    | some d =>
      let next := if minus then n * 10 - d else n * 10 + d
      if next < Int64.minValue.toInt then .error .tooSmall
      else if Int64.maxValue.toInt < next then .error .tooLarge
      else int64Digits minus next rest

/-- Reads an optional sign and at least one digit, nothing else. -/
def readInt64 (text : List Char) : Except IntegerFault Int64 :=
  if text.isEmpty then .error .empty
  else
    let (minus, digits) := sign text
    if digits.isEmpty then .error .invalidDigit
    else (int64Digits minus 0 digits).map Int64.ofInt

/-- The float nearest to `n * 10 ^ exponent`. Beyond the range of floats the power of ten is
not computed. -/
def nearestFloat (n : Nat) (exponent : Int) : Float :=
  let size : Int := (Nat.toDigits 10 n).length + exponent
  if n = 0 ∨ size < -400 then 0.0
  else if 400 < size then 1.0 / 0.0
  else Float.ofScientific n (exponent < 0) exponent.natAbs

/-- Reads `e` or `E`, an optional sign and at least one digit; an absent exponent is 0. -/
def readExponent (text : List Char) : Option (Int × List Char) :=
  match text with
  | c :: rest =>
    if c = 'e' ∨ c = 'E' then
      let (minus, rest) := sign rest
      match leadingDigits rest with
      | ([], _) => none
      | (ds, rest) => some (if minus then -(ofDigits ds : Int) else ofDigits ds, rest)
    else some (0, text)
  | [] => some (0, [])

/-- Digits with an optional point among, before or behind them. -/
def readPointed (text : List Char) : Option (Nat × Int × List Char) :=
  let (whole, rest) := leadingDigits text
  let (fraction, rest) :=
    match rest with
    | '.' :: rest => leadingDigits rest
    | _ => ([], rest)
  if whole.isEmpty && fraction.isEmpty then none
  else some (ofDigits (whole ++ fraction), -fraction.length, rest)

/-- Reads a whole text as a float: a decimal, or the words `inf`, `infinity` and `nan` in any
case, with an optional sign. -/
def readFloat (text : List Char) : Option Float :=
  let (minus, body) := sign text
  let magnitude : Option Float :=
    if ["inf", "infinity"].any (Text.sameIgnoringCase body ·.toList) then some (1.0 / 0.0)
    else if Text.sameIgnoringCase body "nan".toList then some (0.0 / 0.0)
    else do
      let (n, shift, rest) ← readPointed body
      let (exponent, rest) ← readExponent rest
      if rest.isEmpty then some (nearestFloat n (shift + exponent)) else none
  magnitude.map fun x => if minus then -x else x

end ToolDialogue.Decimal
