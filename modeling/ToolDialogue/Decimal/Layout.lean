import ToolDialogue.Decimal.Shortest

/-! Decimal text of finite floats. A layout says which values are written without an exponent
and how whole numbers are marked. -/
namespace ToolDialogue.Decimal

structure Layout where
  /-- The exponents of the first digit that are written positionally; all of them if absent. -/
  positional : Option (Int × Int)
  /-- Written after a whole number. -/
  wholeMark : String
  tie : Tie
  deriving DecidableEq, Repr

def Layout.isPositional (layout : Layout) (exponent : Int) : Bool :=
  match layout.positional with
  | none => true
  | some (least, greatest) => least ≤ exponent && exponent ≤ greatest

def zeros (n : Nat) : List Char :=
  List.replicate n '0'

/-- The digits of a positive value with its decimal point in place. -/
def Layout.positionalText (layout : Layout) (x : Scaled) : List Char :=
  let digits := Nat.toDigits 10 x.digits
  match x.exponent with
  | .ofNat n => digits ++ zeros n ++ layout.wholeMark.toList
  | .negSucc n =>
    if n + 1 < digits.length then
      digits.take (digits.length - (n + 1)) ++ '.' :: digits.drop (digits.length - (n + 1))
    else '0' :: '.' :: zeros (n + 1 - digits.length) ++ digits

/-- One digit before the point, the others behind it, and a signed exponent. -/
def scientificText (x : Scaled) : List Char :=
  let digits := Nat.toDigits 10 x.digits
  let exponent : Int := x.exponent + (digits.length - 1)
  let fraction := if digits.length = 1 then [] else '.' :: digits.drop 1
  let sign := if exponent < 0 then '-' else '+'
  digits.take 1 ++ fraction ++ 'e' :: sign :: Nat.toDigits 10 exponent.natAbs

/-- The text of a value without its sign. -/
def Layout.magnitudeText (layout : Layout) (x : Magnitude) : List Char :=
  if x.mantissa = 0 then '0' :: layout.wholeMark.toList
  else
    let shortest := x.shortest layout.tie
    if layout.isPositional (shortest.exponent + (digitCount shortest.digits - 1)) then
      layout.positionalText shortest
    else scientificText shortest

/-- The text of a finite float; negative zero keeps its sign. -/
def Layout.text (layout : Layout) (x : Float) : List Char :=
  let unsigned := layout.magnitudeText (.ofFloat x)
  if hasMinus x then '-' :: unsigned else unsigned

end ToolDialogue.Decimal
