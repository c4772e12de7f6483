/-! The decimal of a binary64 magnitude that has the fewest digits. A magnitude is
`mantissa * 2 ^ exponent`; the decimals that round to it form an interval around it. The chosen
decimal is a point of the coarsest power-of-ten grid that meets this interval, the nearer one
when two neighbours of the magnitude do. All arithmetic is exact. -/
namespace ToolDialogue.Decimal

/-- The value `digits * 10 ^ exponent`. -/
structure Scaled where
  digits : Nat
  exponent : Int
  deriving DecidableEq, Repr

/-- The value `mantissa * 2 ^ exponent`. Below it the representable numbers lie half as far
apart when `lowEdge` holds. -/
structure Magnitude where
  mantissa : Nat
  exponent : Int
  lowEdge : Bool
  deriving DecidableEq, Repr

/-- The least mantissa of a normal float: one with 52 binary places. -/
def normalUnit : Nat := 0x10000000000000

/-- The magnitude of a finite float. -/
def Magnitude.ofFloat (x : Float) : Magnitude :=
  let bits := x.toBits.toNat
  let fraction := bits % normalUnit
  let biased := bits / normalUnit % 2048
  if biased = 0 then ⟨fraction, -1074, false⟩
  else ⟨normalUnit + fraction, Int.ofNat biased - 1075, fraction = 0 && 1 < biased⟩

/-- Whether the sign of a float is minus; negative zero has one. -/
def hasMinus (x : Float) : Bool :=
  2048 * normalUnit ≤ x.toBits.toNat

/-- Which of two equally near decimals is taken. -/
inductive Tie where
  | toEven
  | up
  deriving DecidableEq, Repr

/-- The numerator of `base ^ exponent`. -/
def powNum (base : Nat) (exponent : Int) : Nat :=
  Nat.pow base exponent.toNat

/-- The denominator of `base ^ exponent`. -/
def powDen (base : Nat) (exponent : Int) : Nat :=
  Nat.pow base (-exponent).toNat

/-- A magnitude and the ends of its interval doubled one denominator, counted in steps of a
power-of-ten grid. The ends belong to the interval when `closed` holds. -/
structure Interval where
  low : Nat
  value : Nat
  high : Nat
  denominator : Nat
  closed : Bool
  deriving DecidableEq, Repr

/-- The interval of `x` counted in steps of `10 ^ grid`. -/
def Magnitude.interval (x : Magnitude) (grid : Int) : Interval :=
  let quarter := x.exponent - 2
  let scale := powNum 2 quarter * powDen 10 grid
  { low := (4 * x.mantissa - if x.lowEdge then 1 else 2) * scale
    value := 4 * x.mantissa * scale
    high := (4 * x.mantissa + 2) * scale
    denominator := powDen 2 quarter * powNum 10 grid
    closed := x.mantissa % 2 = 0 }

/-- Whether `point` steps of the grid lie in the interval. -/
def Interval.holds (i : Interval) (point : Nat) : Bool :=
  let p := point * i.denominator
  if i.closed then i.low ≤ p && p ≤ i.high else i.low < p && p < i.high

/-- The neighbour of the value on the grid that lies in the interval, the nearer one if both
do. -/
def Interval.point? (tie : Tie) (i : Interval) : Option Nat :=
  let below := i.value / i.denominator
  let rest := i.value % i.denominator
  match i.holds below, i.holds (below + 1) with
  | true, false => some below
  | false, true => some (below + 1)
  | false, false => none
  | true, true =>
    if 2 * rest < i.denominator then some below
    else if i.denominator < 2 * rest then some (below + 1)
    else if tie = .toEven && below % 2 = 0 then some below
    else some (below + 1)

/-- Tries `steps` grids from `10 ^ grid` downwards; the last one that is left holds the
magnitude itself. -/
def Magnitude.search (tie : Tie) (x : Magnitude) : Nat → Int → Scaled
  | 0, grid => ⟨(x.interval grid).value / (x.interval grid).denominator, grid⟩
  | steps + 1, grid =>
    match (x.interval grid).point? tie with
    | some point => ⟨point, grid⟩
    | none => x.search tie steps (grid - 1)

/-- The number of decimal digits of `n`. -/
def digitCount (n : Nat) : Nat :=
  (Nat.toDigits 10 n).length

/-- The shortest decimal that rounds to `x`. The search starts above the interval and stops at
a grid on which `x` lies. -/
def Magnitude.shortest (tie : Tie) (x : Magnitude) : Scaled :=
  let start : Int := digitCount (x.mantissa * powNum 2 x.exponent / powDen 2 x.exponent)
  let last : Int := min x.exponent 0
  x.search tie (start - last).toNat start

end ToolDialogue.Decimal
