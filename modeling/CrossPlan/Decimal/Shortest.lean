import CrossPlan.Decimal.Binary

/-!
# The shortest decimal that reads back

The doubles nearest to a real number are found by rounding, so a finite double `v` owns an interval
of reals.  Of all decimals in that interval the one with the fewest digits is taken, and of several
with that many digits the one nearest to `v`.  Only the two neighbours of `v` on each decimal grid
have to be tried: when a point of a grid lies in an interval around `v`, so does one of those two.
-/

set_option autoImplicit false

namespace CrossPlan.Decimal

/-- A positive decimal `0.d₁d₂… · 10 ^ point`, its digits given as one number without trailing
zeros. -/
structure Digits where
  value : Nat
  point : Int
  deriving DecidableEq, Repr

/-- Which neighbour stands for a value that lies exactly between two. -/
inductive Tie where
  | toEven
  | up
  deriving DecidableEq, Repr

def digitCount (n : Nat) : Nat :=
  (Nat.toDigits 10 n).length

/-- A quotient scaled by a power of ten, as a quotient. -/
def scale (num den : Nat) (power : Int) : Nat × Nat :=
  match power with
  | .ofNat p => (num * Nat.pow 10 p, den)
  | .negSucc p => (num, den * Nat.pow 10 (p + 1))

/-- The power of ten `p` with `10 ^ (p - 1) ≤ num / den < 10 ^ p`. -/
def decimalPoint (num den : Nat) : Int :=
  let guess : Int := (digitCount num : Int) - (digitCount den : Int)
  let (n, d) := scale num den (-guess)
  if n < d then guess else guess + 1

/-- The interval of reals that round to `mantissa · 2 ^ exponent`, and the value itself,
over one denominator.  Below a power of two the doubles lie twice as dense. -/
structure Cell where
  low : Nat
  value : Nat
  high : Nat
  den : Nat
  closed : Bool

def Cell.around (mantissa : Nat) (exponent : Int) : Cell :=
  let below := if mantissa = fractions ∧ -1074 < exponent then 1 else 2
  let unit := ratio 1 (exponent - 2)
  { low := (4 * mantissa - below) * unit.1
    value := 4 * mantissa * unit.1
    high := (4 * mantissa + 2) * unit.1
    den := unit.2
    closed := mantissa % 2 = 0 }

/-- Whether `digits · 10 ^ -power` lies in the interval. -/
def Cell.holds (cell : Cell) (digits : Nat) (power : Int) : Bool :=
  let (low, den) := scale cell.low cell.den power
  let (high, _) := scale cell.high cell.den power
  let point := digits * den
  if cell.closed then low ≤ point && point ≤ high else low < point && point < high

/-- The point of the grid of spacing `10 ^ -power` that lies in the interval nearest to the
value. -/
def Cell.onGrid (tie : Tie) (cell : Cell) (power : Int) : Option Nat :=
  let (num, den) := scale cell.value cell.den power
  let floor := num / den
  let twice := 2 * (num % den)
  let nearest :=
    if twice < den then floor
    else if den < twice then floor + 1
    else match tie with
      | .toEven => if floor % 2 = 0 then floor else floor + 1
      | .up => floor + 1
  let other := if nearest = floor then floor + 1 else floor
  if cell.holds nearest power then some nearest
  else if cell.holds other power then some other
  else none

/-- Drops trailing zeros from a digit string that stands for `value · 10 ^ (point - count)`. -/
def Digits.trim (value : Nat) (point : Int) : Digits :=
  let text := Nat.toDigits 10 value
  let kept := (text.reverse.dropWhile (· == '0')).reverse
  ⟨Nat.ofDigitChars 10 kept 0, point⟩

/-- The shortest digits of `mantissa · 2 ^ exponent`, a positive magnitude. -/
def shortest (tie : Tie) (mantissa : Nat) (exponent : Int) : Digits :=
  let cell := Cell.around mantissa exponent
  let point := decimalPoint cell.value cell.den
  let found := (List.range 17).findSome? fun count : Nat =>
    let power := (count : Int) + 1 - point
    (cell.onGrid tie power).map fun value =>
      -- A neighbour above may be the next power of ten, with one digit more before the point.
      Digits.trim value (point + ((digitCount value : Int) - ((count : Int) + 1)))
  found.getD (Digits.trim (roundHalfEven cell.value cell.den) point)

end CrossPlan.Decimal
