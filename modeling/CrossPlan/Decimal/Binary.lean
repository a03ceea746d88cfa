import CrossPlan.Count

/-!
# Doubles as exact numbers

A finite double is a sign and a magnitude `mantissa · 2 ^ exponent`.  Printing, rounding up and the
total order are stated on that reading, so they are exact integer computations.
-/

set_option autoImplicit false

namespace CrossPlan.Decimal

inductive Reading where
  | undefined
  | infinite (negative : Bool)
  | finite (negative : Bool) (mantissa : Nat) (exponent : Int)
  deriving DecidableEq, Repr

/-- The number of fractions of a double: 2 to the 52nd. -/
def fractions : Nat := 0x10000000000000

/-- The value of the 64 bits of a double: one sign bit, eleven exponent bits, 52 fraction bits. -/
def Reading.ofBits (bits : Nat) : Reading :=
  let negative := decide (Count.half ≤ bits)
  let biased : Nat := bits / fractions % 2048
  let fraction : Nat := bits % fractions
  if biased = 2047 then
    if fraction = 0 then .infinite negative else .undefined
  else if biased = 0 then .finite negative fraction (-1074)
  else .finite negative (fractions + fraction) ((biased : Int) - 1075)

def Reading.ofDouble (x : Float) : Reading :=
  Reading.ofBits x.toBits.toNat

/-- A magnitude as a quotient of natural numbers. -/
def ratio (mantissa : Nat) (exponent : Int) : Nat × Nat :=
  match exponent with
  | .ofNat e => (mantissa * Nat.pow 2 e, 1)
  | .negSucc e => (mantissa, Nat.pow 2 (e + 1))

/-- The quotient rounded to the nearest integer; an exact half goes to the even one. -/
def roundHalfEven (num den : Nat) : Nat :=
  let q := num / den
  let twice := 2 * (num % den)
  if twice < den then q
  else if den < twice then q + 1
  else if q % 2 = 0 then q else q + 1

/-- The least integer that is not below a double, kept within `0` and `limit`. -/
def ceilWithin (limit : Nat) (x : Float) : Nat :=
  match Reading.ofDouble x with
  | .undefined => 0
  | .infinite negative => if negative then 0 else limit
  | .finite negative mantissa exponent =>
    if negative then 0
    else
      let (num, den) := ratio mantissa exponent
      min limit ((num + den - 1) / den)

/-- The key of the total order on doubles: negative before positive, `-0` before `0`, an undefined
value beyond the infinity of its sign. -/
def orderKey (x : Float) : Int :=
  let bits := x.toBits.toNat
  if bits < Count.half then (bits : Int) else -1 - ((bits - Count.half : Nat) : Int)

end CrossPlan.Decimal
