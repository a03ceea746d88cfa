import CrossPlan.Decimal.Shortest

/-!
# How a double is written

Two layouts of the shortest digits are in use: the plain one, which never has an exponent, for
values shown to a reader, and the one of JSON texts.  A third writes a fixed number of places.
-/

set_option autoImplicit false

namespace CrossPlan.Decimal

def zeros (count : Nat) : String :=
  String.ofList (List.replicate count '0')

def digitText (n : Nat) : String :=
  String.ofList (Nat.toDigits 10 n)

/-- Digits without an exponent; a whole number gets `ending` behind it. -/
def positional (digits : Digits) (ending : String) : String :=
  let text := digitText digits.value
  let count : Int := text.length
  if digits.point ≤ 0 then "0." ++ zeros (-digits.point).toNat ++ text
  else if digits.point < count then
    let split := digits.point.toNat
    String.ofList (text.toList.take split) ++ "." ++ String.ofList (text.toList.drop split)
  else text ++ zeros (digits.point - count).toNat ++ ending

/-- Digits with an exponent, which always has a sign. -/
def scientific (digits : Digits) : String :=
  let text := (digitText digits.value).toList
  let exponent := digits.point - 1
  let tail := match text.drop 1 with
    | [] => ""
    | rest => "." ++ String.ofList rest
  let power := (if exponent < 0 then "-" else "+") ++ digitText exponent.natAbs
  String.ofList (text.take 1) ++ tail ++ "e" ++ power

/-- The layout of a value shown to a reader: no exponent and no point in a whole number. -/
def plain (x : Float) : String :=
  match Reading.ofDouble x with
  | .undefined => "NaN"
  | .infinite negative => if negative then "-inf" else "inf"
  | .finite negative mantissa exponent =>
    let sign := if negative then "-" else ""
    if mantissa = 0 then sign ++ "0"
    else sign ++ positional (shortest .up mantissa exponent) ""

/-- The layout of a number in a JSON text: without exponent from `1e-5` up to `1e16`, and always
with a point or an exponent.  What is no number has no layout. -/
def json? (x : Float) : Option String :=
  match Reading.ofDouble x with
  | .undefined | .infinite _ => none
  | .finite negative mantissa exponent =>
    let sign := if negative then "-" else ""
    if mantissa = 0 then some (sign ++ "0.0")
    else
      let digits := shortest .toEven mantissa exponent
      if -5 < digits.point ∧ digits.point ≤ 16 then some (sign ++ positional digits ".0")
      else some (sign ++ scientific digits)

/-- A value with exactly `places` digits behind the point; an exact half goes to the even digit. -/
def fixed (places : Nat) (x : Float) : String :=
  match Reading.ofDouble x with
  | .undefined => "NaN"
  | .infinite negative => if negative then "-inf" else "inf"
  | .finite negative mantissa exponent =>
    let (num, den) := ratio mantissa exponent
    let text := Nat.toDigits 10 (roundHalfEven (num * Nat.pow 10 places) den)
    let padded := List.replicate (places + 1 - text.length) '0' ++ text
    let split := padded.length - places
    (if negative then "-" else "") ++ String.ofList (padded.take split) ++
      (if places = 0 then "" else "." ++ String.ofList (padded.drop split))

end CrossPlan.Decimal
