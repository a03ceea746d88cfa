import CrossPlan.Count
import CrossPlan.Text.Blank

/-!
# Numbers written as text

Integers are read with at most one sign, doubles in every form that has at least one digit, and the
names of the infinities and of the undefined value in any case of letters.  Blanks are not skipped.
-/

set_option autoImplicit false

namespace CrossPlan.Numeral

def digit? (base : Nat) (c : Char) : Option Nat :=
  let value :=
    if '0' ≤ c ∧ c ≤ '9' then some (c.toNat - 48)
    else if 'a' ≤ c ∧ c ≤ 'z' then some (c.toNat - 87)
    else if 'A' ≤ c ∧ c ≤ 'Z' then some (c.toNat - 55)
    else none
  value.filter (· < base)

/-- The number written by one or more digits. -/
def natural? (base : Nat) (s : List Char) : Option Nat :=
  if s.isEmpty then none
  else s.foldlM (fun value c => (digit? base c).map (base * value + ·)) 0

/-- A natural number with an optional plus sign, below `limit`. -/
def unsigned? (base limit : Nat) (s : List Char) : Option Nat :=
  let body := match s with
    | '+' :: rest => rest
    | _ => s
  (natural? base body).filter (· < limit)

/-- An integer with an optional sign, from `-half` up to but not including `half`. -/
def signed? (base half : Nat) (s : List Char) : Option Int :=
  match s with
  | '-' :: rest => ((natural? base rest).filter (· ≤ half)).map fun n => -(n : Int)
  | '+' :: rest => ((natural? base rest).filter (· < half)).map fun n => (n : Int)
  | _ => ((natural? base s).filter (· < half)).map fun n => (n : Int)

/-- A number of 64 bits without sign. -/
def word? (s : String) : Option Nat :=
  unsigned? 10 Count.span s.toList

/-- A number of 64 bits with sign. -/
def integer? (s : String) : Option Int :=
  signed? 10 Count.half s.toList

def truth? (s : String) : Option Bool :=
  if s = "true" then some true else if s = "false" then some false else none

def undefinedDouble : Float := Float.ofBits 0x7FF8000000000000

def infiniteDouble : Float := Float.ofBits 0x7FF0000000000000

/-- The double nearest to `digits · 10 ^ power`; halfway goes to the even mantissa, and what is
beyond the greatest double is infinite. -/
def nearest (digits : Nat) (power : Int) : Float :=
  let point : Int := (Nat.toDigits 10 digits).length + power
  if digits = 0 ∨ point < -330 then 0
  else if 310 < point then infiniteDouble
  else match power with
    | .ofNat p => Float.ofScientific (digits * Nat.pow 10 p) false 0
    | .negSucc p => Float.ofScientific digits true (p + 1)

/-- The signed exponent at the end of a number. -/
def exponent? (s : List Char) : Option Int :=
  match s with
  | [] => some 0
  | c :: rest =>
    if c = 'e' ∨ c = 'E' then
      match rest with
      | '-' :: ds => (natural? 10 ds).map fun n => -(n : Int)
      | '+' :: ds => (natural? 10 ds).map fun n => (n : Int)
      | _ => (natural? 10 rest).map fun n => (n : Int)
    else none

/-- The double written without a sign. -/
def magnitude? (s : List Char) : Option Float :=
  let word := String.ofList (s.map Char.toLower)
  if word = "inf" ∨ word = "infinity" then some infiniteDouble
  else if word = "nan" then some undefinedDouble
  else
    let whole := s.takeWhile Char.isDigit
    let rest := s.dropWhile Char.isDigit
    let (places, rest) := match rest with
      | '.' :: tail => (tail.takeWhile Char.isDigit, tail.dropWhile Char.isDigit)
      | _ => ([], rest)
    match natural? 10 (whole ++ places), exponent? rest with
    | some digits, some power => some (nearest digits (power - places.length))
    | _, _ => none

/-- The double nearest to the number that a text writes. -/
def double? (s : String) : Option Float :=
  match s.toList with
  | '-' :: rest => (magnitude? rest).map fun x => -x
  | '+' :: rest => magnitude? rest
  | all => magnitude? all

end CrossPlan.Numeral
