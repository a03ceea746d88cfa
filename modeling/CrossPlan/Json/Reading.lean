import CrossPlan.Decimal.Numeral
import CrossPlan.Json.Value

/-!
# Reading JSON texts

A text is cut into tokens character by character, and the tokens are assembled on a stack of open
containers.  Both steps are folds, so reading ends on every text.  Fields are kept as they were met.

A number without point and exponent is an integer as long as it fits into 64 bits.  Any other number
is the double of its leading digits, as many as fit into 64 bits, scaled by one power of ten.
-/

set_option autoImplicit false

namespace CrossPlan.Json

inductive Token where
  | openList
  | closeList
  | openObject
  | closeObject
  | comma
  | colon
  | scalar (value : Json)

/-! ## Numbers -/

/-- The greatest number of 64 bits. -/
def maxWord : Nat := Count.span - 1

/-- Appends digits to a number as long as it fits into 64 bits; what is left over comes back too. -/
def appendDigits (value : Nat) : List Char → Nat × List Char
  | [] => (value, [])
  | c :: rest =>
    let next := 10 * value + (c.toNat - 48)
    if next ≤ maxWord then appendDigits next rest else (value, c :: rest)

/-- A double scaled by a power of ten; nothing if it grows beyond every double. -/
def scaleDouble (x : Float) (power : Int) : Option Float :=
  let ten (n : Nat) : Float := Numeral.nearest 1 n
  if x == 0 then some x
  else if 308 < power then none
  else match power with
    | .ofNat p =>
      let y := x * ten p
      if y.isFinite then some y else none
    | .negSucc p =>
      if p < 308 then some (x / ten (p + 1))
      else if p < 616 then some (x / ten 308 / ten (p - 307))
      else some 0

/-- The exponent behind a number, and whether one is written. -/
def exponentPart? (s : List Char) : Option (Int × Bool) :=
  match s with
  | [] => some (0, false)
  | _ => (Numeral.exponent? s).map (·, true)

def fractionPart? (s : List Char) : Option (List Char × List Char) :=
  match s with
  | '.' :: rest =>
    let digits := rest.takeWhile Char.isDigit
    if digits.isEmpty then none else some (digits, rest.dropWhile Char.isDigit)
  | _ => some ([], s)

def wholePart? (s : List Char) : Option (List Char × List Char) :=
  let digits := s.takeWhile Char.isDigit
  match digits with
  | [] => none
  | '0' :: _ :: _ => none
  | _ => some (digits, s.dropWhile Char.isDigit)

def unsignedNumber? (negative : Bool) (s : List Char) : Option Json := do
  let (whole, rest) ← wholePart? s
  let (places, rest) ← fractionPart? rest
  let (power, scaled) ← exponentPart? rest
  let (leading, dropped) := appendDigits 0 whole
  let sign (x : Float) : Json := .float (if negative then -x else x)
  if places.isEmpty && !scaled && dropped.isEmpty then
    if !negative then some (.int leading)
    else if leading = 0 ∨ Count.half < leading then some (sign (Float.ofNat leading))
    else some (.int (-(leading : Int)))
  else
    let (value, unused) := appendDigits leading places
    let used : Nat := places.length - unused.length
    (scaleDouble (Float.ofNat value) (power + dropped.length - used)).map sign

def number? : List Char → Option Json
  | '-' :: rest => unsignedNumber? true rest
  | s => unsignedNumber? false s

/-! ## Tokens -/

/-- What the lexer is inside of; characters met so far are kept in reverse. -/
inductive Mode where
  | between
  | number (seen : List Char)
  | word (seen : List Char)
  | text (seen : List Char)
  | escaped (seen : List Char)
  /-- `digits` more of the number of a code unit, after the first half of a pair if there is one -/
  | unit (seen : List Char) (high : Option Nat) (digits : Nat) (value : Nat)
  /-- after the first half of a pair, before the escape of the second -/
  | pair (seen : List Char) (high : Nat) (slash : Bool)

structure Lexer where
  mode : Mode
  tokens : List Token

def isNumberChar (c : Char) : Bool :=
  c.isDigit || c == '-' || c == '+' || c == '.' || c == 'e' || c == 'E'

def literal? (seen : List Char) : Option Json :=
  match String.ofList seen.reverse with
  | "null" => some .null
  | "true" => some (.bool true)
  | "false" => some (.bool false)
  | _ => none

def Lexer.push (lexer : Lexer) (token : Token) : Lexer :=
  ⟨.between, token :: lexer.tokens⟩

/-- The step between two tokens. -/
def Lexer.start (lexer : Lexer) (c : Char) : Option Lexer :=
  if c = ' ' ∨ c = '\n' ∨ c = '\t' ∨ c = '\r' then some { lexer with mode := .between }
  else if c = '[' then some (lexer.push .openList)
  else if c = ']' then some (lexer.push .closeList)
  else if c = '\x7b' then some (lexer.push .openObject)
  else if c = '\x7d' then some (lexer.push .closeObject)
  else if c = ',' then some (lexer.push .comma)
  else if c = ':' then some (lexer.push .colon)
  else if c = '"' then some { lexer with mode := .text [] }
  else if isNumberChar c then some { lexer with mode := .number [c] }
  else if c.isLower then some { lexer with mode := .word [c] }
  else none

def Lexer.finish (lexer : Lexer) : Option Lexer :=
  match lexer.mode with
  | .between => some lexer
  | .number seen => (number? seen.reverse).map fun value => lexer.push (.scalar value)
  | .word seen => (literal? seen).map fun value => lexer.push (.scalar value)
  | _ => none

def escapedChar? (c : Char) : Option Char :=
  if c = '"' ∨ c = '\\' ∨ c = '/' then some c
  else if c = 'b' then some '\x08'
  else if c = 'f' then some '\x0c'
  else if c = 'n' then some '\n'
  else if c = 'r' then some '\r'
  else if c = 't' then some '\t'
  else none

/-- A complete code unit: a character, or the first half of a pair. -/
def unitMode (seen : List Char) (high : Option Nat) (value : Nat) : Option Mode :=
  match high with
  | some first =>
    if 0xDC00 ≤ value ∧ value < 0xE000 then
      some (.text (Char.ofNat (0x10000 + (first - 0xD800) * 0x400 + (value - 0xDC00)) :: seen))
    else none
  | none =>
    if 0xD800 ≤ value ∧ value < 0xDC00 then some (.pair seen value false)
    else if 0xDC00 ≤ value ∧ value < 0xE000 then none
    else some (.text (Char.ofNat value :: seen))

def Lexer.step (lexer : Lexer) (c : Char) : Option Lexer :=
  match lexer.mode with
  | .between => lexer.start c
  | .number seen =>
    if isNumberChar c then some { lexer with mode := .number (c :: seen) }
    else lexer.finish.bind (·.start c)
  | .word seen =>
    if c.isLower then some { lexer with mode := .word (c :: seen) }
    else lexer.finish.bind (·.start c)
  | .text seen =>
    if c = '"' then some (lexer.push (.scalar (.text (String.ofList seen.reverse))))
    else if c = '\\' then some { lexer with mode := .escaped seen }
    else if c.toNat < 32 then none
    else some { lexer with mode := .text (c :: seen) }
  | .escaped seen =>
    if c = 'u' then some { lexer with mode := .unit seen none 4 0 }
    else (escapedChar? c).map fun d => { lexer with mode := .text (d :: seen) }
  | .unit seen high digits value => do
    let digit ← Numeral.digit? 16 c
    let value := 16 * value + digit
    if digits ≤ 1 then (unitMode seen high value).map fun mode => { lexer with mode }
    else some { lexer with mode := .unit seen high (digits - 1) value }
  | .pair seen high slash =>
    if slash then if c = 'u' then some { lexer with mode := .unit seen (some high) 4 0 } else none
    else if c = '\\' then some { lexer with mode := .pair seen high true } else none

/-- The tokens of a text, or nothing if some part of it is no token. -/
def tokens? (s : String) : Option (List Token) := do
  let lexer ← s.toList.foldlM Lexer.step ⟨.between, []⟩
  let lexer ← lexer.finish
  pure lexer.tokens.reverse

/-! ## Values -/

/-- A container that is still open, its items in reverse. -/
inductive Frame where
  | list (items : List Json)
  | object (fields : List (String × Json)) (name : Option String)

/-- What may come next: a value, a value or the end of a list, the name of a field, a name or the
end of an object, a colon, or a comma or the end of the container. -/
inductive Expected where
  | value
  | valueOrClose
  | name
  | nameOrClose
  | colon
  | more

structure Assembly where
  frames : List Frame
  expected : Expected
  result : Option Json

/-- Containers nest fewer than this many levels deep. -/
def nestingLimit : Nat := 128

def Assembly.accept (assembly : Assembly) (value : Json) : Option Assembly :=
  match assembly.frames with
  | [] => some ⟨[], .more, some value⟩
  | .list items :: outer => some ⟨.list (value :: items) :: outer, .more, none⟩
  | .object fields (some name) :: outer =>
    some ⟨.object ((name, value) :: fields) none :: outer, .more, none⟩
  | .object _ none :: _ => none

def Assembly.expectsValue (assembly : Assembly) : Bool :=
  match assembly.expected with
  | .value | .valueOrClose => true
  | _ => false

def Assembly.enter (assembly : Assembly) (frame : Frame) (expected : Expected) : Option Assembly :=
  if assembly.expectsValue && assembly.result.isNone
      && assembly.frames.length + 1 < nestingLimit then
    some { assembly with frames := frame :: assembly.frames, expected }
  else none

def Assembly.step (assembly : Assembly) (token : Token) : Option Assembly :=
  match token, assembly.expected, assembly.frames with
  | .openList, _, _ => assembly.enter (.list []) .valueOrClose
  | .openObject, _, _ => assembly.enter (.object [] none) .nameOrClose
  | .closeList, .valueOrClose, .list items :: outer
  | .closeList, .more, .list items :: outer =>
    { assembly with frames := outer }.accept (.list items.reverse)
  | .closeObject, .nameOrClose, .object fields none :: outer
  | .closeObject, .more, .object fields none :: outer =>
    { assembly with frames := outer }.accept (.object fields.reverse)
  | .comma, .more, .list _ :: _ => some { assembly with expected := .value }
  | .comma, .more, .object _ _ :: _ => some { assembly with expected := .name }
  | .colon, .colon, _ => some { assembly with expected := .value }
  | .scalar (.text name), .name, .object fields none :: outer
  | .scalar (.text name), .nameOrClose, .object fields none :: outer =>
    some { assembly with frames := .object fields (some name) :: outer, expected := .colon }
  | .scalar value, .value, _ | .scalar value, .valueOrClose, _ =>
    if assembly.result.isNone then assembly.accept value else none
  | _, _, _ => none

/-- The value that a text writes, with the fields of objects as they stand in it. -/
def read? (s : String) : Option Json := do
  let tokens ← tokens? s
  let assembly ← tokens.foldlM Assembly.step ⟨[], .value, none⟩
  if assembly.frames.isEmpty then assembly.result else none

end CrossPlan.Json
