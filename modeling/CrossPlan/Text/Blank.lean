/-!
# Blank characters and trimming

Blank is what Unicode calls white space.  Texts are trimmed, and words are told apart, by this
class and not by the ASCII one.
-/

set_option autoImplicit false

namespace CrossPlan.Text

/-- The code points of the Unicode property White_Space, as closed ranges in ascending order. -/
def blankRanges : List (Nat × Nat) :=
  [(0x09, 0x0D), (0x20, 0x20), (0x85, 0x85), (0xA0, 0xA0), (0x1680, 0x1680), (0x2000, 0x200A),
    (0x2028, 0x2029), (0x202F, 0x202F), (0x205F, 0x205F), (0x3000, 0x3000)]

def isBlank (c : Char) : Bool :=
  blankRanges.any fun range => range.1 ≤ c.toNat && c.toNat ≤ range.2

def trimStart (s : List Char) : List Char :=
  s.dropWhile isBlank

def trimEnd (s : List Char) : List Char :=
  (s.reverse.dropWhile isBlank).reverse

def trimChars (s : List Char) : List Char :=
  trimEnd (trimStart s)

def trim (s : String) : String :=
  String.ofList (trimChars s.toList)

/-- Text equality up to the case of ASCII letters. -/
def sameLetters (a b : String) : Bool :=
  a.toList.map Char.toLower == b.toList.map Char.toLower

/-- What follows `start` in `s`, if `s` begins with it. -/
def after? : List Char → List Char → Option (List Char)
  | [], s => some s
  | _ :: _, [] => none
  | c :: start, d :: s => if c = d then after? start s else none

theorem after?_eq_some_iff {start s rest : List Char} :
    after? start s = some rest ↔ s = start ++ rest := by
  induction start generalizing s with
  | nil => simp [after?]
  | cons c start ih =>
    cases s with
    | nil => simp [after?]
    | cons d s =>
      by_cases same : c = d
      · subst same; simp [after?, ih]
      · simp [after?, same, Ne.symm same]

/-- The text after `start`, if it begins with it. -/
def strip? (start s : String) : Option String :=
  (after? start.toList s.toList).map String.ofList

/-- The number of characters before the first occurrence of `part` in `s`. -/
def find? (part : List Char) : List Char → Option Nat
  | [] => if part.isEmpty then some 0 else none
  | c :: s => if (after? part (c :: s)).isSome then some 0 else (find? part s).map (· + 1)

def occurs (part s : List Char) : Bool :=
  (find? part s).isSome

/-- The pieces of a text between the characters that satisfy `cut`; one more than there are cuts. -/
def pieces (cut : Char → Bool) : List Char → List (List Char)
  | [] => [[]]
  | c :: s =>
    if cut c then [] :: pieces cut s
    else match pieces cut s with
      | [] => [[c]]
      | piece :: rest => (c :: piece) :: rest

/-- The lines of a text: a line feed ends a line, a carriage return before it belongs to the ending,
and a text after the last line feed is a line of its own. -/
def lines (s : List Char) : List (List Char) :=
  let all := pieces (· == '\n') s
  let ended := all.dropLast.map fun line =>
    if line.getLast? = some '\r' then line.dropLast else line
  match all.getLast? with
  | some [] | none => ended
  | some last => ended ++ [last]

end CrossPlan.Text
