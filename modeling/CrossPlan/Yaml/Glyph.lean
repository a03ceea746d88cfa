import CrossPlan.Text.Blank

/-!
# Characters of a YAML text with their places

Each character is kept together with its line and column, so that no reader has to count.  The
endings of lines are made equal: a carriage return, a line feed, both together and the next-line
character are a line feed, while the Unicode separators stay what they are.
-/

set_option autoImplicit false

namespace CrossPlan.Yaml

structure Glyph where
  char : Char
  line : Nat
  column : Nat
  /-- the number of characters before this one -/
  index : Nat
  deriving Inhabited

/-- The characters that a YAML text may hold. -/
def isAllowed (c : Char) : Bool :=
  let n := c.toNat
  n == 0x09 || n == 0x0A || n == 0x0D || (0x20 ≤ n && n ≤ 0x7E) || n == 0x85
    || (0xA0 ≤ n && n ≤ 0xD7FF) || (0xE000 ≤ n && n ≤ 0xFFFD) || 0x10000 ≤ n

def isBreak (c : Char) : Bool := c == '\n' || c == '\u2028' || c == '\u2029'

def isSpace (c : Char) : Bool := c == ' ' || c == '\t'

def byteOrderMark : Char := '\uFEFF'

def evenBreaks : List Char → List Char
  | '\r' :: '\n' :: rest => '\n' :: evenBreaks rest
  | '\r' :: rest => '\n' :: evenBreaks rest
  | '\u0085' :: rest => '\n' :: evenBreaks rest
  | c :: rest => c :: evenBreaks rest
  | [] => []

def place (line column index : Nat) : List Char → List Glyph
  | [] => []
  | c :: rest =>
    ⟨c, line, column, index⟩ ::
      if isBreak c then place (line + 1) 0 (index + 1) rest
      else place line (column + 1) (index + 1) rest

/-- The characters of a text, if all are allowed. -/
def glyphs? (text : String) : Option (List Glyph) :=
  if text.toList.all isAllowed then some (place 0 0 0 (evenBreaks text.toList)) else none

/-- Whether a word ends before the given characters. -/
def ended : List Glyph → Bool
  | [] => true
  | g :: _ => isSpace g.char || isBreak g.char

/-- Whether the given characters begin with a marker of three equal characters at the start of a
line, such as the one between documents. -/
def markerOf (mark : Char) : List Glyph → Bool
  | a :: b :: c :: rest =>
    a.column == 0 && a.char == mark && b.char == mark && c.char == mark && ended rest
  | _ => false

/-- Whether a marker of the start or the end of a document stands here. -/
def atMarker (input : List Glyph) : Bool := markerOf '-' input || markerOf '.' input

/-- A character of the names of anchors, tags and directives. -/
def isNameChar (c : Char) : Bool := c.isAlphanum || c == '_' || c == '-'

/-- The characters of a name and what follows them. -/
def spanName (input : List Glyph) : List Char × List Glyph :=
  ((input.takeWhile fun g => isNameChar g.char).map (·.char),
    input.dropWhile fun g => isNameChar g.char)

def skipSpaces (input : List Glyph) : List Glyph := input.dropWhile fun g => isSpace g.char

def skipLine (input : List Glyph) : List Glyph := input.dropWhile fun g => !isBreak g.char

/-- What follows the end of a line that holds nothing more, or a comment. -/
def restOfLine? (input : List Glyph) : Option (List Glyph) :=
  match skipSpaces input with
  | [] => some []
  | g :: rest =>
    if g.char == '#' then some ((skipLine rest).drop 1)
    else if isBreak g.char then some rest
    else none

end CrossPlan.Yaml
