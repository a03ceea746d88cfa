import CrossPlan.Decimal.Numeral
import CrossPlan.Yaml.Glyph

/-!
# Scalars of a YAML text

A plain or quoted scalar may run over several lines.  A single break between two of its lines reads
as a blank, and of several breaks the first is left out; blanks around a break are dropped.  A block
scalar keeps its lines, or folds them in the same way.
-/

set_option autoImplicit false

namespace CrossPlan.Yaml

/-- What lies between two words of a scalar. -/
structure Gap where
  /-- the blanks met so far, the last one first -/
  blanks : List Char
  broken : Bool
  /-- the first line break, unless it was escaped -/
  first : Option Char
  /-- further line breaks, the last one first -/
  more : List Char

namespace Gap

def none : Gap := ⟨[], false, Option.none, []⟩

/-- The gap behind an escaped line break. -/
def escaped : Gap := ⟨[], true, Option.none, []⟩

def isNone (gap : Gap) : Bool := gap.blanks.isEmpty && !gap.broken

def blank (gap : Gap) (c : Char) : Gap :=
  if gap.broken then gap else { gap with blanks := c :: gap.blanks }

def newline (gap : Gap) (c : Char) : Gap :=
  if gap.broken then { gap with more := c :: gap.more } else ⟨[], true, some c, []⟩

/-- The text that a gap stands for, backwards. -/
def folded (gap : Gap) : List Char :=
  if !gap.broken then gap.blanks
  else match gap.first with
    | some '\n' => if gap.more.isEmpty then [' '] else gap.more
    | some c => gap.more ++ [c]
    | Option.none => gap.more

end Gap

/-- A scalar that was read, and what follows it. -/
structure Scanned where
  text : String
  /-- whether a line ended behind its last word -/
  broken : Bool
  rest : List Glyph

/-! ## Plain scalars -/

/-- Whether a colon here ends a plain scalar. -/
def endsAtColon (c : Char) (rest : List Glyph) : Bool := c == ':' && ended rest

/-- Whether a colon here is misplaced: in a flow collection, right before a mark of one. -/
def misplacedColon (flow : Bool) (c : Char) (rest : List Glyph) : Bool :=
  flow && c == ':' && match rest with
    | g :: _ => ",?[]\x7b\x7d".toList.contains g.char
    | [] => false

def endsFlow (c : Char) : Bool := ",[]\x7b\x7d".toList.contains c

/-- Reads on in a plain scalar; `margin` is the least column that its lines may start at outside of
flow collections. -/
def plain? (flow : Bool) (margin : Nat) (text : List Char) (gap : Gap) :
    List Glyph → Option Scanned
  | [] => some ⟨String.ofList text.reverse, gap.broken, []⟩
  | g :: rest =>
    let done : Scanned := ⟨String.ofList text.reverse, gap.broken, g :: rest⟩
    if isSpace g.char then
      if gap.broken && g.column < margin && g.char == '\t' then none
      else plain? flow margin text (gap.blank g.char) rest
    else if isBreak g.char then plain? flow margin text (gap.newline g.char) rest
    else if !gap.isNone && ((!flow && g.column < margin) || atMarker (g :: rest) || g.char == '#')
      then some done
    else if misplacedColon flow g.char rest then none
    else if endsAtColon g.char rest || (flow && endsFlow g.char) then some done
    else plain? flow margin (g.char :: (gap.folded ++ text)) .none rest

/-! ## Quoted scalars -/

/-- Reads on in a scalar in single quotes; a quote in it is written twice. -/
def single? (text : List Char) (gap : Gap) : List Glyph → Option Scanned
  | [] => none
  | g :: rest =>
    if isSpace g.char then single? text (gap.blank g.char) rest
    else if isBreak g.char then single? text (gap.newline g.char) rest
    else if atMarker (g :: rest) then none
    else
      let text := gap.folded ++ text
      if g.char == '\'' then
        match rest with
        | h :: more =>
          if h.char == '\'' then single? ('\'' :: text) .none more
          else some ⟨String.ofList text.reverse, false, rest⟩
        | [] => some ⟨String.ofList text.reverse, false, []⟩
      else single? (g.char :: text) .none rest

/-- The character that a letter behind a backslash stands for. -/
def escapeOf? : Char → Option Char
  | '0' => some '\x00'
  | 'a' => some '\x07'
  | 'b' => some '\x08'
  | 't' | '\t' => some '\t'
  | 'n' => some '\n'
  | 'v' => some '\x0b'
  | 'f' => some '\x0c'
  | 'r' => some '\r'
  | 'e' => some '\x1b'
  | ' ' => some ' '
  | '"' => some '"'
  | '/' => some '/'
  | '\\' => some '\\'
  | 'N' => some '\u0085'
  | '_' => some '\u00a0'
  | 'L' => some '\u2028'
  | 'P' => some '\u2029'
  | _ => none

/-- How many hexadecimal digits follow a letter behind a backslash. -/
def codeLength? : Char → Option Nat
  | 'x' => some 2
  | 'u' => some 4
  | 'U' => some 8
  | _ => none

/-- The character with a number; surrogates and what is beyond all planes have none. -/
def charOf? (code : Nat) : Option Char :=
  if code.isValidChar then some (Char.ofNat code) else none

/-- Where a reader of a double-quoted scalar stands. -/
inductive Mode where
  | text
  | escape
  /-- within the digits of a code, with the number of digits left and the code so far -/
  | code (left value : Nat)

/-- Reads on in a scalar in double quotes. -/
def double? (mode : Mode) (text : List Char) (gap : Gap) : List Glyph → Option Scanned
  | [] => none
  | g :: rest =>
    match mode with
    | .escape =>
      if isBreak g.char then double? .text text .escaped rest
      else match escapeOf? g.char, codeLength? g.char with
        | some c, _ => double? .text (c :: text) .none rest
        | none, some length => double? (.code length 0) text .none rest
        | none, none => none
    | .code left value =>
      match Numeral.digit? 16 g.char with
      | none => none
      | some digit =>
        let value := 16 * value + digit
        if 1 < left then double? (.code (left - 1) value) text .none rest
        else match charOf? value with
          | some c => double? .text (c :: text) .none rest
          | none => none
    | .text =>
      if isSpace g.char then double? .text text (gap.blank g.char) rest
      else if isBreak g.char then double? .text text (gap.newline g.char) rest
      else if atMarker (g :: rest) then none
      else
        let text := gap.folded ++ text
        if g.char == '"' then some ⟨String.ofList text.reverse, false, rest⟩
        else if g.char == '\\' then double? .escape text .none rest
        else double? .text (g.char :: text) .none rest

/-! ## Block scalars -/

/-- What happens to the line breaks at the end of a block scalar. -/
inductive Chomping where
  | strip
  | clip
  | keep
  deriving DecidableEq

/-- The marks behind the indicator of a block scalar: the chomping and the number of columns by
which its lines are indented, in either order. -/
def blockMarks? (input : List Glyph) : Option (Chomping × Option Nat × List Glyph) :=
  let chomping? (c : Char) : Option Chomping :=
    if c == '+' then some .keep else if c == '-' then some .strip else none
  let digit (input : List Glyph) : Option (Option Nat × List Glyph) :=
    match input with
    | g :: rest => if g.char == '0' then none
        else if g.char.isDigit then some (some (g.char.toNat - 48), rest) else some (none, input)
    | [] => some (none, [])
  match input with
  | [] => some (.clip, none, [])
  | g :: rest =>
    match chomping? g.char with
    | some chomping => (digit rest).map fun (indent, rest) => (chomping, indent, rest)
    | none => do
      let (indent, rest) ← digit input
      match indent, rest with
      | some n, h :: more =>
        match chomping? h.char with
        | some chomping => pure (chomping, some n, more)
        | none => pure (.clip, some n, rest)
      | _, _ => pure (.clip, indent, rest)

structure Line where
  glyphs : List Glyph
  ending : Option Glyph

def lines : List Glyph → List Line
  | [] => []
  | g :: rest =>
    if isBreak g.char then ⟨[], some g⟩ :: lines rest
    else match lines rest with
      | [] => [⟨[g], none⟩]
      | line :: more => { line with glyphs := g :: line.glyphs } :: more

def unlines (ls : List Line) : List Glyph :=
  ls.flatMap fun line => line.glyphs ++ line.ending.toList

def Line.indent (line : Line) : Nat := (line.glyphs.takeWhile fun g => g.char == ' ').length

/-- Whether a line has blanks only, and a break behind them. -/
def Line.isBlank (line : Line) : Bool := line.indent == line.glyphs.length && line.ending.isSome

def Line.tabAfterIndent (line : Line) : Bool :=
  match line.glyphs[line.indent]? with
  | some g => g.char == '\t'
  | none => false

/-- The column of the lines of a block scalar: the widest of the lines up to the first that is not
blank, and at least the margin. -/
def blockIndent (margin : Nat) (ls : List Line) : Nat :=
  let blank := ls.takeWhile Line.isBlank
  let first := ((ls.drop blank.length).head?.map Line.indent).getD 0
  (blank.map Line.indent).foldl max (max first (max margin 1))

/-- Whether a tab stands behind the blanks of the first line that is not blank. -/
def startsWithTab (ls : List Line) : Bool :=
  match ls.dropWhile Line.isBlank with
  | [] => false
  | line :: _ => line.tabAfterIndent

/-- The parts of a block scalar read so far. -/
structure Block where
  /-- the text, backwards -/
  text : List Char
  /-- the break of the last line with text -/
  first : Option Char
  /-- breaks of blank lines behind it, the last one first -/
  more : List Char
  /-- whether the last line with text started with a blank -/
  blank : Bool

/-- The text with the breaks before its next line; in a folded scalar a break between two lines that
do not start with a blank reads as a blank, or is left out before blank lines. -/
def Block.joined (folded blank : Bool) (block : Block) : List Char :=
  if folded && block.first == some '\n' && !block.blank && !blank then
    (if block.more.isEmpty then [' '] else block.more) ++ block.text
  else block.more ++ (block.first.toList ++ block.text)

/-- Reads the lines of a block scalar at the given column. -/
def blockLines? (folded : Bool) (indent : Nat) (block : Block) :
    List Line → Option (Block × List Line)
  | [] => some (block, [])
  | line :: rest =>
    if line.indent < indent && line.tabAfterIndent then none
    else if line.indent ≤ indent && line.isBlank then
      let ending := (line.ending.map (·.char)).toList
      blockLines? folded indent { block with more := ending ++ block.more } rest
    else if line.indent < indent || line.glyphs.length ≤ indent then some (block, line :: rest)
    else
      let content := (line.glyphs.drop indent).map (·.char)
      let blank := (content.head?.map isSpace).getD false
      blockLines? folded indent
        ⟨content.reverse ++ block.joined folded blank, line.ending.map (·.char), [], blank⟩ rest

/-- A block scalar behind its indicator; `margin` is the least column of its lines. -/
def block? (folded : Bool) (margin : Nat) (input : List Glyph) : Option Scanned := do
  let (chomping, columns, rest) ← blockMarks? input
  let body := lines (← restOfLine? rest)
  if columns.isNone && startsWithTab body then none
  let indent := match columns with
    | some n => margin - 1 + n
    | none => blockIndent margin body
  let (block, rest) ← blockLines? folded indent ⟨[], none, [], false⟩ body
  let text := match chomping with
    | .strip => block.text
    | .clip => block.first.toList ++ block.text
    | .keep => block.more ++ (block.first.toList ++ block.text)
  pure ⟨String.ofList text.reverse, false, unlines rest⟩

end CrossPlan.Yaml
