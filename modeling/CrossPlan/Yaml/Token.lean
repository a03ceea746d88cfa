import CrossPlan.Yaml.Scalar

/-!
# Tokens of a YAML text

The tokens make the structure explicit: where a block collection begins and ends follows from the
columns, and a key is known as one only when its colon is met, so that its token is put in front of
what was read in the meantime.  Such a key stands on one line and is not longer than 1024 characters.
-/

set_option autoImplicit false

namespace CrossPlan.Yaml

inductive Token where
  | version (major minor : Nat)
  | tagHandle (handle start : String)
  | documentStart
  | documentEnd
  | blockList
  | blockMap
  | blockEnd
  | flowList
  | flowListEnd
  | flowMap
  | flowMapEnd
  | item
  | comma
  | key
  | value
  | alias (name : String)
  | anchor (name : String)
  | tag (handle suffix : String)
  | scalar (text : String) (isPlain : Bool)
  deriving DecidableEq, Inhabited

/-- A place where a key may have begun. -/
structure Candidate where
  /-- whether nothing but a key can stand there -/
  required : Bool
  /-- the number of tokens before it -/
  position : Nat
  line : Nat
  column : Nat
  index : Nat

structure Scanner where
  input : List Glyph
  /-- the columns of the open block collections, the innermost first -/
  margins : List Nat
  /-- the candidate of the innermost flow collection, or of the block around all -/
  candidate : Option Candidate
  /-- the candidates around it, one for each open flow collection -/
  outer : List (Option Candidate)
  /-- whether a key may begin here -/
  keyAllowed : Bool
  /-- the tokens, the last one first -/
  tokens : List Token

namespace Scanner

def start (input : List Glyph) : Scanner := ⟨input, [], none, [], true, []⟩

def inFlow (s : Scanner) : Bool := !s.outer.isEmpty

/-- The least column of what belongs to the innermost block collection. -/
def margin (s : Scanner) : Nat :=
  match s.margins with
  | [] => 0
  | column :: _ => column + 1

def emit (token : Token) (s : Scanner) : Scanner := { s with tokens := token :: s.tokens }

def allowKey (allowed : Bool) (s : Scanner) : Scanner := { s with keyAllowed := allowed }

def goTo (input : List Glyph) (s : Scanner) : Scanner := { s with input }

/-- Inserts a token behind the first `position` tokens. -/
def insertAt (position : Nat) (token : Token) (s : Scanner) : Scanner :=
  let later := s.tokens.length - position
  { s with tokens := s.tokens.take later ++ token :: s.tokens.drop later }

/-- Gives up the candidate; one that had to be a key is a fault. -/
def dropCandidate (s : Scanner) : Option Scanner :=
  match s.candidate with
  | some c => if c.required then none else some { s with candidate := none }
  | none => some s

/-- Notes that a key may begin here. -/
def noteCandidate (g : Glyph) (s : Scanner) : Option Scanner :=
  if s.keyAllowed then do
    let s ← s.dropCandidate
    let required := !s.inFlow && s.margin == g.column + 1
    pure { s with candidate := some ⟨required, s.tokens.length, g.line, g.column, g.index⟩ }
  else some s

/-- Gives up a candidate that is on an earlier line or too far back. -/
def refresh (g : Glyph) : Option Candidate → Option (Option Candidate)
  | some c =>
    if c.line < g.line || c.index + 1024 < g.index then
      if c.required then none else some none
    else some (some c)
  | none => some none

def refreshAll (g : Glyph) (s : Scanner) : Option Scanner := do
  pure { s with candidate := ← refresh g s.candidate, outer := ← s.outer.mapM (refresh g) }

/-- Opens a block collection at a column that lies deeper than the innermost one. -/
def openBlock (column position : Nat) (token : Token) (s : Scanner) : Scanner :=
  if !s.inFlow && s.margin ≤ column then
    { s.insertAt position token with margins := column :: s.margins }
  else s

/-- Closes the block collections that begin at a column of `limit` or more. -/
def closeBlocks (limit : Nat) (s : Scanner) : Scanner :=
  if s.inFlow then s
  else
    let closed := s.margins.takeWhile fun column => limit ≤ column
    { s with
      margins := s.margins.drop closed.length
      tokens := List.replicate closed.length Token.blockEnd ++ s.tokens }

/-- Skips blanks, comments and line ends up to the next token.  Behind a line end outside of flow
collections a key may begin; where one may begin, tabs are no blanks. -/
def skipToToken (flow : Bool) : (allowed comment : Bool) → List Glyph → Bool × List Glyph
  | allowed, _, [] => (allowed, [])
  | allowed, comment, g :: rest =>
    if isBreak g.char then skipToToken flow (allowed || !flow) false rest
    else if comment then skipToToken flow allowed true rest
    else if g.char == ' ' || (g.char == '\t' && (flow || !allowed))
        || (g.char == byteOrderMark && g.index == 0) then skipToToken flow allowed false rest
    else if g.char == '#' then skipToToken flow allowed true rest
    else (allowed, g :: rest)

/-- Takes over what was read of a scalar. -/
def takeScalar (isPlain : Bool) (s : Scanner) (scanned : Scanned) : Scanner :=
  (s.emit (.scalar scanned.text isPlain)).goTo scanned.rest

/-! ## Names and tags -/

def name? (input : List Glyph) : Option (String × List Glyph) :=
  let (name, rest) := spanName input
  let closed := ended rest || match rest with
    | g :: _ => "?:,]\x7d%@`".toList.contains g.char
    | [] => true
  if name.isEmpty || !closed then none else some (String.ofList name, rest)

/-- A character of the address of a tag; within angle brackets and in directives there are more. -/
def isAddressChar (wide : Bool) (c : Char) : Bool :=
  isNameChar c || ";/?:@&=+$.!~*'()%".toList.contains c || (wide && ",[]".toList.contains c)

def address (wide : Bool) (input : List Glyph) : List Char × List Glyph :=
  ((input.takeWhile fun g => isAddressChar wide g.char).map (·.char),
    input.dropWhile fun g => isAddressChar wide g.char)

/-- The handle and the suffix of a tag behind its first character. -/
def tag? (flow : Bool) (input : List Glyph) : Option (String × String × List Glyph) := do
  let (handle, suffix, rest) ← match input with
    | g :: rest =>
      if g.char == '<' then
        let (suffix, rest) := address true rest
        match rest with
        | h :: rest =>
          if h.char == '>' && !suffix.isEmpty then some ("", String.ofList suffix, rest) else none
        | [] => none
      else
        let (name, afterName) := spanName input
        match afterName with
        | h :: more =>
          if h.char == '!' then
            let (suffix, rest) := address false more
            if suffix.isEmpty then none
            else some (String.ofList ('!' :: name ++ ['!']), String.ofList suffix, rest)
          else
            let (suffix, rest) := address false input
            some (if suffix.isEmpty then ("", "!", rest) else ("!", String.ofList suffix, rest))
        | [] =>
          some (if name.isEmpty then ("", "!", []) else ("!", String.ofList name, []))
    | [] => some ("", "!", [])
  let closed := ended rest || (flow && (rest.head?.map fun g => g.char == ',').getD false)
  if closed then pure (handle, suffix, rest) else none

/-! ## Directives -/

def number? (input : List Glyph) : Option (Nat × List Glyph) :=
  let digits := (input.takeWhile fun g => g.char.isDigit).map (·.char)
  if 9 < digits.length then none
  else (Numeral.natural? 10 digits).map (·, input.drop digits.length)

def expect? (c : Char) : List Glyph → Option (List Glyph)
  | g :: rest => if g.char == c then some rest else none
  | [] => none

/-- A directive behind its percent sign. -/
def directive? (input : List Glyph) : Option (Token × List Glyph) := do
  let (name, rest) := spanName input
  if !ended rest then none
  let (token, rest) ←
    if name == "YAML".toList then do
      let (major, rest) ← number? (skipSpaces rest)
      let (minor, rest) ← number? (← expect? '.' rest)
      some (Token.version major minor, rest)
    else if name == "TAG".toList then do
      let (handle, rest) := spanName (← expect? '!' (skipSpaces rest))
      let (handle, rest) ← match handle, expect? '!' rest with
        | handle, some rest => some ('!' :: handle ++ ['!'], rest)
        | [], none => some (['!'], rest)
        | _ :: _, none => none
      let (start, after) := address true (skipSpaces rest)
      if !ended rest || rest.isEmpty || start.isEmpty || !ended after then none
      some (Token.tagHandle (String.ofList handle) (String.ofList start), after)
    else none
  pure (token, ← restOfLine? rest)

/-! ## One token -/

/-- Whether a plain scalar may begin here. -/
def beginsPlain (flow : Bool) (c : Char) (rest : List Glyph) : Bool :=
  let indicator := "-?:,[]\x7b\x7d#&*!|>'\"%@`".toList.contains c
  let spaced := match rest with
    | g :: _ => isSpace g.char
    | [] => false
  (!indicator && !isSpace c) || (c == '-' && !spaced)
    || (!flow && (c == '?' || c == ':') && !ended rest)

def openFlow (token : Token) (g : Glyph) (rest : List Glyph) (s : Scanner) : Option Scanner := do
  let s ← s.noteCandidate g
  pure { s.emit token with
    input := rest, outer := s.candidate :: s.outer, candidate := none, keyAllowed := true }

def closeFlow (token : Token) (rest : List Glyph) (s : Scanner) : Option Scanner := do
  let s ← s.dropCandidate
  let s := (s.emit token).goTo rest
  match s.outer with
  | candidate :: outer => pure { s with candidate, outer, keyAllowed := false }
  | [] => pure { s with keyAllowed := false }

/-- Starts an item of a block list, or a key that is marked as one. -/
def openEntry (token collection : Token) (g : Glyph) (rest : List Glyph) (s : Scanner) :
    Option Scanner := do
  if !s.inFlow && !s.keyAllowed then none
  let s ← (s.openBlock g.column s.tokens.length collection).dropCandidate
  pure ((s.emit token).goTo rest)

/-- A colon: the candidate turns out to be a key. -/
def readValue (g : Glyph) (rest : List Glyph) (s : Scanner) : Option Scanner :=
  match s.candidate with
  | some c =>
    let s := (s.insertAt c.position .key).openBlock c.column c.position .blockMap
    some { (s.emit .value).goTo rest with candidate := none, keyAllowed := false }
  | none =>
    if !s.inFlow && !s.keyAllowed then none
    else
      let s := s.openBlock g.column s.tokens.length .blockMap
      some (((s.emit .value).goTo rest).allowKey (!s.inFlow))

/-- A marker between documents. -/
def readMarker (token : Token) (rest : List Glyph) (s : Scanner) : Option Scanner := do
  let s ← (s.closeBlocks 0).dropCandidate
  pure (((s.emit token).goTo (rest.drop 2)).allowKey false)

/-- The next token, which begins with the given character. -/
def readToken (g : Glyph) (rest : List Glyph) (s : Scanner) : Option Scanner := do
  let c := g.char
  let flow := s.inFlow
  if c == '%' && g.column == 0 then
    let s ← (s.closeBlocks 0).dropCandidate
    let (token, rest) ← directive? rest
    pure (((s.emit token).goTo rest).allowKey false)
  else if markerOf '-' (g :: rest) then s.readMarker .documentStart rest
  else if markerOf '.' (g :: rest) then s.readMarker .documentEnd rest
  else if c == '[' then s.openFlow .flowList g rest
  else if c == '\x7b' then s.openFlow .flowMap g rest
  else if c == ']' then s.closeFlow .flowListEnd rest
  else if c == '\x7d' then s.closeFlow .flowMapEnd rest
  else if c == ',' then
    let s ← s.dropCandidate
    pure (((s.emit .comma).goTo rest).allowKey true)
  else if c == '-' && ended rest then
    pure ((← s.openEntry .item .blockList g rest).allowKey true)
  else if c == '?' && (flow || ended rest) then
    pure ((← s.openEntry .key .blockMap g rest).allowKey (!flow))
  else if c == ':' && (flow || ended rest) then s.readValue g rest
  else if c == '*' || c == '&' then
    let s ← s.noteCandidate g
    let (name, rest) ← name? rest
    pure (((s.emit (if c == '*' then .alias name else .anchor name)).goTo rest).allowKey false)
  else if c == '!' then
    let s ← s.noteCandidate g
    let (handle, suffix, rest) ← tag? flow rest
    pure (((s.emit (.tag handle suffix)).goTo rest).allowKey false)
  else if (c == '|' || c == '>') && !flow then
    let s ← s.dropCandidate
    pure ((s.takeScalar false (← block? (c == '>') s.margin rest)).allowKey true)
  else if c == '\'' || c == '"' then
    let s ← s.noteCandidate g
    let scanned ← if c == '"' then double? .text [] .none rest else single? [] .none rest
    pure ((s.takeScalar false scanned).allowKey false)
  else if beginsPlain flow c rest then
    let s ← s.noteCandidate g
    let scanned ← plain? flow s.margin [] .none (g :: rest)
    pure ((s.takeScalar true scanned).allowKey scanned.broken)
  else none

/-- Reads up to `steps` tokens, to the end of the input. -/
def run : (steps : Nat) → Scanner → Option (List Token)
  | 0, _ => none
  | steps + 1, s => do
    let (allowed, input) := skipToToken s.inFlow s.keyAllowed false s.input
    let s := (s.allowKey allowed).goTo input
    match input with
    | [] => pure (← (s.closeBlocks 0).dropCandidate).tokens.reverse
    | g :: rest =>
      let s ← s.refreshAll g
      run steps (← (s.closeBlocks (g.column + 1)).readToken g rest)

end Scanner

def Token.ofText? (text : String) : Option (List Token) := do
  let input ← glyphs? text
  (Scanner.start input).run (input.length + 1)

end CrossPlan.Yaml
