import CrossPlan.Decimal.Layout
import CrossPlan.Json.Value

/-!
# JSON texts

The compact text has no blanks; the wide one has one item a line, indented by two blanks a level.
Both escape the two marks that need it and the control characters, and nothing else.
-/

set_option autoImplicit false

namespace CrossPlan.Json

def hexDigit (n : Nat) : Char :=
  if n < 10 then Char.ofNat (48 + n) else Char.ofNat (87 + n)

/-- The characters that stand for one character inside a JSON text. -/
def escape (c : Char) : List Char :=
  if c = '"' then ['\\', '"']
  else if c = '\\' then ['\\', '\\']
  else if c = '\x08' then ['\\', 'b']
  else if c = '\x0c' then ['\\', 'f']
  else if c = '\n' then ['\\', 'n']
  else if c = '\r' then ['\\', 'r']
  else if c = '\t' then ['\\', 't']
  else if c.toNat < 32 then ['\\', 'u', '0', '0', hexDigit (c.toNat / 16), hexDigit (c.toNat % 16)]
  else [c]

def quote (s : String) : String :=
  String.ofList ('"' :: s.toList.flatMap escape ++ ['"'])

/-- A number that JSON cannot write is `null`. -/
def floatText (x : Float) : String :=
  (Decimal.json? x).getD "null"

def openBrace : String := "\x7b"

def closeBrace : String := "\x7d"

mutual

def write : Json → String
  | .null => "null"
  | .bool b => if b then "true" else "false"
  | .int n => toString n
  | .float x => floatText x
  | .text s => quote s
  | .list items => "[" ++ ",".intercalate (writeItems items) ++ "]"
  | .object fields => openBrace ++ ",".intercalate (writeFields fields) ++ closeBrace

def writeItems : List Json → List String
  | [] => []
  | item :: rest => write item :: writeItems rest

def writeFields : List (String × Json) → List String
  | [] => []
  | (name, value) :: rest => (quote name ++ ":" ++ write value) :: writeFields rest

end

def indent (level : Nat) : String :=
  String.ofList (List.replicate (2 * level) ' ')

/-- Items of a container one below the other, between brackets at the level of the container. -/
def stack (level : Nat) (opening closing : String) (items : List String) : String :=
  if items.isEmpty then opening ++ closing
  else
    let inner := ",\n".intercalate (items.map (indent (level + 1) ++ ·))
    opening ++ "\n" ++ inner ++ "\n" ++ indent level ++ closing

mutual

/-- The wide text of a value that stands at a level of nesting. -/
def writeWide (level : Nat) : Json → String
  | .list items => stack level "[" "]" (wideItems (level + 1) items)
  | .object fields => stack level openBrace closeBrace (wideFields (level + 1) fields)
  | other => write other

def wideItems (level : Nat) : List Json → List String
  | [] => []
  | item :: rest => writeWide level item :: wideItems level rest

def wideFields (level : Nat) : List (String × Json) → List String
  | [] => []
  | (name, value) :: rest => (quote name ++ ": " ++ writeWide level value) :: wideFields level rest

end

end CrossPlan.Json
