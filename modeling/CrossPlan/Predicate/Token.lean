import CrossPlan.Predicate.Basic

/-!
# Tokens of predicates

A text is cut into words, quoted texts, comparisons, parentheses and the sign of a broadcast.  What
is in quotes is taken as it is, so a quote of the other kind may stand there.
-/

set_option autoImplicit false

namespace CrossPlan.Predicate

inductive Token where
  | word (text : String)
  | quoted (text : String)
  | comparison (comparison : Comparison)
  | broadcast
  | open
  | close
  deriving DecidableEq, Repr, Inhabited

/-- The characters that end a word, besides blanks. -/
def isSpecial (c : Char) : Bool := "()@'\"=!<>".toList.contains c

def isWordChar (c : Char) : Bool := !Text.isBlank c && !isSpecial c

def isKeyword (word : String) : Bool :=
  ["and", "or", "not", "like", "in"].any fun keyword => Text.sameLetters keyword word

def isName (word : String) : Bool :=
  match word.toList with
  | [] => false
  | c :: rest =>
    (c.isAlpha || c == '_') && rest.all (fun d => d.isAlphanum || d == '_' || d == '.')
      && !isKeyword word

/-- Where a scanner stands; texts are kept backwards. -/
inductive Scan where
  | between
  | word (text : List Char)
  | quoted (quote : Char) (text : List Char)

/-- The word that ends here, if the scanner is in one. -/
def Scan.word? : Scan → List Token
  | .word text => [.word (String.ofList text.reverse)]
  | _ => []

/-- The tokens of the characters ahead; there are none if a quote stays open, or an equals sign or
an exclamation mark stands alone. -/
def scan : Scan → List Char → Option (List Token)
  | .quoted _ _, [] => none
  | .quoted quote text, c :: rest =>
    if c = quote then (scan .between rest).map (.quoted (String.ofList text.reverse) :: ·)
    else scan (.quoted quote (c :: text)) rest
  | state, [] => some state.word?
  | state, '=' :: '=' :: rest => (scan .between rest).map (state.word? ++ .comparison .eq :: ·)
  | state, '!' :: '=' :: rest => (scan .between rest).map (state.word? ++ .comparison .ne :: ·)
  | state, '<' :: '=' :: rest => (scan .between rest).map (state.word? ++ .comparison .le :: ·)
  | state, '>' :: '=' :: rest => (scan .between rest).map (state.word? ++ .comparison .ge :: ·)
  | state, c :: rest =>
    if c = '<' then (scan .between rest).map (state.word? ++ .comparison .lt :: ·)
    else if c = '>' then (scan .between rest).map (state.word? ++ .comparison .gt :: ·)
    else if c = '(' then (scan .between rest).map (state.word? ++ .open :: ·)
    else if c = ')' then (scan .between rest).map (state.word? ++ .close :: ·)
    else if c = '@' then (scan .between rest).map (state.word? ++ .broadcast :: ·)
    else if c = '\'' ∨ c = '"' then (scan (.quoted c []) rest).map (state.word? ++ ·)
    else if isSpecial c then none
    else if Text.isBlank c then (scan .between rest).map (state.word? ++ ·)
    else match state with
      | .word text => scan (.word (c :: text)) rest
      | _ => scan (.word [c]) rest

def tokens? (text : String) : Option (List Token) := scan .between text.toList

end CrossPlan.Predicate
