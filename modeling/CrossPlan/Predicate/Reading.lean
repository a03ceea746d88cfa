import CrossPlan.Predicate.Token

/-!
# Reading predicates

`or` binds loosest, then `and`, then `not`; chains of one of them lean to the left.  Keywords are
read in any case of letters, and a literal may be a word that is no keyword.
-/

set_option autoImplicit false

namespace CrossPlan

inductive BindError where
  | predicate (text : String)
  | unknownBroadcast (name : String)
  | destination (text : String)
  | wrongKind (expected got : String)
  deriving DecidableEq, Repr

def BindError.message : BindError → String
  | .predicate text => "unparseable predicate '" ++ text ++ "'"
  | .unknownBroadcast name => "predicate references unknown broadcast input '@" ++ name ++ "'"
  | .destination text => "unsupported destination '" ++ text ++ "'"
  | .wrongKind expected got => expected ++ " rule applied to a " ++ got ++ " operator"

namespace Predicate

/-- What is left behind a keyword. -/
def afterKeyword? (keyword : String) : List Token → Option (List Token)
  | .word text :: rest => if Text.sameLetters keyword text then some rest else none
  | _ => none

/-- A comparison, a pattern or a membership behind the name of a column. -/
def testTail? (column : String) (negated : Bool) (tokens : List Token) :
    Option (Predicate × List Token) :=
  match afterKeyword? "like" tokens, afterKeyword? "in" tokens with
  | some rest, _ =>
    match rest with
    | .quoted pattern :: rest => some (.like column pattern, rest)
    | _ => none
  | none, some rest =>
    match rest with
    | .broadcast :: .word name :: rest =>
      if isName name then some (.member column name, rest) else none
    | _ => none
  | none, none =>
    if negated then none
    else match tokens with
      | .comparison c :: .quoted literal :: rest => some (.compare column c literal, rest)
      | .comparison c :: .word literal :: rest =>
        if isKeyword literal then none else some (.compare column c literal, rest)
      | _ => none

def test? : List Token → Option (Predicate × List Token)
  | .word column :: rest =>
    if !isName column then none
    else match afterKeyword? "not" rest with
      | some rest => (testTail? column true rest).map fun (p, rest) => (.not p, rest)
      | none => testTail? column false rest
  | _ => none

mutual

def disjunction? : (steps : Nat) → List Token → Option (Predicate × List Token)
  | 0, _ => none
  | steps + 1, tokens => do
    let (first, rest) ← conjunction? steps tokens
    moreDisjuncts? steps first rest

/-- Further parts of a chain of `or`. -/
def moreDisjuncts? : (steps : Nat) → Predicate → List Token → Option (Predicate × List Token)
  | 0, _, _ => none
  | steps + 1, left, tokens =>
    match afterKeyword? "or" tokens with
    | none => some (left, tokens)
    | some rest => do
      let (right, rest) ← conjunction? steps rest
      moreDisjuncts? steps (.or left right) rest

def conjunction? : (steps : Nat) → List Token → Option (Predicate × List Token)
  | 0, _ => none
  | steps + 1, tokens => do
    let (first, rest) ← unary? steps tokens
    moreConjuncts? steps first rest

/-- Further parts of a chain of `and`. -/
def moreConjuncts? : (steps : Nat) → Predicate → List Token → Option (Predicate × List Token)
  | 0, _, _ => none
  | steps + 1, left, tokens =>
    match afterKeyword? "and" tokens with
    | none => some (left, tokens)
    | some rest => do
      let (right, rest) ← unary? steps rest
      moreConjuncts? steps (.and left right) rest

def unary? : (steps : Nat) → List Token → Option (Predicate × List Token)
  | 0, _ => none
  | steps + 1, tokens =>
    match afterKeyword? "not" tokens with
    | some rest => (unary? steps rest).map fun (p, rest) => (.not p, rest)
    | none =>
      match tokens with
      | .open :: rest =>
        match disjunction? steps rest with
        | some (p, .close :: rest) => some (p, rest)
        | _ => none
      | _ => test? tokens

end

/-- The predicate that a whole list of tokens makes up.  Between two tokens taken, a reader goes at
most three levels deeper. -/
def ofTokens? (tokens : List Token) : Option Predicate :=
  match disjunction? (4 * tokens.length + 4) tokens with
  | some (p, []) => some p
  | _ => none

def read (text : String) : Except BindError Predicate :=
  match (tokens? text).bind ofTokens? with
  | some p => .ok p
  | none => .error (.predicate (Text.trim text))

end Predicate

end CrossPlan
