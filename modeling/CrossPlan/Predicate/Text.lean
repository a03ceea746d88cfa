import CrossPlan.Predicate.Token

/-!
# Predicates as text

A literal is quoted where it could not be read back as a word.
-/

set_option autoImplicit false

namespace CrossPlan.Predicate

/-- A literal as a word if it can be one, else in quotes. -/
def literalText (literal : String) : String :=
  if literal ≠ "" ∧ !isKeyword literal ∧ literal.toList.all isWordChar then literal
  else if literal.toList.contains '\'' then "\"" ++ literal ++ "\""
  else "'" ++ literal ++ "'"

def isOr : Predicate → Bool
  | .or .. => true
  | _ => false

def isChain : Predicate → Bool
  | .and .. | .or .. => true
  | _ => false

/-- A text in parentheses, if they are needed. -/
def wrapped (needed : Bool) (text : String) : String :=
  if needed then "(" ++ text ++ ")" else text

def text : Predicate → String
  | .compare column comparison literal =>
    column ++ " " ++ comparison.symbol ++ " " ++ literalText literal
  | .like column pattern => column ++ " like " ++ literalText pattern
  | .member column broadcast => column ++ " in @" ++ broadcast
  | .not p => "not " ++ wrapped p.isChain p.text
  | .and p q => wrapped p.isOr p.text ++ " and " ++ wrapped q.isOr q.text
  | .or p q => p.text ++ " or " ++ q.text

end CrossPlan.Predicate
