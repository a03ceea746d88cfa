import CrossPlan.Yaml.Token

/-!
# The tree of a YAML text

A document is a tree of scalars, lists and maps.  Aliases are replaced by the nodes they name; one
that names a node it lies in has no value.  A text holds one document at most.
-/

set_option autoImplicit false

namespace CrossPlan.Yaml

inductive Node where
  | scalar (tag : Option String) (isPlain : Bool) (text : String)
  | list (tag : Option String) (items : List Node)
  | map (tag : Option String) (entries : List (Node × Node))
  /-- the value of an alias inside of the node that it names -/
  | recursive
  deriving Inhabited

namespace Node

/-- The node that stands where nothing is written. -/
def empty : Node := .scalar none true ""

/-- What a reader of nodes keeps: the tokens ahead, the meaning of tag handles, and the nodes named
so far, the last one first. -/
structure Stream where
  tokens : List Token
  handles : List (String × String)
  anchors : List (String × Node)

abbrev Reader := StateT Stream Option

namespace Reader

def peek : Reader (Option Token) := do pure (← get).tokens.head?

def skip : Reader Unit := modify fun s => { s with tokens := s.tokens.drop 1 }

/-- Whether the next token is one of the given ones. -/
def ahead (tokens : List Token) : Reader Bool := do
  match ← peek with
  | some token => pure (tokens.contains token)
  | none => pure false

def skipIf (token : Token) : Reader Bool := do
  let found ← ahead [token]
  if found then skip
  pure found

def expect (token : Token) : Reader Unit := do
  if !(← skipIf token) then failure

def name (anchor : Option String) (node : Node) : Reader Unit :=
  match anchor with
  | some anchor => modify fun s => { s with anchors := (anchor, node) :: s.anchors }
  | none => pure ()

def named (anchor : String) : Reader Node := do
  match (← get).anchors.find? fun entry => entry.1 == anchor with
  | some (_, node) => pure node
  | none => failure

def anchor? : Reader (Option String) := do
  match ← peek with
  | some (.anchor name) => skip; pure (some name)
  | _ => pure none

/-- The full name of a tag. -/
def tag? : Reader (Option String) := do
  match ← peek with
  | some (.tag handle suffix) =>
    skip
    if handle.isEmpty then pure (some suffix)
    else match (← get).handles.find? fun entry => entry.1 == handle with
      | some (_, start) => pure (some (start ++ suffix))
      | none => failure
  | _ => pure none

/-- An anchor and a tag, in either order. -/
def properties : Reader (Option String × Option String) := do
  match ← anchor? with
  | some anchor => pure (some anchor, ← tag?)
  | none =>
    let tag ← tag?
    pure (← anchor?, tag)

end Reader

open Reader

mutual

/-- A node; block collections may be refused, and a list may start at the column of the key that it
belongs to. -/
def read (block aligned : Bool) : (steps : Nat) → Reader Node
  | 0 => failure
  | steps + 1 => do
    match ← peek with
    | some (.alias anchor) => skip; named anchor
    | _ =>
      let (anchor, tag) ← properties
      name anchor .recursive
      let node ← content block aligned (anchor.isSome || tag.isSome) tag steps
      name anchor node
      pure node

/-- What follows the properties of a node. -/
def content (block aligned marked : Bool) (tag : Option String) : (steps : Nat) → Reader Node
  | 0 => failure
  | steps + 1 => do
    match ← peek with
    | some .item =>
      if aligned then pure (.list tag (← alignedItems steps))
      else if marked then pure (.scalar tag true "") else failure
    | some (.scalar text isPlain) =>
      skip
      pure (if tag == some "!" then .scalar none isPlain text else .scalar tag isPlain text)
    | some .flowList => skip; pure (.list tag (← flowItems true steps))
    | some .flowMap => skip; pure (.map tag (← flowEntries true steps))
    | token =>
      if block && token == some .blockList then
        skip
        pure (.list tag (← blockItems steps))
      else if block && token == some .blockMap then
        skip
        pure (.map tag (← blockEntries steps))
      else if marked then pure (.scalar tag true "")
      else failure

/-- The items of a block list up to its end. -/
def blockItems : (steps : Nat) → Reader (List Node)
  | 0 => failure
  | steps + 1 => do
    if ← skipIf .item then
      let node ← if ← ahead [.item, .blockEnd] then pure .empty else read true false steps
      pure (node :: (← blockItems steps))
    else
      expect .blockEnd
      pure []

def alignedItems : (steps : Nat) → Reader (List Node)
  | 0 => failure
  | steps + 1 => do
    if ← skipIf .item then
      let node ← if ← ahead [.item, .key, .value, .blockEnd] then pure .empty
        else read true false steps
      pure (node :: (← alignedItems steps))
    else pure []

def blockEntries : (steps : Nat) → Reader (List (Node × Node))
  | 0 => failure
  | steps + 1 => do
    if ← skipIf .key then
      let key ← if ← ahead [.key, .value, .blockEnd] then pure .empty else read true true steps
      let value ←
        if ← skipIf .value then
          if ← ahead [.key, .value, .blockEnd] then pure .empty else read true true steps
        else pure .empty
      pure ((key, value) :: (← blockEntries steps))
    else
      expect .blockEnd
      pure []

/-- The items of a flow list up to its end; a pair is a map of one entry. -/
def flowItems (first : Bool) : (steps : Nat) → Reader (List Node)
  | 0 => failure
  | steps + 1 => do
    if ← skipIf .flowListEnd then pure []
    else
      if !first then expect .comma
      if ← skipIf .key then
        let key ←
          if ← ahead [.value, .comma, .flowListEnd] then do skip; pure .empty
          else read false false steps
        let value ←
          if ← skipIf .value then
            if ← ahead [.comma, .flowListEnd] then pure .empty else read false false steps
          else pure .empty
        pure (.map none [(key, value)] :: (← flowItems false steps))
      else if ← skipIf .flowListEnd then pure []
      else
        let node ← read false false steps
        pure (node :: (← flowItems false steps))

/-- The entries of a flow map up to its end. -/
def flowEntries (first : Bool) : (steps : Nat) → Reader (List (Node × Node))
  | 0 => failure
  | steps + 1 => do
    if ← skipIf .flowMapEnd then pure []
    else
      if !first then expect .comma
      if ← skipIf .key then
        let key ← if ← ahead [.value, .comma, .flowMapEnd] then pure .empty
          else read false false steps
        let value ←
          if ← skipIf .value then
            if ← ahead [.comma, .flowMapEnd] then pure .empty else read false false steps
          else pure .empty
        pure ((key, value) :: (← flowEntries false steps))
      else if ← skipIf .flowMapEnd then pure []
      else
        let key ← read false false steps
        pure ((key, .empty) :: (← flowEntries false steps))

end

/-- The handles that every document knows. -/
def standardHandles : List (String × String) :=
  [("!", "!"), ("!!", "tag:yaml.org,2002:")]

/-- The directives before a document. -/
def directives (seen : Bool) (handles : List (String × String)) :
    List Token → Option (Bool × List (String × String) × List Token)
  | .version major minor :: rest =>
    if seen || major != 1 || (minor != 1 && minor != 2) then none
    else directives true handles rest
  | .tagHandle handle start :: rest =>
    if handles.any fun entry => entry.1 == handle then none
    else directives seen (handles ++ [(handle, start)]) rest
  | rest => some (seen || !handles.isEmpty, handles, rest)

/-- Whether nothing follows a document but the markers of its end. -/
def atEnd (tokens : List Token) : Bool := tokens.all (· == .documentEnd)

/-- The document that the tokens make up; no tokens make up the empty node. -/
def ofTokens? (tokens : List Token) : Option Node := do
  let (directed, handles, rest) ← directives false [] tokens
  let steps := 4 * tokens.length + 4
  let document (tokens : List Token) : Option Node := do
    let (node, after) ← (read true false steps).run ⟨tokens, handles ++ standardHandles, []⟩
    if atEnd after.tokens then pure node else none
  match rest with
  | .documentStart :: rest => if atEnd rest then pure .empty else document rest
  | [] => if directed then none else pure .empty
  | _ => if directed then none else document rest

def read? (text : String) : Option Node := do ofTokens? (← Token.ofText? text)

end Node

end CrossPlan.Yaml
