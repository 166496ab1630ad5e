import DocumentQuery.Yaml.Basic
import DocumentQuery.Yaml.Token

/-!
# Reading YAML documents

The nodes of a document, put together from the tokens of its text. A text holds one
document or none.

Main definitions:

* `Assembly` — a computation that takes tokens away
* `Assembly.node` and the readers of collections
* `Document.ofTokens?`, `Document.ofText?`
-/

namespace DocumentQuery.Yaml

/-- What is left of a text, and what has been named in it. -/
structure Stock where
  tokens : List Token
  handles : List String := Tag.defaultHandles
  /-- The numbers of anchors by their names, the latest first. -/
  names : List (String × Nat) := []
  anchored : List (Nat × Yaml) := []

/-- A computation that takes tokens away and may fail. -/
abbrev Assembly (α : Type) := StateT Stock Option α

namespace Assembly

/-- The next token, if there is one. -/
def peek : Assembly (Option Token) := do return (← get).tokens.head?

def advance : Assembly Unit := modify fun s => { s with tokens := s.tokens.drop 1 }

/-- Takes the next token away if it is this one. -/
def accept (token : Token) : Assembly Bool := do
  if (← peek) = some token then
    advance
    return true
  else return false

/-- Takes the next token away, which has to be this one. -/
def expect (token : Token) : Assembly Unit := do
  unless ← accept token do failure

/-! ## Anchors and tags -/

/-- The number of a new anchor. -/
def declare (name : String) : Assembly Nat :=
  modifyGet fun s => (s.names.length, { s with names := (name, s.names.length) :: s.names })

/-- What stands before the content of a node. -/
structure Properties where
  anchor : Option Nat := none
  isTagged : Bool := false

def Properties.areAny (p : Properties) : Bool := p.anchor.isSome || p.isTagged

def readAnchor : Assembly (Option Nat) := do
  match ← peek with
  | some (.anchor name) =>
    advance
    return some (← declare name)
  | _ => return none

/-- A tag, whose handle has to be known. -/
def readTag : Assembly Bool := do
  match ← peek with
  | some (.tag handle) =>
    advance
    if handle.all (← get).handles.contains then return true else failure
  | _ => return false

/-- An anchor and a tag, in either order. -/
def readProperties : Assembly Properties := do
  match ← readAnchor with
  | some anchor => return { anchor := some anchor, isTagged := ← readTag }
  | none => if ← readTag then return { anchor := ← readAnchor, isTagged := true } else return {}

/-- Keeps a node for the references to its anchor. -/
def keep (anchor : Option Nat) (node : Yaml) : Assembly Yaml := do
  match anchor with
  | some anchor => modify fun s => { s with anchored := (anchor, node) :: s.anchored }
  | none => pure ()
  return node

/-! ## Nodes

The readers take the number of steps that they may go down or on. No token is worth
more than three of them. -/

mutual

/-- A node. Block collections are read if `inBlock` holds, and items of a sequence
without a token that opens it if `mayStartItems` does. -/
def node (inBlock mayStartItems : Bool) : Nat → Assembly Yaml
  | 0 => failure
  | steps + 1 => do
    match ← peek with
    | some (.reference name) =>
      advance
      match (← get).names.lookup name with
      | some anchor => return .reference anchor
      | none => failure
    | _ =>
      let properties ← readProperties
      keep properties.anchor (← content inBlock mayStartItems properties steps)
termination_by structural steps => steps

/-- What a node consists of. Behind an anchor or a tag it may be nothing. -/
def content (inBlock mayStartItems : Bool) (properties : Properties) : Nat → Assembly Yaml
  | 0 => failure
  | steps + 1 => do
    match ← peek with
    | some (.scalar text isPlain) =>
      advance
      return .scalar text isPlain
    | some .flowSequenceStart =>
      advance
      return .sequence (← flowItems true steps)
    | some .flowMappingStart =>
      advance
      return .mapping (← flowMembers true steps)
    | token =>
      if mayStartItems ∧ token = some .blockEntry then
        return .sequence (← looseItems steps)
      else if inBlock ∧ token = some .blockSequenceStart then
        advance
        return .sequence (← blockItems steps)
      else if inBlock ∧ token = some .blockMappingStart then
        advance
        return .mapping (← blockMembers steps)
      else if properties.areAny then return .empty
      else failure
termination_by structural steps => steps

/-- A node, unless one of some tokens comes next. -/
def nodeUnless (tokens : List Token) (inBlock mayStartItems : Bool) : Nat → Assembly Yaml
  | 0 => failure
  | steps + 1 => do
    match ← peek with
    | some token =>
      if tokens.contains token then return .empty else node inBlock mayStartItems steps
    | none => node inBlock mayStartItems steps
termination_by structural steps => steps

/-- The items of a block sequence. -/
def blockItems : Nat → Assembly (List Yaml)
  | 0 => failure
  | steps + 1 => do
    if ← accept .blockEnd then return []
    expect .blockEntry
    let item ← nodeUnless [.blockEntry, .blockEnd] true false steps
    return item :: (← blockItems steps)
termination_by structural steps => steps

/-- The items of a sequence that stands at the column of the mapping around it. -/
def looseItems : Nat → Assembly (List Yaml)
  | 0 => failure
  | steps + 1 => do
    if ← accept .blockEntry then
      let item ← nodeUnless [.blockEntry, .key, .value, .blockEnd] true false steps
      return item :: (← looseItems steps)
    else return []
termination_by structural steps => steps

/-- The members of a block mapping. -/
def blockMembers : Nat → Assembly (List (Yaml × Yaml))
  | 0 => failure
  | steps + 1 => do
    if ← accept .blockEnd then return []
    expect .key
    let key ← nodeUnless [.key, .value, .blockEnd] true true steps
    let value ←
      if ← accept .value then nodeUnless [.key, .value, .blockEnd] true true steps
      else pure empty
    return (key, value) :: (← blockMembers steps)
termination_by structural steps => steps

/-- The items of a flow sequence. A key makes an item a mapping with one member. -/
def flowItems (isFirst : Bool) : Nat → Assembly (List Yaml)
  | 0 => failure
  | steps + 1 => do
    if ← accept .flowSequenceEnd then return []
    unless isFirst do expect .flowEntry
    if ← accept .flowSequenceEnd then return []
    let item ←
      if ← accept .key then pure (Yaml.mapping [← flowPair steps])
      else node false false steps
    return item :: (← flowItems false steps)
termination_by structural steps => steps

/-- The member of a mapping that is an item. Where the key is left out, the token in
its place is passed over. -/
def flowPair : Nat → Assembly (Yaml × Yaml)
  | 0 => failure
  | steps + 1 => do
    let keyIsLeftOut ←
      match ← peek with
      | some token => pure ([.value, .flowEntry, .flowSequenceEnd].contains token)
      | none => pure false
    let key ←
      if keyIsLeftOut then
        advance
        pure empty
      else node false false steps
    let value ←
      if ← accept .value then nodeUnless [.flowEntry, .flowSequenceEnd] false false steps
      else pure empty
    return (key, value)
termination_by structural steps => steps

/-- The members of a flow mapping. -/
def flowMembers (isFirst : Bool) : Nat → Assembly (List (Yaml × Yaml))
  | 0 => failure
  | steps + 1 => do
    if ← accept .flowMappingEnd then return []
    unless isFirst do expect .flowEntry
    if ← accept .flowMappingEnd then return []
    let member ←
      if ← accept .key then do
        let key ← nodeUnless [.value, .flowEntry, .flowMappingEnd] false false steps
        let value ←
          if ← accept .value then nodeUnless [.flowEntry, .flowMappingEnd] false false steps
          else pure empty
        pure (key, value)
      else do
        let key ← node false false steps
        pure (key, empty)
    return member :: (← flowMembers false steps)
termination_by structural steps => steps

end

/-! ## Documents -/

/-- The directives before a document: one version at most, and no handle twice. The
first number bounds them. -/
def directives : Nat → Bool → List String → Assembly (List String)
  | 0, _, _ => failure
  | steps + 1, hasVersion, handles => do
    match ← peek with
    | some (.version major minor) =>
      advance
      if hasVersion ∨ major ≠ 1 ∨ (minor ≠ 1 ∧ minor ≠ 2) then failure
      directives steps true handles
    | some (.handle handle) =>
      advance
      if handles.contains handle then failure
      directives steps hasVersion (handle :: handles)
    | _ => return handles

def isDirective : Token → Bool
  | .version _ _ => true
  | .handle _ => true
  | _ => false

/-- A document. Without directives it needs no mark to open it. -/
def document (steps : Nat) : Assembly Yaml := do
  match ← peek with
  | none => return .empty
  | some token =>
    if token = .documentStart ∨ isDirective token then
      let handles ← directives steps false []
      modify fun s => { s with handles := handles ++ Tag.defaultHandles }
      expect .documentStart
      match ← peek with
      | none => return .empty
      | some token =>
        if isDirective token ∨ token = .documentStart ∨ token = .documentEnd then return .empty
        else node true false steps
    else node true false steps

end Assembly

namespace Document

/-- The document that tokens describe. Nothing may follow it but marks that close
it. -/
def ofTokens? (tokens : List Token) : Option Document := do
  let (root, s) ← (Assembly.document (4 * tokens.length + 4)).run { tokens }
  if s.tokens.all (· == .documentEnd) then some { root, anchored := s.anchored } else none

/-- The document that a text describes. -/
def ofText? (text : String) : Option Document := do
  ofTokens? (← Token.ofChars? text.toList)

end Document

end DocumentQuery.Yaml
