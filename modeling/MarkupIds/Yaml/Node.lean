import MarkupIds.Yaml.Token

/-!
# Nodes of a document

Tokens form scalars, sequences and mappings. An alias stands for the node of its anchor, which
must be complete by then.
-/

namespace MarkupIds.Yaml

inductive Node where
  | scalar (tag : Option Text) (text : Text) (plain : Bool)
  | sequence (tag : Option Text) (items : List Node)
  | mapping (tag : Option Text) (entries : List (Node × Node))
deriving Repr

/-- The scalar of a place where nothing is written. -/
def Node.absent : Node := .scalar none [] true

/-- The tokens still to come, the anchors met, and what the handles of tags mean. -/
structure Feed where
  tokens : List Token
  anchors : List (Text × Option Node) := []
  handles : List (Text × Text) := []

/-- A reader of nodes; it stops at the first token that does not fit. -/
abbrev Read := StateT Feed Option

namespace Read

def peek : Read (Option Token) := do return (← get).tokens.head?

def drop : Read Unit := modify fun f => { f with tokens := f.tokens.tail }

/-- Takes the next token if it is `t`. -/
def take? (t : Token) : Read Bool := do
  if (← peek) == some t then
    drop
    return true
  return false

def expect (t : Token) : Read Unit := do
  if !(← take? t) then failure

/-- Whether the next token is one of some tokens, or there is none. -/
def atOneOf (ts : List Token) : Read Bool := do
  match ← peek with
  | some t => return ts.contains t
  | none => return true

/-- The tag and the anchor in front of a node, in either order. -/
def properties : Read (Option Text × Option Text) := do
  let tag? : Read (Option Text) := do
    match ← peek with
    | some (.tag handle suffix) =>
      drop
      match handle with
      | none => return some suffix
      | some h =>
        match (← get).handles.find? (·.1 == h) with
        | some (_, uri) => return some (uri ++ suffix)
        | none => failure
    | _ => return none
  let anchor? : Read (Option Text) := do
    match ← peek with
    | some (.anchor name) =>
      drop
      return some name
    | _ => return none
  match ← anchor? with
  | some name => return (← tag?, some name)
  | none =>
    let tag ← tag?
    let anchor ← if tag.isSome then anchor? else pure none
    return (tag, anchor)

/-- Enters an anchor whose node is not complete. -/
def declare (name : Text) : Read Unit := do
  if (← get).anchors.any (·.1 == name) then failure
  modify fun f => { f with anchors := (name, none) :: f.anchors }

def complete (name : Text) (n : Node) : Read Unit :=
  modify fun f => { f with
    anchors := f.anchors.map fun (k, v) => (k, if k == name then some n else v) }

def aliased (name : Text) : Read Node := do
  match (← get).anchors.find? (·.1 == name) with
  | some (_, some n) => return n
  | _ => failure

end Read

open Read

mutual

/-- A node. In a block it may be a block of its own, and where `indentless` is true a sequence
that is not indented. -/
def node (inBlock indentless : Bool) : (fuel : Nat) → Read Node
  | 0 => failure
  | fuel + 1 => do
    match ← peek with
    | some (.alias name) =>
      drop
      aliased name
    | _ =>
      let (tag, anchor) ← properties
      if let some name := anchor then declare name
      let n ← content inBlock indentless tag (tag.isSome || anchor.isSome) fuel
      if let some name := anchor then complete name n
      return n

/-- What follows the tag and anchor of a node. -/
def content (inBlock indentless : Bool) (tag : Option Text) (mayBeAbsent : Bool) :
    (fuel : Nat) → Read Node
  | 0 => failure
  | fuel + 1 => do
    match ← peek with
    | some .entry =>
      if indentless then return .sequence tag (← plainEntries fuel)
      else if mayBeAbsent then return .scalar tag [] true
      else failure
    | some (.scalar text isPlain) =>
      drop
      return .scalar tag text isPlain
    | some .flowSequence =>
      drop
      return .sequence tag (← flowItems true fuel)
    | some .flowMapping =>
      drop
      return .mapping tag (← flowEntries true fuel)
    | some .blockSequence =>
      if inBlock then
        drop
        return .sequence tag (← blockItems fuel)
      else if mayBeAbsent then return .scalar tag [] true
      else failure
    | some .blockMapping =>
      if inBlock then
        drop
        return .mapping tag (← blockEntries fuel)
      else if mayBeAbsent then return .scalar tag [] true
      else failure
    | _ => if mayBeAbsent then return .scalar tag [] true else failure

/-- The entries of a block sequence up to its end. -/
def blockItems : (fuel : Nat) → Read (List Node)
  | 0 => failure
  | fuel + 1 => do
    if ← take? .entry then
      let item ← if ← atOneOf [.entry, .blockEnd] then pure Node.absent else node true false fuel
      return item :: (← blockItems fuel)
    else
      expect .blockEnd
      return []

/-- The entries of a sequence that is not indented. -/
def plainEntries : (fuel : Nat) → Read (List Node)
  | 0 => failure
  | fuel + 1 => do
    if ← take? .entry then
      let item ← if ← atOneOf [.entry, .key, .value, .blockEnd] then pure Node.absent
        else node true false fuel
      return item :: (← plainEntries fuel)
    else return []

/-- The entries of a block mapping up to its end. -/
def blockEntries : (fuel : Nat) → Read (List (Node × Node))
  | 0 => failure
  | fuel + 1 => do
    let ends : List Token := [.key, .value, .blockEnd]
    if ← take? .blockEnd then return []
    expect .key
    let key ← if ← atOneOf ends then pure Node.absent else node true true fuel
    let value ← if ← take? .value then
        if ← atOneOf ends then pure Node.absent else node true true fuel
      else pure Node.absent
    return (key, value) :: (← blockEntries fuel)

/-- The items of a flow sequence up to its end. A key makes an item a mapping of one entry. -/
def flowItems (first : Bool) : (fuel : Nat) → Read (List Node)
  | 0 => failure
  | fuel + 1 => do
    if ← take? .flowSequenceEnd then return []
    if !first then expect .flowEntry
    if ← take? .flowSequenceEnd then return []
    let item ← if ← take? .key then do
        let key ← if ← atOneOf [.value, .flowEntry, .flowSequenceEnd] then pure Node.absent
          else node false false fuel
        let value ← if ← take? .value then
            if ← atOneOf [.flowEntry, .flowSequenceEnd] then pure Node.absent
            else node false false fuel
          else pure Node.absent
        pure (Node.mapping none [(key, value)])
      else node false false fuel
    return item :: (← flowItems false fuel)

/-- The entries of a flow mapping up to its end. -/
def flowEntries (first : Bool) : (fuel : Nat) → Read (List (Node × Node))
  | 0 => failure
  | fuel + 1 => do
    if ← take? .flowMappingEnd then return []
    if !first then expect .flowEntry
    if ← take? .flowMappingEnd then return []
    let ends : List Token := [.flowEntry, .flowMappingEnd]
    let entry ← if ← take? .key then do
        let key ← if ← atOneOf (.value :: ends) then pure Node.absent else node false false fuel
        let value ← if ← take? .value then
            if ← atOneOf ends then pure Node.absent else node false false fuel
          else pure Node.absent
        pure (key, value)
      else do pure (← node false false fuel, Node.absent)
    return entry :: (← flowEntries false fuel)

end

/-! Documents -/

def dropDocumentEnds : (fuel : Nat) → Read Unit
  | 0 => pure ()
  | fuel + 1 => do if ← take? .documentEnd then dropDocumentEnds fuel

/-- The directives in front of a document: the handles they declare. -/
def directives : (fuel : Nat) → (versioned : Bool) → List (Text × Text) →
    Read (List (Text × Text))
  | 0, _, handles => pure handles
  | fuel + 1, versioned, handles => do
    match ← peek with
    | some (.version major _) =>
      drop
      if versioned || major != 1 then failure
      directives fuel true handles
    | some (.handle name uri) =>
      drop
      if handles.any (·.1 == name) then failure
      directives fuel versioned ((name, uri) :: handles)
    | some .directive =>
      drop
      directives fuel versioned handles
    | _ => return handles

def standardHandles : List (Text × Text) :=
  [("!".toList, "!".toList), ("!!".toList, "tag:yaml.org,2002:".toList)]

/-- The one document of a stream, or nothing if there is none. -/
def document (fuel : Nat) : Read (Option Node) := do
  match ← peek with
  | none => return none
  | some t =>
    let isDirective : Token → Bool
      | .version _ _ | .handle _ _ | .directive => true
      | _ => false
    let explicit := isDirective t || t == .documentStart
    let handles ← if explicit then directives fuel false [] else pure []
    if explicit then expect .documentStart
    modify fun f => { f with
      handles := handles ++ standardHandles.filter fun (h, _) => !handles.any (·.1 == h) }
    let bare ← match ← peek with
      | none => pure true
      | some t => pure (explicit && (isDirective t || t == .documentStart || t == .documentEnd))
    let root ← if bare then pure Node.absent else node true false fuel
    dropDocumentEnds fuel
    if (← peek).isSome then failure
    return some root

/-- The node of a text that holds one document. The outer option is empty for malformed texts. -/
def Node.ofText? (t : Text) : Option (Option Node) := do
  let tokens ← tokens? t
  let (root, _) ← (document (3 * tokens.length + 4)).run { tokens }
  return root

end MarkupIds.Yaml
