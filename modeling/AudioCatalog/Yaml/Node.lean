import AudioCatalog.Yaml.Token

namespace AudioCatalog.Yaml

/-- An alias within the node that it stands for is a `loop`. -/
inductive Node where
  | scalar (text : String) (isPlain : Bool)
  | sequence (items : List Node)
  | mapping (entries : List (Node × Node))
  | loop

namespace Node

def empty : Node := .scalar "" true

structure Reader where
  tokens : List Token
  handles : List (List Char) := []
  anchors : List (List Char × Node) := []

/-- Putting nodes together; none means that the tokens make no document. -/
abbrev Read := StateT Reader Option

namespace Read

def peek : Read (Option Token) := return (← get).tokens.head?

def skip : Read Unit := modify fun r => { r with tokens := r.tokens.tail }

def accept (t : Token) : Read Bool := do
  let isNext := (← peek) == some t
  if isNext then skip
  return isNext

def unlessNext (ends : List Token) (read : Read Node) : Read Node := do
  if (← peek).any ends.contains then return empty
  read

def setAnchor (name : List Char) (node : Node) : Read Unit :=
  modify fun r => { r with anchors := (name, node) :: r.anchors }

def findAnchor (name : List Char) : Read Node := do
  match (← get).anchors.find? fun anchor => anchor.1 = name with
  | some (_, node) => return node
  | none => failure

def readAnchor : Read (Option (List Char)) := do
  match ← peek with
  | some (.anchor name) =>
    skip
    return some name
  | _ => return none

def readTag : Read Bool := do
  match ← peek with
  | some (.tag handle) =>
    guard (['!'] :: ['!', '!'] :: (← get).handles |>.contains handle)
    skip
    return true
  | _ => return false

structure Marks where
  anchor? : Option (List Char)
  hasTag : Bool

def Marks.isNone (m : Marks) : Bool := m.anchor?.isNone && !m.hasTag

def readMarks : Read Marks := do
  let tagFirst ← readTag
  let anchor? ← readAnchor
  if tagFirst then return ⟨anchor?, true⟩
  return ⟨anchor?, ← readTag⟩

/-- What kinds of collections may come next: those of a flow, those of a block, and among them
sequences that are indented no further than the mapping around them. -/
inductive Place where
  | flow
  | block
  | entry
deriving DecidableEq

def afterItem : List Token := [.blockEntry, .blockEnd]

def afterEntry : List Token := [.key, .value, .blockEnd]

def afterFlowItem : List Token := [.flowEntry, .flowSequenceEnd]

def afterFlowEntry : List Token := [.flowEntry, .flowMappingEnd]

mutual

def node (place : Place) : Nat → Read Node
  | 0 => failure
  | fuel + 1 => do
    match ← peek with
    | some (.alias name) =>
      skip
      findAnchor name
    | _ =>
      let marks ← readMarks
      match marks.anchor? with
      | none => content place (!marks.isNone) fuel
      | some name =>
        setAnchor name .loop
        let node ← content place true fuel
        setAnchor name node
        return node

def content (place : Place) (isMarked : Bool) : Nat → Read Node
  | 0 => failure
  | fuel + 1 => do
    match ← peek, place with
    | some (.scalar text isPlain), _ =>
      skip
      return .scalar (String.ofList text) isPlain
    | some .flowSequence, _ =>
      skip
      return .sequence (← flowItems true fuel)
    | some .flowMapping, _ =>
      skip
      return .mapping (← flowEntries true fuel)
    | some .blockEntry, .entry => return .sequence (← entryItems fuel)
    | some .blockSequence, .block | some .blockSequence, .entry =>
      skip
      return .sequence (← blockItems fuel)
    | some .blockMapping, .block | some .blockMapping, .entry =>
      skip
      return .mapping (← blockEntries fuel)
    | _, _ =>
      guard isMarked
      return empty

def blockItems : Nat → Read (List Node)
  | 0 => failure
  | fuel + 1 => do
    if ← accept .blockEnd then return []
    guard (← accept .blockEntry)
    let item ← unlessNext afterItem (node .block fuel)
    return item :: (← blockItems fuel)

def entryItems : Nat → Read (List Node)
  | 0 => failure
  | fuel + 1 => do
    if !(← accept .blockEntry) then return []
    let item ← unlessNext (.blockEntry :: afterEntry) (node .block fuel)
    return item :: (← entryItems fuel)

def blockEntries : Nat → Read (List (Node × Node))
  | 0 => failure
  | fuel + 1 => do
    if ← accept .blockEnd then return []
    guard (← accept .key)
    let key ← unlessNext afterEntry (node .entry fuel)
    if !(← accept .value) then return (key, empty) :: (← blockEntries fuel)
    let value ← unlessNext afterEntry (node .entry fuel)
    return (key, value) :: (← blockEntries fuel)

def flowItems (isFirst : Bool) : Nat → Read (List Node)
  | 0 => failure
  | fuel + 1 => do
    if ← accept .flowSequenceEnd then return []
    if !isFirst then
      guard (← accept .flowEntry)
      if ← accept .flowSequenceEnd then return []
    let item ← if ← accept .key then flowPair fuel else node .flow fuel
    return item :: (← flowItems false fuel)

/-- A key among items makes a mapping of its own. Where it is left out, the token after it goes
with it. -/
def flowPair : Nat → Read Node
  | 0 => failure
  | fuel + 1 => do
    let isEmpty := (← peek).any (.value :: afterFlowItem).contains
    if isEmpty then skip
    let key ← if isEmpty then pure empty else node .flow fuel
    if !(← accept .value) then return .mapping [(key, empty)]
    let value ← unlessNext afterFlowItem (node .flow fuel)
    return .mapping [(key, value)]

def flowEntries (isFirst : Bool) : Nat → Read (List (Node × Node))
  | 0 => failure
  | fuel + 1 => do
    if ← accept .flowMappingEnd then return []
    if !isFirst then
      guard (← accept .flowEntry)
      if ← accept .flowMappingEnd then return []
    let hasKey ← accept .key
    let key ← unlessNext (if hasKey then .value :: afterFlowEntry else []) (node .flow fuel)
    if !(hasKey && (← accept .value)) then return (key, empty) :: (← flowEntries false fuel)
    let value ← unlessNext afterFlowEntry (node .flow fuel)
    return (key, value) :: (← flowEntries false fuel)

end

end Read

def directives? (hasVersion : Bool) (handles : List (List Char)) :
    List Token → Option (List (List Char) × List Token)
  | .directive :: rest => if hasVersion then none else directives? true handles rest
  | .handle name :: rest =>
    if name ∈ handles then none else directives? hasVersion (name :: handles) rest
  | rest => some (handles, rest)

def ofTokens? (tokens : List Token) : Option Node := do
  let (handles, rest) ← directives? false [] tokens
  let isStarted := rest.head? == some .documentStart
  guard (isStarted || rest.length = tokens.length)
  let rest := if isStarted then rest.tail else rest
  let isEmpty := rest = [] ∨ isStarted ∧ rest.head? = some .documentEnd
  let read := if isEmpty then pure empty else Read.node .block (3 * rest.length + 3)
  let (node, reader) ← read.run { tokens := rest, handles }
  guard (reader.tokens.all (· = .documentEnd))
  return node

def parse? (text : String) : Option Node := tokens? text >>= ofTokens?

end Node

end AudioCatalog.Yaml
