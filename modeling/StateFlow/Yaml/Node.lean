import StateFlow.Yaml.Token

/-!
# Nodes

A document is a tree of scalars, sequences and mappings, some of which carry an anchor, and of
aliases that stand for anchored nodes.  Aliases stay in the tree as numbers of a table, so a
collection may hold an alias of itself.

`Document.ofTokens?` reads a document from tokens.  Collections written by indentation and
collections written between brackets become the same nodes; a node that is left out is an empty
plain scalar.
-/

namespace StateFlow.Yaml

/-- A node of a document. -/
inductive Node where
  /-- A scalar; a plain one has no quotes and is not a block. -/
  | scalar (tag? : Option String) (text : String) (plain : Bool)
  | sequence (tag? : Option String) (items : List Node)
  | mapping (tag? : Option String) (entries : List (Node × Node))
  /-- The anchored node of a number. -/
  | alias (number : Nat)
deriving Repr, Inhabited

/-- A document. -/
structure Document where
  root : Node
  anchored : List (Nat × Node)
deriving Repr, Inhabited

namespace Node

/-- A node that is left out. -/
def empty : Node := scalar none "" true

end Node

namespace Document

/-- The node that an alias stands for; every other node stands for itself. -/
def resolve (d : Document) : Node → Node
  | .alias number => ((d.anchored.find? (·.1 = number)).map (·.2)).getD (.alias number)
  | node => node

/-! ## Reading tokens -/

/-- A document part way through: the tokens to come, the meanings of tag handles, the numbers of
anchors and the nodes anchored so far. -/
structure Reading where
  tokens : List Token
  handles : List (String × String)
  anchors : List (String × Nat)
  anchored : List (Nat × Node)
deriving Repr, Inhabited

/-- A step of reading, which may fail. -/
abbrev Read := StateT Reading Option

/-- The next token. -/
def peek : Read Token := do return ((← get).tokens.head?).getD .streamEnd

/-- Passes over the next token. -/
def skip : Read Unit := modify fun r => { r with tokens := r.tokens.drop 1 }

/-- Passes over the next token if it is the given one, and says whether it was. -/
def accept (t : Token) : Read Bool := do
  if (← peek) = t then
    skip
    return true
  else return false

/-! ## Properties of nodes -/

/-- A tag in full. -/
def fullTag (handle suffix : String) : Read String := do
  if handle = "" then return suffix
  match (← get).handles.find? (·.1 = handle) with
  | some (_, meaning) => return meaning ++ suffix
  | none => failure

/-- The properties before a node. -/
structure Properties where
  anchor? : Option String
  tag? : Option String
deriving Repr, Inhabited

/-- An anchor, if one comes next. -/
def readAnchor? : Read (Option String) := do
  match ← peek with
  | .anchor name =>
    skip
    return some name
  | _ => return none

/-- A tag, if one comes next. -/
def readTag? : Read (Option String) := do
  match ← peek with
  | .tag handle suffix =>
    skip
    return some (← fullTag handle suffix)
  | _ => return none

/-- The tag of a scalar that is written out; a lone exclamation mark says nothing and is dropped. -/
def scalarTag? (tag? : Option String) : Option String := tag?.filter (· ≠ "!")

/-- The anchor and the tag of a node, in either order. -/
def readProperties : Read Properties := do
  match ← readAnchor? with
  | some name => return ⟨some name, ← readTag?⟩
  | none =>
    let tag? ← readTag?
    if tag?.isSome then return ⟨← readAnchor?, tag?⟩ else return ⟨none, none⟩

/-- The number of an anchor: how many other names have been anchored before. -/
def declare (name : String) : Read Nat := do
  let number := (← get).anchors.length
  modify fun r => { r with
    anchors := (name, number) :: r.anchors.filter fun a => decide (a.1 ≠ name) }
  return number

/-- A node under a number; of two nodes under one number the later counts. -/
def anchor (number? : Option Nat) (node : Node) : Read Node := do
  match number? with
  | some number => modify fun r => { r with anchored := (number, node) :: r.anchored }
  | none => pure ()
  return node

/-- The alias of a name. -/
def aliasOf (name : String) : Read Node := do
  match (← get).anchors.find? (·.1 = name) with
  | some (_, number) => return .alias number
  | none => failure

/-! ## Collections -/

/-- True of the tokens before which an entry of a block mapping is left out. -/
def endsBlockPart : Token → Bool
  | .key | .value | .blockEnd => true
  | _ => false

/-- True of the tokens before which an entry of a block sequence is left out. -/
def endsBlockItem : Token → Bool
  | .blockEntry | .blockEnd => true
  | _ => false

/-- True of the tokens before which a value between brackets is left out. -/
def endsFlowValue (closing t : Token) : Bool := t = .flowEntry || t = closing

/-- True of the tokens before which a key between brackets is left out. -/
def endsFlowKey (closing t : Token) : Bool := t = .value || endsFlowValue closing t

/-- Passes over the comma before an entry that is not the first, unless the collection ends. -/
def skipComma (closing : Token) (first : Bool) : Read Unit := do
  if first || (← peek) = closing then return
  if !(← accept .flowEntry) then failure

mutual

/-- Reads a node.  Where `block` is set it may be a collection written by indentation, and where
`indentless` is set a sequence whose dashes stand at the column of the mapping around it. -/
def readNode (block indentless : Bool) : (fuel : Nat) → Read Node
  | 0 => failure
  | fuel + 1 => do
    match ← peek with
    | .alias name =>
      skip
      aliasOf name
    | _ =>
      let ⟨anchor?, tag?⟩ ← readProperties
      let number? ← anchor?.mapM declare
      match ← peek with
      | .scalar text plain =>
        skip
        anchor number? (.scalar (scalarTag? tag?) text plain)
      | .blockEntry =>
        if indentless then anchor number? (.sequence tag? (← readIndentless fuel))
        else readAbsent anchor? tag? number?
      | .flowSequenceStart =>
        skip
        anchor number? (.sequence tag? (← readFlowItems true fuel))
      | .flowMappingStart =>
        skip
        anchor number? (.mapping tag? (← readFlowEntries true fuel))
      | .blockSequenceStart =>
        if block then
          skip
          anchor number? (.sequence tag? (← readBlockItems fuel))
        else readAbsent anchor? tag? number?
      | .blockMappingStart =>
        if block then
          skip
          anchor number? (.mapping tag? (← readBlockEntries fuel))
        else readAbsent anchor? tag? number?
      | _ => readAbsent anchor? tag? number?
where
  /-- A node that consists of its properties alone. -/
  readAbsent (anchor? tag? : Option String) (number? : Option Nat) : Read Node := do
    if anchor?.isSome || tag?.isSome then anchor number? (.scalar tag? "" true) else failure

/-- Reads a node, unless it is left out. -/
def readPart (absent : Token → Bool) (block indentless : Bool) : (fuel : Nat) → Read Node
  | 0 => failure
  | fuel + 1 => do
    if absent (← peek) then return .empty else readNode block indentless fuel

/-- Reads the items of a block sequence to its end. -/
def readBlockItems : (fuel : Nat) → Read (List Node)
  | 0 => failure
  | fuel + 1 => do
    if ← accept .blockEntry then
      let item ← readPart endsBlockItem true false fuel
      return item :: (← readBlockItems fuel)
    else if ← accept .blockEnd then return []
    else failure

/-- Reads the items of a sequence that has no indentation of its own. -/
def readIndentless : (fuel : Nat) → Read (List Node)
  | 0 => failure
  | fuel + 1 => do
    if ← accept .blockEntry then
      let item ← readPart (fun t => t = .blockEntry || endsBlockPart t) true false fuel
      return item :: (← readIndentless fuel)
    else return []

/-- Reads the value of a block mapping, if there is one. -/
def readBlockValue : (fuel : Nat) → Read Node
  | 0 => failure
  | fuel + 1 => do
    if ← accept .value then readPart endsBlockPart true true fuel else return .empty

/-- Reads the entries of a block mapping to its end. -/
def readBlockEntries : (fuel : Nat) → Read (List (Node × Node))
  | 0 => failure
  | fuel + 1 => do
    if ← accept .key then
      let key ← readPart endsBlockPart true true fuel
      let value ← readBlockValue fuel
      return (key, value) :: (← readBlockEntries fuel)
    else if ← accept .blockEnd then return []
    else failure

/-- Reads the value of a key between brackets, if there is one. -/
def readFlowValue (closing : Token) : (fuel : Nat) → Read Node
  | 0 => failure
  | fuel + 1 => do
    if ← accept .value then readPart (endsFlowValue closing) false false fuel else return .empty

/-- Reads a mapping of one entry that stands in a sequence without brackets of its own, after the
mark of its key.  Where the key is left out, the token after the mark is passed over. -/
def readPair : (fuel : Nat) → Read Node
  | 0 => failure
  | fuel + 1 => do
    let absent := endsFlowKey .flowSequenceEnd (← peek)
    let key ← readPart (endsFlowKey .flowSequenceEnd) false false fuel
    if absent then skip
    return .mapping none [(key, ← readFlowValue .flowSequenceEnd fuel)]

/-- Reads the items of a sequence between brackets to its end. -/
def readFlowItems (first : Bool) : (fuel : Nat) → Read (List Node)
  | 0 => failure
  | fuel + 1 => do
    skipComma .flowSequenceEnd first
    if ← accept .flowSequenceEnd then return []
    let item ← if ← accept .key then readPair fuel else readNode false false fuel
    return item :: (← readFlowItems false fuel)

/-- Reads the entries of a mapping between brackets to its end. -/
def readFlowEntries (first : Bool) : (fuel : Nat) → Read (List (Node × Node))
  | 0 => failure
  | fuel + 1 => do
    skipComma .flowMappingEnd first
    if ← accept .flowMappingEnd then return []
    let entry ←
      if ← accept .key then do
        let key ← readPart (endsFlowKey .flowMappingEnd) false false fuel
        pure (key, ← readFlowValue .flowMappingEnd fuel)
      else do pure (← readNode false false fuel, Node.empty)
    return entry :: (← readFlowEntries false fuel)

end

/-! ## Documents -/

/-- Reads directives, each of which may come once for the version and once for each tag handle. -/
def readDirectives (versioned : Bool) : (fuel : Nat) → Read Unit
  | 0 => failure
  | fuel + 1 => do
    match ← peek with
    | .version major minor =>
      if versioned || major ≠ 1 || !(minor = 1 || minor = 2) then failure
      skip
      readDirectives true fuel
    | .tagHandle handle meaning =>
      if (← get).handles.any (·.1 = handle) then failure
      skip
      modify fun r => { r with handles := (handle, meaning) :: r.handles }
      readDirectives versioned fuel
    | _ => return

/-- The tag handles that need no directive. -/
def standardHandles : List (String × String) :=
  [("!", "!"), ("!!", "tag:yaml.org,2002:")]

/-- True of the tokens at which a document may not begin without a mark. -/
def needsMark : Token → Bool
  | .version .. | .tagHandle .. | .documentStart => true
  | _ => false

/-- True of the tokens after a mark at which a document is left out. -/
def endsDocument (t : Token) : Bool := needsMark t || t = .documentEnd || t = .streamEnd

/-- Reads the mark of a document, and the directives before it, where there are some. -/
def readStart (fuel : Nat) : Read Bool := do
  let marked := needsMark (← peek)
  if marked then
    readDirectives false fuel
    if !(← accept .documentStart) then failure
  modify fun r => { r with handles := r.handles ++ standardHandles }
  return marked

/-- Reads the only document of a text. -/
def readOnly (fuel : Nat) : Read Node := do
  if (← peek) = .streamEnd then return .empty
  let marked ← readStart fuel
  let root ← readPart (fun t => marked && endsDocument t) true false fuel
  modify fun r => { r with tokens := r.tokens.dropWhile (· = .documentEnd) }
  if (← peek) = .streamEnd then return root else failure

/-- The document that tokens write; tokens of several documents write none. -/
def ofTokens? (tokens : List Token) : Option Document := do
  let (root, r) ← (readOnly (4 * tokens.length + 8)).run ⟨tokens, [], [], []⟩
  return ⟨root, r.anchored⟩

end Document

end StateFlow.Yaml
