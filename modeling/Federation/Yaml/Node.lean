import Federation.Yaml.Token

/-!
# Nodes

A node is a scalar, a sequence or a mapping, or it repeats a node that was anchored before it or
around it. A text is one document, which is one node. Entries may lack their key or their value,
which is then an empty plain scalar.
-/

namespace Federation.Yaml

/-- A value in a document. -/
inductive Node where
  /-- A text, with its tag if it has one, and whether it is written plain. -/
  | scalar (tag : Option Tag) (plain : Bool) (text : String)
  | sequence (items : List Node)
  | mapping (entries : List (Node × Node))
  /-- The repetition of an anchored node, by the number of its anchor. -/
  | again (anchor : Nat)
deriving Inhabited

/-- The node of a text, with the anchored nodes by the numbers of their anchors. An anchor has the
number of different names before it. Where a name is used again, it and the next new name thus
have the same number, which stands for the later node of the two. -/
structure Document where
  root : Node
  anchored : Array Node
deriving Inhabited

namespace Node

/-- What is written for a missing value. -/
def missing : Node :=
  scalar none true ""

/-- The state of reading. -/
structure Reading where
  tokens : List Token
  /-- The nodes of the anchors so far; one that is still open is missing yet. -/
  anchored : Array Node := #[]
  /-- The position of the latest anchor of each number. -/
  latest : Array Nat := #[]
  /-- The numbers of the names of anchors. -/
  numbers : List (String × Nat) := []
  /-- What the handles of tags stand for. -/
  handles : List (String × Tag) := []

/-- A step of reading, which may fail. -/
abbrev Reader := StateT Reading Option

/-- The next token. -/
def peek? : Reader (Option Token) := do
  return (← get).tokens.head?

/-- Passes over a token. -/
def advance : Reader Unit :=
  modify fun s => { s with tokens := s.tokens.tail }

/-- Whether the next token is one of a list. -/
def atToken (ts : List Token) : Reader Bool := do
  match ← peek? with
  | some t => return ts.contains t
  | none => return false

/-- The anchor and the tag of a node. -/
structure Properties where
  anchor : Option String := none
  tag : Option Tag := none

/-- What a tag stands for. -/
def expandTag (handle : String) (suffix : Tag) : Reader Tag := do
  if handle.isEmpty then return suffix
  match (← get).handles.lookup handle with
  | some expansion => return expansion ++ suffix
  | none => failure

/-- Takes an anchor, if one is next. -/
def takeAnchor : Reader (Option String) := do
  match ← peek? with
  | some (.anchor name) => advance; return some name
  | _ => return none

/-- Takes a tag, if one is next. -/
def takeTag : Reader (Option Tag) := do
  match ← peek? with
  | some (.tag handle suffix) => advance; return some (← expandTag handle suffix)
  | _ => return none

/-- Takes the properties of a node, in any order. -/
def takeProperties : Reader Properties := do
  match ← takeAnchor with
  | some name => return ⟨some name, ← takeTag⟩
  | none =>
    match ← takeTag with
    | some tag => return ⟨← takeAnchor, some tag⟩
    | none => return {}

/-- Opens a node; the result is the position of its anchor, if it has one. -/
def openAnchor (p : Properties) : Reader (Option Nat) := do
  match p.anchor with
  | some name =>
    let s ← get
    let position := s.anchored.size
    let number := s.numbers.length
    set { s with
      anchored := s.anchored.push missing
      latest :=
        if number < s.latest.size then s.latest.setIfInBounds number position
        else s.latest.push position
      numbers := (name, number) :: s.numbers.filter (·.1 ≠ name) }
    return some position
  | none => return none

/-- Closes a node that was opened. -/
def closeAnchor (anchor : Option Nat) (node : Node) : Reader Node := do
  match anchor with
  | some position =>
    modify fun s => { s with anchored := s.anchored.setIfInBounds position node }
  | none => pure ()
  return node

/-- A node without parts. -/
def leaf (p : Properties) (plain : Bool) (text : String) : Reader Node := do
  let anchor ← openAnchor p
  closeAnchor anchor (scalar p.tag plain text)

/-- The node that an alias stands for. -/
def repeated (name : String) : Reader Node := do
  match (← get).numbers.lookup name with
  | some number => return again number
  | none => failure

/-- The anchored nodes by number. -/
def Reading.byNumber (s : Reading) : Array Node :=
  s.latest.map fun position => (s.anchored[position]?).getD missing

/-- The tokens before which an entry of a block collection lacks its node. -/
def blockStops : List Token := [.key, .value, .blockEnd]

mutual

/-- Reads a node. Block collections, and sequences at the column of the mapping around them, are
not allowed everywhere. -/
def readNode : Nat → Bool → Bool → Reader Node
  | 0, _, _ => failure
  | fuel + 1, block, indentless => do
    match ← peek? with
    | some (.alias name) => advance; repeated name
    | _ =>
      let p ← takeProperties
      match ← peek? with
      | some (.scalar plain text) => advance; leaf p plain text
      | some .flowSequenceStart =>
        advance
        let anchor ← openAnchor p
        closeAnchor anchor (sequence (← readFlowItems fuel true))
      | some .flowMappingStart =>
        advance
        let anchor ← openAnchor p
        closeAnchor anchor (mapping (← readFlowEntries fuel true))
      | some .blockEntry =>
        if indentless then
          let anchor ← openAnchor p
          closeAnchor anchor (sequence (← readIndentlessItems fuel))
        else readAbsent p
      | some .blockSequenceStart =>
        if block then
          advance
          let anchor ← openAnchor p
          closeAnchor anchor (sequence (← readBlockItems fuel))
        else readAbsent p
      | some .blockMappingStart =>
        if block then
          advance
          let anchor ← openAnchor p
          closeAnchor anchor (mapping (← readBlockEntries fuel))
        else readAbsent p
      | _ => readAbsent p

/-- A node that has properties only. -/
def readAbsent (p : Properties) : Reader Node :=
  if p.anchor.isSome || p.tag.isSome then leaf p true "" else failure

/-- Reads a node unless one of the given tokens is next. -/
def readUnless : Nat → List Token → Bool → Bool → Reader Node
  | 0, _, _, _ => failure
  | fuel + 1, stops, block, indentless => do
    if ← atToken stops then return missing
    readNode fuel block indentless

/-- Reads the entries of a block sequence and its end. -/
def readBlockItems : Nat → Reader (List Node)
  | 0 => failure
  | fuel + 1 => do
    match ← peek? with
    | some .blockEntry =>
      advance
      let item ← readUnless fuel [.blockEntry, .blockEnd] true false
      return item :: (← readBlockItems fuel)
    | some .blockEnd => advance; return []
    | _ => failure

/-- Reads the entries of a block sequence that ends with the mapping around it. -/
def readIndentlessItems : Nat → Reader (List Node)
  | 0 => failure
  | fuel + 1 => do
    match ← peek? with
    | some .blockEntry =>
      advance
      let item ← readUnless fuel (.blockEntry :: blockStops) true false
      return item :: (← readIndentlessItems fuel)
    | _ => return []

/-- Reads the entries of a block mapping and its end. -/
def readBlockEntries : Nat → Reader (List (Node × Node))
  | 0 => failure
  | fuel + 1 => do
    match ← peek? with
    | some .key =>
      advance
      let key ← readUnless fuel blockStops true true
      let value ← readValue fuel blockStops true
      return (key, value) :: (← readBlockEntries fuel)
    | some .blockEnd => advance; return []
    | _ => failure

/-- Reads the value of an entry, which is missing without its colon. -/
def readValue : Nat → List Token → Bool → Reader Node
  | 0, _, _ => failure
  | fuel + 1, stops, block => do
    match ← peek? with
    | some .value => advance; readUnless fuel stops block block
    | _ => return missing

/-- Reads the items of a flow sequence and its end; an item may be a single entry of a mapping. -/
def readFlowItems : Nat → Bool → Reader (List Node)
  | 0, _ => failure
  | fuel + 1, first => do
    if ← atToken [.flowSequenceEnd] then
      advance
      return []
    if !first then
      if !(← atToken [.flowEntry]) then failure
      advance
    match ← peek? with
    | some .flowSequenceEnd => advance; return []
    | some .key =>
      advance
      let stops : List Token := [.flowEntry, .flowSequenceEnd]
      let key ← readPairKey fuel (.value :: stops)
      let value ← readValue fuel stops false
      return mapping [(key, value)] :: (← readFlowItems fuel false)
    | _ =>
      let item ← readNode fuel false false
      return item :: (← readFlowItems fuel false)

/-- Reads the key of an entry in a flow sequence; a missing key takes the token in its place. -/
def readPairKey : Nat → List Token → Reader Node
  | 0, _ => failure
  | fuel + 1, stops => do
    if ← atToken stops then
      advance
      return missing
    readNode fuel false false

/-- Reads the entries of a flow mapping and its end. -/
def readFlowEntries : Nat → Bool → Reader (List (Node × Node))
  | 0, _ => failure
  | fuel + 1, first => do
    if ← atToken [.flowMappingEnd] then
      advance
      return []
    if !first then
      if !(← atToken [.flowEntry]) then failure
      advance
    let stops : List Token := [.flowEntry, .flowMappingEnd]
    match ← peek? with
    | some .flowMappingEnd => advance; return []
    | some .key =>
      advance
      let key ← readUnless fuel (.value :: stops) false false
      let value ← readValue fuel stops false
      return (key, value) :: (← readFlowEntries fuel false)
    | _ =>
      let key ← readNode fuel false false
      return (key, missing) :: (← readFlowEntries fuel false)

end

/-- The directives before a document. -/
structure Directives where
  version : Bool := false
  handles : List (String × Tag) := []

/-- What handles stand for unless a directive says otherwise. -/
def standardHandles : List (String × Tag) :=
  [("!", .named "!"), ("!!", .named "tag:yaml.org,2002:")]

/-- Takes the directives before a document: each at most once, and a version of YAML 1. -/
def takeDirectives? : Directives → List Token → Option (Directives × List Token)
  | d, .version major minor :: rest =>
    if d.version || major ≠ 1 || (minor ≠ 1 && minor ≠ 2) then none
    else takeDirectives? { d with version := true } rest
  | d, .tagHandle handle expansion :: rest =>
    if (d.handles.lookup handle).isSome then none
    else takeDirectives? { d with handles := (handle, expansion) :: d.handles } rest
  | d, ts => some (d, ts)

/-- Reads the content of a document and the tokens after it. -/
def readContent? (handles : List (String × Tag)) (ts : List Token) :
    Option (Document × List Token) := do
  let (node, s) ← (readNode (4 * ts.length + 4) true false).run { tokens := ts, handles := handles }
  some (⟨node, s.byNumber⟩, s.tokens)

/-- Whether a document has no content before a token. -/
def endsDocument : Token → Bool
  | .version _ _ => true
  | .tagHandle _ _ => true
  | .documentStart => true
  | .documentEnd => true
  | _ => false

/-- Reads the first document of a text and the tokens after it. -/
def readDocument? (ts : List Token) : Option (Document × List Token) := do
  let (d, rest) ← takeDirectives? {} ts
  let handles := d.handles ++ standardHandles
  match rest with
  | .documentStart :: rest =>
    if rest.head?.all endsDocument then some (⟨missing, #[]⟩, rest)
    else readContent? handles rest
  | _ =>
    if ts.isEmpty || rest.length ≠ ts.length then none else readContent? handles ts

end Node

namespace Document

/-- The one document that tokens show. -/
def ofTokens? (ts : List Token) : Option Document := do
  let (doc, rest) ← Node.readDocument? ts
  if (rest.dropWhile (· == .documentEnd)).isEmpty then some doc else none

/-- The document that a text denotes. -/
def ofText? (s : String) : Option Document := do
  ofTokens? (← tokens? s)

end Document

end Federation.Yaml
