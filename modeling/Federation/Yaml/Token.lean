import Federation.Yaml.Tag

/-!
# Tokens

Tokens are the scalars and marks of a YAML text. In block style the structure of a text is given
by columns; tokens make it explicit, with a start for every collection and an end for every
deeper column that is left. A key that is not marked is known as a key only at the colon after
it, so its token is put in front of the tokens it begins with.
-/

namespace Federation.Yaml

/-- A mark or a scalar of a text. -/
inductive Token where
  | version (major minor : Nat)
  | tagHandle (handle : String) (expansion : Tag)
  | documentStart
  | documentEnd
  | blockSequenceStart
  | blockMappingStart
  | blockEnd
  | flowSequenceStart
  | flowSequenceEnd
  | flowMappingStart
  | flowMappingEnd
  | blockEntry
  | flowEntry
  | key
  | value
  | alias (name : String)
  | anchor (name : String)
  | tag (handle : String) (suffix : Tag)
  | scalar (plain : Bool) (text : String)
deriving DecidableEq, Inhabited

/-- Where a key may have begun, until a colon or the end of its line tells. -/
structure KeyStart where
  /-- Whether nothing but a key can stand there. -/
  required : Bool
  /-- The number of tokens before it. -/
  token : Nat
  index : Nat
  line : Nat
  column : Nat
deriving DecidableEq, Inhabited

/-- Whether a key that begins there can no longer end here: a key takes one line and at most 1024
octets. -/
def KeyStart.isStale (k : KeyStart) (g : Glyph) : Bool :=
  k.line < g.line || k.index + 1024 < g.index

/-- The state between two tokens. -/
structure Scan where
  glyphs : List Glyph
  tokens : Array Token := #[]
  /-- The columns of the open block collections, the innermost first. -/
  columns : List Nat := []
  /-- The key that may have begun outside flow collections and in each open one, the innermost
  first. -/
  keys : List (Option KeyStart) := [none]
  /-- Whether a key may begin here. -/
  keyAllowed : Bool := true

namespace Scan

/-- Whether a flow collection is open. -/
def inFlow (s : Scan) : Bool :=
  1 < s.keys.length

/-- The column of the innermost open block collection. -/
def indent (s : Scan) : Int :=
  match s.columns with
  | [] => -1
  | c :: _ => c

def push (s : Scan) (t : Token) : Scan :=
  { s with tokens := s.tokens.push t }

/-- Passes over characters. -/
def drop (s : Scan) (n : Nat) : Scan :=
  { s with glyphs := s.glyphs.drop n }

/-- Closes the block collections that are deeper than a column. -/
def unroll (s : Scan) (column : Int) : Scan :=
  if s.inFlow then s
  else
    let closed := s.columns.takeWhile fun (c : Nat) => column < (c : Int)
    { s with
      columns := s.columns.drop closed.length
      tokens := closed.foldl (fun ts _ => ts.push .blockEnd) s.tokens }

/-- Opens a block collection at a column, unless one is open there; its start becomes the token at
a position. -/
def roll (s : Scan) (column : Nat) (start : Token) (position : Nat) : Scan :=
  if s.inFlow || (column : Int) ≤ s.indent then s
  else
    { s with
      columns := column :: s.columns
      tokens := s.tokens.insertIdxIfInBounds position start }

/-- Forgets the innermost key; one that is required may not be forgotten. -/
def forgetKey? (s : Scan) : Option Scan :=
  match s.keys with
  | some k :: rest => if k.required then none else some { s with keys := none :: rest }
  | _ => some s

/-- Forgets the keys that can no longer end here. -/
def forgetStale? (s : Scan) (g : Glyph) : Option Scan := do
  let keys ← s.keys.mapM fun
    | some k => if k.isStale g then (if k.required then none else some none) else some (some k)
    | none => some none
  some { s with keys := keys }

/-- Notes that a key may begin here. -/
def noteKey? (s : Scan) (g : Glyph) : Option Scan := do
  if s.keyAllowed then
    let s ← s.forgetKey?
    let k : KeyStart :=
      ⟨!s.inFlow && s.indent == (g.column : Int), s.tokens.size, g.index, g.line, g.column⟩
    some { s with keys := some k :: s.keys.drop 1 }
  else some s

/-- Passes over blanks, comments and line breaks, and over a byte order mark that begins a line,
which takes its column. Tabs may not indent a block, and after a line break outside flow
collections a key may begin. -/
def skipGap (flow : Bool) : Bool → Bool → List Glyph → Bool × List Glyph
  | _, allowed, [] => (allowed, [])
  | comment, allowed, g :: rest =>
    if isBreak g.char then skipGap flow false (allowed || !flow) rest
    else if isEnd g.char then (allowed, g :: rest)
    else if comment then skipGap flow true allowed rest
    else if g.char = ' ' || (g.char = '\t' && (flow || !allowed)) ||
        (g.char = byteOrderMark && g.column = 0) then
      skipGap flow false allowed rest
    else if g.char = '#' then skipGap flow true allowed rest
    else (allowed, g :: rest)

/-- The characters of a name and the text that follows it. -/
def word (gs : List Glyph) : String × List Glyph :=
  (String.ofList ((gs.takeWhile (isWord ·.char)).map (·.char)), gs.dropWhile (isWord ·.char))

/-- Passes over blanks. -/
def skipBlanks (gs : List Glyph) : List Glyph :=
  gs.dropWhile (isBlank ·.char)

/-- A number of a version, of at most nine digits. -/
def versionNumber? (gs : List Glyph) : Option (Nat × List Glyph) :=
  let ds := gs.takeWhile (·.char.isDigit)
  if ds.isEmpty || 9 < ds.length then none
  else
    some (ds.foldl (fun n g => 10 * n + (g.char.toNat - '0'.toNat)) 0, gs.drop ds.length)

/-- The handle of a tag: an exclamation mark, or a name between two; else the name after one. -/
def tagHandle? (gs : List Glyph) : Option (List Char × List Glyph) :=
  if charAt gs 0 ≠ '!' then none
  else
    let name := ((gs.drop 1).takeWhile (isWord ·.char)).map (·.char)
    let rest := (gs.drop 1).dropWhile (isWord ·.char)
    if charAt rest 0 = '!' then some ('!' :: name ++ ['!'], rest.drop 1)
    else some ('!' :: name, rest)

/-- Whether what was read as the handle of a tag is one between two exclamation marks. -/
def isNamedHandle (h : List Char) : Bool :=
  1 < h.length && h.getLast? = some '!'

/-- A tag: verbatim between angle brackets, or a handle and a suffix. A handle without anything
after it is the nonspecific tag. -/
def tag? (flow : Bool) (gs : List Glyph) : Option (Token × List Glyph) := do
  let (t, rest) ←
    if charAt gs 1 = '<' then do
      let (os, rest) ← Tag.octets? true gs.length (gs.drop 2)
      if os.isEmpty || charAt rest 0 ≠ '>' then none
      some (Token.tag "" (.ofOctets os), rest.drop 1)
    else do
      let (handle, rest) ← tagHandle? gs
      let (os, rest) ← Tag.octets? false gs.length rest
      if isNamedHandle handle then do
        if os.isEmpty then none
        some (Token.tag (String.ofList handle) (.ofOctets os), rest)
      else do
        let suffix := Tag.ofOctets ((handle.drop 1).map Tag.asciiOctet ++ os)
        some (if suffix = .named "" then .tag "" .nonspecific else .tag "!" suffix, rest)
  if isGap (charAt rest 0) || (flow && charAt rest 0 = ',') then some (t, rest) else none

/-- An anchor or an alias: a name and then a gap or a mark. -/
def anchor? (gs : List Glyph) : Option (String × List Glyph) :=
  let (name, rest) := word (gs.drop 1)
  let c := charAt rest 0
  if !name.isEmpty && (isGap c || c ∈ ['?', ':', ',', ']', '}', '%', '@', '\x60']) then
    some (name, rest)
  else none

/-- A directive: the version of YAML, or the expansion of a handle. -/
def directive? (gs : List Glyph) : Option (Token × List Glyph) := do
  let (name, rest) := word (gs.drop 1)
  if !isGap (charAt rest 0) then none
  let (t, rest) ←
    if name = "YAML" then do
      let (major, rest) ← versionNumber? (skipBlanks rest)
      if charAt rest 0 ≠ '.' then none
      let (minor, rest) ← versionNumber? (rest.drop 1)
      some (Token.version major minor, rest)
    else if name = "TAG" then do
      let (handle, rest) ← tagHandle? (skipBlanks rest)
      if handle ≠ ['!'] && !isNamedHandle handle then none
      if !isBlank (charAt rest 0) then none
      let (os, rest) ← Tag.octets? true gs.length (skipBlanks rest)
      if os.isEmpty || !isGap (charAt rest 0) then none
      some (Token.tagHandle (String.ofList handle) (.ofOctets os), rest)
    else none
  some (t, ← endLine? rest)

/-- Ends all block collections and allows no key, as at the border of a document. -/
def border? (s : Scan) : Option Scan := do
  let s ← (s.unroll (-1)).forgetKey?
  some { s with keyAllowed := false }

/-- The mark of the start or the end of a document. -/
def documentMark? (s : Scan) (t : Token) : Option Scan := do
  some (((← s.border?).push t).drop 3)

/-- The start of a flow collection, which may be a key. -/
def flowStart? (s : Scan) (g : Glyph) (t : Token) : Option Scan := do
  let s ← s.noteKey? g
  some (({ s with keys := none :: s.keys, keyAllowed := true }.push t).drop 1)

/-- The end of a flow collection. -/
def flowEnd? (s : Scan) (t : Token) : Option Scan := do
  let s ← s.forgetKey?
  let keys := if s.inFlow then s.keys.drop 1 else s.keys
  some (({ s with keys := keys, keyAllowed := false }.push t).drop 1)

/-- The comma between two entries of a flow collection. -/
def flowEntry? (s : Scan) : Option Scan := do
  let s ← s.forgetKey?
  some (({ s with keyAllowed := true }.push .flowEntry).drop 1)

/-- The hyphen before an entry of a block sequence. -/
def blockEntry? (s : Scan) (g : Glyph) : Option Scan := do
  if !s.inFlow && !s.keyAllowed then none
  let s ← (s.roll g.column .blockSequenceStart s.tokens.size).forgetKey?
  some (({ s with keyAllowed := true }.push .blockEntry).drop 1)

/-- The question mark before a key. -/
def key? (s : Scan) (g : Glyph) : Option Scan := do
  if !s.inFlow && !s.keyAllowed then none
  let s ← (s.roll g.column .blockMappingStart s.tokens.size).forgetKey?
  some (({ s with keyAllowed := !s.inFlow }.push .key).drop 1)

/-- The colon before a value, which makes a key of what may be one. -/
def value? (s : Scan) (g : Glyph) : Option Scan := do
  match s.keys with
  | some k :: rest =>
    let s := { s with
      tokens := s.tokens.insertIdxIfInBounds k.token .key
      keys := none :: rest
      keyAllowed := false }
    some (((s.roll k.column .blockMappingStart k.token).push .value).drop 1)
  | _ =>
    if !s.inFlow && !s.keyAllowed then none
    let s := s.roll g.column .blockMappingStart s.tokens.size
    some (({ s with keyAllowed := !s.inFlow }.push .value).drop 1)

/-- A token that may be a key or begin one, and the text after it. -/
def content? (s : Scan) (g : Glyph) (read : Option (Token × List Glyph)) : Option Scan := do
  let s ← s.noteKey? g
  let (t, rest) ← read
  some { s with tokens := s.tokens.push t, glyphs := rest, keyAllowed := false }

/-- A block scalar, which is no key. -/
def blockScalar? (s : Scan) (literal : Bool) : Option Scan := do
  let s ← s.forgetKey?
  let (text, rest) ← block? literal s.indent (s.glyphs.drop 1)
  some { s with
    tokens := s.tokens.push (.scalar false (String.ofList text))
    glyphs := rest
    keyAllowed := true }

/-- A plain scalar; when it ends on a later line, a key may begin after it. -/
def plainScalar? (s : Scan) (g : Glyph) : Option Scan := do
  let s ← s.noteKey? g
  let (text, newLine, rest) ← plain? ⟨s.inFlow, s.indent + 1⟩ {} s.glyphs
  some { s with
    tokens := s.tokens.push (.scalar true (String.ofList text))
    glyphs := rest
    keyAllowed := newLine }

/-- Whether a plain scalar may begin with a character, given the one after it. -/
def beginsPlain (flow : Bool) (c next : Char) : Bool :=
  !(isGap c || c ∈ ['-', '?', ':', ',', '[', ']', '{', '}', '#', '&', '*', '!', '|', '>', '\x27',
    '\x22', '%', '@', '\x60']) ||
  (c = '-' && !isBlank next) ||
  (!flow && (c = '?' || c = ':') && !isGap next)

/-- The next token, which begins at `g` and not with a gap. -/
def token? (s : Scan) (g : Glyph) : Option Scan :=
  let gs := s.glyphs
  let c := g.char
  let next := charAt gs 1
  let quoted := fun (r : Option (List Char × List Glyph)) =>
    r.map fun (cs, rest) => (Token.scalar false (String.ofList cs), rest)
  if g.column = 0 && c = '%' then do
    let s ← s.border?
    let (t, rest) ← directive? gs
    some { s with tokens := s.tokens.push t, glyphs := rest }
  else if g.column = 0 && isTriple '-' gs then s.documentMark? .documentStart
  else if g.column = 0 && isTriple '.' gs then s.documentMark? .documentEnd
  else if c = '[' then s.flowStart? g .flowSequenceStart
  else if c = '{' then s.flowStart? g .flowMappingStart
  else if c = ']' then s.flowEnd? .flowSequenceEnd
  else if c = '}' then s.flowEnd? .flowMappingEnd
  else if c = ',' then s.flowEntry?
  else if c = '-' && isGap next then s.blockEntry? g
  else if c = '?' && (s.inFlow || isGap next) then s.key? g
  else if c = ':' && (s.inFlow || isGap next) then s.value? g
  else if c = '*' then
    s.content? g ((anchor? gs).map fun (name, rest) => (Token.alias name, rest))
  else if c = '&' then
    s.content? g ((anchor? gs).map fun (name, rest) => (Token.anchor name, rest))
  else if c = '!' then s.content? g (tag? s.inFlow gs)
  else if c = '|' && !s.inFlow then s.blockScalar? true
  else if c = '>' && !s.inFlow then s.blockScalar? false
  else if c = '\x27' then s.content? g (quoted (singleQuoted? {} (gs.drop 1)))
  else if c = '\x22' then s.content? g (quoted (doubleQuoted? {} (gs.drop 1)))
  else if beginsPlain s.inFlow c next then s.plainScalar? g
  else none

/-- Passes over a gap, closes what it ends and takes one more token; at the end of the text no
state follows. -/
def step? (s : Scan) : Option (Scan × Bool) := do
  let (allowed, gs) := skipGap s.inFlow false s.keyAllowed s.glyphs
  let s := { s with glyphs := gs, keyAllowed := allowed }
  match gs with
  | [] => some (← s.border?, true)
  | g :: _ =>
    let s ← s.forgetStale? g
    if isEnd g.char then some (← s.border?, true)
    else some (← (s.unroll g.column).token? g, false)

/-- Takes tokens up to the end of the text. -/
def run? : Nat → Scan → Option (List Token)
  | 0, _ => none
  | fuel + 1, s =>
    match s.step? with
    | none => none
    | some (s, true) => some s.tokens.toList
    | some (s, false) => run? fuel s

end Scan

/-- The tokens of a text. Every step takes a character, so the length of the text bounds their
number. -/
def tokens? (s : String) : Option (List Token) := do
  let gs ← glyphs? s
  Scan.run? (gs.length + 1) { glyphs := gs }

end Federation.Yaml
