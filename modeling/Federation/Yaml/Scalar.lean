import Federation.Yaml.Glyph

/-!
# Scalars

A scalar is written plain, between quotes, or as a block of indented lines. Plain and quoted
scalars are folded: a single line break counts as a space, and of several the first is dropped;
blanks around breaks do not count. Blocks keep their lines or fold them.
-/

namespace Federation.Yaml

/-- The blanks and line breaks since the last character that counts. -/
structure Pause where
  blanks : List Char := []
  breaks : List Char := []
  /-- Whether the first line break was escaped, so that it does not count. -/
  escaped : Bool := false
deriving DecidableEq, Inhabited

namespace Pause

/-- Whether the line has ended. -/
def hasBreak (p : Pause) : Bool :=
  p.escaped || !p.breaks.isEmpty

def addBlank (p : Pause) (c : Char) : Pause :=
  if p.hasBreak then p else { p with blanks := p.blanks ++ [c] }

def addBreak (p : Pause) (c : Char) : Pause :=
  { p with blanks := [], breaks := p.breaks ++ [c] }

/-- What the pause stands for between two characters that count. -/
def fold (p : Pause) : List Char :=
  if p.escaped then p.breaks
  else
    match p.breaks with
    | [] => p.blanks
    | ['\n'] => [' ']
    | '\n' :: more => more
    | more => more

end Pause

/-- The characters that end a plain scalar inside a flow collection. -/
def isFlowMark (c : Char) : Bool :=
  c ∈ [',', '[', ']', '{', '}']

/-- Where a plain scalar is read. -/
structure PlainContext where
  /-- Whether it stands inside a flow collection. -/
  flow : Bool
  /-- The least column of its further lines outside flow collections. -/
  indent : Int

/-- Whether a plain scalar goes on no further on a new stretch of characters. -/
def PlainContext.stopsBefore (ctx : PlainContext) (gs : List Glyph) : Bool :=
  match gs with
  | g :: _ =>
    (!ctx.flow && (g.column : Int) < ctx.indent) || isDocumentMark gs || g.char = '#'
  | [] => true

/-- Whether a plain scalar ends before a character. -/
def PlainContext.endsBefore (ctx : PlainContext) (gs : List Glyph) : Bool :=
  (charAt gs 0 = ':' && isGap (charAt gs 1)) || (ctx.flow && isFlowMark (charAt gs 0))

/-- Whether a colon stands where it may not, right before a mark of a flow collection. -/
def PlainContext.strayColon (ctx : PlainContext) (gs : List Glyph) : Bool :=
  ctx.flow && charAt gs 0 = ':' && (isFlowMark (charAt gs 1) || charAt gs 1 = '?')

/-- The rest of a plain scalar, whether its last line has ended, and the text that follows. -/
def plain? (ctx : PlainContext) : Pause → List Glyph → Option (List Char × Bool × List Glyph)
  | p, [] => some ([], p.hasBreak, [])
  | p, g :: rest =>
    if isBlank g.char then
      if p.hasBreak && (g.column : Int) < ctx.indent && g.char = '\t' then none
      else plain? ctx (p.addBlank g.char) rest
    else if isBreak g.char then plain? ctx (p.addBreak g.char) rest
    else if isEnd g.char then some ([], p.hasBreak, g :: rest)
    else if p != {} && ctx.stopsBefore (g :: rest) then some ([], p.hasBreak, g :: rest)
    else if ctx.strayColon (g :: rest) then none
    else if ctx.endsBefore (g :: rest) then some ([], p.hasBreak, g :: rest)
    else (plain? ctx {} rest).map fun (cs, r) => (p.fold ++ g.char :: cs, r)

/-- The rest of a scalar between single quotes, in which a quote is written twice. -/
def singleQuoted? : Pause → List Glyph → Option (List Char × List Glyph)
  | _, [] => none
  | p, g :: rest =>
    if isBlank g.char then singleQuoted? (p.addBlank g.char) rest
    else if isBreak g.char then singleQuoted? (p.addBreak g.char) rest
    else if isEnd g.char || isDocumentMark (g :: rest) then none
    else if g.char = '\x27' then
      match rest with
      | g' :: rest' =>
        if g'.char = '\x27' then
          (singleQuoted? {} rest').map fun (cs, r) => (p.fold ++ '\x27' :: cs, r)
        else some (p.fold, g' :: rest')
      | [] => some (p.fold, [])
    else (singleQuoted? {} rest).map fun (cs, r) => (p.fold ++ g.char :: cs, r)

/-- The character that a letter after a backslash stands for. -/
def escaped? (c : Char) : Option Char :=
  match c with
  | '0' => some '\x00'
  | 'a' => some '\x07'
  | 'b' => some '\x08'
  | 't' => some '\t'
  | '\t' => some '\t'
  | 'n' => some '\n'
  | 'v' => some '\x0b'
  | 'f' => some '\x0c'
  | 'r' => some '\r'
  | 'e' => some '\x1b'
  | ' ' => some ' '
  | '\x22' => some '\x22'
  | '/' => some '/'
  | '\\' => some '\\'
  | 'N' => some '\u0085'
  | '_' => some '\u00a0'
  | 'L' => some '\u2028'
  | 'P' => some '\u2029'
  | _ => none

/-- The value of a hexadecimal digit. -/
def hexValue? (c : Char) : Option Nat :=
  if '0' ≤ c ∧ c ≤ '9' then some (c.toNat - '0'.toNat)
  else if 'a' ≤ c ∧ c ≤ 'f' then some (c.toNat - 'a'.toNat + 10)
  else if 'A' ≤ c ∧ c ≤ 'F' then some (c.toNat - 'A'.toNat + 10)
  else none

/-- The character with a code point in hexadecimal digits, unless it is a surrogate. -/
def hexChar? (ds : List Glyph) : Option Char := do
  let n ← ds.foldlM (fun n g => (hexValue? g.char).map (16 * n + ·)) 0
  if h : n.isValidChar then some (Char.ofNatAux n h) else none

/-- The rest of a scalar between double quotes, in which a backslash begins an escape. -/
def doubleQuoted? : Pause → List Glyph → Option (List Char × List Glyph)
  | _, [] => none
  | p, g :: rest =>
    if isBlank g.char then doubleQuoted? (p.addBlank g.char) rest
    else if isBreak g.char then doubleQuoted? (p.addBreak g.char) rest
    else if isEnd g.char || isDocumentMark (g :: rest) then none
    else if g.char = '\x22' then some (p.fold, rest)
    else if g.char = '\\' then
      match rest with
      | [] => none
      | e :: rest =>
        if isBreak e.char then
          (doubleQuoted? { escaped := true } rest).map fun (cs, r) => (p.fold ++ cs, r)
        else if e.char = 'x' then
          match rest with
          | a :: b :: rest => do
            let c ← hexChar? [a, b]
            let (cs, r) ← doubleQuoted? {} rest
            some (p.fold ++ c :: cs, r)
          | _ => none
        else if e.char = 'u' then
          match rest with
          | a :: b :: c :: d :: rest => do
            let c ← hexChar? [a, b, c, d]
            let (cs, r) ← doubleQuoted? {} rest
            some (p.fold ++ c :: cs, r)
          | _ => none
        else if e.char = 'U' then
          match rest with
          | a :: b :: c :: d :: a' :: b' :: c' :: d' :: rest => do
            let c ← hexChar? [a, b, c, d, a', b', c', d']
            let (cs, r) ← doubleQuoted? {} rest
            some (p.fold ++ c :: cs, r)
          | _ => none
        else do
          let c ← escaped? e.char
          let (cs, r) ← doubleQuoted? {} rest
          some (p.fold ++ c :: cs, r)
    else (doubleQuoted? {} rest).map fun (cs, r) => (p.fold ++ g.char :: cs, r)

/-- What becomes of the line breaks at the end of a block. -/
inductive Chomp where
  | strip
  | clip
  | keep
deriving DecidableEq, Inhabited

/-- What is said about a block before its first line. -/
structure BlockHeader where
  chomp : Chomp := .clip
  /-- The indentation of its lines below that of the block around it, if it is given. -/
  increment : Option Nat := none

/-- The digit that gives an indentation; zero is none. -/
def incrementDigit? (c : Char) : Option (Option Nat) :=
  if c.isDigit then (if c = '0' then none else some (some (c.toNat - '0'.toNat))) else some none

/-- The mark for the line breaks at the end of a block. -/
def chompMark? (c : Char) : Option Chomp :=
  if c = '+' then some .keep else if c = '-' then some .strip else none

/-- The header of a block: a mark and a digit, each of which may be left out, in any order. -/
def blockHeader? (gs : List Glyph) : Option (BlockHeader × List Glyph) := do
  match chompMark? (charAt gs 0) with
  | some chomp =>
    let rest := gs.drop 1
    match ← incrementDigit? (charAt rest 0) with
    | some n => some (⟨chomp, some n⟩, rest.drop 1)
    | none => some (⟨chomp, none⟩, rest)
  | none =>
    match ← incrementDigit? (charAt gs 0) with
    | some n =>
      let rest := gs.drop 1
      match chompMark? (charAt rest 0) with
      | some chomp => some (⟨chomp, some n⟩, rest.drop 1)
      | none => some (⟨.clip, some n⟩, rest)
    | none => some ({}, gs)

/-- Passes over blanks and a comment up to the end of the line, and over its break. -/
def endLine? (gs : List Glyph) : Option (List Glyph) :=
  let gs := gs.dropWhile (isBlank ·.char)
  let gs := if charAt gs 0 = '#' then gs.dropWhile (!isBreakOrEnd ·.char) else gs
  if isBreak (charAt gs 0) then some (gs.drop 1)
  else if isEnd (charAt gs 0) then some gs
  else none

/-- Passes over indentation and empty lines, with the breaks of these lines and the greatest column
reached. While the indentation is not known it is 0 and all spaces belong to it. -/
def emptyLines? (indent : Nat) : Nat → List Glyph → Option (List Char × Nat × List Glyph)
  | reached, [] => some ([], reached, [])
  | reached, g :: rest =>
    let indenting := indent = 0 ∨ g.column < indent
    if indenting ∧ g.char = ' ' then emptyLines? indent reached rest
    else
      let reached := max reached g.column
      if indenting ∧ g.char = '\t' then none
      else if isBreak g.char then
        (emptyLines? indent reached rest).map fun (cs, r) => (g.char :: cs, r)
      else some ([], reached, g :: rest)

/-- What stands between two lines of a block: the break after the first, unless it is folded, and
the breaks of the empty lines. Lines that begin with a blank are not folded. -/
def joinLines (literal : Bool) (ending empty : List Char) (beforeBlank afterBlank : Bool) :
    List Char :=
  if !literal && ending = ['\n'] && !beforeBlank && !afterBlank then
    (if empty.isEmpty then [' '] else empty)
  else ending ++ empty

/-- The lines of a block, the break of the last one, the breaks of the empty lines at the end, and
the text that follows. -/
def blockLines? (literal : Bool) (indent : Nat) :
    Nat → List Char → List Char → Bool → List Glyph →
      Option (List Char × List Char × List Char × List Glyph)
  | 0, ending, empty, _, gs => some ([], ending, empty, gs)
  | fuel + 1, ending, empty, blank, gs =>
    match gs with
    | [] => some ([], ending, empty, [])
    | g :: _ =>
      if g.column = indent ∧ !isEnd g.char then
        let between := joinLines literal ending empty blank (isBlank g.char)
        let line := (gs.takeWhile (!isBreakOrEnd ·.char)).map (·.char)
        let rest := gs.dropWhile (!isBreakOrEnd ·.char)
        let c := charAt rest 0
        let (ending, rest) := if isBreak c then ([c], rest.drop 1) else ([], rest)
        match emptyLines? indent 0 rest with
        | none => none
        | some (empty, _, rest) =>
          (blockLines? literal indent fuel ending empty (isBlank g.char) rest).map
            fun (cs, r) => (between ++ line ++ cs, r)
      else some ([], ending, empty, gs)

/-- A block after its mark, inside a collection at column `parent`. -/
def block? (literal : Bool) (parent : Int) (gs : List Glyph) :
    Option (List Char × List Glyph) := do
  let (header, gs) ← blockHeader? gs
  let gs ← endLine? gs
  let given := match header.increment with
    | some n => if 0 ≤ parent then parent.toNat + n else n
    | none => 0
  let (empty, reached, gs) ← emptyLines? given 0 gs
  let indent := if given = 0 then max reached (max (parent + 1).toNat 1) else given
  let (text, ending, empty, gs) ← blockLines? literal indent gs.length [] empty false gs
  let tail := match header.chomp with
    | .strip => []
    | .clip => ending
    | .keep => ending ++ empty
  some (text ++ tail, gs)

end Federation.Yaml
