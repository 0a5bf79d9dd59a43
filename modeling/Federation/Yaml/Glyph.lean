/-!
# Placed characters

YAML gives meaning to columns, so a text is read as a list of characters that know their places.
Line breaks are one character each: a carriage return, a line feed, the two together and a next
line become a line feed, while the line and paragraph separators stay as they are. The list ends
with a null character, which no text may hold itself.
-/

namespace Federation.Yaml

/-- A character of a text and its place, all counted from 0. -/
structure Glyph where
  char : Char
  /-- The number of octets before it. -/
  index : Nat
  line : Nat
  column : Nat
deriving DecidableEq, Inhabited

/-- The end of a text. -/
def isEnd (c : Char) : Bool :=
  c = '\x00'

/-- A placed line break. -/
def isBreak (c : Char) : Bool :=
  c = '\n' || c = '\u2028' || c = '\u2029'

/-- A space or a tab. -/
def isBlank (c : Char) : Bool :=
  c = ' ' || c = '\t'

/-- A line break or the end. -/
def isBreakOrEnd (c : Char) : Bool :=
  isBreak c || isEnd c

/-- A blank, a line break or the end. -/
def isGap (c : Char) : Bool :=
  isBlank c || isBreakOrEnd c

/-- A letter, a digit, a hyphen or an underscore. -/
def isWord (c : Char) : Bool :=
  c.isAlphanum || c = '-' || c = '_'

/-- The characters that a text may hold. -/
def isReadable (c : Char) : Bool :=
  let n := c.toNat
  n == 0x09 || n == 0x0A || n == 0x0D || (0x20 ≤ n && n ≤ 0x7E) || n == 0x85 ||
  (0xA0 ≤ n && n ≤ 0xFFFD) || 0x10000 ≤ n

/-- The mark that may begin a line between tokens. -/
def byteOrderMark : Char :=
  '\ufeff'

/-- Places the characters of a text from a given place on. -/
def place (index line column : Nat) : List Char → List Glyph
  | [] => [⟨'\x00', index, line, column⟩]
  | '\r' :: '\n' :: rest => ⟨'\n', index, line, column⟩ :: place (index + 2) (line + 1) 0 rest
  | c :: rest =>
    let after := index + c.utf8Size
    if c = '\r' ∨ c = '\n' ∨ c = '\u0085' then
      ⟨'\n', index, line, column⟩ :: place after (line + 1) 0 rest
    else if isBreak c then ⟨c, index, line, column⟩ :: place after (line + 1) 0 rest
    else ⟨c, index, line, column⟩ :: place after line (column + 1) rest

/-- The placed characters of a text, if it may hold all of them. -/
def glyphs? (s : String) : Option (List Glyph) :=
  let chars := s.toList
  if chars.all isReadable then some (place 0 0 0 chars) else none

/-- The character at a distance; the end, if there is none. -/
def charAt (gs : List Glyph) (k : Nat) : Char :=
  match gs[k]? with
  | some g => g.char
  | none => '\x00'

/-- Whether the text goes on with three times the same character and then a gap. -/
def isTriple (c : Char) (gs : List Glyph) : Bool :=
  charAt gs 0 = c && charAt gs 1 = c && charAt gs 2 = c && isGap (charAt gs 3)

/-- Whether a line begins here with the mark of the start or the end of a document. -/
def isDocumentMark (gs : List Glyph) : Bool :=
  match gs with
  | g :: _ => g.column = 0 && (isTriple '-' gs || isTriple '.' gs)
  | [] => false

end Federation.Yaml
