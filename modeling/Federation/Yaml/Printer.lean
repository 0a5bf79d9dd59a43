import Federation.Yaml.Resemblance

/-!
# Writing YAML

Outlines of texts, mappings and sequences are written in block style with two columns for each
level; a sequence stands at the column of the mapping around it. A text is written plain if it can
be, else between single quotes, and between double quotes if it holds characters that only escapes
can show. Texts of several lines are blocks. Lines are never wrapped.
-/

namespace Federation.Yaml

/-- A tree of texts. -/
inductive Outline where
  | text (value : String)
  | list (items : List Outline)
  | record (entries : List (String × Outline))
deriving Inhabited

/-- A line break in the sense of YAML. -/
def breaksLine (c : Char) : Bool :=
  c = '\r' || c = '\n' || c = '\u0085' || c = '\u2028' || c = '\u2029'

/-- A character that separates marks from texts. -/
def separates (c : Char) : Bool :=
  c = ' ' || c = '\t' || c = '\x00' || breaksLine c

/-- The characters that can stand in a text without an escape. -/
def isPrintable (c : Char) : Bool :=
  let n := c.toNat
  n == 0x0A || (0x20 ≤ n && n ≤ 0x7E) || (0xA0 ≤ n && n ≤ 0xFFFD && n ≠ 0xFEFF) || 0x10000 ≤ n

/-- Whether two characters that satisfy `p` and `q` follow each other. -/
def hasPair (p q : Char → Bool) : List Char → Bool
  | a :: b :: rest => (p a && q b) || hasPair p q (b :: rest)
  | _ => false

def isSpace (c : Char) : Bool :=
  c = ' '

/-- Whether a text goes on with a separator or ends. -/
def separated : List Char → Bool
  | [] => true
  | c :: _ => separates c

/-- Whether a text has a mark after its first character. -/
def hasInnerMark : Char → List Char → Bool
  | _, [] => false
  | before, c :: rest =>
    (c = ':' && separated rest) || (c = '#' && separates before) || hasInnerMark c rest

/-- The characters that mark something else where they begin a text. -/
def isMark (c : Char) : Bool :=
  c ∈ ['#', ',', '[', ']', '{', '}', '&', '*', '!', '|', '>', '\x27', '\x22', '%', '@', '\x60']

/-- Whether a text begins with a mark. -/
def startsWithMark : List Char → Bool
  | [] => false
  | c :: rest => isMark c || ((c = '?' || c = ':' || c = '-') && separated rest)

/-- Whether a text begins like the mark of the start or the end of a document. -/
def startsLikeDocument (s : List Char) : Bool :=
  ['-', '-', '-'].isPrefixOf s || ['.', '.', '.'].isPrefixOf s

/-- Whether something in a text would be read as a mark. -/
def hasMark (s : List Char) : Bool :=
  startsLikeDocument s || startsWithMark s || hasInnerMark (s.headD ' ') s.tail

/-- Whether quotes or lines cannot show a text. -/
def needsEscape (s : List Char) : Bool :=
  !s.all isPrintable || hasPair isSpace breaksLine s

/-- Whether a text can be written plain. -/
def plainAllowed (s : List Char) : Bool :=
  !needsEscape s && !s.any breaksLine && s.head? ≠ some ' ' && s.getLast? ≠ some ' ' && !hasMark s

/-- Whether a text can be written between single quotes. -/
def singleAllowed (s : List Char) : Bool :=
  !needsEscape s && !hasPair breaksLine isSpace s

/-- Whether a text can be written as a block. -/
def blockAllowed (s : List Char) : Bool :=
  !needsEscape s && s.getLast? ≠ some ' '

/-- The ways to write a text. -/
inductive Style where
  | plain
  | single
  | double
  | block
deriving DecidableEq, Inhabited

/-- The way a text is written. -/
def styleOf (s : String) : Style :=
  let cs := s.toList
  if cs.contains '\n' then
    if blockAllowed cs then .block else .double
  else if !resemblesOther s && plainAllowed cs then .plain
  else if singleAllowed cs then .single
  else .double

/-- Spaces up to a column. -/
def indentation (column : Nat) : List Char :=
  List.replicate column ' '

/-- A text with the characters of its lines, where lines after the first begin at a column. -/
def linesAt (column : Nat) (render : Char → List Char) : Bool → List Char → List Char
  | _, [] => []
  | newLine, c :: rest =>
    if breaksLine c then c :: linesAt column render true rest
    else
      (if newLine then indentation column else []) ++ render c ++ linesAt column render false rest

/-- A character between single quotes. -/
def singleChar (c : Char) : List Char :=
  if c = '\x27' then ['\x27', '\x27'] else [c]

/-- Whether a text ends with a line break. -/
def endsLine (s : List Char) : Bool :=
  match s.getLast? with
  | some c => breaksLine c
  | none => false

/-- A text between single quotes. -/
def singleQuoted (column : Nat) (s : List Char) : List Char :=
  '\x27' :: linesAt column singleChar false s ++
    (if endsLine s then indentation column else []) ++ ['\x27']

/-- A number in uppercase hexadecimal digits, with zeros in front up to a width. -/
def hexText (width n : Nat) : List Char :=
  let ds := (Nat.toDigits 16 n).map Char.toUpper
  List.replicate (width - ds.length) '0' ++ ds

/-- The letter that stands for a character after a backslash. -/
def escapeLetter? (c : Char) : Option Char :=
  match c with
  | '\x00' => some '0'
  | '\x07' => some 'a'
  | '\x08' => some 'b'
  | '\t' => some 't'
  | '\n' => some 'n'
  | '\x0b' => some 'v'
  | '\x0c' => some 'f'
  | '\r' => some 'r'
  | '\x1b' => some 'e'
  | '\x22' => some '\x22'
  | '\\' => some '\\'
  | '\u0085' => some 'N'
  | '\u2028' => some 'L'
  | '\u2029' => some 'P'
  | _ => none

/-- A character between double quotes. -/
def doubleChar (c : Char) : List Char :=
  match escapeLetter? c with
  | some letter => ['\\', letter]
  | none =>
    if isPrintable c then [c]
    else if c.toNat ≤ 0xFF then '\\' :: 'x' :: hexText 2 c.toNat
    else if c.toNat ≤ 0xFFFF then '\\' :: 'u' :: hexText 4 c.toNat
    else '\\' :: 'U' :: hexText 8 c.toNat

/-- A text between double quotes. -/
def doubleQuoted (s : List Char) : List Char :=
  '\x22' :: s.flatMap doubleChar ++ ['\x22']

/-- What a block says about its first line: its indentation, if that cannot be seen. -/
def indentHint (s : List Char) : List Char :=
  match s with
  | c :: _ => if c = ' ' || breaksLine c then ['2'] else []
  | [] => []

/-- What a block says about the line breaks at its end: whether there is none, or more than one. -/
def chompHint (s : List Char) : List Char :=
  match s.reverse with
  | [] => ['-']
  | [c] => if breaksLine c then ['+'] else ['-']
  | c :: c' :: _ => if breaksLine c then (if breaksLine c' then ['+'] else []) else ['-']

/-- A text as a block at a column, up to the end of its last line. -/
def blockText (column : Nat) (s : List Char) : List Char :=
  '|' :: indentHint s ++ chompHint s ++ '\n' ::
    linesAt column (fun c => [c]) true s ++ (if endsLine s then [] else ['\n'])

/-- A text and the end of its line; further lines begin at a column. -/
def textLine (column : Nat) (s : String) : List Char :=
  let cs := s.toList
  match styleOf s with
  | .plain => cs ++ ['\n']
  | .single => singleQuoted column cs ++ ['\n']
  | .double => doubleQuoted cs ++ ['\n']
  | .block => blockText column cs

/-- Whether a text can be a key that is not marked: it takes one line and is short. -/
def isSimpleKey (s : String) : Bool :=
  !s.toList.any breaksLine && s.utf8ByteSize ≤ 128

/-- A key and the mark of its value. A key that is not simple is marked and has a line of its
own. -/
def keyText (column : Nat) (s : String) : List Char :=
  if isSimpleKey s then (textLine (column + 2) s).dropLast ++ [':']
  else '?' :: ' ' :: textLine (column + 2) s ++ indentation column ++ [':']

mutual

/-- An outline after the mark of a value, in a mapping at a column. Collections begin on a new
line, unless the key was not simple. -/
def valueText (column : Nat) (simple : Bool) : Outline → List Char
  | .text s => ' ' :: textLine (column + 2) s
  | .list [] => " []\n".toList
  | .record [] => " \x7b\x7d\n".toList
  | .list items =>
    if simple then '\n' :: indentation column ++ itemsText column items
    else ' ' :: itemsText (column + 2) items
  | .record entries =>
    if simple then '\n' :: indentation (column + 2) ++ entriesText (column + 2) entries
    else ' ' :: entriesText (column + 2) entries

/-- The entries of a mapping at a column, where the first begins at the current place. -/
def entriesText (column : Nat) : List (String × Outline) → List Char
  | [] => []
  | [(k, o)] => keyText column k ++ valueText column (isSimpleKey k) o
  | (k, o) :: rest =>
    keyText column k ++ valueText column (isSimpleKey k) o ++
      indentation column ++ entriesText column rest

/-- The items of a sequence at a column, where the first begins at the current place. -/
def itemsText (column : Nat) : List Outline → List Char
  | [] => []
  | [o] => '-' :: ' ' :: itemText (column + 2) o
  | o :: rest =>
    '-' :: ' ' :: itemText (column + 2) o ++ indentation column ++ itemsText column rest

/-- An outline at the current place, which is at a column. -/
def itemText (column : Nat) : Outline → List Char
  | .text s => textLine column s
  | .list [] => "[]\n".toList
  | .record [] => "\x7b\x7d\n".toList
  | .list items => itemsText column items
  | .record entries => entriesText column entries

end

/-- The text of an outline. -/
def Outline.write (o : Outline) : String :=
  String.ofList (itemText 0 o)

end Federation.Yaml
