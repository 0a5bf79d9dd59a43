import Federation.Yaml.Scalar

/-!
# Tags

A tag says what kind of value a node is. It is written with a set of ASCII characters and with
octets in hexadecimal digits after percent signs. The octets of a tag are UTF-8 or the tag has no
name, and a zero octet ends it.
-/

namespace Federation.Yaml

/-- The kind of value that a node claims to be. -/
inductive Tag where
  | named (name : String)
  /-- A tag whose octets are not UTF-8. -/
  | unreadable
deriving DecidableEq, Inhabited

namespace Tag

/-- The tag of octets up to the first that is zero. -/
def ofOctets (octets : List UInt8) : Tag :=
  match String.fromUTF8? ⟨(octets.takeWhile (· ≠ 0)).toArray⟩ with
  | some name => named name
  | none => unreadable

/-- A tag that goes on with another. -/
def append : Tag → Tag → Tag
  | named a, named b => named (a ++ b)
  | _, _ => unreadable

instance : Append Tag :=
  ⟨append⟩

/-- The tag of values that are not of any other kind. -/
def nonspecific : Tag :=
  named "!"

/-- The tag of the absence of a value. -/
def null : Tag :=
  named "tag:yaml.org,2002:null"

/-- The word of a tag that begins with an exclamation mark. -/
def word? : Tag → Option String
  | named name =>
    match name.toList with
    | '!' :: word => some (String.ofList word)
    | _ => none
  | unreadable => none

/-- The characters that a tag may hold as they are. -/
def isTagChar (verbatim : Bool) (c : Char) : Bool :=
  isWord c || c ∈ [';', '/', '?', ':', '@', '&', '=', '+', '$', '.', '!', '~', '*', '\x27', '(', ')']
    || (verbatim && c ∈ [',', '[', ']'])

/-- The octet of an ASCII character. -/
def asciiOctet (c : Char) : UInt8 :=
  c.toNat.toUInt8

/-- The octet that a percent sign and two hexadecimal digits stand for. -/
def octet? : List Glyph → Option (UInt8 × List Glyph)
  | p :: a :: b :: rest => do
    if p.char ≠ '%' then none
    some ((16 * (← hexValue? a.char) + (← hexValue? b.char)).toUInt8, rest)
  | _ => none

/-- A number of octets in hexadecimal digits, each of them one that goes on with a character. -/
def trailingOctets? : Nat → List Glyph → Option (List UInt8 × List Glyph)
  | 0, gs => some ([], gs)
  | k + 1, gs => do
    let (o, gs) ← octet? gs
    if o.toNat / 64 ≠ 2 then none
    let (os, gs) ← trailingOctets? k gs
    some (o :: os, gs)

/-- The number of octets that follow one that begins a character. -/
def trailing? (o : UInt8) : Option Nat :=
  let n := o.toNat
  if n < 0x80 then some 0
  else if n / 32 = 6 then some 1
  else if n / 16 = 14 then some 2
  else if n / 8 = 30 then some 3
  else none

/-- The octets of a character in hexadecimal digits. Their number is checked, not their value. -/
def escapedOctets? (gs : List Glyph) : Option (List UInt8 × List Glyph) := do
  let (o, gs) ← octet? gs
  let (os, gs) ← trailingOctets? (← trailing? o) gs
  some (o :: os, gs)

/-- The octets of the characters of a tag and the text that follows it. -/
def octets? (verbatim : Bool) : Nat → List Glyph → Option (List UInt8 × List Glyph)
  | 0, gs => some ([], gs)
  | fuel + 1, gs =>
    match gs with
    | [] => some ([], [])
    | g :: rest =>
      if g.char = '%' then do
        let (os, rest) ← escapedOctets? gs
        let (more, rest) ← octets? verbatim fuel rest
        some (os ++ more, rest)
      else if isTagChar verbatim g.char then do
        let (more, rest) ← octets? verbatim fuel rest
        some (asciiOctet g.char :: more, rest)
      else some ([], gs)

end Tag

end Federation.Yaml
