/-!
# Paths

A path is a text that names a file by the folders on the way to it, with a slash after each. Empty
names and names that are a single dot stay where they are, and a name of two dots leads back.
-/

namespace Federation.Path

/-- The names between the slashes of a path. -/
def parts (path : String) : List String :=
  (path.toList.splitOn '/').map String.ofList

/-- Whether a name stays in its folder. -/
def staysHere (name : String) : Bool :=
  name = "" || name = "."

/-- The names on the way of a path. -/
def components (path : String) : List String :=
  (parts path).filter fun name => !staysHere name

/-- Whether a path begins at the root, and not in the current folder. -/
def isAbsolute (path : String) : Bool :=
  path.startsWith "/"

/-- Whether a path ends with a slash, so that it can only name a folder. -/
def endsWithSlash (path : String) : Bool :=
  path.endsWith "/"

/-- The parts before the last one that is a name, in whatever way the path ends. -/
def above (path : String) : List String :=
  ((parts path).reverse.dropWhile (· = "")).tail.reverse

/-- The greatest number of octets of a name. -/
def maxNameSize : Nat :=
  255

/-- The greatest number of octets of a path. -/
def maxSize : Nat :=
  4095

/-- The name of the file that a path leads to. -/
def fileName? (path : String) : Option String :=
  match (components path).getLast? with
  | some ".." => none
  | name => name

/-- What follows the last dot of the file name, unless that dot begins the name. -/
def extension? (path : String) : Option String := do
  let name := (← fileName? path).toList.reverse
  match name.dropWhile (· ≠ '.') with
  | _ :: _ :: _ => some (String.ofList (name.takeWhile (· ≠ '.')).reverse)
  | _ => none

end Federation.Path
