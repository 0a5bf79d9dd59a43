import Federation.FileSystem.Path
import Federation.Table

/-!
# Files

A folder holds files and other folders by name. A file holds a text, or bytes that are none. All
folders are below the root, and one of them is the current folder, where paths begin that do not
begin at the root. Reading and writing fail where a path leads to nothing, to the wrong kind of
thing, or through a file. No name is a link to another place, no one is refused access, and there is
room for every file.
-/

namespace Federation

/-- What a name in a folder stands for. -/
inductive FolderEntry where
  | text (content : String)
  /-- A file whose bytes are not UTF-8. -/
  | bytes
  | folder
deriving DecidableEq, Inhabited

/-- The file with the given bytes. -/
def FolderEntry.ofBytes (content : ByteArray) : FolderEntry :=
  match String.fromUTF8? content with
  | some s => .text s
  | none => .bytes

/-- Why a file was not read or written. -/
inductive FileError where
  | notFound
  | throughFile
  | isFolder
  | nameTooLong
  /-- A path may not hold a null character. -/
  | unusableName
  | notText
deriving DecidableEq, Inhabited

namespace FileError

/-- The number and the name of an error of the operating system, with its wording. The other
errors are found without asking it. -/
def systemError? : FileError → Option (Nat × String × String)
  | notFound => some (2, "NotFound", "No such file or directory")
  | throughFile => some (20, "NotADirectory", "Not a directory")
  | isFolder => some (21, "IsADirectory", "Is a directory")
  | nameTooLong => some (36, "InvalidFilename", "File name too long")
  | unusableName => none
  | notText => none

/-- The name of an error that is not one of the operating system, with its wording. -/
def ownError : FileError → String × String
  | unusableName => ("InvalidInput", "file name contained an unexpected NUL byte")
  | _ => ("InvalidData", "stream did not contain valid UTF-8")

/-- The wording of an error. -/
def message (e : FileError) : String :=
  match e.systemError? with
  | some (code, _, wording) => wording ++ " (os error " ++ toString code ++ ")"
  | none => e.ownError.2

/-- The error as it is shown in diagnostics. -/
def describe (e : FileError) : String :=
  match e.systemError? with
  | some (code, kind, wording) =>
    "Os \x7b code: " ++ toString code ++ ", kind: " ++ kind ++ ", message: \x22" ++ wording ++
      "\x22 \x7d"
  | none =>
    "Error \x7b kind: " ++ e.ownError.1 ++ ", message: \x22" ++ e.ownError.2 ++ "\x22 \x7d"

end FileError

/-- What reading the file at each path gives. -/
abbrev Files := String → Except FileError String

/-- Files and folders below the root. -/
structure FileSystem where
  /-- What stands under the names on the way from the root, joined by slashes. -/
  entries : Table String FolderEntry := {}
  /-- The names on the way from the root to the current folder, the last one first. -/
  current : List String := []
deriving DecidableEq, Inhabited

namespace FileSystem

/-- The key of a place, which is given by the names on the way to it, the last one first. -/
def key (names : List String) : String :=
  "/".intercalate names.reverse

/-- What stands in a place. The root is a folder. -/
def lookup? (f : FileSystem) : List String → Option FolderEntry
  | [] => some .folder
  | names => f.entries.get? (key names)

/-- The place that a part of a path leads to from a folder. The root leads back to itself. -/
def enter (place : List String) (part : String) : Except FileError (List String) :=
  if Path.staysHere part then .ok place
  else if part = ".." then .ok place.tail
  else if Path.maxNameSize < part.utf8ByteSize then .error .nameTooLong
  else .ok (part :: place)

/-- One step of a way, which goes on only from a folder. -/
def step (f : FileSystem) (place : List String) (part : String) :
    Except FileError (List String) :=
  match f.lookup? place with
  | some .folder => enter place part
  | some _ => .error .throughFile
  | none => .error .notFound

/-- The place that the parts of a path lead to. -/
def walk (f : FileSystem) (place : List String) (parts : List String) :
    Except FileError (List String) :=
  parts.foldlM f.step place

/-- Where a path begins: at the root or in the current folder. -/
def origin? (f : FileSystem) (path : String) : Except FileError (List String) :=
  if path.contains '\x00' then .error .unusableName
  else if path = "" then .error .notFound
  else if Path.maxSize < path.utf8ByteSize then .error .nameTooLong
  else .ok (if Path.isAbsolute path then [] else f.current)

/-- Reads the file at a path. -/
def read (f : FileSystem) : Files := fun path => do
  let place ← f.walk (← f.origin? path) (Path.parts path)
  match f.lookup? place with
  | some (.text content) => .ok content
  | some .bytes => .error .notText
  | some .folder => .error .isFolder
  | none => .error .notFound

/-- The place of the file that is written at a path. What ends with a slash is no file. -/
def target (f : FileSystem) (path : String) : Except FileError (List String) := do
  let start ← f.origin? path
  if Path.endsWithSlash path then
    let _ ← f.walk start (Path.above path ++ [""])
    .error .isFolder
  else f.walk start (Path.parts path)

/-- The file system with a text in a place. -/
def put (f : FileSystem) (names : List String) (content : String) : FileSystem :=
  { f with entries := f.entries.insert (key names) (.text content) }

/-- Writes a file at a path, in place of an earlier one. -/
def write (path content : String) : EStateM FileError FileSystem Unit := do
  let f ← get
  let names ← ofExcept (f.target path)
  match f.lookup? names with
  | some .folder => throw .isFolder
  | _ => set (f.put names content)

/-- Adds an entry and the folders on the way to it. -/
def add (f : FileSystem) : List String → FolderEntry → FileSystem
  | [], _ => f
  | name :: names, entry =>
    let f := f.add names .folder
    { f with entries := f.entries.insert (key (name :: names)) entry }

/-- The file system with a current folder and with entries by path, and with the folders on the way
to them. No path leads back. -/
def ofList (current : String) (l : List (String × FolderEntry)) : FileSystem :=
  let here := (Path.components current).reverse
  let place (path : String) : List String :=
    (Path.components path).reverse ++ if Path.isAbsolute path then [] else here
  l.foldl (fun f e => f.add (place e.1) e.2) (add { current := here } here .folder)

end FileSystem

end Federation
