import Federation.Document.Format
import Federation.Document.Graph
import Federation.Document.Json
import Federation.Document.Validation
import Federation.Document.Yaml
import Federation.FileSystem.Basic

/-!
# Documents in files

A document is read from a file in the format that the name of the file asks for, and has to be
sound. It is written the same way, once it is found to be sound.
-/

namespace Federation

/-- Why a document was not read, written or made a graph. The wording of faults in the syntax of a
file is open. -/
inductive DocumentError where
  | unsound (violation : ValidationError)
  | noGraph (error : GraphError)
  | file (error : FileError)
  | yaml
  | json (error : Json.ShapeError)
deriving DecidableEq, Inhabited

/-- The wording of an error, where it is fixed. -/
def DocumentError.message? : DocumentError → Option String
  | unsound violation => some ("Validation error: " ++ violation.message)
  | noGraph error => some ("Graph error: " ++ error.message)
  | file error => some ("I/O error: " ++ error.message)
  | yaml => none
  | json _ => none

/-- The error as it is shown in diagnostics, where its wording is fixed. -/
def DocumentError.describe? : DocumentError → Option String
  | unsound violation => some ("Validation(" ++ violation.describe ++ ")")
  | noGraph error => some ("Graph(" ++ error.describe ++ ")")
  | file error => some ("Io(" ++ error.describe ++ ")")
  | yaml => none
  | json _ => none

namespace NetworkDocument

/-- Reads the text of a document. -/
def ofText (format : DocumentFormat) (text : String) : Except DocumentError NetworkDocument :=
  match format with
  | .yaml => (ofYamlText? text).elim (.error .yaml) .ok
  | .json => (ofJsonText text).mapError .json

/-- The text of a document. -/
def toText (doc : NetworkDocument) : DocumentFormat → String
  | .yaml => doc.toYamlText
  | .json => doc.toJsonText

/-- Checks that a document is sound. -/
def check (doc : NetworkDocument) : Except DocumentError Unit :=
  doc.validate.mapError .unsound

/-- Reads the text of a sound document. -/
def parse (format : DocumentFormat) (text : String) : Except DocumentError NetworkDocument := do
  let doc ← ofText format text
  doc.check
  return doc

/-- The graph that a document describes. -/
def graph (doc : NetworkDocument) : Except DocumentError TrustGraph :=
  doc.toGraph.mapError .noGraph

/-- Reads the document in a file. -/
def load (files : Files) (path : String) : Except DocumentError NetworkDocument := do
  parse (.ofPath path) (← (files path).mapError .file)

/-- Reads the graph that the document in a file describes. -/
def loadGraph (files : Files) (path : String) : Except DocumentError TrustGraph := do
  (← load files path).graph

/-- Writes a sound document to a file. -/
def save (doc : NetworkDocument) (path : String) : EStateM DocumentError FileSystem Unit := do
  ofExcept doc.check
  (FileSystem.write path (doc.toText (.ofPath path))).adaptExcept .file

end NetworkDocument

end Federation
