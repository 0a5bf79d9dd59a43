import Federation.FileSystem.Path

/-!
# Document formats

A document is written in JSON or in YAML. The name of its file decides: JSON has the extension
`json`, in letters of either case, and everything else is YAML.
-/

namespace Federation

/-- The formats of documents. -/
inductive DocumentFormat where
  | yaml
  | json
deriving DecidableEq, Inhabited

namespace DocumentFormat

/-- The name of a format. -/
def name : DocumentFormat → String
  | yaml => "yaml"
  | json => "json"

/-- The format of the file at a path. -/
def ofPath (path : String) : DocumentFormat :=
  match Path.extension? path with
  | some extension => if extension.map Char.toLower = "json" then json else yaml
  | none => yaml

end DocumentFormat

end Federation
