/-!
# Commands

A command line is the name of a command and its words. The file of the network comes first; a path
also takes the two providers, and the flag `--json` once at any place. After `--` no word is a flag,
and a single dash never is one.
-/

namespace Federation

/-- What is asked on the command line. -/
inductive Command where
  | validate (file : String)
  | providers (file : String)
  | path (file source target : String) (json : Bool)
deriving DecidableEq, Inhabited

namespace Command

/-- The words of a command, and whether the flag is among them. -/
structure Words where
  values : List String
  json : Bool
deriving DecidableEq

/-- Whether a word is written like a flag. -/
def isFlag (word : String) : Bool :=
  word.startsWith "-" && word ≠ "-"

/-- Sets the flag apart from the other words. Unknown and repeated flags are refused. -/
def words? : List String → Option Words
  | [] => some ⟨[], false⟩
  | word :: rest =>
    if word = "--" then some ⟨rest, false⟩
    else do
      let ws ← words? rest
      if word = "--json" then
        if ws.json then none else some { ws with json := true }
      else if isFlag word then none
      else some { ws with values := word :: ws.values }

/-- The command that words after its name make. A file needs a name. -/
def ofWords? (name : String) (ws : Words) : Option Command :=
  match name, ws with
  | "validate", ⟨[file], false⟩ => if file = "" then none else some (validate file)
  | "providers", ⟨[file], false⟩ => if file = "" then none else some (providers file)
  | "path", ⟨[file, source, target], json⟩ =>
    if file = "" then none else some (path file source target json)
  | _, _ => none

/-- The command of a command line. -/
def ofArgs? : List String → Option Command
  | [] => none
  | name :: args => do ofWords? name (← words? args)

/-- The file of the network that a command asks about. -/
def file : Command → String
  | validate file => file
  | providers file => file
  | path file _ _ _ => file

end Command

end Federation
