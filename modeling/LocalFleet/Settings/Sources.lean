import LocalFleet.Files.Path
import LocalFleet.Files.Tree
import LocalFleet.Json.Parser
import LocalFleet.Settings.Record
import LocalFleet.Toml.Document

/-! Where settings come from: the defaults, a file, and variables of the environment, each laid over
what came before. -/

namespace LocalFleet.Settings

abbrev Environment := List (String × String)

namespace Environment

def get? (env : Environment) (name : String) : Option String := env.lookup name

/-- What the names of variables that are settings begin with, in lower case. -/
def head : String := "runner__"

/-- Two underscores stand between a section and its settings. -/
def pointed : List Char → List Char
  | '_' :: '_' :: rest => '.' :: pointed rest
  | c :: rest => c :: pointed rest
  | [] => []

/-- The value that a text of the environment means: a truth value, a whole number, a number, or the
text itself. -/
def item (s : String) : Item :=
  if lower s = "true" then .bool true
  else if lower s = "false" then .bool false
  else match Decimal.signedWord? 64 s.toList with
    | some v => .int v
    | none => match Binary64.ofText? s.toList with
      | some v => .real v
      | none => .text s

/-- The settings among the variables. An empty variable counts as unset. -/
def members (env : Environment) : Members :=
  env.filterMap fun (name, value) => do
    let rest ← Text.dropHead? head.toList (lower name).toList
    if value = "" then none
    return (String.ofList (pointed rest), item value)

end Environment

open Files

def ending : String := ".toml"

def isFile (t : Tree) (p : Place) : Bool :=
  match t.locate p with
  | .ok (some (.file ..)) => true
  | _ => false

/-- The settings file that a path means: the file itself, whose name must have the ending, or the file
with the ending added to its name. If there is none, why. -/
def fileOf (cwd : Place) (path : String) (t : Tree) : Except String Place :=
  let p := place cwd path
  let name := p.getLastD ""
  if isFile t p ∧ !namesDirectory path then
    if name.endsWith ending ∧ name ≠ ending then .ok p
    else .error ("configuration file \"" ++ Path.join (Path.ofPieces cwd) path
      ++ "\" is not of a registered file format")
  else
    let p := p.dropLast ++ [name ++ ending]
    if isFile t p then .ok p else .error ("configuration file \"" ++ path ++ "\" not found")

def fileMembers (cwd : Place) (path : String) (t : Tree) : Except String Members := do
  let p ← fileOf cwd path t
  let unreadable := "the settings file " ++ path ++ " cannot be read"
  let some content := (t.read p).toOption | throw unreadable
  let some members := (Json.ofUtf8? content).bind Toml.parse | throw unreadable
  return members

/-- Settings with sources laid over them, one after another. The settings that are there must fit in
sixty-four bits with a sign. -/
def overlaid (s : Settings) (sources : List Members) : Option Settings :=
  if s.toItem.fitsSigned then ofItem? (sources.foldl Item.overlay s.toItem) else none

def withSources (s : Settings) (env : Environment) (path : Option String) (cwd : Place) (t : Tree) :
    Result Settings :=
  Except.mapError Error.settings do
    let files ← match path with
      | none => pure []
      | some path => pure [← fileMembers cwd path t]
    match overlaid s (files ++ [env.members]) with
    | some s => return s
    | none => throw "a setting has a value that does not suit it"

/-- The settings of a process: the defaults, the file that `CONFIG_PATH` names, the environment. -/
def load (env : Environment) (cwd : Place) (t : Tree) : Result Settings :=
  withSources {} env (env.get? "CONFIG_PATH") cwd t

def override (s : Settings) (path : String) (env : Environment) (cwd : Place) (t : Tree) :
    Result Settings :=
  withSources s env (some path) cwd t

end LocalFleet.Settings
