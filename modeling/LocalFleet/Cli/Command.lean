import LocalFleet.Node.HandRun
import LocalFleet.Settings.Sections

/-! The command line: its commands, their options with defaults, and how arguments are read. -/

namespace LocalFleet.Cli

/-- The options of a run; an absent one leaves the settings as they are. -/
structure RunFlags where
  binary : Option String := none
  vmName : Option String := none
  vmId : Option String := none
  genesisPath : Option String := none
  outputPath : Option String := none
  nodes : Option UInt64 := none
  logDir : Option String := none
  /-- a settings file that is laid over all others -/
  config : Option String := none
  deriving DecidableEq, Repr

inductive Command where
  | run (flags : RunFlags)
  | createCerts (dir : String) (nodes : UInt64)
  | createScript (spec : HandRun.Spec)
  | transfer (hosts : List String) (amount : Amount)
  deriving DecidableEq, Repr

inductive Kind where
  | text
  /-- a path is not empty -/
  | path
  | number
  /-- texts with commas between them; the option may be repeated -/
  | texts
  deriving DecidableEq, Repr

def Kind.accepts : Kind → String → Bool
  | text, _ | texts, _ => true
  | path, value => value ≠ ""
  | number, value => (Decimal.word? 64 value.toList).isSome

abbrev Options := List (String × Kind)

def runOptions : Options :=
  [("avalanchego-path", .path), ("vm-name", .text), ("vm-id", .text), ("vm-genesis-path", .path),
   ("output-path", .path), ("nodes", .number), ("log-dir", .path), ("config", .text)]

def certsOptions : Options := [("dir-path", .path), ("nodes", .number)]

def scriptOptions : Options :=
  [("nodes", .number), ("avalanchego-path", .path), ("db-dir-path", .path), ("certs-dir-path", .path),
   ("cmd-output-path", .path)]

def transferOptions : Options := [("api-hosts", .texts), ("amount", .number)]

abbrev Given := List (String × String)

def isValue (argument : String) : Bool := argument = "-" || argument.toList.head? ≠ some '-'

/-- An option with its value in one argument: what stands before and after the first equals sign. -/
def assignment? : List Char → Option (List Char × List Char)
  | [] => none
  | '=' :: value => some ([], value)
  | c :: rest => (assignment? rest).map fun (name, value) => (c :: name, value)

/-- Adds a value unless it is not of the option's kind, or the option was given before and may not be
repeated. -/
def give (options : Options) (given : Given) (name value : String) : Option Given := do
  let kind ← options.lookup name
  if !kind.accepts value then none
  if kind ≠ .texts ∧ (given.lookup name).isSome then none
  return given ++ [(name, value)]

def readFrom (options : Options) (given : Given) : List String → Option Given
  | [] => some given
  | ["--"] => some given
  | argument :: rest =>
    match argument.toList with
    | '-' :: '-' :: name =>
      match assignment? name, rest with
      | some (name, value), rest => do
        readFrom options (← give options given (String.ofList name) (String.ofList value)) rest
      | none, value :: rest => do
        if !isValue value then none
        readFrom options (← give options given (String.ofList name) value) rest
      | none, [] => none
    | _ => none

namespace Given

variable (given : Given)

def get? (name : String) : Option String := given.lookup name

def number? (name : String) : Option UInt64 :=
  ((get? given name).bind fun value => Decimal.word? 64 value.toList).map UInt64.ofNat

def texts (name : String) : List String :=
  (given.filter (·.1 = name)).flatMap fun entry =>
    (Text.splitOn ',' entry.2.toList).map String.ofList

def run : RunFlags where
  binary := get? given "avalanchego-path"
  vmName := get? given "vm-name"
  vmId := get? given "vm-id"
  genesisPath := get? given "vm-genesis-path"
  outputPath := get? given "output-path"
  nodes := number? given "nodes"
  logDir := get? given "log-dir"
  config := get? given "config"

def createCerts : Command :=
  .createCerts ((get? given "dir-path").getD "/tmp/avax-tester/certs") ((number? given "nodes").getD 5)

def createScript : Command := .createScript
  { nodeCount := (number? given "nodes").getD 5
    binary := (get? given "avalanchego-path").getD "avalanchego"
    dbDir := (get? given "db-dir-path").getD "/tmp/avax-tester/db"
    certsDir := (get? given "certs-dir-path").getD "/tmp/avax-tester/certs"
    scriptPath := (get? given "cmd-output-path").getD "/tmp/avax-tester/run.sh" }

def transfer : Command :=
  .transfer
    (if (get? given "api-hosts").isSome then texts given "api-hosts" else ["http://127.0.0.1:9650"])
    ((number? given "amount").getD 1000000000)

end Given

def Command.parse? : List String → Option Command
  | "run" :: rest => do return .run (← readFrom runOptions [] rest).run
  | "certs" :: "create" :: rest => do return (← readFrom certsOptions [] rest).createCerts
  | "local" :: "create" :: rest => do return (← readFrom scriptOptions [] rest).createScript
  | "local" :: "transfer" :: rest => do return (← readFrom transferOptions [] rest).transfer
  | _ => none

namespace RunFlags

def apply (flags : RunFlags) (s : Settings) : Settings :=
  { s with
    cluster := { s.cluster with
      binary := flags.binary.getD s.cluster.binary
      nodeCount := flags.nodes.getD s.cluster.nodeCount
      logDir := flags.logDir.or s.cluster.logDir }
    subnet := { s.subnet with
      vmName := flags.vmName.getD s.subnet.vmName
      vmId := flags.vmId.getD s.subnet.vmId
      genesisPath := flags.genesisPath.or s.subnet.genesisPath }
    output := { s.output with path := flags.outputPath.or s.output.path } }

end RunFlags

end LocalFleet.Cli
