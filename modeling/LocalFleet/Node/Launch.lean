import LocalFleet.Node.Fleet
import LocalFleet.Node.Identity
import LocalFleet.Node.Process
import LocalFleet.Node.Rpc
import LocalFleet.Settings.Sections

/-! Starting the nodes of a fleet under supervision. Every node has a directory of its own below that
of the logs; the first one started is where the others find the fleet. -/

namespace LocalFleet

structure Supervised where
  command : NodeCommand
  lifetime : Lifetime
  deriving DecidableEq, Repr

namespace Supervised

def spec (s : Supervised) : NodeSpec := ⟨s.command.name, s.command.nodeId, s.command.uri⟩

end Supervised

namespace Launch

open Files

def nodeName (index : Nat) : String := s!"node{index + 1}"

def nodeDir (spec : LaunchSpec) (index : Nat) : String := Path.join spec.logsDir (nodeName index)

/-- The ports of a node: for requests, and for the other nodes. Only the low sixteen bits of the index
count. -/
def ports? (base : UInt16) (index : Nat) : Option (UInt16 × UInt16) := do
  let offset ← ClusterSettings.port? (index % 0x10000 * 2)
  let http ← ClusterSettings.port? (base.toNat + offset.toNat)
  let staking ← ClusterSettings.port? (http.toNat + 1)
  return (http, staking)

def meetingPoint (first : NodeCommand) : Bootstrap :=
  ⟨s!"127.0.0.1:{first.stakingPort}", first.nodeId⟩

/-- The command of a node under supervision; none if a port is out of range. -/
def command? (spec : LaunchSpec) (index : Nat) (cert : StakingCert) (bootstrap : Option Bootstrap) :
    Option NodeCommand := do
  let (http, staking) ← ports? spec.portBase index
  let dir := nodeDir spec index
  let command := NodeCommand.new (nodeName index) spec.binary spec.networkId spec.logLevel http staking
    spec.nodeCount.toNat (Path.join dir "db") cert bootstrap
  return command.arg "config-file" (Path.join dir "config.json")

def prepare (spec : LaunchSpec) (cwd : Place) (index : Nat) (identity : Identity) (t : Tree) :
    Tree × Result StakingCert :=
  let dir := nodeDir spec index
  let staking := Path.join dir "staking"
  let (t, made) := createDirAll t (place cwd staking)
  match made with
  | .error fault => (t, .error (.cluster (.prepare staking (.system fault))))
  | .ok () =>
    match identity.write cwd (Path.join staking "staker.key") (Path.join staking "staker.crt") t with
    | (t, .error e) => (t, .error e)
    | (t, .ok cert) =>
      let path := Path.join dir "config.json"
      let config := nodeConfig (Path.join dir "logs") spec.logLevel spec.subnets
      let (t, written) := writePlain t (place cwd path) (Text.bytes config.toCompact)
      (t, (written.map fun _ => cert).mapError fun fault => .cluster (.prepare path (.system fault)))

/-- Prepares and starts nodes one after another, from a number on. The first that cannot be started
ends it. -/
def startFrom (spec : LaunchSpec) (cwd : Place) (program : Bytes → Lifetime) (index : Nat)
    (bootstrap : Option Bootstrap) : List Identity → Tree → Tree × Checked (List Supervised)
  | [], t => (t, .ok [])
  | identity :: identities, t =>
    match prepare spec cwd index identity t with
    | (t, .error e) => (t, .error (.failed e))
    | (t, .ok cert) =>
      match command? spec index cert bootstrap with
      | none => (t, .error .overflow)
      | some command =>
        match Program.find cwd command.binary t with
        | .error fault => (t, .error (.failed (.cluster (.launch command.name (.system fault)))))
        | .ok content =>
          let bootstrap := bootstrap.getD (meetingPoint command)
          match startFrom spec cwd program (index + 1) (some bootstrap) identities t with
          | (t, .error h) => (t, .error h)
          | (t, .ok rest) => (t, .ok (⟨command, program content⟩ :: rest))

def start (spec : LaunchSpec) (cwd : Place) (program : Bytes → Lifetime) (identity : Nat → Identity)
    (t : Tree) : Tree × Checked (List Supervised) :=
  startFrom spec cwd program 0 none ((List.range spec.nodeCount.toNat).map identity) t

end Launch

namespace Supervised

/-- Milliseconds between two looks at all nodes. -/
def lookInterval : Nat := 1000

def lookAfter (instant : Nat) : Nat := (instant / lookInterval + 1) * lookInterval

def seenEnding (s : Supervised) : Option Nat := s.lifetime.span.map lookAfter

def earlier : Option Nat → Option Nat → Option Nat
  | none, b => b
  | a, none => a
  | some a, some b => some (min a b)

/-- Waiting for nodes none of which can be reached: how long it takes, and the first node that has
ended then. While all of them run it takes for ever. -/
def awaitEnding (nodes : List Supervised) : Option (Nat × Error) := do
  let instant ← nodes.foldl (fun t s => earlier t s.seenEnding) none
  let node ← nodes.find? fun s => s.seenEnding.any (· ≤ instant)
  return (instant, .cluster (.nodeExited node.command.name node.lifetime.status.text))

end Supervised

end LocalFleet
