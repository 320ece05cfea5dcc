import LocalFleet.Node.Launch

/-! Fleets that are run by hand: a script that starts every node on a local network. -/

namespace LocalFleet.HandRun

open Files

structure Spec where
  nodeCount : UInt64
  binary : String
  dbDir : String
  certsDir : String
  scriptPath : String
  deriving DecidableEq, Repr

def portBase : UInt16 := 9650

/-- The commands of the nodes with these identities, numbered from `index` on; none if a port is out of
range. -/
def commandsFrom (spec : Spec) (index : Nat) (bootstrap : Option Bootstrap) :
    List StakingCert → Option (List NodeCommand)
  | [] => some []
  | cert :: certs => do
    let (http, staking) ← Launch.ports? portBase index
    let name := Launch.nodeName index
    let command := NodeCommand.new name spec.binary "local" "INFO" http staking spec.nodeCount.toNat
      (Path.join spec.dbDir name) cert bootstrap
    let bootstrap := bootstrap.getD (Launch.meetingPoint command)
    let rest ← commandsFrom spec (index + 1) (some bootstrap) certs
    return command :: rest

def commands? (spec : Spec) (certs : List StakingCert) : Option (List NodeCommand) :=
  commandsFrom spec 0 none certs

def scriptMode : Nat := 0o777

def reset (cwd : Place) (path : String) (t : Tree) : Tree × Result Unit :=
  let (t, done) := resetDir t (place cwd path)
  (t, done.mapError fun fault => .cluster (.prepare path (.system fault)))

def writeIdentities (cwd : Place) (dir : String) (identities : List Identity) (t : Tree) :
    Tree × Result (List StakingCert) :=
  match reset cwd dir t with
  | (t, .error e) => (t, .error e)
  | (t, .ok ()) => Identity.writeAll cwd dir identities t

def writeScript (spec : Spec) (cwd : Place) (script : String) (t : Tree) : Tree × Result Unit :=
  let (t, written) := writeAt t cwd spec.scriptPath (Text.bytes script) scriptMode
  (t, written.mapError fun fault => .output (.io spec.scriptPath (.system fault)))

/-- Empties the directories of the fleet, writes its identities and its script, and gives what is
printed. -/
def create (spec : Spec) (cwd : Place) (identity : Nat → Identity) (t : Tree) :
    Tree × Checked String :=
  match reset cwd spec.dbDir t with
  | (t, .error e) => (t, .error (.failed e))
  | (t, .ok ()) =>
    match writeIdentities cwd spec.certsDir ((List.range spec.nodeCount.toNat).map identity) t with
    | (t, .error e) => (t, .error (.failed e))
    | (t, .ok certs) =>
      match commands? spec certs with
      | none => (t, .error .overflow)
      | some commands =>
        let script := Script.render commands
        match writeScript spec cwd script t with
        | (t, .error e) => (t, .error (.failed e))
        | (t, .ok ()) => (t, .ok s!"cat {spec.scriptPath}\n{script}\n")

def certLine (cert : StakingCert) : String :=
  s!"--staking-tls-key-file={cert.keyPath} --staking-tls-cert-file={cert.certPath}  # {cert.nodeId}\n"

def certText (certs : List StakingCert) : String :=
  String.join (certs.map certLine) ++ match certs.head? with
    | none => ""
    | some first => s!"\nbootstrap id: {first.nodeId}\n"

end LocalFleet.HandRun
