import LocalFleet.Error
import LocalFleet.Files.Path
import LocalFleet.Files.Tree
import LocalFleet.Node.Command

/-! Staking identities on disk: a certificate and a key, readable by their owner alone. -/

namespace LocalFleet

/-- A new staking identity: the texts of its two files, and the id that follows from the
certificate. -/
structure Identity where
  certificate : Bytes
  key : Bytes
  nodeId : String
  deriving DecidableEq, Repr

namespace Identity

open Files

def mode : Nat := 0o400

def writeFile (cwd : Place) (path : String) (content : Bytes) (t : Tree) : Tree × Result Unit :=
  let (t, written) := writeAt t cwd path content mode
  (t, written.mapError fun fault => .cluster (.prepare path (.system fault)))

/-- Writes the certificate and then the key. -/
def write (i : Identity) (cwd : Place) (keyPath certPath : String) (t : Tree) :
    Tree × Result StakingCert :=
  match writeFile cwd certPath i.certificate t with
  | (t, .error e) => (t, .error e)
  | (t, .ok ()) =>
    match writeFile cwd keyPath i.key t with
    | (t, .error e) => (t, .error e)
    | (t, .ok ()) => (t, .ok ⟨keyPath, certPath, i.nodeId⟩)

def writeAllFrom (cwd : Place) (dir : String) (number : Nat) :
    List Identity → Tree → Tree × Result (List StakingCert)
  | [], t => (t, .ok [])
  | i :: is, t =>
    let path (ending : String) : String := Path.join dir s!"staker{number}.{ending}"
    match i.write cwd (path "key") (path "crt") t with
    | (t, .error e) => (t, .error e)
    | (t, .ok cert) =>
      match writeAllFrom cwd dir (number + 1) is t with
      | (t, .error e) => (t, .error e)
      | (t, .ok certs) => (t, .ok (cert :: certs))

def writeAll (cwd : Place) (dir : String) (identities : List Identity) (t : Tree) :
    Tree × Result (List StakingCert) := writeAllFrom cwd dir 1 identities t

end Identity

end LocalFleet
