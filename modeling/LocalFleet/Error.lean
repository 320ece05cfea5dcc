import LocalFleet.Encoding.Error
import LocalFleet.Files.Fault
import LocalFleet.Ledger.Amount
import LocalFleet.Ledger.Chain
import LocalFleet.Text.Elapsed

/-! Everything that can end a run, grouped by where it arises, with its message. -/

namespace LocalFleet

inductive ClusterError where
  | launch (node : String) (cause : IoCause)
  | prepare (path : String) (cause : IoCause)
  | certificate (reason : String)
  | nodeExited (node status : String)
  | healthTimeout (limit : Span)
  | noNodes
  | stop (node : String) (cause : IoCause)
  deriving DecidableEq, Repr

def ClusterError.message : ClusterError → String
  | launch node cause => s!"Failed to launch node {node}: {cause.message}"
  | prepare path cause => s!"Failed to prepare {path}: {cause.message}"
  | certificate reason => s!"Certificate generation failed: {reason}"
  | nodeExited node status =>
    s!"Node {node} exited before the cluster became healthy ({status})"
  | healthTimeout limit => s!"Cluster did not become healthy within {limit.text}"
  | noNodes => "Cluster reported no nodes"
  | stop node cause => s!"Failed to stop node {node}: {cause.message}"

inductive DecodeFault where
  | shape (detail : String)
  | missing (member : String)
  | notInteger (text : String)
  | notHexQuantity (text : String)
  | encoding (cause : EncodingError)
  deriving DecidableEq, Repr

def DecodeFault.message : DecodeFault → String
  | shape detail => detail
  | missing member => "missing " ++ member
  | notInteger text => Quoted.text text ++ " is not an integer"
  | notHexQuantity text => Quoted.text text ++ " is not a hex quantity"
  | encoding cause => cause.message

inductive RpcError where
  /-- the request could not be delivered, or the reply not read -/
  | transport (method endpoint reason : String)
  | server (method : String) (code : Int) (text : String)
  | decode (method : String) (fault : DecodeFault)
  /-- the node did not accept the operation -/
  | refused (method : String)
  | unsupported (method : String) (chain : Chain)
  deriving DecidableEq, Repr

def RpcError.message : RpcError → String
  | transport method endpoint reason => s!"{method} request to {endpoint} failed: {reason}"
  | server method code text => s!"{method} returned error {code}: {text}"
  | decode method fault => s!"{method} returned an undecodable response: {fault.message}"
  | refused method => s!"{method} was not accepted by the node"
  | unsupported method chain => s!"{method} is not available on the {chain}-chain"

/-- An observed value that differs from the expected one. -/
inductive FixtureMismatch where
  | genesisAddress (chain : Chain) (node got expected : String)
  | walletAddress (wallet : String) (chain : Chain) (node got expected : String)
  | subnetId (got expected : String)
  deriving DecidableEq, Repr

def FixtureMismatch.message : FixtureMismatch → String
  | genesisAddress chain node got expected =>
    s!"unexpected {chain}-chain funded address {Quoted.text got} in {node} "
      ++ s!"(expected {Quoted.text expected})"
  | walletAddress wallet chain node got expected =>
    s!"unexpected {chain}-chain address {Quoted.text got} for wallet {wallet} in {node} "
      ++ s!"(expected {Quoted.text expected})"
  | subnetId got expected =>
    s!"unexpected subnet id {Quoted.text got} (expected {Quoted.text expected})"

inductive PollError where
  | timeout (what : String) (waited : Span) (attempts : Nat)
  | cancelled (what : String)
  deriving DecidableEq, Repr

def PollError.message : PollError → String
  | timeout what waited attempts =>
    s!"timed out after {waited.text} ({attempts} attempts) waiting for {what}"
  | cancelled what => s!"aborted while waiting for {what}"

inductive ProvisionError where
  | insufficientFunds (wallet : String) (chain : Chain) (needed available : Amount)
  | missing (what : String)
  | unspendable (txId : String) (outputIndex : UInt32)
  | genesis (path : String) (cause : IoCause)
  deriving DecidableEq, Repr

def ProvisionError.message : ProvisionError → String
  | insufficientFunds wallet chain needed available =>
    s!"wallet {wallet} holds {available} on the {chain}-chain, {needed} required"
  | missing what => s!"{what} has not been provisioned yet"
  | unspendable txId outputIndex =>
    s!"utxo {txId}:{outputIndex} cannot be spent by the wallet key"
  | genesis path cause => s!"failed to read genesis file {path}: {cause.message}"

inductive OutputError where
  | io (path : String) (cause : IoCause)
  | malformed (detail : String)
  deriving DecidableEq, Repr

def OutputError.message : OutputError → String
  | io path cause => s!"I/O error at {path}: {cause.message}"
  | malformed detail => detail

inductive Error where
  /-- settings could not be loaded -/
  | settings (detail : String)
  /-- settings were loaded but are not usable -/
  | invalidSettings (reason : String)
  | cluster (cause : ClusterError)
  | rpc (cause : RpcError)
  | fixture (cause : FixtureMismatch)
  | poll (cause : PollError)
  | provision (cause : ProvisionError)
  | output (cause : OutputError)
  | encoding (cause : EncodingError)
  | fatal (reason : String)
  deriving DecidableEq, Repr

namespace Error

def message : Error → String
  | settings detail => detail
  | invalidSettings reason => "Invalid config: " ++ reason
  | cluster cause => cause.message
  | rpc cause => cause.message
  | fixture cause => cause.message
  | poll cause => cause.message
  | provision cause => cause.message
  | output cause => cause.message
  | encoding cause => cause.message
  | fatal reason => "Fatal error: " ++ reason

/-- Whether the error says no more than that waiting was abandoned. -/
def isCancelled : Error → Bool
  | poll (.cancelled _) => true
  | _ => false

/-- Whether the error is a mismatch with the fixture, which no retry can mend. -/
def isFixtureMismatch : Error → Bool
  | fixture _ => true
  | _ => false

def abandoned (what : String) : Error := poll (.cancelled what)

@[simp] theorem isCancelled_abandoned (what : String) : (abandoned what).isCancelled = true := rfl

end Error

abbrev Result (α : Type) := Except Error α

inductive Halt where
  | failed (cause : Error)
  /-- a number left its range; nobody is told, the task that computed it is gone -/
  | overflow
  deriving DecidableEq, Repr

abbrev Checked (α : Type) := Except Halt α

def Result.checked {α : Type} (r : Result α) : Checked α := r.mapError Halt.failed

end LocalFleet
