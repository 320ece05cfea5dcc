import LocalFleet.Error
import LocalFleet.Ledger.Utxo

/-! The calls that a node answers. Each is a single request; whoever calls decides whether to ask
again. -/

namespace LocalFleet

structure Credentials where
  username : String
  password : String
  deriving DecidableEq, Repr

/-- How credentials are shown: without the password. -/
def Credentials.shown (user : Credentials) : String :=
  "UserPass \x7b username: " ++ Quoted.text user.username ++ ", .. \x7d"

/-- A transfer on the exchange chain that the node signs for the user. -/
structure SendRequest where
  user : Credentials
  sources : List String
  changeAddress : String
  recipient : String
  amount : Amount
  memo : String
  deriving DecidableEq, Repr

structure CreateSubnetRequest where
  user : Credentials
  sources : List String
  changeAddress : String
  controlKeys : List String
  threshold : UInt32
  deriving DecidableEq, Repr

structure AddValidatorRequest where
  user : Credentials
  sources : List String
  changeAddress : String
  nodeId : String
  subnetId : String
  startTime : UInt64
  endTime : UInt64
  weight : UInt64
  deriving DecidableEq, Repr

structure CreateBlockchainRequest where
  user : Credentials
  sources : List String
  changeAddress : String
  subnetId : String
  vmId : String
  fxIds : List String
  name : String
  genesis : Bytes
  deriving DecidableEq, Repr

structure Subnet where
  id : String
  controlKeys : List String
  threshold : UInt32
  deriving DecidableEq, Repr

structure Blockchain where
  id : String
  name : String
  subnetId : String
  vmId : String
  deriving DecidableEq, Repr

inductive Call where
  | createUser (user : Credentials)
  | importKey (chain : Chain) (user : Credentials) (key : String)
  | createAddress (chain : Chain) (user : Credentials)
  | listAddresses (chain : Chain) (user : Credentials)
  | getBalance (chain : Chain) (address : String)
  | send (request : SendRequest)
  /-- unspent outputs of the addresses; with a source, those that it exported to `chain` -/
  | getUtxos (chain : Chain) (addresses : List String) (source : Option Chain)
  | issueTx (chain : Chain) (tx : Bytes)
  | getTxStatus (chain : Chain) (txId : String)
  | createSubnet (request : CreateSubnetRequest)
  | getSubnets
  | addSubnetValidator (request : AddValidatorRequest)
  | createBlockchain (request : CreateBlockchainRequest)
  | getBlockchains
  | getBlockchainStatus (id : String)
  /-- of a chain given by its alias or its id -/
  | isBootstrapped (chain : String)
  | getAssetId (asset : String)
  | getBlockchainId (chain : String)
  | getNodeId
  deriving DecidableEq, Repr

/-- What a call is answered with: ids of issued transactions, addresses, balances and so on. -/
abbrev Call.Answer : Call → Type
  | createUser _ => Unit
  | importKey .. => String
  | createAddress .. => String
  | listAddresses .. => List String
  | getBalance .. => Amount
  | send _ => String
  | getUtxos .. => List Utxo
  | issueTx .. => String
  | getTxStatus .. => TxStatus
  | createSubnet _ => String
  | getSubnets => List Subnet
  | addSubnetValidator _ => String
  | createBlockchain _ => String
  | getBlockchains => List Blockchain
  | getBlockchainStatus _ => BlockchainStatus
  | isBootstrapped _ => Bool
  | getAssetId _ => String
  | getBlockchainId _ => String
  | getNodeId => String

end LocalFleet
