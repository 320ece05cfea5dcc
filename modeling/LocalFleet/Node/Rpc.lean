import LocalFleet.Json.Parser
import LocalFleet.Json.Printer
import LocalFleet.Node.Call

/-! Calls as JSON-RPC requests over HTTP, and what their replies mean. -/

namespace LocalFleet.Rpc

open Json (Value)

structure Request where
  path : String
  method : String
  params : Value
  deriving Repr

def Request.body (r : Request) : Value :=
  .record [("jsonrpc", .str "2.0"), ("id", .nat 1), ("method", .str r.method), ("params", r.params)]

def infoPath : String := "/ext/info"

def keystorePath : String := "/ext/keystore"

def contractPath : String := "/ext/bc/C/rpc"

def path : Chain → String
  | .x => "/ext/bc/X"
  | .p => "/ext/bc/P"
  | .c => "/ext/bc/C/avax"

def space : Chain → String
  | .x => "avm"
  | .p => "platform"
  | .c => "avax"

def assetSymbol : String := "AVAX"

/-- How many outputs a listing gives at most. -/
def pageLimit : Nat := 1024

/-- A method of a chain that the contract chain does not have. -/
def notOnContract (chain : Chain) (method : String) (params : Value) : Except RpcError Request :=
  if chain = .c then .error (.unsupported method chain)
  else .ok ⟨path chain, s!"{space chain}.{method}", params⟩

def credentials (user : Credentials) : List (String × Value) :=
  [("username", .str user.username), ("password", .str user.password)]

/-- The members of a request that spends the user's outputs. -/
def spending (user : Credentials) (sources : List String) (change : String)
    (more : List (String × Value)) : Value :=
  .record (credentials user ++ [("from", .strings sources), ("changeAddr", .str change)] ++ more)

/-- The method that a call stands for, as errors name it. -/
def method : Call → String
  | .createUser _ => "keystore.createUser"
  | .importKey chain .. => space chain ++ ".importKey"
  | .createAddress chain _ => space chain ++ ".createAddress"
  | .listAddresses chain _ => space chain ++ ".listAddresses"
  | .getBalance .c _ => "eth_getBalance"
  | .getBalance chain _ => space chain ++ ".getBalance"
  | .send _ => "avm.send"
  | .getUtxos chain .. => space chain ++ ".getUTXOs"
  | .issueTx chain _ => space chain ++ ".issueTx"
  | .getTxStatus chain _ => space chain ++ ".getTxStatus"
  | .createSubnet _ => "platform.createSubnet"
  | .getSubnets => "platform.getSubnets"
  | .addSubnetValidator _ => "platform.addSubnetValidator"
  | .createBlockchain _ => "platform.createBlockchain"
  | .getBlockchains => "platform.getBlockchains"
  | .getBlockchainStatus _ => "platform.getBlockchainStatus"
  | .isBootstrapped _ => "info.isBootstrapped"
  | .getAssetId _ => "avm.getAssetDescription"
  | .getBlockchainId _ => "info.getBlockchainID"
  | .getNodeId => "info.getNodeID"

def request? (call : Call) : Except RpcError Request :=
  let post (path : String) (params : Value) : Except RpcError Request := .ok ⟨path, method call, params⟩
  match call with
  | .createUser user => post keystorePath (.record (credentials user))
  | .importKey chain user key =>
    post (path chain) (.record (credentials user ++ [("privateKey", .str key)]))
  | .createAddress chain user => notOnContract chain "createAddress" (.record (credentials user))
  | .listAddresses chain user => notOnContract chain "listAddresses" (.record (credentials user))
  | .getBalance .x address =>
    post (path .x) (.record [("address", .str address), ("assetID", .str assetSymbol)])
  | .getBalance .p address => post (path .p) (.record [("address", .str address)])
  | .getBalance .c address => post contractPath (.list [.str address, .str "latest"])
  | .send r =>
    post (path .x) (spending r.user r.sources r.changeAddress
      [("amount", .nat r.amount.toNat), ("assetID", .str assetSymbol), ("to", .str r.recipient),
       ("memo", .str r.memo)])
  | .getUtxos chain addresses source =>
    notOnContract chain "getUTXOs" (.record
      ([("addresses", .strings addresses), ("limit", .nat pageLimit), ("encoding", .str "hex")]
        ++ (source.map fun s => ("sourceChain", Value.str s.letter)).toList))
  | .issueTx chain tx =>
    notOnContract chain "issueTx"
      (.record [("tx", .str (GuardedHex.encode tx)), ("encoding", .str "hex")])
  | .getTxStatus chain txId =>
    post (path chain) (.record
      (("txID", .str txId) :: if chain = .p then [("includeReason", .bool true)] else []))
  | .createSubnet r =>
    post (path .p) (spending r.user r.sources r.changeAddress
      [("controlKeys", .strings r.controlKeys), ("threshold", .nat r.threshold.toNat)])
  | .getSubnets => post (path .p) (.record [("ids", .list [])])
  | .addSubnetValidator r =>
    post (path .p) (spending r.user r.sources r.changeAddress
      [("nodeID", .str r.nodeId), ("subnetID", .str r.subnetId),
       ("startTime", .str (toString r.startTime)), ("endTime", .str (toString r.endTime)),
       ("weight", .str (toString r.weight))])
  | .createBlockchain r =>
    post (path .p) (spending r.user r.sources r.changeAddress
      [("subnetID", .str r.subnetId), ("vmID", .str r.vmId), ("fxIDs", .strings r.fxIds),
       ("name", .str r.name), ("genesisData", .str (GuardedHex.encode r.genesis)),
       ("encoding", .str "hex")])
  | .getBlockchains => post (path .p) (.record [])
  | .getBlockchainStatus id => post (path .p) (.record [("blockchainID", .str id)])
  | .isBootstrapped chain => post infoPath (.record [("chain", .str chain)])
  | .getAssetId asset => post (path .x) (.record [("assetID", .str asset)])
  | .getBlockchainId chain => post infoPath (.record [("alias", .str chain)])
  | .getNodeId => post infoPath (.record [])

/-- The result of a reply, or the error that the node answered. An error that is not null counts
before any result. -/
def result (method : String) (body : Value) : Except RpcError Value :=
  match (body.member? "error").filter (!·.isNull) with
  | some e =>
    let code := ((e.member? "code").bind Value.int?).filter fun n => -0x8000000000000000 ≤ n ∧ n < 0x8000000000000000
    .error (.server method (code.getD 0) (((e.member? "message").bind Value.string?).getD ""))
  | none =>
    match body.member? "result" with
    | some v => .ok v
    | none => .error (.decode method (.missing "result"))

/-- The values of named fields. In an object the last member of a name counts; a list gives the fields
in order and may leave out the last `optional` ones. -/
def fields (names : List String) (optional : Nat) : Value → Option (List (Option Value))
  | .object members => some (names.map (Value.object members).member?)
  | .list items =>
    if items.length ≤ names.length ∧ names.length ≤ items.length + optional then
      some (items.map some ++ List.replicate (names.length - items.length) none)
    else none
  | _ => none

def field (name : String) (v : Value) : Option Value := do
  let [a] ← fields [name] 0 v | none
  a

def stringField (name : String) (v : Value) : Option String := (field name v).bind Value.string?

def stringsOf (v : Value) : Option (List String) := do (← v.list?).mapM Value.string?

def fieldOr {α : Type} (default : α) (read : Value → Option α) : Option Value → Option α
  | none => some default
  | some v => read v

def subnetOf (v : Value) : Option (String × List String × String) := do
  let [id, keys, threshold] ← fields ["id", "controlKeys", "threshold"] 2 v | none
  return (← (← id).string?, ← fieldOr [] stringsOf keys, ← fieldOr "" Value.string? threshold)

def blockchainOf (v : Value) : Option Blockchain := do
  let [id, name, subnetId, vmId] ← fields ["id", "name", "subnetID", "vmID"] 0 v | none
  return ⟨← (← id).string?, ← (← name).string?, ← (← subnetId).string?, ← (← vmId).string?⟩

def amount (method text : String) : Except RpcError Amount :=
  match Decimal.word? 64 text.toList with
  | some n => .ok (UInt64.ofNat n)
  | none => .error (.decode method (.notInteger text))

def hexNatFrom? (v : Nat) : List Char → Option Nat
  | [] => some v
  | c :: text => (Hex.value? c).bind fun d => hexNatFrom? (16 * v + d) text

/-- The number below `2 ^ 128` that one or more hexadecimal digits write after an optional `0x` and an
optional plus sign. -/
def quantity? (text : List Char) : Option Nat :=
  let body := (Text.dropHead? ['0', 'x'] text).getD text
  let digits := match body with
    | '+' :: ds => ds
    | ds => ds
  if digits = [] then none else (hexNatFrom? 0 digits).filter (· < Nat.pow 2 128)

def quantity (method text : String) : Except RpcError Nat :=
  match quantity? text.toList with
  | some n => .ok n
  | none => .error (.decode method (.notHexQuantity text))

/-- The low thirty-two bits of the number that a threshold text writes; zero for an empty text. -/
def threshold (method text : String) : Except RpcError UInt32 :=
  if text = "" then .ok 0 else (amount method text).map fun n => UInt32.ofNat n.toNat

/-- The status of a transaction: a text, or the member `status` of an object. -/
def txStatus (method : String) : Value → Except RpcError TxStatus
  | .text s => .ok (.ofText (s.getD ""))
  | v =>
    match (v.member? "status").bind Value.string? with
    | some s => .ok (.ofText s)
    | none => .error (.decode method (.missing "status"))

def shaped {α : Type} (method : String) : Option α → Except RpcError α
  | some a => .ok a
  | none => .error (.decode method (.shape "unexpected shape"))

def answer (call : Call) (v : Value) : Except RpcError call.Answer :=
  let m := method call
  match call with
  | .createUser _ => do
    if ← shaped m ((field "success" v).bind Value.bool?) then return () else throw (.refused m)
  | .importKey .. => shaped m (stringField "address" v)
  | .createAddress .. => shaped m (stringField "address" v)
  | .listAddresses .. => shaped m ((field "addresses" v).bind stringsOf)
  | .getBalance .c _ => do return .ofWei (← quantity m (← shaped m v.string?))
  | .getBalance .x _ => do amount m (← shaped m (stringField "balance" v))
  | .getBalance .p _ => do amount m (← shaped m (stringField "balance" v))
  | .send _ => shaped m (stringField "txID" v)
  | .getUtxos .. => do
    let texts ← shaped m ((field "utxos" v).bind stringsOf)
    (Utxo.decodeAll texts).mapError fun e => .decode m (.encoding e)
  | .issueTx .. => shaped m (stringField "txID" v)
  | .getTxStatus .. => txStatus m v
  | .createSubnet _ => shaped m (stringField "txID" v)
  | .getSubnets => do
    let subnets ← shaped m ((field "subnets" v).bind fun s => do (← s.list?).mapM subnetOf)
    subnets.mapM fun (id, keys, text) => do return ⟨id, keys, ← threshold m text⟩
  | .addSubnetValidator _ => shaped m (stringField "txID" v)
  | .createBlockchain _ => shaped m (stringField "txID" v)
  | .getBlockchains => shaped m ((field "blockchains" v).bind fun s => do (← s.list?).mapM blockchainOf)
  | .getBlockchainStatus _ => do return .ofText (← shaped m (stringField "status" v))
  | .isBootstrapped _ => shaped m ((field "isBootstrapped" v).bind Value.bool?)
  | .getAssetId _ => shaped m (stringField "assetID" v)
  | .getBlockchainId _ => shaped m (stringField "blockchainID" v)
  | .getNodeId => shaped m (stringField "nodeID" v)

/-- What comes back for a posted request: the body of a reply, or why there is none. -/
abbrev Delivery := Except String Bytes

/-- What a delivery means for the call that it answers; `base` is the node's address. -/
def receive (base : String) (request : Request) (call : Call) (delivery : Delivery) :
    Except RpcError call.Answer := do
  let failed (reason : String) := RpcError.transport request.method (base ++ request.path) reason
  let bytes ← delivery.mapError failed
  match Json.parseSound bytes with
  | none => throw (failed "error decoding response body")
  | some body => answer call (← result request.method body)

end LocalFleet.Rpc
