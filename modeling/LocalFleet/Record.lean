import LocalFleet.Files.Tree
import LocalFleet.Json.Parser
import LocalFleet.Json.Printer
import LocalFleet.Ledger.Wallet
import LocalFleet.Text.Table

/-! The record of a provisioned cluster: what is written once at the end of a successful run, and
read back. -/

namespace LocalFleet

structure Account where
  address : String
  balance : Amount
  deriving DecidableEq, Repr

structure WalletRecord where
  name : String
  privateKey : String
  privateKeyHex : String
  /-- the address on the contract chain, which all chains of that kind share -/
  commonAddress : String
  xChain : Account
  pChain : Account
  cChain : Account
  deriving DecidableEq, Repr

structure ClusterRecord where
  /-- in the order of their texts -/
  uris : List String
  /-- where the created blockchain is served, if one was created -/
  endpoint : Option String
  pid : UInt32
  logsDir : String
  xChainSecondary : Table
  pChainSecondary : Table
  genesisWallet : WalletRecord
  wallets : List WalletRecord
  deriving DecidableEq, Repr

namespace WalletRecord

/-- What is recorded of a wallet; an address that is not known is recorded as empty. -/
def ofWallet (w : Wallet) : WalletRecord :=
  let account (chain : Chain) : Account := ⟨(w.knownAddress chain).getD "", w.balance chain⟩
  { name := w.name
    privateKey := w.key.encoded
    privateKeyHex := w.key.hex
    commonAddress := (w.knownAddress .c).getD ""
    xChain := account .x
    pChain := account .p
    cChain := account .c }

end WalletRecord

namespace ClusterRecord

open Json (Value)

def accountJson (a : Account) : Value :=
  .record [("address", .str a.address), ("balance", .nat a.balance.toNat)]

def walletJson (w : WalletRecord) : Value :=
  .record
    [("name", .str w.name), ("privateKey", .str w.privateKey),
     ("privateKeyHex", .str w.privateKeyHex), ("commonAddress", .str w.commonAddress),
     ("xChain", accountJson w.xChain), ("pChain", accountJson w.pChain),
     ("cChain", accountJson w.cChain)]

def tableJson (t : Table) : Value := .record (t.map fun (k, v) => (k, .str v))

/-- The record as a document; an absent endpoint has no member. -/
def toJson (r : ClusterRecord) : Value :=
  .record
    (("uris", .strings r.uris)
      :: (match r.endpoint with
          | some e => [("endpoint", .str e)]
          | none => [])
      ++ [("pid", .nat r.pid.toNat), ("logsDir", .str r.logsDir),
          ("xChainSecondaryAddresses", tableJson r.xChainSecondary),
          ("pChainSecondaryAddresses", tableJson r.pChainSecondary),
          ("genesisWallet", walletJson r.genesisWallet),
          ("wallets", .list (r.wallets.map walletJson))])

/-- The values of named fields. An object gives each of them at most once, among members of any
other name; a list gives all of them in order. -/
def fields (names : List String) : Value → Option (List (Option Value))
  | .object members =>
    if members.any (·.1 = none) then none
    else if names.any fun name => (members.filter (·.1 = some name)).length > 1 then none
    else some (names.map fun name => members.lookup (some name))
  | .list items => if items.length = names.length then some (items.map some) else none
  | _ => none

def word? (bits : Nat) (v : Value) : Option Nat := v.nat?.filter (· < Nat.pow 2 bits)

def account? (v : Value) : Option Account := do
  let [address, balance] ← fields ["address", "balance"] v | none
  return ⟨← (← address).string?, UInt64.ofNat (← word? 64 (← balance))⟩

def wallet? (v : Value) : Option WalletRecord := do
  let [name, key, hex, common, x, p, c] ← fields
    ["name", "privateKey", "privateKeyHex", "commonAddress", "xChain", "pChain", "cChain"] v | none
  return ⟨← (← name).string?, ← (← key).string?, ← (← hex).string?, ← (← common).string?,
    ← account? (← x), ← account? (← p), ← account? (← c)⟩

def table? : Value → Option Table
  | .object members => do
    let pairs ← members.mapM fun (name, v) => do return (← name, ← v.string?)
    return .ofPairs pairs
  | _ => none

def optional? : Option Value → Option (Option String)
  | none => some none
  | some .null => some none
  | some v => v.string?.map some

def ofJson? (v : Value) : Option ClusterRecord := do
  let [uris, endpoint, pid, logs, x, p, genesis, wallets] ← fields
    ["uris", "endpoint", "pid", "logsDir", "xChainSecondaryAddresses", "pChainSecondaryAddresses",
     "genesisWallet", "wallets"] v | none
  return {
    uris := ← (← (← uris).list?).mapM Value.string?
    endpoint := ← optional? endpoint
    pid := UInt32.ofNat (← word? 32 (← pid))
    logsDir := ← (← logs).string?
    xChainSecondary := ← table? (← x)
    pChainSecondary := ← table? (← p)
    genesisWallet := ← wallet? (← genesis)
    wallets := ← (← (← wallets).list?).mapM wallet? }

def text (r : ClusterRecord) : String := r.toJson.toPretty

def ofText? (content : Bytes) : Option ClusterRecord := (Json.parse content).bind ofJson?

open Files

/-- The permissions of the written record: the owner reads and writes. -/
def mode : Nat := 0o600

def save (r : ClusterRecord) (cwd : Place) (path : String) (t : Tree) : Tree × Result Unit :=
  let (t, done) := writeAt t cwd path (Text.bytes r.text) mode
  (t, done.mapError fun fault => .output (.io path (.system fault)))

def load (cwd : Place) (path : String) (t : Tree) : Result ClusterRecord :=
  match t.read (place cwd path) with
  | .error fault => .error (.output (.io path (.system fault)))
  | .ok content =>
    match ofText? content with
    | some r => .ok r
    | none => .error (.output (.malformed "not a cluster record"))

def echo (path : String) (r : ClusterRecord) : String := s!"cat {path}\n{r.text}\n"

/-- Writes the record, reads it back, and gives what is printed. -/
def writeAndEcho (r : ClusterRecord) (cwd : Place) (path : String) (t : Tree) :
    Tree × Result (ClusterRecord × String) :=
  match save r cwd path t with
  | (t, .error e) => (t, .error e)
  | (t, .ok ()) =>
    match load cwd path t with
    | .error e => (t, .error e)
    | .ok loaded => (t, .ok (loaded, echo path loaded))

end ClusterRecord

end LocalFleet
