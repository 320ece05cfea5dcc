import LocalFleet.Digest.Sha256
import LocalFleet.Ledger.Wallet
import LocalFleet.Node.Names
import LocalFleet.Settings.Sections
import LocalFleet.Text.Name

/-! A rehearsed fleet: it answers as a fleet without trouble would, except where a rule says that an
inquiry takes time, fails, or is answered otherwise. -/

namespace LocalFleet.Rehearsal

inductive Reply where
  | usual
  | refused (reason : String)
  /-- with an answer that may name the owners of the wallets given to the fleet so far -/
  | given (answer : (owner : Nat → Owner) → (inquiry : Inquiry) → inquiry.Answer)

structure Rule where
  name : String
  node : Option String
  chain : Option String
  /-- how many inquiries are passed over first -/
  skip : Nat
  /-- for how many inquiries the rule holds; without a number, for all -/
  times : Option Nat
  latency : Nat
  reply : Reply

namespace Rule

def applies (r : Rule) (inquiry : Inquiry) : Bool :=
  r.name = inquiry.name && r.node.all (· = inquiry.addressee)
    && r.chain.all (fun c => inquiry.chain?.map Chain.letter = some c) && r.times ≠ some 0

/-- The first rule that holds for an inquiry and has nothing left to pass over, and what becomes of the
rules. -/
def pick (inquiry : Inquiry) : List Rule → Option Rule × List Rule
  | [] => (none, [])
  | r :: rs =>
    if r.applies inquiry then
      if r.skip > 0 then
        let (found, rs) := pick inquiry rs
        (found, { r with skip := r.skip - 1 } :: rs)
      else (some r, { r with times := r.times.map (· - 1) } :: rs)
    else
      let (found, rs) := pick inquiry rs
      (found, r :: rs)

end Rule

structure Cast where
  nodes : List NodeSpec
  settings : Settings

structure Memory where
  rules : List Rule
  keys : List String := []
  addresses : List ((String × Chain) × String) := []
  created : List (String × Chain) := []
  balances : Nat := 0
  issued : Nat := 0
  subnets : List String := []
  blockchains : List (String × String) := []

namespace Memory

def addKey (m : Memory) (cast : Cast) (key : String) : Memory :=
  if key = cast.settings.fixture.genesisKey ∨ m.keys.contains key then m
  else { m with keys := m.keys ++ [key] }

/-- The owner address of the wallet of a number, and zeros if there is none. -/
def owner (m : Memory) (k : Nat) : Owner :=
  match m.keys[k]? with
  | none => Octets.replicate 20 0
  | some text =>
    match SecretKey.ofEncoded text with
    | .error _ => Octets.replicate 20 0
    | .ok key =>
      match key.owner with
      | .error _ => Octets.replicate 20 0
      | .ok o => o

def list (m : Memory) (node : NodeSpec) (chain : Chain) (address : String) : Memory :=
  { m with addresses := m.addresses ++ [((node.name, chain), address)] }

def hear (m : Memory) (cast : Cast) : Inquiry → Memory
  | .call _ (.importKey _ _ key) => m.addKey cast key
  | _ => m

def learn (m : Memory) : (inquiry : Inquiry) → inquiry.Answer → Memory
  | .call node (.importKey chain _ _), address => m.list node chain address
  | .call node (.createAddress chain _), address =>
    { m.list node chain address with created := m.created ++ [(node.name, chain)] }
  | .call _ (.getBalance ..), _ => { m with balances := m.balances + 1 }
  | .call _ (.createSubnet _), id => { m with subnets := m.subnets ++ [id] }
  | .call _ (.createBlockchain request), id =>
    { m with blockchains := m.blockchains ++ [(id, request.subnetId)] }
  | _, _ => m

def nextTx (m : Memory) : String × Memory :=
  (s!"tx-{m.issued + 1}", { m with issued := m.issued + 1 })

end Memory

def repeatedId (b : UInt8) : String := Cb58.encode (List.replicate 32 b)

def assetId : String := repeatedId 0xAA

/-- The transaction whose outputs the fleet lists on the exchange chain. -/
def fundingTx : String := repeatedId 0x11

/-- The transaction whose outputs the fleet lists as exported. -/
def exportTx : String := repeatedId 0x22

def chainIds : ChainIds := ⟨assetId, repeatedId 0x58, repeatedId 0x43⟩

def fundedAddresses : PerChain String := ({} : FixtureSettings).expected

def firstSubnet : String := (({} : FixtureSettings).subnetId).getD ""

def node (i : Nat) : NodeSpec :=
  ⟨s!"node{i + 1}", s!"NodeID-fake-node{i + 1}", s!"http://127.0.0.1:{9650 + 2 * i}"⟩

def unspent (txId : String) (index : UInt32) (amount : Amount) (owners : List Owner) : Utxo :=
  ⟨txId, index, assetId, amount, 0, 1, owners⟩

variable (cast : Cast)

def usualCall (m : Memory) (node : NodeSpec) : (c : Call) → c.Answer × Memory
  | .createUser _ => ((), m)
  | .importKey chain _ key =>
    if key = cast.settings.fixture.genesisKey then (fundedAddresses.get chain, m)
    else (s!"{chain}-wallet{m.keys.idxOf key}", m)
  | .createAddress chain _ =>
    (s!"{chain}-{node.name}-{m.created.count (node.name, chain) + 1}", m)
  | .listAddresses chain _ =>
    ((m.addresses.filter fun entry => entry.1 = (node.name, chain)).map Prod.snd, m)
  | .getBalance chain _ =>
    let base := match chain with
      | .x => 1000
      | .p => 2000
      | .c => 3000
    (.ofNat (base + m.balances), m)
  | .send _ => m.nextTx
  | .getUtxos chain _ _ =>
    (match chain with
      | .x => [unspent fundingTx 0 cast.settings.provision.transferAmount [m.owner 0]]
      | .p => [unspent exportTx 1 cast.settings.provision.exportAmount [m.owner 0]]
      | .c => [], m)
  | .issueTx .. => m.nextTx
  | .getTxStatus chain _ => (chain.finalStatus, m)
  | .createSubnet _ => (firstSubnet, m)
  | .getSubnets => (m.subnets.map fun id => ⟨id, [], 1⟩, m)
  | .addSubnetValidator _ => m.nextTx
  | .createBlockchain _ => m.nextTx
  | .getBlockchains => (m.blockchains.map fun (id, subnet) => ⟨id, "", subnet, ""⟩, m)
  | .getBlockchainStatus _ => (.validating, m)
  | .isBootstrapped _ => (true, m)
  | .getAssetId _ => (assetId, m)
  | .getBlockchainId chain => (if chain = "X" then chainIds.exchange else chainIds.contract, m)
  | .getNodeId => ("NodeID-fake-" ++ node.name, m)

def usual (m : Memory) : (inquiry : Inquiry) → inquiry.Answer × Memory
  | .launch _ => ((), m)
  | .waitHealthy => ((), m)
  | .listNodes => (cast.nodes, m)
  | .stop => ((), m)
  | .call node c => usualCall cast m node c

def refusal (reason : String) : Inquiry → Error
  | .launch _ => .cluster (.launch "node1" (.described reason))
  | .waitHealthy => .cluster (.nodeExited "node1" reason)
  | .stop => .fatal reason
  | inquiry => .rpc (.server inquiry.name (-32000) reason)

def fleet : Fleet Memory := fun inquiry m =>
  let (rule, rules) := Rule.pick inquiry m.rules
  let m := { m with rules }.hear cast inquiry
  let answered (latency : Nat) (answer : inquiry.Answer × Memory) :
      Response Memory inquiry.Answer :=
    ⟨latency, .ok answer.1, answer.2.learn inquiry answer.1⟩
  match rule with
  | none => answered 0 (usual cast m inquiry)
  | some r =>
    match r.reply with
    | .usual => answered r.latency (usual cast m inquiry)
    | .given answer => answered r.latency (answer m.owner inquiry, m)
    | .refused reason => ⟨r.latency, .error (refusal reason inquiry), m⟩

/-- The wallet of a number: its key and its name come from the digest of the number. -/
def wallet (nameLength number : Nat) : Wallet :=
  let digest := Sha256.digest (Text.bytes s!"wallet {number}")
  let seed := BigEndian.decode digest.val
  .new (Name.ofDraws ((List.range nameLength).map fun i => seed / Nat.pow 36 (i % 40) + i)) ⟨digest⟩

end LocalFleet.Rehearsal
