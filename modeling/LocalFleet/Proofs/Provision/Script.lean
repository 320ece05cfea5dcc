import LocalFleet.Proofs.Provision.Move
import LocalFleet.Proofs.Run.Script
import LocalFleet.Provision.All

/-! The script of provisioning: every call that is made to a node, in order, and what has to be seen
before the next. It speaks of what only the answers tell, such as addresses and ids, as findings. -/

namespace LocalFleet

/-- What a script says of a wallet: its key, and the addresses to which every node maps it. -/
structure Holder where
  name : String
  key : SecretKey
  address : PerChain String

namespace Holder

def wallet (h : Holder) : Wallet :=
  { Wallet.new h.name h.key with addresses := ⟨some h.address.x, some h.address.p, some h.address.c⟩ }

/-- The wallet is the holder's, with its address on every chain. -/
structure IsOf (h : Holder) (w : Wallet) : Prop where
  name : w.name = h.name
  key : w.key = h.key
  known : ∀ chain, w.knownAddress chain = some (h.address.get chain)

/-- The wallet may become the holder's: the addresses known so far are the holder's. -/
structure Admits (h : Holder) (w : Wallet) : Prop where
  name : w.name = h.name
  key : w.key = h.key
  agrees : ∀ chain a, w.knownAddress chain = some a → a = h.address.get chain

end Holder

def SecretKey.signedBytes (key : SecretKey) (tx : Result UnsignedTx) : Bytes :=
  (tx.toOption.bind fun tx => ((tx.sign key).toOption).map SignedTx.bytes).getD []

namespace Provisioner

/-- What is found on the way of a move of funds. -/
structure Moved where
  now : UInt64
  /-- the outputs listed on the exchange chain, and the id of the export of some of them -/
  listed : List Utxo
  exported : String
  /-- the outputs listed in the shared memory, and the id of their import -/
  arrived : List Utxo
  imported : String

/-- What is found on the way of provisioning. -/
structure Findings (p : Provisioner) where
  extra : Nat → PerChain String
  pool : List Holder
  length_pool : pool.length = p.settings.provision.walletCount.toNat
  sent : String
  moved : Moved
  subnet : String
  /-- for each node the second of the clock at which it is added, and the id of that transaction -/
  validators : Nat → UInt64 × String
  genesis : Bytes
  blockchain : String

variable (p : Provisioner)

def genesisHolder : Holder :=
  ⟨genesisName, (SecretKey.ofEncoded p.settings.fixture.genesisKey).toOption.getD
    ⟨Octets.replicate 32 0⟩, p.settings.fixture.expected⟩

def finality (chain : Chain) (txId : String) (node : NodeSpec) : List Position :=
  [.poll node (.getTxStatus chain txId) (fun (status : TxStatus) => status = chain.finalStatus)
    fun _ => True]

def addressListed (node : NodeSpec) (chain : Chain) (address : String) : List Position :=
  [.poll node (.listAddresses chain p.user) (fun (listed : List String) => listed.contains address)
    fun _ => True]

def usersScript : List Position :=
  p.view.nodes.flatMap fun node => [.call node (.createUser p.user) fun _ => True]

def keyGiven (h : Holder) (node : NodeSpec) (chain : Chain) : List Position :=
  [.call node (.importKey chain p.user h.key.encoded) fun (a : String) => a = h.address.get chain]

def importScript (h : Holder) : List Position :=
  p.view.nodes.flatMap fun node => Chain.all.flatMap (p.keyGiven h node)

def listingScript (h : Holder) : List Position :=
  p.view.nodes.flatMap fun node => listedChains.flatMap fun chain =>
    p.addressListed node chain (h.address.get chain)

def balanceScript (h : Holder) : List Position :=
  Chain.all.flatMap fun chain => [.call p.first (.getBalance chain (h.address.get chain)) fun _ => True]

def addressMade (node : NodeSpec) (chain : Chain) (address : String) : List Position :=
  .call node (.createAddress chain p.user) (fun (a : String) => a = address) ::
    p.addressListed node chain address

def extraScript (node : NodeSpec) (extra : PerChain String) : List Position :=
  listedChains.flatMap fun chain => p.addressMade node chain (extra.get chain)

/-- The wallets of the pool: first all keys, then all addresses, then all balances. -/
def poolScript (pool : List Holder) : List Position :=
  pool.flatMap p.importScript ++ (pool.flatMap p.listingScript ++ pool.flatMap p.balanceScript)

def sendRequest (source recipient : Holder) : SendRequest :=
  { user := p.user, sources := [source.address.x], changeAddress := source.address.x,
    recipient := recipient.address.x, amount := p.settings.provision.transferAmount,
    memo := transferMemo }

def sendScript (source recipient : Holder) (sent : String) : List Position :=
  .call p.first (.send (p.sendRequest source recipient)) (fun (id : String) => id = sent) ::
    finality .x sent p.first

def moveOf (h : Holder) (now : UInt64) : Move :=
  p.move h.wallet (h.key.owner.toOption.getD (Octets.replicate 20 0))
    (p.settings.cluster.networkNumber.toOption.getD 0) now

/-- A transaction is issued by the first node, and final on every node. -/
def issueScript (chain : Chain) (tx : Bytes) (id : String) : List Position :=
  .call p.first (.issueTx chain tx) (fun (a : String) => a = id) ::
    p.view.nodes.flatMap (finality chain id)

/-- What is listed is exported, and what arrives is imported. -/
def moveScript (h : Holder) (m : Moved) : List Position :=
  let move := p.moveOf h m.now
  [.call p.first (.getUtxos .x [h.address.x] none) fun (listed : List Utxo) => listed = m.listed] ++
  (p.issueScript .x (h.key.signedBytes (move.exportTx m.listed)) m.exported ++
  ([.poll p.first (.getUtxos .p [h.address.p] (some .x)) move.hasArrived
      fun (arrived : List Utxo) => arrived = m.arrived] ++
  p.issueScript .p (h.key.signedBytes (move.importTx m.arrived)) m.imported))

def fundingScript (extra : Nat → PerChain String) (pool : List Holder) (sent : String) (moved : Moved) :
    List Position :=
  let genesis := p.genesisHolder
  let first := pool.headD genesis
  p.usersScript ++
  ((p.importScript genesis ++ (p.listingScript genesis ++ p.balanceScript genesis)) ++
  (alongside p.extraScript p.view.nodes extra ++
  (p.poolScript pool ++
  (p.sendScript genesis first sent ++
  (p.moveScript first moved ++
  (p.balanceScript genesis ++ pool.flatMap p.balanceScript))))))

def subnetRequest : CreateSubnetRequest :=
  let control := p.genesisHolder.address.p
  { user := p.user, sources := [control], changeAddress := control, controlKeys := [control],
    threshold := 1 }

def subnetScript (subnet : String) : List Position :=
  .call p.first (.createSubnet p.subnetRequest)
    (fun (id : String) => id = subnet ∧ p.checkSubnet id = .ok ()) ::
  p.view.nodes.flatMap fun node => finality .p subnet node ++
    [.poll node .getSubnets (fun (subnets : List Subnet) => subnets.any (·.id = subnet)) fun _ => True]

def validatorRequest (subnet : String) (node : NodeSpec) (now : UInt64) : AddValidatorRequest :=
  let control := p.genesisHolder.address.p
  let times := (p.validationTimes now).getD (0, 0)
  { user := p.user, sources := [control], changeAddress := control, nodeId := node.nodeId,
    subnetId := subnet, startTime := times.1, endTime := times.2, weight := p.settings.subnet.weight }

def validatorScript (subnet : String) (node : NodeSpec) (found : UInt64 × String) : List Position :=
  .call node (.addSubnetValidator (p.validatorRequest subnet node found.1))
    (fun (id : String) => id = found.2) :: finality .p found.2 node

def blockchainRequest (subnet : String) (genesis : Bytes) : CreateBlockchainRequest :=
  let control := p.genesisHolder.address.p
  { user := p.user, sources := [control], changeAddress := control, subnetId := subnet,
    vmId := p.settings.subnet.vmId, fxIds := [], name := p.settings.subnet.vmName, genesis }

def blockchainScript (subnet : String) (genesis : Bytes) (blockchain : String) : List Position :=
  .call p.first (.createBlockchain (p.blockchainRequest subnet genesis))
    (fun (id : String) => id = blockchain) ::
  p.view.nodes.flatMap fun node => finality .p blockchain node ++
    [.poll node .getBlockchains (fun (chains : List Blockchain) =>
        chains.any fun b => b.id = blockchain ∧ b.subnetId = subnet) fun _ => True,
      .poll node (.getBlockchainStatus blockchain)
        (fun (status : BlockchainStatus) => status = .validating) fun _ => True]

def bootstrapScript (blockchain : String) : List Position :=
  p.view.nodes.flatMap fun node =>
    [.poll node (.isBootstrapped blockchain) (fun (answer : Bool) => answer) fun _ => True]

def subnetworkScript (subnet : String) (validators : Nat → UInt64 × String) (genesis : Bytes)
    (blockchain : String) : List Position :=
  p.subnetScript subnet ++
  (alongside (p.validatorScript subnet) p.view.nodes validators ++
  (p.blockchainScript subnet genesis blockchain ++
  p.bootstrapScript blockchain))

def script (f : p.Findings) : List Position :=
  p.fundingScript f.extra f.pool f.sent f.moved ++
  if p.settings.subnet.enabled then
    p.subnetworkScript f.subnet f.validators f.genesis f.blockchain
  else []

end Provisioner

end LocalFleet
