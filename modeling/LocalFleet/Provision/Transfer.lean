import LocalFleet.Ledger.Transaction
import LocalFleet.Provision.Confirmation

/-! Moving funds: from the funded wallet to the first wallet of the pool, and of that wallet from the
exchange chain to the platform chain. The second is an export and an import, built and signed here. -/

namespace LocalFleet

/-- A wallet's move of funds from the exchange chain to the platform chain. -/
structure Move where
  walletName : String
  owner : Owner
  networkId : UInt32
  assetId : String
  exchangeId : String
  amount : Amount
  /-- what each of the two transactions costs -/
  fee : Amount
  /-- the Unix second at which outputs have to be spendable -/
  now : UInt64
  deriving DecidableEq, Repr

namespace Move

variable (m : Move)

def needed : Amount := m.amount.addCapped m.fee

def insufficient (chain : Chain) (needed available : Amount) : Error :=
  .provision (.insufficientFunds m.walletName chain needed available)

def exportSelection (listed : List Utxo) : Utxo.Selection :=
  Utxo.select listed m.assetId m.owner m.now m.amount m.fee

/-- The export that is built from the outputs listed on the exchange chain. What is left after amount
and fee goes back to the wallet. -/
def exportTx (listed : List Utxo) : Result UnsignedTx := do
  let selection := m.exportSelection listed
  if selection.total < m.needed then
    throw (m.insufficient .x m.needed selection.total)
  let asset ← (Id.ofText m.assetId).mapError Error.encoding
  let exchange ← (Id.ofText m.exchangeId).mapError Error.encoding
  let change := selection.total - m.needed
  let inputs ← TransferInput.spendAll selection.inputs m.owner
  return .exportTo
    { networkId := m.networkId
      blockchainId := exchange
      outputs := if change > 0 then [.ownedBy asset change m.owner] else []
      inputs
      memo := [] }
    Id.platform [.ownedBy asset m.amount m.owner]

/-- All outputs listed in the shared memory that the wallet can spend. -/
def importSelection (listed : List Utxo) : Utxo.Selection :=
  Utxo.select listed m.assetId m.owner m.now 0 0

def hasArrived (listed : List Utxo) : Bool := (m.importSelection listed).inputs ≠ []

/-- The import that is built from the outputs listed in the shared memory: all of them become one
output, less the fee. -/
def importTx (listed : List Utxo) : Result UnsignedTx := do
  let selection := m.importSelection listed
  if selection.total ≤ m.fee then
    throw (m.insufficient .p (m.fee.addCapped 1) selection.total)
  let asset ← (Id.ofText m.assetId).mapError Error.encoding
  let exchange ← (Id.ofText m.exchangeId).mapError Error.encoding
  let imported ← TransferInput.spendAll selection.inputs m.owner
  return .importFrom
    { networkId := m.networkId
      blockchainId := Id.platform
      outputs := [.ownedBy asset (selection.total - m.fee) m.owner]
      inputs := []
      memo := [] }
    exchange imported

end Move

namespace Provisioner

variable (p : Provisioner)

def transferMemo : String := "hi!"

def transferToWallet : Provisioning Unit := do
  let s ← get
  let genesis ← Stage.lift s.genesisWallet
  let wallet ← Stage.lift s.firstWallet
  let source ← Stage.lift (genesis.address .x)
  let recipient ← Stage.lift (wallet.address .x)
  let txId ← Stage.call "send to wallet" p.first <| .send
    { user := p.user, sources := [source], changeAddress := source, recipient,
      amount := p.settings.provision.transferAmount, memo := transferMemo }
  p.confirmTx p.first .x txId

/-- Signs a transaction, has it issued by the first node, and waits until it is final everywhere. -/
def issue (what : String) (chain : Chain) (tx : UnsignedTx) (key : SecretKey) : Provisioning Unit := do
  let signed ← Stage.lift ((tx.sign key).mapError Error.encoding)
  let txId ← Stage.call what p.first (.issueTx chain signed.bytes)
  p.confirmTxEverywhere chain txId

def exportImport : Provisioning Unit := do
  let networkId ← Stage.lift p.settings.cluster.networkNumber
  let wallet ← Stage.lift (← get).firstWallet
  let owner ← Stage.lift (wallet.key.owner.mapError Error.encoding)
  let xAddress ← Stage.lift (wallet.address .x)
  let pAddress ← Stage.lift (wallet.address .p)
  let now ← Stage.ask .clock
  let move : Move :=
    { walletName := wallet.name, owner, networkId, assetId := p.view.ids.asset,
      exchangeId := p.view.ids.exchange, amount := p.settings.provision.exportAmount,
      fee := p.settings.provision.fee, now }
  let listed ← Stage.call "list X-chain utxos" p.first (.getUtxos .x [xAddress] none)
  let export_ ← Stage.lift (move.exportTx listed)
  p.issue "export X to P" .x export_ wallet.key
  let arrived ← Stage.await s!"atomic utxos for {pAddress}" p.pace p.first
    (.getUtxos .p [pAddress] (some .x)) move.hasArrived
  let import_ ← Stage.lift (move.importTx arrived)
  p.issue "import X to P" .p import_ wallet.key

end Provisioner

end LocalFleet
