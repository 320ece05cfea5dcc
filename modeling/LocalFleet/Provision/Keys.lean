import LocalFleet.Provision.Confirmation

/-! Users, keys and addresses: the user of every key store, the funded key, the extra addresses of the
nodes, and the pool of wallets. Every node has to map a key to the same address. -/

namespace LocalFleet.Provisioner

variable {σ : Type} (p : Provisioner)

def createUsers : Provisioning Unit :=
  p.view.nodes.forM fun node => Stage.call "create keystore user" node (.createUser p.user)

/-- Reads the balance on every chain from the first node. -/
def readBalances : Stage Wallet Unit :=
  Chain.all.forM fun chain => do
    let address ← Stage.lift ((← get).address chain)
    let balance ← Stage.call "fetch balance" p.first (.getBalance chain address)
    modify (·.setBalance chain balance)

def confirmAddresses : Stage Wallet Unit :=
  p.view.nodes.forM fun node => listedChains.forM fun chain => do
    let address ← Stage.lift ((← get).address chain)
    p.confirmAddress node chain address

/-- The name of the funded wallet. -/
def genesisName : String := "ewoq"

/-- Gives the funded key to every node, which has to answer with the expected address. -/
def importGenesis : Stage Wallet Unit :=
  p.view.nodes.forM fun node => Chain.all.forM fun chain => do
    let key := (← get).key.encoded
    let address ← Stage.call "import genesis key" node (.importKey chain p.user key)
    let expected := p.settings.fixture.expected.get chain
    if address ≠ expected then
      throw (.fixture (.genesisAddress chain node.name address expected))
    modify (·.setAddress chain address)

/-- Makes the funded wallet; it is kept only when it is on every node and its balances are read. -/
def fundFromGenesis : Provisioning Unit := do
  let key ← Stage.lift
    ((SecretKey.ofEncoded p.settings.fixture.genesisKey).mapError Error.encoding)
  let (result, wallet) ← Stage.on (Wallet.new genesisName key) do
    p.importGenesis
    p.confirmAddresses
    p.readBalances
  Stage.lift result
  modify fun s => { s with genesis := some wallet }

def createSecondaryAddresses : Provisioning Unit :=
  p.view.nodes.forM fun node => listedChains.forM fun chain => do
    let address ← Stage.call "create address" node (.createAddress chain p.user)
    p.confirmAddress node chain address
    modify (·.addSecondary chain node.name address)

/-- Gives the key of a wallet to a node for a chain. The first answer for a chain is the address there,
and every other has to agree. -/
def importKey (node : NodeSpec) (chain : Chain) : Stage Wallet Unit := do
  let wallet ← get
  let address ← Stage.call "import wallet key" node (.importKey chain p.user wallet.key.encoded)
  match wallet.knownAddress chain with
  | none => modify (·.setAddress chain address)
  | some known =>
    if known ≠ address then
      throw (.fixture (.walletAddress wallet.name chain node.name address known))

def importWallet : Stage Wallet Unit :=
  p.view.nodes.forM fun node => Chain.all.forM (p.importKey node)

/-- Makes the pool of wallets; it is kept only when all of them are on every node. -/
def createWallets : Provisioning Unit := do
  let provision := p.settings.provision
  let fresh ← Stage.ask (.newWallets provision.walletCount.toNat provision.nameLength.toNat)
  let (result, imported) ← Stage.ofPlan (Stage.each p.importWallet fresh)
  Stage.lift result
  let (result, confirmed) ← Stage.ofPlan (Stage.each p.confirmAddresses imported)
  Stage.lift result
  let (result, wallets) ← Stage.ofPlan (Stage.each p.readBalances confirmed)
  Stage.lift result
  modify fun s => { s with wallets }

/-- Reads the balances of the funded wallet and of every wallet of the pool again. The funded wallet
is replaced as a whole, the pool wallet by wallet. -/
def refreshBalances : Provisioning Unit := do
  let genesis ← Stage.lift (← get).genesisWallet
  let (result, genesis) ← Stage.on genesis p.readBalances
  Stage.lift result
  modify fun s => { s with genesis := some genesis }
  let (result, wallets) ← Stage.ofPlan (Stage.each p.readBalances (← get).wallets)
  modify fun s => { s with wallets }
  Stage.lift result

end LocalFleet.Provisioner
