import LocalFleet.Provision.Basic

/-! Confirmations: each asks a single node the same question until the answer shows what is waited
for. Answers that do not, errors included, are waited out. -/

namespace LocalFleet.Provisioner

variable {σ : Type} (p : Provisioner)

def confirm (what : String) (node : NodeSpec) (c : Call) (enough : c.Answer → Bool) : Stage σ Unit := do
  let _ ← Stage.await what p.pace node c enough

/-- Waits until a transaction has the final status of its chain on a node. -/
def confirmTx (node : NodeSpec) (chain : Chain) (txId : String) : Stage σ Unit :=
  p.confirm s!"{chain}-chain tx {txId} on {node.name}" node (.getTxStatus chain txId)
    fun (status : TxStatus) => status = chain.finalStatus

def confirmTxEverywhere (chain : Chain) (txId : String) : Stage σ Unit :=
  p.view.nodes.forM fun node => p.confirmTx node chain txId

def confirmAddress (node : NodeSpec) (chain : Chain) (address : String) : Stage σ Unit :=
  p.confirm s!"{chain}-chain address {address} on {node.name}" node (.listAddresses chain p.user)
    fun (listed : List String) => listed.contains address

def confirmSubnet (node : NodeSpec) (subnetId : String) : Stage σ Unit :=
  p.confirm s!"subnet {subnetId} on {node.name}" node .getSubnets
    fun (subnets : List Subnet) => subnets.any (·.id = subnetId)

/-- Waits until a node lists a blockchain under its subnet, and then until it validates it. -/
def confirmBlockchain (node : NodeSpec) (subnetId blockchainId : String) : Stage σ Unit := do
  p.confirm s!"blockchain {blockchainId} listed on {node.name}" node .getBlockchains
    fun (chains : List Blockchain) => chains.any fun b => b.id = blockchainId ∧ b.subnetId = subnetId
  p.confirm s!"blockchain {blockchainId} validating on {node.name}" node
    (.getBlockchainStatus blockchainId)
    fun (status : BlockchainStatus) => status = .validating

def confirmBootstrapped (node : NodeSpec) (chain : String) : Stage σ Unit :=
  p.confirm s!"{chain} bootstrapped on {node.name}" node (.isBootstrapped chain)
    fun (answer : Bool) => answer

end LocalFleet.Provisioner
