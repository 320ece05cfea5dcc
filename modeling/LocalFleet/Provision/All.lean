import LocalFleet.Provision.Keys
import LocalFleet.Provision.Subnet
import LocalFleet.Provision.Transfer

/-! All of provisioning, in order. Before each part it is asked whether the run may go on. -/

namespace LocalFleet.Provisioner

variable (p : Provisioner)

def funding : Provisioning Unit := do
  Stage.checkpoint "create keystore users"
  p.createUsers
  Stage.checkpoint "fund from genesis key"
  p.fundFromGenesis
  Stage.checkpoint "create secondary addresses"
  p.createSecondaryAddresses
  Stage.checkpoint "create wallets"
  p.createWallets
  Stage.checkpoint "transfer to wallet"
  p.transferToWallet
  Stage.checkpoint "export and import"
  p.exportImport
  p.refreshBalances

def subnetwork : Provisioning Unit := do
  Stage.checkpoint "create subnet"
  p.createSubnet
  Stage.checkpoint "add subnet validators"
  p.addSubnetValidators
  Stage.checkpoint "create blockchain"
  p.createBlockchain
  Stage.checkpoint "wait for blockchain bootstrap"
  p.awaitBootstrap

def all : Provisioning Unit := do
  p.funding
  if p.settings.subnet.enabled then p.subnetwork

end LocalFleet.Provisioner
