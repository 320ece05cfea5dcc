import LocalFleet.Provision.Confirmation

/-! The subnet and its blockchain: created by the first node, validated by all of them, and waited for
until every node has caught up with it. -/

namespace LocalFleet.Provisioner

variable (p : Provisioner)

def controlAddress : Provisioning String := do
  let genesis ← Stage.lift (← get).genesisWallet
  Stage.lift (genesis.address .p)

def checkSubnet (subnetId : String) : Result Unit :=
  match p.settings.fixture.expectedSubnet with
  | none => .ok ()
  | some expected =>
    if subnetId = expected then .ok () else .error (.fixture (.subnetId subnetId expected))

/-- Creates the subnet; a single signature of its one control key is enough. -/
def createSubnet : Provisioning Unit := do
  let control ← controlAddress
  let subnetId ← Stage.call "create subnet" p.first <| .createSubnet
    { user := p.user, sources := [control], changeAddress := control, controlKeys := [control],
      threshold := 1 }
  Stage.lift (p.checkSubnet subnetId)
  p.view.nodes.forM fun node => do
    p.confirmTx node .p subnetId
    p.confirmSubnet node subnetId
  modify fun s => { s with subnetId := some subnetId }

def secondsAfter (a b : UInt64) : Option UInt64 :=
  if a.toNat + b.toNat < 0x10000000000000000 then some (a + b) else none

/-- The seconds in which a validator that is added now starts and ends; none if they cannot be
counted. -/
def validationTimes (now : UInt64) : Option (UInt64 × UInt64) := do
  let start ← secondsAfter now p.settings.subnet.startDelay
  let end_ ← secondsAfter start p.settings.subnet.duration
  return (start, end_)

/-- Adds every node as a validator, each by a transaction of its own. -/
def addSubnetValidators : Provisioning Unit := do
  let subnetId ← Stage.lift (← get).subnet
  let control ← controlAddress
  p.view.nodes.forM fun node => do
    let now ← Stage.ask .clock
    match p.validationTimes now with
    | none => Stage.overflow
    | some (startTime, endTime) =>
      let txId ← Stage.call "add subnet validator" node <| .addSubnetValidator
        { user := p.user, sources := [control], changeAddress := control, nodeId := node.nodeId,
          subnetId, startTime, endTime, weight := p.settings.subnet.weight }
      p.confirmTx node .p txId

def readGenesis : Provisioning Bytes := do
  let path ← Stage.lift (Provisioned.need "VM genesis" p.settings.subnet.genesisPath)
  let content ← Stage.ask (.readFile path)
  Stage.lift (content.mapError fun cause => .provision (.genesis path cause))

def createBlockchain : Provisioning Unit := do
  let subnetId ← Stage.lift (← get).subnet
  let control ← controlAddress
  let genesis ← p.readGenesis
  let blockchainId ← Stage.call "create blockchain" p.first <| .createBlockchain
    { user := p.user, sources := [control], changeAddress := control, subnetId,
      vmId := p.settings.subnet.vmId, fxIds := [], name := p.settings.subnet.vmName, genesis }
  p.view.nodes.forM fun node => do
    p.confirmTx node .p blockchainId
    p.confirmBlockchain node subnetId blockchainId
  modify fun s => { s with blockchainId := some blockchainId }

def awaitBootstrap : Provisioning Unit := do
  let blockchainId ← Stage.lift (← get).blockchain
  p.view.nodes.forM fun node => p.confirmBootstrapped node blockchainId

end LocalFleet.Provisioner
