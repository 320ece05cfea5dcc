import LocalFleet.Settings.Layer
import LocalFleet.Settings.Sections

/-! Settings as a layer and back. Every setting has a name in its section; one that a layer does not
mention keeps its default. -/

namespace LocalFleet

namespace Settings

/-- What a section is read from: its values in the order of the names, where they are given. A list
gives them in this order from the first on. -/
def given (names : List String) : Item → Option (List (Option Item))
  | .table ms => some (names.map (Members.find? ms))
  | .list items => some (names.mapIdx fun i _ => items[i]?)
  | _ => none

def take {α : Type} (read : Item → Option α) (unset : α) : Option Item → Option α
  | none => some unset
  | some v => read v

def word (unset : UInt64) : Option Item → Option UInt64 :=
  take (fun v => v.word?.map UInt64.ofNat) unset

def port (unset : UInt16) : Option Item → Option UInt16 :=
  take (fun v => (v.word?.filter (· < 0x10000)).map UInt16.ofNat) unset

def text (unset : String) : Option Item → Option String := take Item.text? unset

def optionalText (unset : Option String) : Option Item → Option (Option String) :=
  take (fun
    | .absent => some none
    | v => v.text?.map some) unset

def ofWord (v : UInt64) : Item := .int v.toNat

def ofOptional (v : Option String) : Item := (v.map Item.text).getD .absent

end Settings

open Settings

namespace ClusterSettings

def names : List String :=
  ["node_count", "avalanchego_path", "log_dir", "http_port_base", "network_id", "node_log_level",
   "rpc_timeout_ms"]

def toItem (s : ClusterSettings) : Item :=
  .table (names.zip [ofWord s.nodeCount, .text s.binary, ofOptional s.logDir,
    .int s.portBase.toNat, .text s.networkId, .text s.logLevel, ofWord s.rpcTimeoutMs])

def ofItem? (v : Item) : Option ClusterSettings := do
  let unset : ClusterSettings := {}
  let [count, binary, logs, base, network, level, timeout] ← given names v | none
  return {
    nodeCount := ← word unset.nodeCount count
    binary := ← text unset.binary binary
    logDir := ← optionalText unset.logDir logs
    portBase := ← port unset.portBase base
    networkId := ← text unset.networkId network
    logLevel := ← text unset.logLevel level
    rpcTimeoutMs := ← word unset.rpcTimeoutMs timeout }

end ClusterSettings

namespace PollSettings

def names : List String := ["check_interval_ms", "tx_confirm_timeout_ms", "health_timeout_ms"]

def toItem (s : PollSettings) : Item :=
  .table (names.zip [ofWord s.checkIntervalMs, ofWord s.confirmTimeoutMs, ofWord s.healthTimeoutMs])

def ofItem? (v : Item) : Option PollSettings := do
  let unset : PollSettings := {}
  let [interval, confirm, health] ← given names v | none
  return {
    checkIntervalMs := ← word unset.checkIntervalMs interval
    confirmTimeoutMs := ← word unset.confirmTimeoutMs confirm
    healthTimeoutMs := ← word unset.healthTimeoutMs health }

end PollSettings

namespace FixtureSettings

def names : List String :=
  ["username", "password", "genesis_private_key", "expected_x_address", "expected_p_address",
   "expected_c_address", "expected_subnet_id"]

def toItem (s : FixtureSettings) : Item :=
  .table (names.zip [.text s.username, .text s.password, .text s.genesisKey, .text s.expected.x,
    .text s.expected.p, .text s.expected.c, ofOptional s.subnetId])

def ofItem? (v : Item) : Option FixtureSettings := do
  let unset : FixtureSettings := {}
  let [username, password, key, x, p, c, subnet] ← given names v | none
  return {
    username := ← text unset.username username
    password := ← text unset.password password
    genesisKey := ← text unset.genesisKey key
    expected := ⟨← text unset.expected.x x, ← text unset.expected.p p, ← text unset.expected.c c⟩
    subnetId := ← optionalText unset.subnetId subnet }

end FixtureSettings

namespace ProvisionSettings

def names : List String :=
  ["wallet_count", "wallet_name_len", "transfer_amount", "export_amount", "tx_fee"]

def toItem (s : ProvisionSettings) : Item :=
  .table (names.zip [ofWord s.walletCount, ofWord s.nameLength, ofWord s.transferAmount,
    ofWord s.exportAmount, ofWord s.fee])

def ofItem? (v : Item) : Option ProvisionSettings := do
  let unset : ProvisionSettings := {}
  let [count, length, transfer, moved, fee] ← given names v | none
  return {
    walletCount := ← word unset.walletCount count
    nameLength := ← word unset.nameLength length
    transferAmount := ← word unset.transferAmount transfer
    exportAmount := ← word unset.exportAmount moved
    fee := ← word unset.fee fee }

end ProvisionSettings

namespace SubnetSettings

def names : List String :=
  ["vm_name", "vm_id", "genesis_path", "validator_weight", "validator_start_delay_secs",
   "validator_duration_secs"]

def toItem (s : SubnetSettings) : Item :=
  .table (names.zip [.text s.vmName, .text s.vmId, ofOptional s.genesisPath, ofWord s.weight,
    ofWord s.startDelay, ofWord s.duration])

def ofItem? (v : Item) : Option SubnetSettings := do
  let unset : SubnetSettings := {}
  let [name, id, genesis, weight, delay, duration] ← given names v | none
  return {
    vmName := ← text unset.vmName name
    vmId := ← text unset.vmId id
    genesisPath := ← optionalText unset.genesisPath genesis
    weight := ← word unset.weight weight
    startDelay := ← word unset.startDelay delay
    duration := ← word unset.duration duration }

end SubnetSettings

namespace OutputSettings

def names : List String := ["path"]

def toItem (s : OutputSettings) : Item := .table (names.zip [ofOptional s.path])

def ofItem? (v : Item) : Option OutputSettings := do
  let [path] ← given names v | none
  return { path := ← optionalText none path }

end OutputSettings

namespace Settings

def sections : List String := ["cluster", "poll", "fixture", "provision", "subnet", "output"]

def toItem (s : Settings) : Item :=
  .table (sections.zip [s.cluster.toItem, s.poll.toItem, s.fixture.toItem, s.provision.toItem,
    s.subnet.toItem, s.output.toItem])

def ofItem? (v : Item) : Option Settings := do
  let [cluster, poll, fixture, provision, subnet, output] ← given sections v | none
  return {
    cluster := ← take ClusterSettings.ofItem? {} cluster
    poll := ← take PollSettings.ofItem? {} poll
    fixture := ← take FixtureSettings.ofItem? {} fixture
    provision := ← take ProvisionSettings.ofItem? {} provision
    subnet := ← take SubnetSettings.ofItem? {} subnet
    output := ← take OutputSettings.ofItem? {} output }

end Settings

end LocalFleet
