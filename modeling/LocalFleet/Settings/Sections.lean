import LocalFleet.Error
import LocalFleet.Ledger.SecretKey
import LocalFleet.Ledger.Wallet
import LocalFleet.Text.Decimal
import LocalFleet.Text.Quoted

/-! The settings of a run in their sections, what each section demands of its values, and the values
that follow from them. -/

namespace LocalFleet

structure ClusterSettings where
  nodeCount : UInt64 := 5
  binary : String := "avalanchego"
  /-- without it, logs go to a fresh temporary directory -/
  logDir : Option String := none
  portBase : UInt16 := 9650
  /-- `local`, `mainnet`, `fuji` or a number -/
  networkId : String := "local"
  logLevel : String := "INFO"
  rpcTimeoutMs : UInt64 := 10000
  deriving DecidableEq, Repr

structure PollSettings where
  checkIntervalMs : UInt64 := 1000
  confirmTimeoutMs : UInt64 := 60000
  healthTimeoutMs : UInt64 := 120000
  deriving DecidableEq, Repr

structure FixtureSettings where
  username : String := "testuser"
  password : String := "testinsecurerandomvmavax"
  genesisKey : String := "PrivateKey-ewoqjP7PxY4yr3iLTpLisriqt94hdyDFNgchSxGGztUrTXtNN"
  expected : PerChain String :=
    ⟨"X-custom18jma8ppw3nhx5r4ap8clazz0dps7rv5u9xde7p",
     "P-custom18jma8ppw3nhx5r4ap8clazz0dps7rv5u9xde7p",
     "0x8db97C7cEcE249c2b98bDC0226Cc4C2A57BF52FC"⟩
  subnetId : Option String := some "24tZhrm8j8GCJRE9PomW8FaeqbgGS4UAQjJnqqn8pq5NwYSYV1"
  deriving DecidableEq, Repr

structure ProvisionSettings where
  walletCount : UInt64 := 5
  nameLength : UInt64 := 10
  /-- sent from the funded key to the first wallet -/
  transferAmount : Amount := 100000000000000
  /-- moved by the first wallet from the exchange chain to the platform chain -/
  exportAmount : Amount := 50000000000000
  fee : Amount := 1000000
  deriving DecidableEq, Repr

/-- The subnet and the blockchain that are created at the end, if there is something to run on
it. -/
structure SubnetSettings where
  vmName : String := "timestampvm"
  vmId : String := "tGas3T58KzdjLHhBDMnH2TvrddhqTji5iZAMZ3RXs2NLpSnhH"
  genesisPath : Option String := none
  weight : UInt64 := 50
  /-- seconds from the request to the start of validation -/
  startDelay : UInt64 := 30
  /-- seconds -/
  duration : UInt64 := 2592000
  deriving DecidableEq, Repr

/-- Where the record of the cluster goes; nowhere without a path. -/
structure OutputSettings where
  path : Option String := none
  deriving DecidableEq, Repr

structure Settings where
  cluster : ClusterSettings := {}
  poll : PollSettings := {}
  fixture : FixtureSettings := {}
  provision : ProvisionSettings := {}
  subnet : SubnetSettings := {}
  output : OutputSettings := {}
  deriving DecidableEq, Repr

def demand (condition : Bool) (reason : String) : Checked Unit :=
  if condition then .ok () else .error (.failed (.invalidSettings reason))

namespace ClusterSettings

def networkNumber (s : ClusterSettings) : Result UInt32 :=
  if s.networkId = "local" then .ok 1337
  else if s.networkId = "mainnet" then .ok 1
  else if s.networkId = "fuji" then .ok 5
  else match Decimal.word? 32 s.networkId.toList with
    | some n => .ok (.ofNat n)
    | none => .error (.invalidSettings ("unknown network_id " ++ Quoted.text s.networkId))

/-- The port after the last one of the fleet, in arithmetic of sixty-four bits. -/
def portEnd? (s : ClusterSettings) : Option Nat :=
  let last := s.portBase.toNat + s.nodeCount.toNat * 2
  if last < 0x10000000000000000 then some last else none

def validate (s : ClusterSettings) : Checked Unit := do
  demand (s.nodeCount ≠ 0) "node_count must be at least 1"
  let some last := s.portEnd? | throw .overflow
  demand (s.portBase ≠ 0 && last ≤ 65535)
    s!"http_port_base {s.portBase} cannot host {s.nodeCount} nodes"
  demand (s.binary ≠ "") "avalanchego_path cannot be empty"
  demand (s.rpcTimeoutMs ≠ 0) "rpc_timeout_ms must be > 0"
  let _ ← s.networkNumber.checked

def port? (n : Nat) : Option UInt16 := if n < 0x10000 then some (.ofNat n) else none

/-- The port on which a node serves requests: each node takes two ports. Only the low sixteen bits of
the index count. -/
def httpPort? (s : ClusterSettings) (index : Nat) : Option UInt16 := do
  let offset ← port? (index % 0x10000 * 2)
  port? (s.portBase.toNat + offset.toNat)

def stakingPort? (s : ClusterSettings) (index : Nat) : Option UInt16 := do
  let http ← s.httpPort? index
  port? (http.toNat + 1)

end ClusterSettings

namespace PollSettings

def validate (s : PollSettings) : Checked Unit := do
  demand (s.checkIntervalMs ≠ 0) "check_interval_ms must be > 0"
  demand (s.checkIntervalMs ≤ s.confirmTimeoutMs)
    (s!"tx_confirm_timeout_ms ({s.confirmTimeoutMs}) must not be shorter than "
      ++ s!"check_interval_ms ({s.checkIntervalMs})")
  demand (s.healthTimeoutMs ≠ 0) "health_timeout_ms must be > 0"

end PollSettings

namespace FixtureSettings

def validate (s : FixtureSettings) : Checked Unit := do
  demand (s.username ≠ "" && s.password ≠ "") "fixture username and password cannot be empty"
  demand (Text.startsWith SecretKey.head.toList s.genesisKey.toList)
    ("genesis_private_key must start with " ++ SecretKey.head)
  for chain in Chain.all do
    demand (s.expected.get chain ≠ "") s!"expected {chain}-chain address cannot be empty"

/-- The id that the created subnet must have and that every node follows; an empty one asks for
neither. -/
def expectedSubnet (s : FixtureSettings) : Option String := s.subnetId.filter (· ≠ "")

end FixtureSettings

namespace ProvisionSettings

def validate (s : ProvisionSettings) : Checked Unit := do
  demand (s.walletCount ≠ 0)
    "wallet_count must be at least 1 (transfers target the first wallet)"
  demand (s.nameLength ≠ 0) "wallet_name_len must be > 0"
  demand (s.transferAmount ≠ 0) "transfer_amount must be > 0"
  demand (s.exportAmount.addCapped s.fee < s.transferAmount)
    (s!"export_amount ({s.exportAmount}) plus tx_fee ({s.fee}) must stay below "
      ++ s!"transfer_amount ({s.transferAmount})")

end ProvisionSettings

namespace SubnetSettings

def enabled (s : SubnetSettings) : Bool := s.vmId ≠ "" && s.genesisPath.isSome

def validate (s : SubnetSettings) : Checked Unit := do
  if s.enabled then
    demand (s.vmName ≠ "") "vm_name is required when a subnet is provisioned"
    demand (s.weight ≠ 0) "validator_weight must be > 0"
    demand (s.duration ≠ 0) "validator_duration_secs must be > 0"

end SubnetSettings

namespace OutputSettings

/-- Whether a path ends in the name of something: the last piece that is neither empty nor a dot is
there and is not the directory above. -/
def namesSomething (path : String) : Bool :=
  let pieces := (Text.splitOn '/' path.toList).filter fun piece => piece ≠ [] ∧ piece ≠ ['.']
  match pieces.getLast? with
  | none => false
  | some piece => piece ≠ ['.', '.']

def validate (s : OutputSettings) : Checked Unit :=
  match s.path with
  | none => .ok ()
  | some path => demand (namesSomething path) s!"output path {path} must name a file"

end OutputSettings

namespace Settings

/-- Every section in turn; the first that refuses its values decides. -/
def validate (s : Settings) : Checked Unit := do
  s.cluster.validate
  s.poll.validate
  s.fixture.validate
  s.provision.validate
  s.subnet.validate
  s.output.validate

end Settings

end LocalFleet
