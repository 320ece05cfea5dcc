import LocalFleet.Settings.Sections

/-! Settings in words. What is secret is withheld: the settings as a whole show neither the fixture nor
the amounts, and the fixture shows neither its password nor its key. -/

namespace LocalFleet

/-- Named parts of something, each already in words. -/
def shownParts (name : String) (parts : List (String × String)) (withheld : Bool) : String :=
  name ++ " \x7b " ++ ", ".intercalate (parts.map fun (part, value) => part ++ ": " ++ value)
    ++ (if withheld then ", .. \x7d" else " \x7d")

def ClusterSettings.shown (s : ClusterSettings) : String :=
  shownParts "ClusterConfig"
    [("node_count", toString s.nodeCount), ("avalanchego_path", Quoted.text s.binary),
     ("log_dir", Quoted.option s.logDir), ("http_port_base", toString s.portBase),
     ("network_id", Quoted.text s.networkId), ("node_log_level", Quoted.text s.logLevel),
     ("rpc_timeout_ms", toString s.rpcTimeoutMs)] false

def PollSettings.shown (s : PollSettings) : String :=
  shownParts "PollConfig"
    [("check_interval_ms", toString s.checkIntervalMs),
     ("tx_confirm_timeout_ms", toString s.confirmTimeoutMs),
     ("health_timeout_ms", toString s.healthTimeoutMs)] false

def FixtureSettings.shown (s : FixtureSettings) : String :=
  shownParts "FixtureConfig"
    [("username", Quoted.text s.username), ("expected_x_address", Quoted.text s.expected.x),
     ("expected_p_address", Quoted.text s.expected.p),
     ("expected_c_address", Quoted.text s.expected.c),
     ("expected_subnet_id", Quoted.option s.subnetId)] true

def ProvisionSettings.shown (s : ProvisionSettings) : String :=
  shownParts "ProvisionConfig"
    [("wallet_count", toString s.walletCount), ("wallet_name_len", toString s.nameLength),
     ("transfer_amount", toString s.transferAmount), ("export_amount", toString s.exportAmount),
     ("tx_fee", toString s.fee)] false

def SubnetSettings.shown (s : SubnetSettings) : String :=
  shownParts "SubnetConfig"
    [("vm_name", Quoted.text s.vmName), ("vm_id", Quoted.text s.vmId),
     ("genesis_path", Quoted.option s.genesisPath), ("validator_weight", toString s.weight),
     ("validator_start_delay_secs", toString s.startDelay),
     ("validator_duration_secs", toString s.duration)] false

def OutputSettings.shown (s : OutputSettings) : String :=
  shownParts "OutputConfig" [("path", Quoted.option s.path)] false

def Settings.shown (s : Settings) : String :=
  shownParts "RunnerConfig"
    [("cluster", s.cluster.shown), ("poll", s.poll.shown), ("subnet", s.subnet.shown),
     ("output", s.output.shown)] false

end LocalFleet
