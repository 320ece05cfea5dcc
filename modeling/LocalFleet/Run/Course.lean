import LocalFleet.Provision.All
import LocalFleet.Run.Health

/-! The course of a run: it launches the fleet, waits for it, provisions it and writes the record. -/

namespace LocalFleet

structure Job where
  settings : Settings
  logsDir : String
  pid : UInt32
  deriving DecidableEq, Repr

namespace Job

variable (j : Job)

def prepare (cwd : Files.Place) (t : Files.Tree) : Files.Tree × Result Unit :=
  let (t, made) := Files.createDirAll t (Files.place cwd j.logsDir)
  (t, made.mapError fun fault => .output (.io j.logsDir (.system fault)))

/-- What the fleet is started from. Every node follows the expected subnet. -/
def launchSpec : LaunchSpec where
  nodeCount := j.settings.cluster.nodeCount
  binary := j.settings.cluster.binary
  logsDir := j.logsDir
  portBase := j.settings.cluster.portBase
  networkId := j.settings.cluster.networkId
  logLevel := j.settings.cluster.logLevel
  subnets := j.settings.fixture.expectedSubnet.toList
  rpcTimeoutMs := j.settings.cluster.rpcTimeoutMs

def launch : Stage Unit Unit := do
  Stage.ask (.enter .starting)
  Stage.ofResult (.question (.launch j.launchSpec))
  Stage.ask .install
  Stage.checkpoint "launch"

def provision (view : ClusterView) : Stage Unit ClusterRecord := do
  Stage.ask (.enter .provisioning)
  let (result, provisioned) ← Stage.on {} (Provisioner.all ⟨j.settings, view⟩)
  Stage.lift result
  Stage.checkpoint "provisioning"
  Stage.ask (.enter .writingOutput)
  Stage.lift (provisioned.record view j.pid j.logsDir)

/-- Writes the record where the settings say, if they do. -/
def publish (record : ClusterRecord) : Stage Unit Unit :=
  match j.settings.output.path with
  | none => pure ()
  | some path => Stage.ofResult (.question (.publish path record))

/-- The run up to its end or its first error. -/
def stages : Stage Unit Unit := do
  j.launch
  Stage.ask (.enter .waitingHealthy)
  let view ← Health.wait j.settings.poll.healthTimeoutMs
  let record ← j.provision view
  j.publish record
  Stage.ask (.enter .done)

/-- The whole run. One that fails is aborted, and its error reported. -/
def course : Plan Unit := do
  let (result, _) ← j.stages.run.run ()
  match result with
  | .ok () => pure ()
  | .error e =>
    Plan.question (.enter .aborting)
    Plan.question (.report e)

end Job

end LocalFleet
