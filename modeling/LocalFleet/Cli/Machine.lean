import LocalFleet.Cli.Command
import LocalFleet.Node.SmokeTest
import LocalFleet.Run.Session
import LocalFleet.Settings.Sources
import LocalFleet.Text.Name

/-! Carrying commands out on a machine: what is printed, what is written, and how the program ends. -/

namespace LocalFleet.Cli

def RunFlags.settings (flags : RunFlags) (env : Settings.Environment) (cwd : Files.Place)
    (t : Files.Tree) : Result Settings := do
  let s ← Settings.load env cwd t
  let s ← match flags.config with
    | some path => s.override path env cwd t
    | none => pure s
  return flags.apply s

/-- What a command finds on the machine. -/
structure Machine where
  files : Files.Tree
  cwd : Files.Place
  environment : Settings.Environment
  tempDir : String
  identity : Nat → Identity
  program : (content : Bytes) → Lifetime
  deliver : (base : String) → Rpc.Request → Rpc.Delivery
  /-- the second since 1970, so many milliseconds after the start of the program -/
  clock : Nat → UInt64
  pid : UInt32
  draw : Nat → Nat
  wallet : (nameLength number : Nat) → Wallet

structure Outcome where
  exitCode : Nat
  output : String
  errors : String
  files : Files.Tree

namespace Machine

variable (m : Machine)

def name (length start : Nat) : String :=
  Name.ofDraws ((List.range length).map fun i => m.draw (start + i))

/-- The end of a command: a failure is told and has an exit code of its own. -/
def finish (files : Files.Tree) : Checked String → Outcome
  | .ok output => ⟨0, output, "", files⟩
  | .error (.failed e) => ⟨1, "", s!"error: {e.message}\n", files⟩
  | .error .overflow => ⟨101, "", "", files⟩

def answer (node : NodeSpec) (c : Call) : Result c.Answer :=
  Except.mapError Error.rpc do
    let request ← Rpc.request? c
    Rpc.receive node.uri request c (m.deliver node.uri request)

/-- Supervised nodes, if they were started, as a fleet. Its nodes are waited for until one ends. -/
def fleet (started : Result (List Supervised)) : Fleet Unit := fun inquiry _ =>
  match inquiry with
  | .launch _ => ⟨0, started.map fun _ => (), ()⟩
  | .waitHealthy =>
    match started.toOption.bind Supervised.awaitEnding with
    | some (latency, e) => ⟨latency, .error e, ()⟩
    | none => ⟨0x10000000000000000, .ok (), ()⟩
  | .listNodes => ⟨0, started.map (·.map Supervised.spec), ()⟩
  | .stop => ⟨0, .ok (), ()⟩
  | .call node c => ⟨0, m.answer node c, ()⟩

def surroundings (fleet : Fleet Unit) : Surroundings Unit := ⟨fleet, m.cwd, m.clock, m.wallet⟩

def world (files : Files.Tree) : World Unit := ⟨0, (), files, [], 0, []⟩

def longest : Nat := 0x20000000000000000

def validated (s : Result Settings) : Checked Settings := do
  let s ← s.checked
  s.validate
  return s

def runSettings (flags : RunFlags) : Checked Settings :=
  validated (flags.settings m.environment m.cwd m.files)

def logsDir (s : Settings) : String :=
  s.cluster.logDir.getD (Path.join m.tempDir ("runnerlogs" ++ m.name 8 0))

def openLog (job : Job) : Files.Tree × Result Unit :=
  match job.prepare m.cwd m.files with
  | (t, .error e) => (t, .error e)
  | (t, .ok ()) =>
    let path := Path.join job.logsDir "runner.log"
    let (t, opened) := Files.appendAt t m.cwd path []
    (t, opened.mapError fun fault => .output (.io path (.system fault)))

def run (flags : RunFlags) : Outcome :=
  match m.runSettings flags with
  | .error h => finish m.files (.error h)
  | .ok settings =>
    let job : Job := ⟨settings, m.logsDir settings, m.pid⟩
    match m.openLog job with
    | (t, .error e) => finish t (.error (.failed e))
    | (t, .ok ()) =>
      match Launch.start job.launchSpec m.cwd m.program m.identity t with
      | (t, .error .overflow) => finish t (.error .overflow)
      | (t, started) =>
        let started := started.mapError fun
          | .failed e => e
          | .overflow => .fatal ""
        let env := m.surroundings (m.fleet started)
        let start := world t
        let (result, session) :=
          (Session.begin env job start).drive env job start none longest
        let ended := session.course.world
        let result := (result.getD (.ok ())).map fun _ => String.join ended.printed
        { finish ended.files (Result.checked result) with output := String.join ended.printed }

def createCerts (dir : String) (nodes : UInt64) : Outcome :=
  let identities := (List.range nodes.toNat).map m.identity
  let (t, certs) := HandRun.writeIdentities m.cwd dir identities m.files
  finish t (Result.checked (certs.map HandRun.certText))

def createScript (spec : HandRun.Spec) : Outcome :=
  let (t, printed) := HandRun.create spec m.cwd m.identity m.files
  finish t printed

def transfer (hosts : List String) (amount : Amount) : Outcome :=
  match validated (Settings.load m.environment m.cwd m.files) with
  | .error h => finish m.files (.error h)
  | .ok settings =>
    let env := m.surroundings (m.fleet (.ok []))
    let hosts := hosts.zipIdx.map fun (uri, i) =>
      SmokeTest.Host.ofUri uri ⟨m.name 10 (10 * i), settings.fixture.password⟩
    let (result, _) := (SmokeTest.Setting.test ⟨env, none, settings⟩ hosts amount).run.run (world m.files)
    finish m.files (result.map fun _ => "")

def perform : Command → Outcome
  | .run flags => m.run flags
  | .createCerts dir nodes => m.createCerts dir nodes
  | .createScript spec => m.createScript spec
  | .transfer hosts amount => m.transfer hosts amount

/-- Carries out what the arguments say; arguments that are not understood have an exit code of their
own. -/
def main (arguments : List String) : Outcome :=
  match Command.parse? arguments with
  | some command => m.perform command
  | none => ⟨2, "", "", m.files⟩

end Machine

end LocalFleet.Cli
