import LocalFleet.Run.Timed
import LocalFleet.Settings.Sections

/-! A test of running nodes: each gets the funded key, has to map it to the expected addresses with
the balances of a fresh network, and then transfers to a new address. Single calls are waited for to
their end; repeated ones are given up when the test is stopped. -/

namespace LocalFleet.SmokeTest

variable {σ : Type}

abbrev Part (σ α : Type) := ExceptT Halt (StateM (World σ)) α

structure Host where
  node : NodeSpec
  user : Credentials
  deriving DecidableEq, Repr

def Host.ofUri (uri : String) (user : Credentials) : Host := ⟨⟨uri, "", uri⟩, user⟩

/-- What the funded key holds on a fresh network. -/
def freshBalance : Chain → Amount
  | .x => 300000000000000000
  | .p => 30000000000000000
  | .c => 0

structure Setting (σ : Type) where
  env : Surroundings σ
  stopAt : Option Nat
  settings : Settings

namespace Setting

variable (s : Setting σ)

def call (host : Host) (c : Call) : Part σ c.Answer := fun w =>
  let (r, w) := s.env.uninterrupted (.call host.node c) w
  (r.checked, w)

def await (what : String) (host : Host) (c : Call) (enough : c.Answer → Bool) : Part σ Unit := fun w =>
  let pace : Pace :=
    ⟨s.settings.poll.checkIntervalMs.toNat, s.settings.poll.confirmTimeoutMs.toNat⟩
  match Poll.run pace s.stopAt (s.env.attempt host.node c enough) w.now w with
  | none => (.error .overflow, w)
  | some ending =>
    (Result.checked ((ending.outcome.toResult what).map fun _ => ()),
      { ending.state with now := ending.time })

def importKey (host : Host) (chain : Chain) : Part σ Unit := do
  let expected := s.settings.fixture.expected.get chain
  let address ← s.call host (.importKey chain host.user s.settings.fixture.genesisKey)
  if address ≠ expected then
    throw (.failed (.fixture (.genesisAddress chain host.node.name address expected)))
  if chain ≠ .c then
    s.await s!"{chain}-chain address on {host.node.uri}" host (.listAddresses chain host.user)
      fun (listed : List String) => listed.contains expected

def checkBalance (host : Host) (chain : Chain) : Part σ Unit := do
  let balance ← s.call host (.getBalance chain (s.settings.fixture.expected.get chain))
  let expected := freshBalance chain
  if balance ≠ expected then
    throw (.failed (.fatal (s!"unexpected {chain}-chain genesis balance {balance} on "
      ++ s!"{host.node.uri} (expected {expected})")))

def prepare (host : Host) : Part σ Unit := do
  s.call host (.createUser host.user)
  Chain.all.forM (s.importKey host)
  [Chain.x, Chain.p].forM (s.checkBalance host)

/-- A transfer to a new address of the host, which has to arrive. -/
def transfer (amount : Amount) (host : Host) : Part σ Unit := do
  let recipient ← s.call host (.createAddress .x host.user)
  let source := s.settings.fixture.expected.x
  let txId ← s.call host <| .send
    { user := host.user, sources := [source], changeAddress := source, recipient, amount,
      memo := "" }
  s.await s!"transfer {txId} on {host.node.uri}" host (.getTxStatus .x txId)
    fun (status : TxStatus) => status = Chain.x.finalStatus
  s.await s!"balance of {recipient}" host (.getBalance .x recipient)
    fun (balance : Amount) => decide (balance ≥ amount)

/-- The whole test: first every host is prepared, then each makes its transfer. -/
def test (hosts : List Host) (amount : Amount) : Part σ Unit := do
  hosts.forM s.prepare
  hosts.forM (s.transfer amount)

end Setting

end LocalFleet.SmokeTest
