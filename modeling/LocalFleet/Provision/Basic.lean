import LocalFleet.Record
import LocalFleet.Run.Plan
import LocalFleet.Settings.Sections

/-! What is provisioned on a healthy fleet, and the record of it. -/

namespace LocalFleet

structure Provisioner where
  settings : Settings
  view : ClusterView

structure Provisioned where
  genesis : Option Wallet := none
  wallets : List Wallet := []
  /-- the extra addresses by node -/
  xSecondary : Table := []
  pSecondary : Table := []
  subnetId : Option String := none
  blockchainId : Option String := none
  deriving DecidableEq, Repr

/-- A part of provisioning. -/
abbrev Provisioning (α : Type) := Stage Provisioned α

namespace Provisioned

def missing (what : String) : Error := .provision (.missing what)

def need {α : Type} (what : String) : Option α → Result α
  | some a => .ok a
  | none => .error (missing what)

def genesisWallet (s : Provisioned) : Result Wallet := need "genesis wallet" s.genesis

def firstWallet (s : Provisioned) : Result Wallet := need "wallet pool" s.wallets.head?

def subnet (s : Provisioned) : Result String := need "subnet" s.subnetId

def blockchain (s : Provisioned) : Result String := need "blockchain" s.blockchainId

def addSecondary (s : Provisioned) (chain : Chain) (node address : String) : Provisioned :=
  match chain with
  | .x => { s with xSecondary := s.xSecondary.insert node address }
  | _ => { s with pSecondary := s.pSecondary.insert node address }

def endpoint (blockchainId : String) : String := "/ext/bc/" ++ blockchainId

/-- The record of everything provisioned so far; there has to be a funded wallet. -/
def record (s : Provisioned) (view : ClusterView) (pid : UInt32) (logsDir : String) :
    Result ClusterRecord := do
  let genesis ← s.genesisWallet
  return {
    uris := view.uris
    endpoint := s.blockchainId.map endpoint
    pid
    logsDir
    xChainSecondary := s.xSecondary
    pChainSecondary := s.pSecondary
    genesisWallet := .ofWallet genesis
    wallets := s.wallets.map .ofWallet }

end Provisioned

namespace Provisioner

variable (p : Provisioner)

/-- The user of every key store. -/
def user : Credentials := ⟨p.settings.fixture.username, p.settings.fixture.password⟩

/-- How often and how long a confirmation is waited for. -/
def pace : Pace := ⟨p.settings.poll.checkIntervalMs.toNat, p.settings.poll.confirmTimeoutMs.toNat⟩

def first : NodeSpec := p.view.first

/-- The chains on which keys have listed addresses. -/
def listedChains : List Chain := [.x, .p]

end Provisioner

end LocalFleet
