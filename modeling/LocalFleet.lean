import LocalFleet.Main
import LocalFleet.Ledger.SignedTx
import LocalFleet.Rehearsal.Fleet
import LocalFleet.Rehearsal.Stub
import LocalFleet.Settings.Shown
import LocalFleet.Proofs.Ledger.Signing
import LocalFleet.Proofs.Ledger.Spelling
import LocalFleet.Proofs.Ledger.Spending
import LocalFleet.Proofs.Provision.Affordable
import LocalFleet.Proofs.Provision.Conservation
import LocalFleet.Proofs.Provision.Order
import LocalFleet.Proofs.Run.Drive
import LocalFleet.Proofs.Run.Orderly
import LocalFleet.Proofs.Run.Stopping
import LocalFleet.Proofs.Settings.Priority
import LocalFleet.Proofs.Record.Saved
import LocalFleet.Proofs.Files.Tree
import LocalFleet.Proofs.Provision.Recorded
import LocalFleet.Proofs.Run.Interruption
import LocalFleet.Proofs.Node.Shell
import LocalFleet.Proofs.Settings.Spelling
import LocalFleet.Proofs.Ledger.Canonical
import LocalFleet.Proofs.Ledger.Covering
import LocalFleet.Proofs.Provision.Refusal
import LocalFleet.Proofs.Node.Shape
import LocalFleet.Proofs.Ledger.Listing
import LocalFleet.Proofs.Node.Ports
import LocalFleet.Proofs.Provision.Imports
import LocalFleet.Proofs.Provision.Validators
import LocalFleet.Proofs.Provision.GenesisKey
import LocalFleet.Proofs.Node.Subnets
import LocalFleet.Proofs.Node.ContractBalance
import LocalFleet.Proofs.Endings
import LocalFleet.Proofs.Provision.Refresh
import LocalFleet.Proofs.Run.Health
import LocalFleet.Proofs.Codec.Operations
