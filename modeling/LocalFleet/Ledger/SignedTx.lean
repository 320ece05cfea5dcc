import LocalFleet.Ledger.Transaction

/-! Reading signed transactions: the unsigned part from the front, then the credentials. -/

namespace LocalFleet

open Codec

/-- A reading program that refuses without a cause. -/
abbrev Scan (α : Type) := Read Unit α

def Scan.expect (n : UInt32) : Scan Unit := do
  let found ← Read.u32
  if found ≠ n then Read.refuse ()

/-- What a scan makes of a byte string from its front: a value, and how many bytes it took. -/
def Scan.front? {α : Type} (scan : Scan α) (bytes : Bytes) : Option (α × Nat) :=
  match scan.run (fun _ => ()) (.start bytes) with
  | .ok (a, r) => some (a, r.pos)
  | .error _ => none

def Scan.whole? {α : Type} (scan : Scan α) (bytes : Bytes) : Option α :=
  match scan.front? bytes with
  | some (a, n) => if n = bytes.length then some a else none
  | none => none

def TransferOutput.read : Scan TransferOutput := do
  let assetId ← Read.octets 32
  Scan.expect Utxo.transferType
  let amount ← Read.u64
  let locktime ← Read.u64
  let threshold ← Read.u32
  let owners ← Read.list (Read.octets 20)
  return ⟨assetId, amount, locktime, threshold, owners⟩

def TransferInput.read : Scan TransferInput := do
  let txId ← Read.octets 32
  let outputIndex ← Read.u32
  let assetId ← Read.octets 32
  Scan.expect TransferInput.transferType
  let amount ← Read.u64
  let signers ← Read.list Read.u32
  return ⟨txId, outputIndex, assetId, amount, signers⟩

namespace UnsignedTx

def read : Scan UnsignedTx := do
  let version ← Read.u16
  if version ≠ Codec.version then Read.refuse ()
  let type ← Read.u32
  let networkId ← Read.u32
  let blockchainId ← Read.octets 32
  let outputs ← Read.list TransferOutput.read
  let inputs ← Read.list TransferInput.read
  let memoLength ← Read.u32
  let memo ← Read.octets memoLength.toNat
  let other ← Read.octets 32
  let base : BaseTx := ⟨networkId, blockchainId, outputs, inputs, memo.val⟩
  if type = 4 then return .exportTo base other (← Read.list TransferOutput.read)
  else if type = 17 then return .importFrom base other (← Read.list TransferInput.read)
  else Read.refuse ()

end UnsignedTx

structure Credential where
  signatures : List (Octets 65)
  deriving DecidableEq, Repr

def Credential.read : Scan Credential := do
  Scan.expect UnsignedTx.credentialType
  return ⟨← Read.list (Read.octets 65)⟩

def SignedTx.read : Scan (UnsignedTx × List Credential) := do
  let tx ← UnsignedTx.read
  let credentials ← Read.list Credential.read
  return (tx, credentials)

/-- A signed transaction: the unsigned part and its credentials, with nothing left over. -/
def SignedTx.parts? (bytes : Bytes) : Option (UnsignedTx × List Credential) :=
  SignedTx.read.whole? bytes

end LocalFleet
