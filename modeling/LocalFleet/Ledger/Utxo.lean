import LocalFleet.Codec
import LocalFleet.Encoding.Checksummed
import LocalFleet.Ledger.Amount

/-! Unspent transfer outputs: their binary records, who can spend them, and which of them a spender
takes to cover an amount. -/

namespace LocalFleet

abbrev Id := Octets 32

abbrev Owner := Octets 20

/-- An unspent transfer output; ids are in `cb58`. -/
structure Utxo where
  txId : String
  outputIndex : UInt32
  assetId : String
  amount : Amount
  /-- the Unix second from which the output may be spent -/
  locktime : UInt64
  /-- how many of the owners have to sign -/
  threshold : UInt32
  owners : List Owner
  deriving DecidableEq, Repr

namespace Utxo

def transferType : UInt32 := 7

/-- Whether the single signature of `owner` spends the output at the Unix second `now`. -/
def SpendableBy (u : Utxo) (owner : Owner) (now : UInt64) : Prop :=
  u.locktime ≤ now ∧ u.threshold = 1 ∧ owner ∈ u.owners

instance (u : Utxo) (owner : Owner) (now : UInt64) : Decidable (u.SpendableBy owner now) :=
  inferInstanceAs (Decidable (_ ∧ _))

open Codec in
def readTransfer (txId : Id) (outputIndex : UInt32) (assetId : Id) : Read EncodingError Utxo := do
  let amount ← Read.u64
  let locktime ← Read.u64
  let threshold ← Read.u32
  let owners ← Read.list (Read.octets 20)
  return { txId := Cb58.encode txId.val, outputIndex, assetId := Cb58.encode assetId.val,
           amount, locktime, threshold, owners }

open Codec in
/-- The parts of a record after the version: transaction, output index, asset and output type, then
the fields of a transfer output. Outputs of another type are passed over. -/
def readRecord : Read EncodingError (Option Utxo) := do
  let txId ← Read.octets 32
  let outputIndex ← Read.u32
  let assetId ← Read.octets 32
  let type ← Read.u32
  if type ≠ transferType then return none
  return some (← readTransfer txId outputIndex assetId)

open Codec in
def readVersioned : Read EncodingError (Option Utxo) := do
  let version ← Read.u16
  if version ≠ Codec.version then Read.refuse (.codecVersion version)
  readRecord

/-- The output of a binary record; none for an output that is no transfer. Bytes after the record
are ignored. -/
def decode (record : Bytes) : Except EncodingError (Option Utxo) :=
  (readVersioned.run .tooShort (.start record)).map Prod.fst

def decodeHex (text : String) : Except EncodingError (Option Utxo) := do
  decode (← GuardedHex.decode text)

/-- The transfer outputs of a list of records; the first record that cannot be read is the error. -/
def decodeAll : List String → Except EncodingError (List Utxo)
  | [] => .ok []
  | text :: texts => do
    let u ← decodeHex text
    let us ← decodeAll texts
    return u.toList ++ us

structure Selection where
  inputs : List Utxo
  total : Amount
  deriving DecidableEq, Repr

/-- Takes outputs in order on top of `total`; a target above zero is met as soon as the total exceeds
what is needed. -/
def take (target needed total : Amount) : List Utxo → Selection
  | [] => ⟨[], total⟩
  | u :: us =>
    if target ≠ 0 ∧ total > needed then ⟨[], total⟩
    else
      let rest := take target needed (total.addCapped u.amount) us
      ⟨u :: rest.inputs, rest.total⟩

/-- The outputs of an asset that `owner` alone can spend now, in order, until their sum exceeds
`target + fee`; all of them for a target of zero. -/
def select (utxos : List Utxo) (assetId : String) (owner : Owner) (now : UInt64)
    (target fee : Amount) : Selection :=
  take target (target.addCapped fee) 0
    (utxos.filter fun u => u.assetId = assetId ∧ u.SpendableBy owner now)

end Utxo

end LocalFleet
