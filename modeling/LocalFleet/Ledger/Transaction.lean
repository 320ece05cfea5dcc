import LocalFleet.Error
import LocalFleet.Ledger.SecretKey

/-! Transactions that move outputs between chains: an export puts outputs into the memory shared with
another chain, an import takes them from there. A signed transaction is the unsigned one followed by
one credential for each input. -/

namespace LocalFleet

def Id.ofText (text : String) : Except EncodingError Id := Cb58.decodeOctets 32 text

def Id.platform : Id := Octets.replicate 32 0

structure TransferOutput where
  assetId : Id
  amount : Amount
  locktime : UInt64
  threshold : UInt32
  owners : List Owner
  deriving DecidableEq, Repr

namespace TransferOutput

/-- An unlocked output that `owner` alone can spend. -/
def ownedBy (assetId : Id) (amount : Amount) (owner : Owner) : TransferOutput :=
  ⟨assetId, amount, 0, 1, [owner]⟩

open Codec in
def write (o : TransferOutput) : Bytes :=
  o.assetId.val ++ u32 Utxo.transferType ++ u64 o.amount ++ u64 o.locktime ++ u32 o.threshold
    ++ list Subtype.val o.owners

end TransferOutput

structure TransferInput where
  txId : Id
  outputIndex : UInt32
  assetId : Id
  amount : Amount
  /-- the places of the signers among the owners of the output -/
  signers : List UInt32
  deriving DecidableEq, Repr

namespace TransferInput

def transferType : UInt32 := 5

def spend (u : Utxo) (owner : Owner) : Result TransferInput :=
  match u.owners.idxOf? owner with
  | none => .error (.provision (.unspendable u.txId u.outputIndex))
  | some i => do
    let txId ← (Id.ofText u.txId).mapError Error.encoding
    let assetId ← (Id.ofText u.assetId).mapError Error.encoding
    return ⟨txId, u.outputIndex, assetId, u.amount, [UInt32.ofNat i]⟩

open Codec in
def write (i : TransferInput) : Bytes :=
  i.txId.val ++ u32 i.outputIndex ++ i.assetId.val ++ u32 transferType ++ u64 i.amount
    ++ list u32 i.signers

/-- The order of inputs in a transaction: by the bytes of the transaction spent, then by index. -/
def le (a b : TransferInput) : Bool :=
  if a.txId = b.txId then a.outputIndex ≤ b.outputIndex else decide (a.txId.val < b.txId.val)

/-- Puts inputs in order; inputs that spend the same output keep their places. -/
def sort (inputs : List TransferInput) : List TransferInput := inputs.mergeSort le

/-- An input for every output; the first output that cannot be spent is the error. -/
def spendEach (owner : Owner) : List Utxo → Result (List TransferInput)
  | [] => .ok []
  | u :: us => do
    let i ← spend u owner
    let is ← spendEach owner us
    return i :: is

def spendAll (utxos : List Utxo) (owner : Owner) : Result (List TransferInput) :=
  (spendEach owner utxos).map sort

end TransferInput

structure BaseTx where
  networkId : UInt32
  blockchainId : Id
  outputs : List TransferOutput
  inputs : List TransferInput
  memo : Bytes
  deriving DecidableEq, Repr

inductive UnsignedTx where
  /-- outputs of the exchange chain put into the memory shared with `destination` -/
  | exportTo (base : BaseTx) (destination : Id) (exported : List TransferOutput)
  /-- outputs that `source` shared, taken onto the platform chain -/
  | importFrom (base : BaseTx) (source : Id) (imported : List TransferInput)
  deriving DecidableEq, Repr

structure SignedTx where
  id : String
  bytes : Bytes
  deriving DecidableEq, Repr

namespace UnsignedTx

def typeNumber : UnsignedTx → UInt32
  | exportTo .. => 4
  | importFrom .. => 17

def base : UnsignedTx → BaseTx
  | exportTo base _ _ => base
  | importFrom base _ _ => base

def otherChain : UnsignedTx → Id
  | exportTo _ destination _ => destination
  | importFrom _ source _ => source

def tail : UnsignedTx → Bytes
  | exportTo _ _ exported => Codec.list TransferOutput.write exported
  | importFrom _ _ imported => Codec.list TransferInput.write imported

open Codec in
def bytes (tx : UnsignedTx) : Bytes :=
  u16 version ++ u32 tx.typeNumber ++ u32 tx.base.networkId ++ tx.base.blockchainId.val
    ++ list TransferOutput.write tx.base.outputs ++ list TransferInput.write tx.base.inputs
    ++ list (fun b => [b]) tx.base.memo ++ tx.otherChain.val ++ tx.tail

/-- The inputs that need a credential, in credential order. -/
def signedInputs : UnsignedTx → List TransferInput
  | exportTo base _ _ => base.inputs
  | importFrom base _ imported => base.inputs ++ imported

def credentialType : UInt32 := 9

open Codec in
/-- The credential of an input: the signature once for each of its signers. -/
def credential (signature : Octets 65) (input : TransferInput) : Bytes :=
  u32 credentialType ++ list (fun _ => signature.val) input.signers

def sign (tx : UnsignedTx) (key : SecretKey) : Except EncodingError SignedTx := do
  let signature ← key.sign tx.bytes
  let bytes := tx.bytes ++ Codec.list (credential signature) tx.signedInputs
  return ⟨Cb58.encode (Sha256.digest bytes).val, bytes⟩

end UnsignedTx

end LocalFleet
