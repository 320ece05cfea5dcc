import LocalFleet.Curve.Signature
import LocalFleet.Digest.Ripemd160
import LocalFleet.Encoding.Checksummed
import LocalFleet.Ledger.Utxo

/-! Secret keys: their text, the address they own and the signatures they give. -/

namespace LocalFleet

/-- A 20-byte address of a byte string: the RIPEMD-160 digest of its SHA-256 digest. -/
def shortDigest (bytes : Bytes) : Owner := Ripemd160.digest (Sha256.digest bytes).val

/-- The id of a node: `NodeID-` and the short digest of its certificate. -/
def nodeId (certificate : Bytes) : String :=
  Cb58.encodeAfter "NodeID-" (shortDigest certificate).val

/-- The thirty-two bytes of a secret key; not every value is a scalar of the curve. -/
structure SecretKey where
  octets : Octets 32
  deriving DecidableEq, Repr

namespace SecretKey

def head : String := "PrivateKey-"

def encoded (key : SecretKey) : String := Cb58.encodeAfter head key.octets.val

def ofEncoded (text : String) : Except EncodingError SecretKey := do
  let raw ← Cb58.decodeAfter head text
  match Octets.ofBytes? 32 raw with
  | some o => .ok ⟨o⟩
  | none => .error (.tooShort raw.length)

def hex (key : SecretKey) : String := String.ofList (Hex.encode key.octets.val)

def scalar (key : SecretKey) : Nat := BigEndian.decode key.octets.val

def Valid (key : SecretKey) : Prop := Secp256k1.IsScalar key.scalar

instance (key : SecretKey) : Decidable key.Valid := inferInstanceAs (Decidable (Secp256k1.IsScalar _))

def owner (key : SecretKey) : Except EncodingError Owner :=
  if key.Valid then .ok (shortDigest (Secp256k1.publicKey key.scalar).compressed)
  else .error .secretKey

/-- The recoverable signature of a message's SHA-256 digest. -/
def sign (key : SecretKey) (message : Bytes) : Except EncodingError (Octets 65) :=
  if key.Valid then .ok (Secp256k1.sign key.octets (Sha256.digest message)).octets
  else .error .secretKey

def shown : String := "PrivateKey(..)"

end SecretKey

end LocalFleet
