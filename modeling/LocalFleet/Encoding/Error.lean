import LocalFleet.Encoding.Base58
import LocalFleet.Encoding.Hex
import LocalFleet.Text.Quoted

/-! Why an encoded key, id, record or transaction is refused. -/

namespace LocalFleet

inductive EncodingError where
  | base58 (cause : Base58.Error)
  | hex (cause : Hex.Error)
  | checksum
  /-- the whole input has only this many bytes -/
  | tooShort (bytes : Nat)
  | missingHead (expected : String)
  | codecVersion (version : UInt16)
  /-- the key is zero or at least the group order -/
  | secretKey
  deriving DecidableEq, Repr

namespace EncodingError

def base58Text : Base58.Error → String
  | .invalidCharacter c i =>
    "provided string contained invalid character " ++ Quoted.char c ++ " at byte " ++ toString i
  | .nonAscii i => "provided string contained non-ascii character starting at byte " ++ toString i

def hexText : Hex.Error → String
  | .oddLength => "Odd number of digits"
  | .invalidCharacter c i => "Invalid character " ++ Quoted.char c ++ " at position " ++ toString i

def message : EncodingError → String
  | .base58 e => "invalid base58: " ++ base58Text e
  | .hex e => "invalid hex: " ++ hexText e
  | .checksum => "checksum mismatch"
  | .tooShort n => "input too short: " ++ toString n ++ " bytes"
  | .missingHead expected => "expected prefix " ++ Quoted.text expected
  | .codecVersion v => "unsupported codec version " ++ toString v.toNat
  | .secretKey => "secp256k1: malformed or out-of-range secret key"

end EncodingError

end LocalFleet
