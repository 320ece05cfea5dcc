import LocalFleet.Encoding.Radix

/-! Base58 with the alphabet that leaves out `0`, `O`, `I` and `l`. A leading zero byte is a leading
`1`, and the rest is the number in base 58. -/

namespace LocalFleet.Base58

/-- The digits in order of value. -/
def alphabet : List Char :=
  "123456789ABCDEFGHJKLMNPQRSTUVWXYZabcdefghijkmnopqrstuvwxyz".toList

def digit (v : Nat) : Char := alphabet.getD v '1'

def value? (c : Char) : Option Nat := alphabet.idxOf? c

inductive Error where
  | invalidCharacter (c : Char) (position : Nat)
  | nonAscii (position : Nat)
  deriving DecidableEq, Repr

def encode (payload : Bytes) : List Char :=
  (Radix.convert 254 56 (payload.map UInt8.toNat)).map digit

/-- The values of the characters from position `i` on; the first offender decides the error. -/
def values (i : Nat) : List Char → Except Error (List Nat)
  | [] => .ok []
  | c :: text =>
    if c.toNat > 127 then .error (.nonAscii i)
    else match value? c with
      | none => .error (.invalidCharacter c i)
      | some v => (values (i + 1) text).map (v :: ·)

def decode (text : List Char) : Except Error Bytes :=
  (values 0 text).map fun vs => (Radix.convert 56 254 vs).map UInt8.ofNat

end LocalFleet.Base58
