import LocalFleet.Text.Utf8

/-! Bytes as pairs of hexadecimal digits, written in lower case and read in either case. -/

namespace LocalFleet.Hex

inductive Error where
  | oddLength
  /-- the first byte that is no digit, shown as the character of that number, with its position -/
  | invalidCharacter (c : Char) (position : Nat)
  deriving DecidableEq, Repr

def digit (v : Nat) : Char := "0123456789abcdef".toList.getD v '0'

def value? (c : Char) : Option Nat :=
  if '0' ≤ c ∧ c ≤ '9' then some (c.toNat - '0'.toNat)
  else if 'a' ≤ c ∧ c ≤ 'f' then some (c.toNat - 'a'.toNat + 10)
  else if 'A' ≤ c ∧ c ≤ 'F' then some (c.toNat - 'A'.toNat + 10)
  else none

def pair (b : UInt8) : List Char := [digit (b.toNat / 16), digit (b.toNat % 16)]

def encode (payload : Bytes) : List Char := payload.flatMap pair

/-- The values of the digits from position `i` on; the first offender decides the error. -/
def values (i : Nat) : List Char → Except Error (List Nat)
  | [] => .ok []
  | c :: text =>
    match value? c with
    | none => .error (.invalidCharacter (Char.ofNat ((String.utf8EncodeChar c).headD 0).toNat) i)
    | some v => (values (i + 1) text).map (v :: ·)

def pack : List Nat → Bytes
  | hi :: lo :: vs => UInt8.ofNat (16 * hi + lo) :: pack vs
  | _ => []

/-- An odd length is reported before any wrong digit. -/
def decode (text : List Char) : Except Error Bytes :=
  if (Text.utf8 text).length % 2 = 1 then .error .oddLength
  else (values 0 text).map pack

end LocalFleet.Hex
