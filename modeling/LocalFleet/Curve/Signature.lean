import LocalFleet.Curve.Secp256k1
import LocalFleet.Digest.Hmac

/-! Recoverable signatures on the curve. The nonce is derived from the secret and the message digest
by the deterministic HMAC generator, so a message has one signature per key, and of the two values
of `s` the lower is taken. -/

namespace LocalFleet.Secp256k1

/-- The state of the nonce generator. -/
structure NonceStream where
  key : Bytes
  value : Bytes

namespace NonceStream

def reseed (g : NonceStream) (tag : UInt8) (data : Bytes) : NonceStream :=
  let key := (Hmac.digest g.key (g.value ++ tag :: data)).val
  ⟨key, (Hmac.digest key g.value).val⟩

def seeded (secret digest : Bytes) : NonceStream :=
  let g : NonceStream := ⟨List.replicate 32 0, List.replicate 32 1⟩
  (g.reseed 0 (secret ++ digest)).reseed 1 (secret ++ digest)

def draw (g : NonceStream) : Nat × NonceStream :=
  let value := (Hmac.digest g.key g.value).val
  (BigEndian.decode value, ⟨g.key, value⟩)

end NonceStream

/-- The numbers of a signature and the two bits that tell which point was the nonce's. -/
structure Signature where
  r : Nat
  s : Nat
  recovery : Nat

def Signature.octets (sig : Signature) : Octets 65 :=
  ⟨BigEndian.encode 32 sig.r ++ BigEndian.encode 32 sig.s ++ [UInt8.ofNat sig.recovery], by simp⟩

def signWith (secret digest k : Nat) : Signature :=
  let (x, y) := (Point.mul k .generator).affine
  let r := x % n
  let s := inverse n k * ((digest + r * secret) % n) % n
  let bits := (if x ≥ n then 2 else 0) + y % 2
  if s > n / 2 then ⟨r, n - s, if bits % 2 = 0 then bits + 1 else bits - 1⟩ else ⟨r, s, bits⟩

/-- The signature of the first candidate that is a scalar and gives nonzero `r` and `s`. A candidate
fails with probability below `2 ^ -127`, so `tries` bounds the draws; the last one is taken as it
is. -/
def signFirst (secret digest : Nat) : (tries : Nat) → NonceStream → Signature
  | 0, g => signWith secret digest g.draw.1
  | tries + 1, g =>
    let (k, g) := g.draw
    let sig := signWith secret digest k
    if IsScalar k ∧ sig.r ≠ 0 ∧ sig.s ≠ 0 then sig
    else signFirst secret digest tries (g.reseed 0 [])

/-- The signature of a message digest under a secret. -/
def sign (secret digest : Octets 32) : Signature :=
  signFirst (BigEndian.decode secret.val) (BigEndian.decode digest.val) 64
    (.seeded secret.val digest.val)

end LocalFleet.Secp256k1
