import LocalFleet.Bytes

/-! The curve `y² = x³ + 7` over the field of `p = 2 ^ 256 - 2 ^ 32 - 977` elements: its group of
points in Jacobian coordinates, where `(x, y, z)` stands for `(x / z², y / z³)`. -/

namespace LocalFleet.Secp256k1

def p : Nat := 0xfffffffffffffffffffffffffffffffffffffffffffffffffffffffefffffc2f

def n : Nat := 0xfffffffffffffffffffffffffffffffebaaedce6af48a03bbfd25e8cd0364141

/-- `b ^ e` modulo `m`, by squaring. -/
def powMod (m b e : Nat) : Nat :=
  if e = 0 then 1 % m
  else
    let half := powMod m (b * b % m) (e / 2)
    if e % 2 = 1 then b * half % m else half
termination_by e
decreasing_by omega

/-- The inverse modulo a prime; zero for zero. -/
def inverse (m a : Nat) : Nat := powMod m a (m - 2)

/-- A point; the point at infinity has `z = 0`. -/
structure Point where
  x : Nat
  y : Nat
  z : Nat

def Point.infinity : Point := ⟨0, 1, 0⟩

def Point.generator : Point :=
  ⟨0x79be667ef9dcbbac55a06295ce870b07029bfcdb2dce28d959f2815b16f81798,
   0x483ada7726a3c4655da4fbfc0e1108a8fd17b448a68554199c47d08ffb10d4b8, 1⟩

def sub (a b : Nat) : Nat := (a + (p - b)) % p

namespace Point

def double (q : Point) : Point :=
  let yy := q.y * q.y % p
  let s := 4 * q.x * yy % p
  let m := 3 * q.x * q.x % p
  let x := sub (m * m % p) (2 * s % p)
  ⟨x, sub (m * sub s x % p) (8 * yy * yy % p), 2 * q.y * q.z % p⟩

def add (q r : Point) : Point :=
  if q.z = 0 then r else if r.z = 0 then q else
  let qq := q.z * q.z % p
  let rr := r.z * r.z % p
  let u := q.x * rr % p
  let v := r.x * qq % p
  let s := q.y * rr % p * r.z % p
  let t := r.y * qq % p * q.z % p
  if u = v then (if s = t then double q else infinity) else
  let h := sub v u
  let hh := h * h % p
  let hhh := h * hh % p
  let w := u * hh % p
  let d := sub t s
  let x := sub (sub (d * d % p) hhh) (2 * w % p)
  ⟨x, sub (d * sub w x % p) (s * hhh % p), h * q.z % p * r.z % p⟩

def mul (k : Nat) (q : Point) : Point :=
  if k = 0 then infinity
  else
    let half := mul (k / 2) (double q)
    if k % 2 = 1 then add q half else half
termination_by k
decreasing_by omega

/-- The coordinates `(x / z², y / z³)`. -/
def affine (q : Point) : Nat × Nat :=
  let i := inverse p q.z
  let ii := i * i % p
  (q.x * ii % p, q.y * (ii * i % p) % p)

/-- The thirty-three bytes that give `x` and the parity of `y`. -/
def compressed (q : Point) : Bytes :=
  let (x, y) := q.affine
  (if y % 2 = 0 then 2 else 3) :: BigEndian.encode 32 x

end Point

/-- A number that may serve as a secret or a nonce. -/
def IsScalar (k : Nat) : Prop := 0 < k ∧ k < n

instance (k : Nat) : Decidable (IsScalar k) := inferInstanceAs (Decidable (_ ∧ _))

def publicKey (secret : Nat) : Point := Point.mul secret .generator

end LocalFleet.Secp256k1
