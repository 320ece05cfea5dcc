/-! Byte strings, byte strings of a fixed length, and big-endian numbers. -/

namespace LocalFleet

abbrev Bytes := List UInt8

abbrev Octets (n : Nat) := { bytes : Bytes // bytes.length = n }

namespace Octets

def replicate (n : Nat) (b : UInt8) : Octets n := ⟨List.replicate n b, List.length_replicate⟩

def ofBytes? (n : Nat) (bytes : Bytes) : Option (Octets n) :=
  if h : bytes.length = n then some ⟨bytes, h⟩ else none

theorem ofBytes?_eq_some_iff {n : Nat} {bytes : Bytes} {o : Octets n} :
    ofBytes? n bytes = some o ↔ o.val = bytes := by
  unfold ofBytes?
  split
  · rename_i h
    constructor
    · intro hh; exact congrArg Subtype.val (Option.some.inj hh).symm
    · rintro rfl; rfl
  · rename_i h
    constructor
    · intro hh; simp at hh
    · rintro rfl; exact absurd o.property h

end Octets

namespace BigEndian

/-- The `n` low bytes of a number, most significant first. -/
def encode : (n : Nat) → Nat → Bytes
  | 0, _ => []
  | n + 1, v => encode n (v / 256) ++ [UInt8.ofNat v]

/-- The number that a byte string writes in base 256. -/
def decode (bytes : Bytes) : Nat := bytes.foldl (fun v b => 256 * v + b.toNat) 0

@[simp] theorem length_encode (n v : Nat) : (encode n v).length = n := by
  induction n generalizing v with
  | zero => rfl
  | succ n ih => simp [encode, ih]

@[simp] theorem decode_append_singleton (bytes : Bytes) (b : UInt8) :
    decode (bytes ++ [b]) = 256 * decode bytes + b.toNat := by
  simp [decode, List.foldl_append]

theorem decode_encode (n v : Nat) : decode (encode n v) = v % Nat.pow 256 n := by
  induction n generalizing v with
  | zero => simp [encode, decode, Nat.mod_one]
  | succ n ih =>
    simp only [encode, decode_append_singleton, ih, UInt8.toNat_ofNat']
    rw [Nat.pow_eq, Nat.pow_eq, Nat.pow_succ' (n := n), Nat.mod_mul]
    omega

theorem encode_decode (bytes : Bytes) : encode bytes.length (decode bytes) = bytes := by
  induction h : bytes.length generalizing bytes with
  | zero => rw [List.length_eq_zero_iff.1 h]; rfl
  | succ n ih =>
    have hne : bytes ≠ [] := by rintro rfl; simp at h
    obtain ⟨init, last, rfl⟩ : ∃ init last, bytes = init ++ [last] :=
      ⟨bytes.dropLast, bytes.getLast hne, (List.dropLast_concat_getLast hne).symm⟩
    have hn : init.length = n := by simpa using h
    have hdiv : (256 * decode init + last.toNat) / 256 = decode init := by
      have := last.toNat_lt; omega
    have hmod : UInt8.ofNat (256 * decode init + last.toNat) = last := by
      apply UInt8.toNat_inj.1
      have := last.toNat_lt
      simp only [UInt8.toNat_ofNat']; omega
    simp only [encode, decode_append_singleton, hdiv, hmod, ih init hn]

def octets (n v : Nat) : Octets n := ⟨encode n v, length_encode n v⟩

end BigEndian

end LocalFleet
