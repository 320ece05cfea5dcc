import LocalFleet.Digest.Sha256
import LocalFleet.Encoding.Error

/-! Texts that carry a checksum: the last four bytes of the SHA-256 digest of the payload follow it,
and the whole is written in base58 (`cb58`: keys and ids) or, after `0x`, in hexadecimal (records and
transactions). -/

namespace LocalFleet

/-- The four bytes that guard a payload. -/
def checksum (payload : Bytes) : Bytes := (Sha256.digest payload).val.drop 28

@[simp] theorem length_checksum (payload : Bytes) : (checksum payload).length = 4 := by
  simp [checksum, (Sha256.digest payload).property]

def guarded (payload : Bytes) : Bytes := payload ++ checksum payload

/-- The payload of a byte string that ends in the payload's checksum. -/
def unguard (raw : Bytes) : Except EncodingError Bytes :=
  if raw.length < 4 then .error (.tooShort raw.length)
  else
    let payload := raw.take (raw.length - 4)
    if raw.drop (raw.length - 4) = checksum payload then .ok payload else .error .checksum

theorem unguard_guarded (payload : Bytes) : unguard (guarded payload) = .ok payload := by
  simp [unguard, guarded]

theorem eq_guarded_of_unguard {raw payload : Bytes} (h : unguard raw = .ok payload) :
    raw = guarded payload := by
  unfold unguard at h
  split at h
  · cases h
  · dsimp only at h
    split at h
    · rename_i hc
      obtain rfl := Except.ok.inj h
      rw [guarded, ← hc, List.take_append_drop]
    · cases h

/-- The payload of a guarded byte string is unique, and nothing else is accepted. -/
theorem unguard_eq_ok_iff {raw payload : Bytes} : unguard raw = .ok payload ↔ raw = guarded payload :=
  ⟨eq_guarded_of_unguard, fun h => h ▸ unguard_guarded payload⟩

namespace Cb58

def encode (payload : Bytes) : String := String.ofList (Base58.encode (guarded payload))

def decodeChars (text : List Char) : Except EncodingError Bytes :=
  match Base58.decode text with
  | .error e => .error (.base58 e)
  | .ok raw => unguard raw

def decode (text : String) : Except EncodingError Bytes := decodeChars text.toList

def encodeAfter (head : String) (payload : Bytes) : String := head ++ encode payload

def decodeAfter (head text : String) : Except EncodingError Bytes :=
  match Text.dropHead? head.toList text.toList with
  | none => .error (.missingHead head)
  | some body => decodeChars body

def decodeOctets (n : Nat) (text : String) : Except EncodingError (Octets n) := do
  let raw ← decode text
  match Octets.ofBytes? n raw with
  | some o => .ok o
  | none => .error (.tooShort raw.length)

end Cb58

namespace GuardedHex

def encode (payload : Bytes) : String :=
  String.ofList ('0' :: 'x' :: Hex.encode (guarded payload))

/-- A leading `0x` is taken off once. -/
def body (text : List Char) : List Char := (Text.dropHead? ['0', 'x'] text).getD text

def decode (text : String) : Except EncodingError Bytes :=
  match Hex.decode (body text.toList) with
  | .error e => .error (.hex e)
  | .ok raw => unguard raw

end GuardedHex

end LocalFleet
