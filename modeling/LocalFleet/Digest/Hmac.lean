import LocalFleet.Digest.Sha256

/-! The keyed digest HMAC over SHA-256. -/

namespace LocalFleet.Hmac

/-- The key as one block: a long key is digested first, then zeros fill it up. -/
def block (key : Bytes) : Bytes :=
  let short := if key.length > 64 then (Sha256.digest key).val else key
  short ++ List.replicate (64 - short.length) 0

def digest (key message : Bytes) : Octets 32 :=
  let k := block key
  Sha256.digest (k.map (· ^^^ 0x5c) ++ (Sha256.digest (k.map (· ^^^ 0x36) ++ message)).val)

end LocalFleet.Hmac
