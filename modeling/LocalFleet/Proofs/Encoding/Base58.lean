import LocalFleet.Encoding.Checksummed
import LocalFleet.Ledger.Transaction
import LocalFleet.Proofs.Encoding.Radix
import LocalFleet.Proofs.Result

/-! Texts in base58 and in `cb58`: what is written reads back as it was, and a text that is read is the
one that is written for what was read, so that nothing has two texts. -/

namespace LocalFleet

namespace Base58

theorem digit_spec : ∀ v < 58, (digit v).toNat ≤ 127 ∧ value? (digit v) = some v := by decide

theorem values_map_digit (i : Nat) {vs : List Nat} (h : ∀ v ∈ vs, v < 58) :
    values i (vs.map digit) = .ok vs := by
  induction vs generalizing i with
  | nil => rfl
  | cons v vs ih =>
    obtain ⟨hascii, hvalue⟩ := digit_spec v (h v (by simp))
    have hrest := ih (i + 1) fun v hv => h v (List.mem_cons_of_mem _ hv)
    simp [values, Nat.not_lt.2 hascii, hvalue, hrest, Except.map]

theorem decode_encode (payload : Bytes) : decode (encode payload) = .ok payload := by
  have hbytes : ∀ d ∈ payload.map UInt8.toNat, d < 254 + 2 := by
    intro d hd
    obtain ⟨byte, _, rfl⟩ := List.mem_map.1 hd
    exact byte.toNat_lt
  have hback : (payload.map UInt8.toNat).map UInt8.ofNat = payload := by
    simp [Function.comp_def]
  rw [decode, encode, values_map_digit 0 (Radix.convert_lt _)]
  show Except.ok ((Radix.convert 56 254 (Radix.convert 254 56 _)).map UInt8.ofNat) = _
  rw [Radix.convert_convert hbytes, hback]

theorem digit_of_value? {c : Char} {v : Nat} (h : value? c = some v) : v < 58 ∧ digit v = c := by
  obtain ⟨hlt, hat, -⟩ := List.idxOf?_eq_some_iff.1 h
  refine ⟨hlt.trans_le (by decide), ?_⟩
  rw [digit, List.getD_eq_getElem _ _ hlt]
  exact hat

theorem of_values_eq_ok {i : Nat} {text : List Char} {vs : List Nat} (h : values i text = .ok vs) :
    (∀ v ∈ vs, v < 58) ∧ vs.map digit = text := by
  induction text generalizing i vs with
  | nil =>
    obtain rfl : [] = vs := Except.ok.inj h
    simp
  | cons c text ih =>
    unfold values at h
    split at h
    · cases h
    · cases hv : value? c with
      | none => simp [hv] at h
      | some v =>
        simp only [hv, map_eq_ok] at h
        obtain ⟨rest, hrest, rfl⟩ := h
        obtain ⟨hlt, hdigit⟩ := digit_of_value? hv
        obtain ⟨hall, htext⟩ := ih hrest
        exact ⟨List.forall_mem_cons.2 ⟨hlt, hall⟩, by rw [List.map_cons, hdigit, htext]⟩

/-- Every text that is read is the one that is written for what was read. -/
theorem encode_of_decode {text : List Char} {raw : Bytes} (h : decode text = .ok raw) :
    encode raw = text := by
  simp only [decode, map_eq_ok] at h
  obtain ⟨vs, hvs, rfl⟩ := h
  obtain ⟨hlt, htext⟩ := of_values_eq_ok hvs
  have hbytes : ((Radix.convert 56 254 vs).map UInt8.ofNat).map UInt8.toNat =
      Radix.convert 56 254 vs := by
    rw [List.map_map]
    refine (List.map_congr_left fun d hd => ?_).trans (List.map_id _)
    exact UInt8.toNat_ofNat_of_lt' (Radix.convert_lt vs d hd)
  rw [encode, hbytes, Radix.convert_convert hlt, htext]

end Base58

namespace Cb58

theorem decode_encode (payload : Bytes) : decode (encode payload) = .ok payload := by
  simp [decode, decodeChars, encode, Base58.decode_encode, unguard_guarded]

theorem decodeChars_eq_ok_iff {text : List Char} {payload : Bytes} :
    decodeChars text = .ok payload ↔ text = Base58.encode (guarded payload) := by
  constructor
  · intro h
    unfold decodeChars at h
    split at h
    · cases h
    · rename_i raw hraw
      rw [← unguard_eq_ok_iff.1 h, Base58.encode_of_decode hraw]
  · rintro rfl
    simp [decodeChars, Base58.decode_encode, unguard_guarded]

theorem decode_eq_ok_iff {text : String} {payload : Bytes} :
    decode text = .ok payload ↔ text = encode payload := by
  rw [decode, decodeChars_eq_ok_iff, encode, ← String.toList_inj, String.toList_ofList]

theorem decodeAfter_eq_ok_iff {head text : String} {payload : Bytes} :
    decodeAfter head text = .ok payload ↔ text = encodeAfter head payload := by
  have htext : text = encodeAfter head payload ↔
      text.toList = head.toList ++ Base58.encode (guarded payload) := by
    rw [encodeAfter, encode, ← String.toList_inj, String.toList_append, String.toList_ofList]
  rw [htext, ← Text.dropHead?_eq_some_iff, decodeAfter]
  cases Text.dropHead? head.toList text.toList with
  | none => simp
  | some body => simp [decodeChars_eq_ok_iff]

theorem encode_inj {a b : Bytes} : encode a = encode b ↔ a = b := by
  rw [← decode_eq_ok_iff, decode_encode, Except.ok.injEq]

end Cb58

theorem Id.ofText_encode (id : Id) : Id.ofText (Cb58.encode id.val) = .ok id := by
  have hoctets : Octets.ofBytes? 32 id.val = some id := Octets.ofBytes?_eq_some_iff.2 rfl
  exact bind_eq_ok.2 ⟨id.val, Cb58.decode_encode id.val, by rw [hoctets]⟩

theorem Id.ofText_eq_ok_iff {text : String} {id : Id} :
    Id.ofText text = .ok id ↔ text = Cb58.encode id.val := by
  constructor
  · intro h
    obtain ⟨raw, hraw, hid⟩ := bind_eq_ok.1 h
    split at hid
    · rename_i o ho
      obtain rfl := Except.ok.inj hid
      rw [Octets.ofBytes?_eq_some_iff.1 ho]
      exact Cb58.decode_eq_ok_iff.1 hraw
    · cases hid
  · rintro rfl
    exact Id.ofText_encode id

end LocalFleet
