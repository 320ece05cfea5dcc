import LocalFleet.Encoding.Checksummed
import LocalFleet.Proofs.Result

/-! What is written in hexadecimal, with or without a checksum, reads back as it was. The case of the digits
does not matter, and every other text is refused for the first thing that is wrong with it. -/

namespace LocalFleet

namespace Hex

theorem digit_spec : ∀ v < 16, value? (digit v) = some v ∧ (String.utf8EncodeChar (digit v)).length = 1 := by
  decide

theorem values_flatMap_pair (i : Nat) (payload : Bytes) : values i (payload.flatMap pair) =
    .ok (payload.flatMap fun b => [b.toNat / 16, b.toNat % 16]) := by
  induction payload generalizing i with
  | nil => rfl
  | cons b payload ih =>
    have hb := b.toNat_lt
    have hhigh := (digit_spec (b.toNat / 16) (by omega)).1
    have hlow := (digit_spec (b.toNat % 16) (by omega)).1
    simp [pair, values, hhigh, hlow, ih, Except.map]

theorem pack_flatMap (payload : Bytes) :
    pack (payload.flatMap fun b => [b.toNat / 16, b.toNat % 16]) = payload := by
  induction payload with
  | nil => rfl
  | cons b payload ih =>
    simp only [List.flatMap_cons, List.cons_append, List.nil_append, pack, ih, Nat.div_add_mod,
      UInt8.ofNat_toNat]

theorem length_utf8_encode (payload : Bytes) : (Text.utf8 (encode payload)).length = 2 * payload.length := by
  induction payload with
  | nil => rfl
  | cons b payload ih =>
    have hb := b.toNat_lt
    have hhigh := (digit_spec (b.toNat / 16) (by omega)).2
    have hlow := (digit_spec (b.toNat % 16) (by omega)).2
    simp only [encode, Text.utf8] at ih ⊢
    simp only [List.flatMap_cons, List.flatMap_append, List.length_append, ih, pair, List.flatMap_nil,
      hhigh, hlow, List.length_cons, List.length_nil]
    omega

theorem decode_encode (payload : Bytes) : decode (encode payload) = .ok payload := by
  have heven : (Text.utf8 (encode payload)).length % 2 ≠ 1 := by
    rw [length_utf8_encode]
    omega
  rw [decode, if_neg heven, encode, values_flatMap_pair]
  exact congrArg Except.ok (pack_flatMap payload)

def IsDigit (b : UInt8) : Prop := 48 ≤ b ∧ b ≤ 57 ∨ 65 ≤ b ∧ b ≤ 70 ∨ 97 ≤ b ∧ b ≤ 102

instance (b : UInt8) : Decidable (IsDigit b) := inferInstanceAs (Decidable (_ ∨ _))

theorem value?_spec : ∀ n < 128, (IsDigit (.ofNat n) ↔ value? (Char.ofNat n) ≠ none) ∧
    value? (Char.ofNat n).toLower = value? (Char.ofNat n) ∧
    ((value? (Char.ofNat n)).all fun v => v < 16 ∧ digit v = (Char.ofNat n).toLower) = true := by
  decide

theorem value?_eq_none {c : Char} (h : 128 ≤ c.toNat) : value? c = none := by
  have hle : ∀ d : Char, d.toNat < 128 → ¬ c ≤ d := fun d hd hcd => by
    have hnat : c.toNat ≤ d.toNat := hcd
    omega
  simp only [value?, hle '9' (by decide), hle 'f' (by decide), hle 'F' (by decide), and_false, if_false]

theorem toLower_eq_self {c : Char} (h : 128 ≤ c.toNat) : c.toLower = c := by
  unfold Char.toLower
  rw [dif_neg]
  rintro ⟨-, hle⟩
  have hnat : c.toNat ≤ 'Z'.toNat := hle
  have hz : 'Z'.toNat = 90 := rfl
  omega

theorem value?_toLower (c : Char) : value? c.toLower = value? c := by
  by_cases h : c.toNat < 128
  · have hspec := (value?_spec c.toNat h).2.1
    rwa [Char.ofNat_toNat] at hspec
  · rw [toLower_eq_self (by omega)]

/-- A digit is one byte, and the lower-case digit of its value but for its case. -/
theorem of_value?_eq_some {c : Char} {v : Nat} (h : value? c = some v) :
    v < 16 ∧ digit v = c.toLower ∧ ∃ b, String.utf8EncodeChar c = [b] ∧ IsDigit b := by
  rcases Text.utf8EncodeChar_cases c with ⟨hc, hbytes⟩ | ⟨hc, _⟩
  · obtain ⟨hdigit, _, hvalue⟩ := value?_spec c.toNat hc
    rw [Char.ofNat_toNat] at hdigit hvalue
    rw [h] at hdigit hvalue
    simp only [Option.all_some, decide_eq_true_eq] at hvalue
    exact ⟨hvalue.1, hvalue.2, _, hbytes, hdigit.2 (Option.some_ne_none v)⟩
  · rw [value?_eq_none hc] at h
    cases h

theorem value?_eq_some_iff {c : Char} {v : Nat} : value? c = some v ↔ v < 16 ∧ c.toLower = digit v := by
  constructor
  · intro h
    have hdigit := of_value?_eq_some h
    exact ⟨hdigit.1, hdigit.2.1.symm⟩
  · rintro ⟨hv, hc⟩
    rw [← value?_toLower, hc]
    exact (digit_spec v hv).1

theorem of_value?_eq_none {c : Char} (h : value? c = none) :
    ∃ b bs, String.utf8EncodeChar c = b :: bs ∧ ¬ IsDigit b := by
  rcases Text.utf8EncodeChar_cases c with ⟨hc, hbytes⟩ | ⟨_, hbytes⟩
  · refine ⟨_, [], hbytes, fun hdigit => ?_⟩
    have hspec := (value?_spec c.toNat hc).1
    rw [Char.ofNat_toNat] at hspec
    exact hspec.1 hdigit h
  · cases hutf : String.utf8EncodeChar c with
    | nil => exact absurd hutf (by simp)
    | cons b bs =>
      have hb := hbytes b (by simp [hutf])
      refine ⟨b, bs, rfl, fun hdigit => ?_⟩
      simp only [IsDigit, UInt8.le_iff_toNat_le] at hdigit
      have htop : (57 : UInt8).toNat = 57 ∧ (70 : UInt8).toNat = 70 ∧ (102 : UInt8).toNat = 102 := by decide
      omega

theorem of_values_eq_ok {i : Nat} {text : List Char} {vs : List Nat} (h : values i text = .ok vs) :
    (∀ v ∈ vs, v < 16) ∧ vs.map digit = text.map Char.toLower ∧
      (Text.utf8 text).length = vs.length ∧ ∀ b ∈ Text.utf8 text, IsDigit b := by
  induction text generalizing i vs with
  | nil =>
    obtain rfl : [] = vs := Except.ok.inj h
    simp [Text.utf8]
  | cons c text ih =>
    unfold values at h
    cases hv : value? c with
    | none => simp [hv] at h
    | some v =>
      simp only [hv, map_eq_ok] at h
      obtain ⟨rest, hrest, rfl⟩ := h
      obtain ⟨hlt, hdigit, b, hbytes, hb⟩ := of_value?_eq_some hv
      obtain ⟨hall, htext, hlength, hdigits⟩ := ih hrest
      refine ⟨List.forall_mem_cons.2 ⟨hlt, hall⟩, ?_, ?_, ?_⟩
      · rw [List.map_cons, List.map_cons, hdigit, htext]
      · rw [Text.utf8_cons, hbytes, List.singleton_append, List.length_cons, List.length_cons, hlength]
      · rw [Text.utf8_cons, hbytes, List.singleton_append]
        exact List.forall_mem_cons.2 ⟨hb, hdigits⟩

theorem values_map_toLower {i : Nat} {text : List Char} {vs : List Nat} :
    values i (text.map Char.toLower) = .ok vs ↔ values i text = .ok vs := by
  induction text generalizing i vs with
  | nil => rfl
  | cons c text ih =>
    simp only [List.map_cons, values, value?_toLower]
    cases value? c with
    | none => simp
    | some v => simp only [map_eq_ok, ih]

/-- What is not hexadecimal is told from its first byte that is no digit. -/
theorem values_eq_error_iff {i : Nat} {text : List Char} {e : Error} : values i text = .error e ↔
    ∃ before b after, Text.utf8 text = before ++ b :: after ∧ (∀ d ∈ before, IsDigit d) ∧ ¬ IsDigit b ∧
      e = .invalidCharacter (Char.ofNat b.toNat) (i + before.length) := by
  induction text generalizing i with
  | nil => simp [values, Text.utf8]
  | cons c text ih =>
    rw [values, Text.utf8_cons]
    cases hv : value? c with
    | none =>
      obtain ⟨b, bs, hbytes, hb⟩ := of_value?_eq_none hv
      simp only [hbytes, List.headD_cons]
      constructor
      · intro h
        exact ⟨[], b, bs ++ Text.utf8 text, rfl, by simp, hb, (Except.error.inj h).symm⟩
      · rintro ⟨before, d, after, hsplit, hbefore, hd, rfl⟩
        cases before with
        | nil =>
          obtain ⟨rfl, -⟩ := List.cons.inj hsplit
          rfl
        | cons d' before =>
          obtain ⟨rfl, -⟩ := List.cons.inj hsplit
          exact absurd (hbefore b List.mem_cons_self) hb
    | some v =>
      obtain ⟨-, -, b, hbytes, hb⟩ := of_value?_eq_some hv
      simp only [hbytes, List.singleton_append, map_eq_error, ih]
      constructor
      · rintro ⟨before, d, after, hsplit, hbefore, hd, rfl⟩
        refine ⟨b :: before, d, after, by rw [hsplit]; rfl, List.forall_mem_cons.2 ⟨hb, hbefore⟩, hd, ?_⟩
        rw [List.length_cons, Nat.add_comm before.length, Nat.add_assoc]
      · rintro ⟨before, d, after, hsplit, hbefore, hd, rfl⟩
        cases before with
        | nil =>
          obtain ⟨rfl, -⟩ := List.cons.inj hsplit
          exact absurd hb hd
        | cons d' before =>
          obtain ⟨rfl, hrest⟩ := List.cons.inj hsplit
          refine ⟨before, d, after, hrest, (List.forall_mem_cons.1 hbefore).2, hd, ?_⟩
          rw [List.length_cons, Nat.add_comm before.length, Nat.add_assoc]

theorem flatMap_pair_pack : ∀ vs : List Nat, vs.length % 2 = 0 → (∀ v ∈ vs, v < 16) →
    (pack vs).flatMap pair = vs.map digit
  | [], _, _ => rfl
  | [_], h, _ => by simp at h
  | hi :: lo :: vs, h, hall => by
    rw [List.forall_mem_cons, List.forall_mem_cons] at hall
    obtain ⟨hhi, hlo, hvs⟩ := hall
    have hlt : 16 * hi + lo < 256 := by omega
    have hbyte : (UInt8.ofNat (16 * hi + lo)).toNat = 16 * hi + lo := UInt8.toNat_ofNat_of_lt' hlt
    have heven : vs.length % 2 = 0 := by simpa [Nat.add_assoc] using h
    have hrest := flatMap_pair_pack vs heven hvs
    have hdiv : (16 * hi + lo) / 16 = hi := by omega
    have hmod : (16 * hi + lo) % 16 = lo := by omega
    rw [pack, List.flatMap_cons, hrest, pair, hbyte, hdiv, hmod]
    rfl

/-- A text is read just if it is what is written but for the case of its digits. -/
theorem decode_eq_ok_iff {text : List Char} {raw : Bytes} :
    decode text = .ok raw ↔ text.map Char.toLower = encode raw := by
  constructor
  · intro h
    rw [decode] at h
    split at h
    · cases h
    · rename_i heven
      obtain ⟨vs, hvs, rfl⟩ := map_eq_ok.1 h
      obtain ⟨hall, htext, hlength, -⟩ := of_values_eq_ok hvs
      rw [encode, flatMap_pair_pack vs (by omega) hall, htext]
  · intro h
    have hlower := decode_encode raw
    rw [← h, decode] at hlower
    split at hlower
    · cases hlower
    · rename_i heven
      obtain ⟨vs, hvs, hraw⟩ := map_eq_ok.1 hlower
      have hvalues := values_map_toLower.1 hvs
      have hsame : (Text.utf8 (text.map Char.toLower)).length = (Text.utf8 text).length :=
        (of_values_eq_ok hvs).2.2.1.trans (of_values_eq_ok hvalues).2.2.1.symm
      rw [decode, if_neg (by rwa [← hsame]), hvalues]
      exact congrArg Except.ok hraw

theorem decode_eq_oddLength_iff {text : List Char} :
    decode text = .error .oddLength ↔ (Text.utf8 text).length % 2 = 1 := by
  rw [decode]
  split
  · simpa
  · rename_i heven
    refine ⟨fun h => ?_, fun h => absurd h heven⟩
    cases hvs : values 0 text with
    | ok vs => rw [hvs] at h; cases h
    | error e =>
      obtain ⟨_, _, _, _, _, _, rfl⟩ := values_eq_error_iff.1 hvs
      rw [hvs] at h
      cases h

theorem decode_eq_invalidCharacter_iff {text : List Char} {c : Char} {i : Nat} :
    decode text = .error (.invalidCharacter c i) ↔ (Text.utf8 text).length % 2 = 0 ∧
      ∃ before b after, Text.utf8 text = before ++ b :: after ∧ (∀ d ∈ before, IsDigit d) ∧ ¬ IsDigit b ∧
        c = Char.ofNat b.toNat ∧ i = before.length := by
  rw [decode]
  split
  · rename_i hodd
    exact ⟨nofun, fun h => by omega⟩
  · rename_i heven
    rw [map_eq_error, values_eq_error_iff]
    constructor
    · rintro ⟨before, b, after, hsplit, hbefore, hb, he⟩
      simp at he
      exact ⟨by omega, before, b, after, hsplit, hbefore, hb, he⟩
    · rintro ⟨-, before, b, after, hsplit, hbefore, hb, rfl, rfl⟩
      exact ⟨before, b, after, hsplit, hbefore, hb, by rw [Nat.zero_add]⟩

end Hex

theorem unguard_eq_tooShort_iff {raw : Bytes} {n : Nat} :
    unguard raw = .error (.tooShort n) ↔ raw.length = n ∧ n < 4 := by
  unfold unguard
  split
  · simp only [Except.error.injEq, EncodingError.tooShort.injEq]
    omega
  · dsimp only
    split <;> simp <;> omega

theorem of_unguard_eq_error {raw : Bytes} {e : EncodingError} (h : unguard raw = .error e) :
    (∃ n, e = .tooShort n) ∨ e = .checksum := by
  unfold unguard at h
  split at h
  · exact .inl ⟨_, (Except.error.inj h).symm⟩
  · dsimp only at h
    split at h <;> cases h
    exact .inr rfl

/-- A byte string that has room for a checksum is refused for nothing but that. -/
theorem unguard_eq_checksum_iff {raw : Bytes} :
    unguard raw = .error .checksum ↔ 4 ≤ raw.length ∧ ∀ payload, raw ≠ guarded payload := by
  constructor
  · intro h
    refine ⟨?_, fun payload hraw => ?_⟩
    · by_contra hshort
      rw [unguard, if_pos (by omega)] at h
      cases h
    · rw [hraw, unguard_guarded] at h
      cases h
  · rintro ⟨hlength, hnone⟩
    cases h : unguard raw with
    | ok payload => exact absurd (unguard_eq_ok_iff.1 h) (hnone payload)
    | error e =>
      rcases of_unguard_eq_error h with ⟨n, rfl⟩ | rfl
      · have hshort := unguard_eq_tooShort_iff.1 h
        omega
      · rfl

namespace GuardedHex

theorem decode_encode (payload : Bytes) : decode (encode payload) = .ok payload := by
  have hbody : body (encode payload).toList = Hex.encode (guarded payload) := by
    simp [body, encode, Text.dropHead?]
  rw [decode, hbody, Hex.decode_encode]
  exact unguard_guarded payload

variable {text : String}

theorem decode_eq_ok_iff {payload : Bytes} : decode text = .ok payload ↔
    (body text.toList).map Char.toLower = Hex.encode (guarded payload) := by
  rw [← Hex.decode_eq_ok_iff, decode]
  cases Hex.decode (body text.toList) with
  | error e => simp
  | ok raw => simp [unguard_eq_ok_iff]

theorem decode_eq_hex_iff {e : Hex.Error} :
    decode text = .error (.hex e) ↔ Hex.decode (body text.toList) = .error e := by
  rw [decode]
  cases Hex.decode (body text.toList) with
  | error e => simp
  | ok raw =>
    simp only [reduceCtorEq, iff_false]
    intro h
    rcases of_unguard_eq_error h with ⟨_, he⟩ | he <;> cases he

theorem decode_eq_error_iff {e : EncodingError} (h : ∀ cause, e ≠ .hex cause) :
    decode text = .error e ↔
      ∃ raw, (body text.toList).map Char.toLower = Hex.encode raw ∧ unguard raw = .error e := by
  simp only [← Hex.decode_eq_ok_iff]
  rw [decode]
  cases Hex.decode (body text.toList) with
  | error cause => simpa using (h cause).symm
  | ok raw => simp

/-- Of every text, what follows a leading `0x` decides. It is read as a payload just if it is, but for the
case of its digits, the payload and the last four bytes of the payload's SHA-256 digest in hexadecimal; so
what is written is read, and what is read is written again in lower case after `0x`. Any other text is
refused, for the first of four reasons: an odd number of bytes, its first byte that is no digit, fewer than
four bytes written, a wrong checksum. -/
theorem decode_decided (text : String) :
    let digits := body text.toList
    let bytes := Text.utf8 digits
    (∀ payload, decode text = .ok payload ↔
      digits.map Char.toLower = Hex.encode (payload ++ (Sha256.digest payload).val.drop 28)) ∧
    (∀ payload, decode (encode payload) = .ok payload) ∧
    (∀ payload, decode text = .ok payload →
      encode payload = String.ofList ('0' :: 'x' :: digits.map Char.toLower)) ∧
    (decode text = .error (.hex .oddLength) ↔ bytes.length % 2 = 1) ∧
    (∀ c i, decode text = .error (.hex (.invalidCharacter c i)) ↔ bytes.length % 2 = 0 ∧
      ∃ before b after, bytes = before ++ b :: after ∧ (∀ d ∈ before, Hex.IsDigit d) ∧ ¬ Hex.IsDigit b ∧
        c = Char.ofNat b.toNat ∧ i = before.length) ∧
    (∀ n, decode text = .error (.tooShort n) ↔
      ∃ raw, digits.map Char.toLower = Hex.encode raw ∧ raw.length = n ∧ n < 4) ∧
    (decode text = .error .checksum ↔ ∃ raw, digits.map Char.toLower = Hex.encode raw ∧ 4 ≤ raw.length ∧
      ∀ payload, raw ≠ payload ++ (Sha256.digest payload).val.drop 28) ∧
    ∀ e, decode text = .error e → (∃ cause, e = .hex cause) ∨ (∃ n, e = .tooShort n) ∨ e = .checksum := by
  intro digits bytes
  refine ⟨fun _ => decode_eq_ok_iff, decode_encode, fun payload h => ?_, ?_, fun c i => ?_, fun n => ?_, ?_,
    fun e he => ?_⟩
  · rw [encode, ← decode_eq_ok_iff.1 h]
  · rw [decode_eq_hex_iff]
    exact Hex.decode_eq_oddLength_iff
  · rw [decode_eq_hex_iff]
    exact Hex.decode_eq_invalidCharacter_iff
  · rw [decode_eq_error_iff (e := .tooShort n) nofun]
    simp only [unguard_eq_tooShort_iff]
    rfl
  · rw [decode_eq_error_iff (e := .checksum) nofun]
    simp only [unguard_eq_checksum_iff]
    rfl
  · by_cases hhex : ∃ cause, e = .hex cause
    · exact .inl hhex
    · obtain ⟨raw, -, hraw⟩ := (decode_eq_error_iff fun cause hcause => hhex ⟨cause, hcause⟩).1 he
      exact .inr (of_unguard_eq_error hraw)

/-- The text of two bytes, without `0x` and with digits in upper case, and with its last digit changed. -/
theorem decode_decided_specimen :
    decode "ABCD5D000A6B" = .ok [0xab, 0xcd] ∧ encode [0xab, 0xcd] = "0xabcd5d000a6b" ∧
      decode "ABCD5D000A6C" ≠ .ok [0xab, 0xcd] := by
  have hread : decode "ABCD5D000A6B" = .ok [0xab, 0xcd] :=
    ((decode_decided "ABCD5D000A6B").1 [0xab, 0xcd]).2 (by decide +kernel)
  have hwritten := (decode_decided "ABCD5D000A6B").2.2.1 [0xab, 0xcd] hread
  refine ⟨hread, hwritten.trans (by decide +kernel), fun h => ?_⟩
  exact absurd (((decode_decided "ABCD5D000A6C").1 [0xab, 0xcd]).1 h) (by decide +kernel)

end GuardedHex

end LocalFleet
