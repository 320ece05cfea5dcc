import LocalFleet.Proofs.Ledger.Record
import LocalFleet.Proofs.Ledger.Selection

/-! Every payload, id and key has one text in `cb58`, so that texts may be compared in place of the bytes
they stand for. -/

namespace LocalFleet

theorem SecretKey.ofEncoded_eq_ok_iff {text : String} {key : SecretKey} :
    SecretKey.ofEncoded text = .ok key ↔ text = key.encoded := by
  rw [SecretKey.encoded, ← Cb58.decodeAfter_eq_ok_iff]
  constructor
  · intro h
    obtain ⟨raw, hraw, hkey⟩ := bind_eq_ok.1 h
    split at hkey
    · rename_i o ho
      obtain rfl := Except.ok.inj hkey
      rw [Octets.ofBytes?_eq_some_iff.1 ho]
      exact hraw
    · cases hkey
  · intro h
    have hoctets : Octets.ofBytes? 32 key.octets.val = some key.octets :=
      Octets.ofBytes?_eq_some_iff.2 rfl
    exact bind_eq_ok.2 ⟨_, h, by rw [hoctets]⟩

theorem Id.encode_inj {a b : Id} : Cb58.encode a.val = Cb58.encode b.val ↔ a = b := by
  rw [Cb58.encode_inj, Subtype.val_inj]

theorem Utxo.select_ofOutput (listed : List (Id × UInt32 × TransferOutput)) (asset : Id) (owner : Owner)
    (now : UInt64) (target fee : Amount) :
    select (listed.map fun r => ofOutput r.1 r.2.1 r.2.2) (Cb58.encode asset.val) owner now target fee =
      take target (target.addCapped fee) 0
        ((listed.filter fun r =>
          r.2.2.assetId = asset ∧ (ofOutput r.1 r.2.1 r.2.2).SpendableBy owner now).map
            fun r => ofOutput r.1 r.2.1 r.2.2) := by
  have hid (r : Id × UInt32 × TransferOutput) :
      (ofOutput r.1 r.2.1 r.2.2).assetId = Cb58.encode asset.val ↔ r.2.2.assetId = asset := Id.encode_inj
  simp only [select, List.filter_map, Function.comp_def, hid]

open Utxo in
/-- A text is accepted just if it is what is written for its payload, alone or after any head, as an id or
as a key; two ids have the same text just if they are the same bytes, and a selection that compares the
texts of assets takes the outputs whose assets have the wanted bytes. -/
theorem Cb58.accepts_one_text :
    (∀ text payload, Cb58.decode text = .ok payload ↔ text = Cb58.encode payload) ∧
    (∀ head text payload,
      Cb58.decodeAfter head text = .ok payload ↔ text = Cb58.encodeAfter head payload) ∧
    (∀ text (id : Id), Id.ofText text = .ok id ↔ text = Cb58.encode id.val) ∧
    (∀ text (key : SecretKey), SecretKey.ofEncoded text = .ok key ↔ text = key.encoded) ∧
    (∀ a b : Id, Cb58.encode a.val = Cb58.encode b.val ↔ a = b) ∧
    ∀ (listed : List (Id × UInt32 × TransferOutput)) (asset : Id) owner now target fee,
      select (listed.map fun r => ofOutput r.1 r.2.1 r.2.2) (Cb58.encode asset.val) owner now
          target fee =
        take target (target.addCapped fee) 0
          ((listed.filter fun r =>
            r.2.2.assetId = asset ∧ (ofOutput r.1 r.2.1 r.2.2).SpendableBy owner now).map
              fun r => ofOutput r.1 r.2.1 r.2.2) :=
  ⟨fun _ _ => Cb58.decode_eq_ok_iff, fun _ _ _ => Cb58.decodeAfter_eq_ok_iff,
    fun _ _ => Id.ofText_eq_ok_iff, fun _ _ => SecretKey.ofEncoded_eq_ok_iff, fun _ _ => Id.encode_inj,
    Utxo.select_ofOutput⟩

end LocalFleet
