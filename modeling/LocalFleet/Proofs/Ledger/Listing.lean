import LocalFleet.Proofs.Encoding.Hex
import LocalFleet.Proofs.Ledger.Record

/-! Lists of records as nodes give them. All records of a list are read or none is: a list of which every
record is read tells of its transfers in their order and of nothing else, and of any other list the first
record that cannot be read is the error. -/

namespace LocalFleet.Utxo

open Codec Codec.Read

/-- An output that a node may list: a transfer, or anything else that a transaction made. -/
inductive Listed where
  | transfer (txId : Id) (index : UInt32) (o : TransferOutput) (counted : o.owners.length < 2 ^ 32)
  | other (txId : Id) (index : UInt32) (assetId : Id) (type : UInt32) (content : Bytes)
      (foreign : type ≠ transferType)

namespace Listed

def record : Listed → Bytes
  | transfer txId index o _ => Utxo.record txId index o
  | other txId index assetId type content _ =>
    u16 version ++ txId.val ++ u32 index ++ assetId.val ++ u32 type ++ content

def text (l : Listed) : String := GuardedHex.encode l.record

def utxo? : Listed → Option Utxo
  | transfer txId index o _ => some (ofOutput txId index o)
  | other .. => none

end Listed

theorem reads_other (txId : Id) (index : UInt32) (assetId : Id) {type : UInt32} (h : type ≠ transferType) :
    Reads readVersioned (u16 version ++ txId.val ++ u32 index ++ assetId.val ++ u32 type) none := by
  simp only [List.append_assoc]
  refine (reads_u16 version).bind ?_
  simp only [ne_eq, not_true_eq_false, if_false]
  refine (reads_octets txId).bind ?_
  refine (reads_u32 index).bind ?_
  refine (reads_octets assetId).bind ?_
  rw [← List.append_nil (u32 type)]
  refine (reads_u32 type).bind ?_
  rw [if_pos h]
  exact reads_pure none

theorem decode_record (l : Listed) : decode l.record = .ok l.utxo? := by
  cases l with
  | transfer txId index o counted =>
    have hread := decode_record_append counted txId index []
    rwa [List.append_nil] at hread
  | other txId index assetId type content foreign =>
    have hrun := reads_other txId index assetId foreign .tooShort [] content
    simp only [List.nil_append, List.length_nil] at hrun
    rw [Listed.record, decode, Reader.start, hrun]
    rfl

theorem decodeHex_text (l : Listed) : decodeHex l.text = .ok l.utxo? := by
  rw [decodeHex, Listed.text, GuardedHex.decode_encode]
  exact decode_record l

theorem decodeAll_eq_mapM (texts : List String) :
    decodeAll texts = (texts.mapM decodeHex).map List.reduceOption := by
  induction texts with
  | nil => rfl
  | cons text texts ih =>
    rw [decodeAll, List.mapM_cons, ih]
    cases decodeHex text with
    | error e => rfl
    | ok u =>
      cases texts.mapM decodeHex with
      | error e => rfl
      | ok us => cases u <;> rfl

/-- A list is read just if each of its records is, and what is read are the outputs that were found. -/
theorem decodeAll_eq_ok_iff {texts : List String} {us : List Utxo} : decodeAll texts = .ok us ↔
    ∃ found, List.Forall₂ (fun text u => decodeHex text = .ok u) texts found ∧ us = found.reduceOption := by
  simp only [decodeAll_eq_mapM, map_eq_ok, mapM_eq_ok_iff, eq_comm (a := us)]

theorem exists_decodeAll_iff {texts : List String} :
    (∃ us, decodeAll texts = .ok us) ↔ ∀ text ∈ texts, ∃ u, decodeHex text = .ok u := by
  simp only [← exists_mapM_iff, decodeAll_eq_mapM, map_eq_ok]
  constructor
  · rintro ⟨_, found, hfound, -⟩
    exact ⟨found, hfound⟩
  · rintro ⟨found, hfound⟩
    exact ⟨_, found, hfound, rfl⟩

theorem decodeAll_eq_error_iff {texts : List String} {e : EncodingError} : decodeAll texts = .error e ↔
    ∃ before text after, texts = before ++ text :: after ∧ (∀ t ∈ before, ∃ u, decodeHex t = .ok u) ∧
      decodeHex text = .error e := by
  rw [decodeAll_eq_mapM, map_eq_error, mapM_eq_error_iff]

/-- A list of any records, each a transfer or an output of another type, reads as its transfers: every one of
them, once and in its place. A list of any texts is read just if each of them is, and the outputs are then
those of its texts in their order; otherwise the first text that cannot be read says why none is. -/
theorem decodeAll_listing :
    (∀ listing : List Listed,
      decodeAll (listing.map Listed.text) = .ok (listing.filterMap Listed.utxo?)) ∧
    ∀ texts,
      ((∃ us, decodeAll texts = .ok us) ↔ ∀ text ∈ texts, ∃ u, decodeHex text = .ok u) ∧
      (∀ us, decodeAll texts = .ok us ↔ ∃ found,
        List.Forall₂ (fun text u => decodeHex text = .ok u) texts found ∧ us = found.reduceOption) ∧
      ∀ e, decodeAll texts = .error e ↔ ∃ before text after, texts = before ++ text :: after ∧
        (∀ t ∈ before, ∃ u, decodeHex t = .ok u) ∧ decodeHex text = .error e := by
  refine ⟨fun listing => ?_, fun texts => ⟨exists_decodeAll_iff, fun _ => decodeAll_eq_ok_iff,
    fun _ => decodeAll_eq_error_iff⟩⟩
  refine decodeAll_eq_ok_iff.2 ⟨listing.map Listed.utxo?, ?_, ?_⟩
  · rw [List.forall₂_map_left_iff, List.forall₂_map_right_iff, List.forall₂_same]
    exact fun l _ => decodeHex_text l
  · rw [List.reduceOption, List.filterMap_map]
    rfl

end LocalFleet.Utxo
