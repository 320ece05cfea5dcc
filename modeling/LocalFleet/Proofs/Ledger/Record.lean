import LocalFleet.Proofs.Codec.Slices
import LocalFleet.Proofs.Encoding.Base58

/-! Records of unspent outputs. Writing and reading them are inverse: what is written for an output reads
back, whatever follows, and of every byte string the version, the output type and the count of owners
alone decide whether it is read as an output, passed over or refused. -/

namespace LocalFleet.Utxo

open Codec Codec.Read

/-- The binary record of an output that a transaction made. -/
def record (txId : Id) (index : UInt32) (o : TransferOutput) : Bytes :=
  u16 version ++ txId.val ++ u32 index ++ o.write

/-- The unspent output that the record tells of. -/
def ofOutput (txId : Id) (index : UInt32) (o : TransferOutput) : Utxo :=
  { txId := Cb58.encode txId.val, outputIndex := index, assetId := Cb58.encode o.assetId.val,
    amount := o.amount, locktime := o.locktime, threshold := o.threshold, owners := o.owners }

/-- The record of an unspent output, if its ids are ids. -/
def toRecord (u : Utxo) : Except EncodingError Bytes := do
  let txId ← Id.ofText u.txId
  let assetId ← Id.ofText u.assetId
  return record txId u.outputIndex ⟨assetId, u.amount, u.locktime, u.threshold, u.owners⟩

theorem toRecord_ofOutput (txId : Id) (index : UInt32) (o : TransferOutput) :
    (ofOutput txId index o).toRecord = .ok (record txId index o) := by
  rw [toRecord, ofOutput, Id.ofText_encode, Id.ofText_encode]
  rfl

theorem reads_record {o : TransferOutput} (h : o.owners.length < 2 ^ 32) (txId : Id) (index : UInt32) :
    Reads readVersioned (record txId index o) (some (ofOutput txId index o)) := by
  have howners : Reads (list (octets 20) : Read EncodingError _) (Codec.list Subtype.val o.owners)
      o.owners := reads_list_self (fun owner _ => reads_octets owner) h
  have htransfer : Reads (readTransfer txId index o.assetId) _ (ofOutput txId index o) :=
    (reads_u64 o.amount).bind ((reads_u64 o.locktime).bind ((reads_u32 o.threshold).bind (howners.map _)))
  simp only [record, TransferOutput.write, List.append_assoc]
  refine (reads_u16 version).bind ?_
  simp only [ne_eq, not_true_eq_false, if_false]
  refine (reads_octets txId).bind ?_
  refine (reads_u32 index).bind ?_
  refine (reads_octets o.assetId).bind ?_
  refine (reads_u32 transferType).bind ?_
  simp only [ne_eq, not_true_eq_false, if_false]
  exact htransfer.map some

theorem decode_record_append {o : TransferOutput} (h : o.owners.length < 2 ^ 32) (txId : Id)
    (index : UInt32) (rest : Bytes) :
    decode (record txId index o ++ rest) = .ok (some (ofOutput txId index o)) := by
  have hrun := reads_record h txId index .tooShort [] rest
  simp only [List.nil_append, List.length_nil] at hrun
  rw [decode, Reader.start, hrun]
  rfl

variable {b : Bytes}

theorem run_readTransfer_of_le (txId : Id) (index : UInt32) (assetId : Id)
    (h : 98 + 20 * number b 94 4 ≤ b.length) : ∃ o : TransferOutput, o.assetId = assetId ∧
      o.owners.length = number b 94 4 ∧
      u64 o.amount ++ u64 o.locktime ++ u32 o.threshold ++ Codec.list Subtype.val o.owners =
        slice b 74 (24 + 20 * number b 94 4) ∧
      (readTransfer txId index assetId).run .tooShort ⟨b, 74⟩ =
        .ok (ofOutput txId index o, ⟨b, 98 + 20 * number b 94 4⟩) := by
  have hlist : 94 + (4 + 20 * number b 94 4) ≤ b.length := by omega
  obtain ⟨owners, hcount, hbytes, hrun⟩ := run_list_of_le hlist
  refine ⟨⟨assetId, UInt64.ofNat (number b 74 8), UInt64.ofNat (number b 82 8),
    UInt32.ofNat (number b 90 4), owners⟩, rfl, hcount, ?_, ?_⟩
  · rw [hbytes, u64_number (by omega), u64_number (by omega), u32_number (by omega),
      slice_append_slice b 74 8 8, slice_append_slice b 74 16 4, slice_append_slice b 74 20,
      ← Nat.add_assoc]
  · simp only [readTransfer, u64_bind, u32_bind]
    rw [run_take_of_le (by omega), run_take_of_le (by omega), run_take_of_le (by omega), run_bind, hrun,
      ← Nat.add_assoc]
    rfl

theorem run_readTransfer_of_lt (txId : Id) (index : UInt32) (assetId : Id)
    (h : b.length < 98 + 20 * number b 94 4) :
    (readTransfer txId index assetId).run .tooShort ⟨b, 74⟩ = .error (.tooShort b.length) := by
  have hlist : b.length < 94 + (4 + 20 * number b 94 4) := by omega
  simp only [readTransfer, u64_bind, u32_bind]
  refine run_take_of_rest fun _ => run_take_of_rest fun _ => run_take_of_rest fun _ => ?_
  rw [run_bind, run_list_of_lt hlist]
  rfl

/-- The first bytes that are there decide what becomes of a record. -/
inductive Decoded (b : Bytes) : Except EncodingError (Option Utxo) → Prop
  | version (hlength : 2 ≤ b.length) (hversion : number b 0 2 ≠ 0) :
    Decoded b (.error (.codecVersion (UInt16.ofNat (number b 0 2))))
  | other (hversion : number b 0 2 = 0) (hlength : 74 ≤ b.length) (htype : number b 70 4 ≠ 7) :
    Decoded b (.ok none)
  | transfer (hversion : number b 0 2 = 0) (htype : number b 70 4 = 7)
      (hlength : 98 + 20 * number b 94 4 ≤ b.length) (txId : Id) (index : UInt32) (o : TransferOutput)
      (hcount : o.owners.length = number b 94 4)
      (hrecord : record txId index o = b.take (98 + 20 * number b 94 4)) :
    Decoded b (.ok (some (ofOutput txId index o)))
  | short (hversion : 2 ≤ b.length → number b 0 2 = 0) (htype : 74 ≤ b.length → number b 70 4 = 7)
      (hlength : b.length < 98 + 20 * number b 94 4) : Decoded b (.error (.tooShort b.length))

theorem decode_of_lt (h : b.length < 2) : decode b = .error (.tooShort b.length) := by
  rw [decode, readVersioned, u16_bind, Reader.start, run_take_of_lt h]
  rfl

theorem decode_of_version_ne (hlength : 2 ≤ b.length) (hversion : number b 0 2 ≠ 0) :
    decode b = .error (.codecVersion (UInt16.ofNat (number b 0 2))) := by
  have hne : UInt16.ofNat (number b 0 2) ≠ version := by
    intro h
    rw [← UInt16.toNat_inj, toNat_number_u16 hlength] at h
    exact hversion h
  rw [decode, readVersioned, u16_bind, Reader.start, run_take_of_le hlength]
  show (run _ (if UInt16.ofNat (number b 0 2) ≠ version then _ else _) _).map _ = _
  rw [if_pos hne]
  rfl

theorem decode_of_version (hlength : 2 ≤ b.length) (hversion : number b 0 2 = 0) :
    decode b = (readRecord.run .tooShort ⟨b, 2⟩).map Prod.fst := by
  rw [decode, readVersioned, u16_bind, Reader.start, run_take_of_le hlength]
  show (run _ (if UInt16.ofNat (number b 0 2) ≠ version then _ else _) _).map _ = _
  rw [hversion, if_neg (by decide)]

theorem run_readRecord_of_lt (h : b.length < 74) :
    readRecord.run .tooShort ⟨b, 2⟩ = .error (.tooShort b.length) := by
  rw [readRecord, octets_bind]
  refine run_take_of_rest fun _ => run_take_of_rest fun _ => run_take_of_rest fun _ => ?_
  exact run_take_of_lt h

theorem run_readRecord_of_type_ne (h : 74 ≤ b.length) (htype : number b 70 4 ≠ 7) :
    readRecord.run .tooShort ⟨b, 2⟩ = .ok (none, ⟨b, 74⟩) := by
  have hne : UInt32.ofNat (number b 70 4) ≠ transferType := by
    intro heq
    rw [← UInt32.toNat_inj, toNat_number_u32 h] at heq
    exact htype heq
  simp only [readRecord, octets_bind, u32_bind]
  rw [run_take_of_le (by omega), run_take_of_le (by omega), run_take_of_le (by omega), run_take_of_le h]
  show run _ (if UInt32.ofNat (number b 70 4) ≠ transferType then _ else _) _ = _
  rw [if_pos hne]
  rfl

theorem run_readRecord_of_type (h : 74 ≤ b.length) (htype : number b 70 4 = 7) :
    readRecord.run .tooShort ⟨b, 2⟩ =
      ((readTransfer ⟨slice b 2 32, length_slice (by omega)⟩ (UInt32.ofNat (number b 34 4))
        ⟨slice b 38 32, length_slice (by omega)⟩).run .tooShort ⟨b, 74⟩ >>=
          fun (u, r) => .ok (some u, r)) := by
  simp only [readRecord, octets_bind, u32_bind]
  rw [run_take_of_le (by omega), run_take_of_le (by omega), run_take_of_le (by omega), run_take_of_le h]
  show run _ (if UInt32.ofNat (number b 70 4) ≠ transferType then _ else _) _ = _
  rw [htype, if_neg (by decide), run_bind]
  rfl

theorem record_eq_take (h : 74 ≤ b.length) (hversion : number b 0 2 = 0) (htype : number b 70 4 = 7)
    {o : TransferOutput} (hasset : o.assetId.val = slice b 38 32) {n : Nat}
    (hrest : u64 o.amount ++ u64 o.locktime ++ u32 o.threshold ++ Codec.list Subtype.val o.owners =
      slice b 74 n) :
    record ⟨slice b 2 32, length_slice (by omega)⟩ (UInt32.ofNat (number b 34 4)) o =
      b.take (74 + n) := by
  have hfirst : u16 version = slice b 0 2 := by
    have hwritten : u16 (UInt16.ofNat (number b 0 2)) = slice b 0 2 := u16_number (by omega)
    rwa [hversion] at hwritten
  have htransfer : u32 transferType = slice b 70 4 := by
    have hwritten : u32 (UInt32.ofNat (number b 70 4)) = slice b 70 4 := u32_number h
    rwa [htype] at hwritten
  have hwrite : o.write = slice b 38 32 ++ slice b 70 4 ++ slice b 74 n := by
    rw [← hrest, ← hasset, ← htransfer]
    simp only [TransferOutput.write, List.append_assoc]
  calc record ⟨slice b 2 32, length_slice (by omega)⟩ (UInt32.ofNat (number b 34 4)) o
      = slice b 0 2 ++ slice b 2 32 ++ slice b 34 4
          ++ (slice b 38 32 ++ slice b 70 4 ++ slice b 74 n) := by
        rw [record, hfirst, hwrite, u32_number (by omega)]
    _ = slice b 0 38 ++ slice b 38 (36 + n) := by
        rw [slice_append_slice b 0 2, slice_append_slice b 0 34, slice_append_slice b 38 32,
          slice_append_slice b 38 36]
    _ = b.take (74 + n) := by
        rw [slice_append_slice b 0 38, slice_zero, ← Nat.add_assoc]

theorem decoded_decode (b : Bytes) : Decoded b (decode b) := by
  by_cases h2 : 2 ≤ b.length
  case neg =>
    rw [decode_of_lt (by omega)]
    exact .short (fun h => absurd h h2) (fun h => by omega) (by omega)
  by_cases hversion : number b 0 2 = 0
  case neg =>
    rw [decode_of_version_ne h2 hversion]
    exact .version h2 hversion
  rw [decode_of_version h2 hversion]
  by_cases h74 : 74 ≤ b.length
  case neg =>
    rw [run_readRecord_of_lt (by omega)]
    exact .short (fun _ => hversion) (fun h => absurd h h74) (by omega)
  by_cases htype : number b 70 4 = 7
  case neg =>
    rw [run_readRecord_of_type_ne h74 htype]
    exact .other hversion h74 htype
  rw [run_readRecord_of_type h74 htype]
  by_cases hlength : 98 + 20 * number b 94 4 ≤ b.length
  case neg =>
    rw [run_readTransfer_of_lt _ _ _ (by omega)]
    exact .short (fun _ => hversion) (fun _ => htype) (by omega)
  obtain ⟨o, hasset, hcount, hrest, hrun⟩ := run_readTransfer_of_le ⟨slice b 2 32, length_slice (by omega)⟩
    (UInt32.ofNat (number b 34 4)) ⟨slice b 38 32, length_slice (by omega)⟩ hlength
  rw [hrun]
  refine .transfer hversion htype hlength _ _ o hcount ?_
  rw [record_eq_take h74 hversion htype (congrArg Subtype.val hasset) hrest, ← Nat.add_assoc]

theorem decode_eq_codecVersion_iff {v : UInt16} :
    decode b = .error (.codecVersion v) ↔ 2 ≤ b.length ∧ number b 0 2 = v.toNat ∧ v ≠ 0 := by
  have hb := decoded_decode b
  generalize decode b = result at hb ⊢
  cases hb with
  | version hlength hversion =>
    have hnumber := toNat_number_u16 hlength
    constructor
    · intro h
      obtain rfl : UInt16.ofNat (number b 0 2) = v := by simpa using h
      refine ⟨hlength, hnumber.symm, fun hzero => hversion ?_⟩
      rw [← hnumber, hzero]
      rfl
    · rintro ⟨-, hv, -⟩
      rw [hv, UInt16.ofNat_toNat]
  | other hversion | transfer hversion =>
    refine ⟨nofun, fun ⟨_, hv, hne⟩ => absurd (UInt16.toNat_inj.1 ?_) hne⟩
    rw [← hv, hversion]
    rfl
  | short hversion =>
    refine ⟨nofun, fun ⟨hlength, hv, hne⟩ => absurd (UInt16.toNat_inj.1 ?_) hne⟩
    rw [← hv, hversion hlength]
    rfl

theorem decode_eq_none_iff :
    decode b = .ok none ↔ number b 0 2 = 0 ∧ 74 ≤ b.length ∧ number b 70 4 ≠ 7 := by
  have hb := decoded_decode b
  generalize decode b = result at hb ⊢
  cases hb with
  | version hlength hversion => exact ⟨nofun, fun h => absurd h.1 hversion⟩
  | other hversion hlength htype => exact ⟨fun _ => ⟨hversion, hlength, htype⟩, fun _ => rfl⟩
  | transfer hversion htype => exact ⟨nofun, fun h => absurd htype h.2.2⟩
  | short hversion htype => exact ⟨nofun, fun h => absurd (htype h.2.1) h.2.2⟩

theorem exists_decode_eq_some_iff : (∃ u, decode b = .ok (some u)) ↔
    number b 0 2 = 0 ∧ number b 70 4 = 7 ∧ 98 + 20 * number b 94 4 ≤ b.length := by
  have hb := decoded_decode b
  generalize decode b = result at hb ⊢
  cases hb with
  | version hlength hversion => exact ⟨nofun, fun h => absurd h.1 hversion⟩
  | other hversion hlength htype => exact ⟨nofun, fun h => absurd h.2.1 htype⟩
  | transfer hversion htype hlength => exact ⟨fun _ => ⟨hversion, htype, hlength⟩, fun _ => ⟨_, rfl⟩⟩
  | short hversion htype hlength => exact ⟨nofun, fun h => absurd h.2.2 (Nat.not_le.2 hlength)⟩

/-- A record that is read is the record that would be written. -/
theorem record_of_decode {u : Utxo} (h : decode b = .ok (some u)) : ∃ txId index o,
    u = ofOutput txId index o ∧ o.owners.length < 2 ^ 32 ∧
      record txId index o = b.take (98 + 20 * number b 94 4) := by
  have hb := decoded_decode b
  rw [h] at hb
  cases hb with
  | transfer _ _ hlength txId index o hcount hrecord =>
    have hlt : number b 94 4 < 256 ^ 4 := number_lt (by omega)
    exact ⟨txId, index, o, rfl, hcount ▸ hlt, hrecord⟩

theorem toRecord_of_decode {u : Utxo} (h : decode b = .ok (some u)) :
    u.toRecord = .ok (b.take (98 + 20 * number b 94 4)) := by
  obtain ⟨txId, index, o, rfl, -, hrecord⟩ := record_of_decode h
  rw [toRecord_ofOutput, hrecord]

theorem decode_eq_tooShort_iff : decode b = .error (.tooShort b.length) ↔
    ¬ (2 ≤ b.length ∧ number b 0 2 ≠ 0) ∧
    ¬ (number b 0 2 = 0 ∧ 74 ≤ b.length ∧ number b 70 4 ≠ 7) ∧
    ¬ (number b 0 2 = 0 ∧ number b 70 4 = 7 ∧ 98 + 20 * number b 94 4 ≤ b.length) := by
  have hb := decoded_decode b
  generalize decode b = result at hb ⊢
  cases hb with
  | version hlength hversion => exact ⟨nofun, fun h => absurd ⟨hlength, hversion⟩ h.1⟩
  | other hversion hlength htype => exact ⟨nofun, fun h => absurd ⟨hversion, hlength, htype⟩ h.2.1⟩
  | transfer hversion htype hlength =>
    exact ⟨nofun, fun h => absurd ⟨hversion, htype, hlength⟩ h.2.2⟩
  | short hversion htype hlength =>
    refine ⟨fun _ => ⟨fun h => h.2 (hversion h.1), fun h => h.2.2 (htype h.2.1), fun h => ?_⟩, fun _ => rfl⟩
    exact absurd h.2.2 (Nat.not_le.2 hlength)

/-- What is written for an output reads back, whatever follows. Of any byte string, the numbers in the
places of the version, the output type and the count of owners decide what becomes of it, and an output
that is read is written back as it was. Nothing is read past the end: only the last bytes that are asked
for may be missing, and then the record is too short; so however many owners it claims, the owners asked
for are at most one more than there is room for. -/
theorem decode_inverts_record :
    (∀ txId index (o : TransferOutput) rest, o.owners.length < 2 ^ 32 →
      decode (record txId index o ++ rest) = .ok (some (ofOutput txId index o))) ∧
    ∀ b : Bytes,
      (∀ v, decode b = .error (.codecVersion v) ↔ 2 ≤ b.length ∧ number b 0 2 = v.toNat ∧ v ≠ 0) ∧
      (decode b = .ok none ↔ number b 0 2 = 0 ∧ 74 ≤ b.length ∧ number b 70 4 ≠ 7) ∧
      ((∃ u, decode b = .ok (some u)) ↔
        number b 0 2 = 0 ∧ number b 70 4 = 7 ∧ 98 + 20 * number b 94 4 ≤ b.length) ∧
      (∀ u, decode b = .ok (some u) → u.toRecord = .ok (b.take (98 + 20 * number b 94 4))) ∧
      (decode b = .error (.tooShort b.length) ↔
        ¬ (2 ≤ b.length ∧ number b 0 2 ≠ 0) ∧
        ¬ (number b 0 2 = 0 ∧ 74 ≤ b.length ∧ number b 70 4 ≠ 7) ∧
        ¬ (number b 0 2 = 0 ∧ number b 70 4 = 7 ∧ 98 + 20 * number b 94 4 ≤ b.length)) ∧
      (∀ ask ∈ (readVersioned.asks (.start b)).dropLast, ask.pos + ask.length ≤ b.length) ∧
      ((∀ ask ∈ readVersioned.asks (.start b), ask.pos + ask.length ≤ b.length) ∨
        decode b = .error (.tooShort b.length)) ∧
      (readVersioned.asks (.start b)).countP (·.length = 20) ≤ b.length / 20 + 1 := by
  refine ⟨fun txId index o rest h => decode_record_append h txId index rest, fun b =>
    ⟨fun _ => decode_eq_codecVersion_iff, decode_eq_none_iff, exists_decode_eq_some_iff,
      fun _ => toRecord_of_decode, decode_eq_tooShort_iff, fun _ => within_of_mem_dropLast_asks _ _,
      ?_, ?_⟩⟩
  · refine (within_or_short EncodingError.tooShort readVersioned 0).imp id fun hshort => ?_
    rw [decode, Reader.start, hshort]
    rfl
  · have hasks := mul_countP_asks_le readVersioned 20 (Nat.zero_le b.length)
    rw [Nat.sub_zero] at hasks
    show (readVersioned.asks ⟨b, 0⟩).countP _ ≤ _
    omega

/-- An output of two owners, and a byte after it. -/
theorem decode_inverts_record_specimen :
    let o : TransferOutput :=
      ⟨Octets.replicate 32 1, 5, 0, 1, [Octets.replicate 20 4, Octets.replicate 20 6]⟩
    let b := record (Octets.replicate 32 2) 3 o ++ [9]
    o.owners.length < 2 ^ 32 ∧ decode b = .ok (some (ofOutput (Octets.replicate 32 2) 3 o)) ∧
      (ofOutput (Octets.replicate 32 2) 3 o).toRecord = .ok (b.take 138) := by
  intro o b
  have hcount : o.owners.length < 2 ^ 32 := by decide
  have hread : decode b = .ok (some (ofOutput (Octets.replicate 32 2) 3 o)) :=
    decode_inverts_record.1 _ _ _ _ hcount
  have hnumber : number b 94 4 = 2 := by decide
  have hback := (decode_inverts_record.2 b).2.2.2.1 _ hread
  rw [hnumber] at hback
  exact ⟨hcount, hread, hback⟩

end LocalFleet.Utxo
