import LocalFleet.Proofs.Encoding.Hex
import LocalFleet.Proofs.Ledger.Record
import LocalFleet.Proofs.Ledger.Selection

/-! What a node lists can be spent once it is selected: the ids that records are given in are read as the
ids they carry, and a selected output has the owner who spends it. -/

namespace LocalFleet

namespace Utxo

theorem of_mem_decodeAll {texts : List String} {us : List Utxo} (h : decodeAll texts = .ok us) {u : Utxo}
    (hu : u ∈ us) : ∃ text ∈ texts, ∃ bytes, GuardedHex.decode text = .ok bytes ∧
      decode bytes = .ok (some u) := by
  induction texts generalizing us with
  | nil =>
    obtain rfl : [] = us := Except.ok.inj h
    cases hu
  | cons text texts ih =>
    simp only [decodeAll, decodeHex, bind_eq_ok, pure_eq_ok] at h
    obtain ⟨first, ⟨bytes, htext, hfirst⟩, rest, hrest, rfl⟩ := h
    rcases List.mem_append.1 hu with hu | hu
    · obtain rfl : first = some u := Option.mem_toList.1 hu
      exact ⟨text, List.mem_cons_self, bytes, htext, hfirst⟩
    · obtain ⟨text', hmem, hread⟩ := ih hrest hu
      exact ⟨text', List.mem_cons_of_mem _ hmem, hread⟩

end Utxo

namespace TransferInput

open Utxo

theorem spend_ofOutput {o : TransferOutput} {owner : Owner} (h : owner ∈ o.owners) (txId : Id)
    (index : UInt32) : ∃ n, o.owners.idxOf? owner = some n ∧
      spend (ofOutput txId index o) owner =
        .ok ⟨txId, index, o.assetId, o.amount, [UInt32.ofNat n]⟩ := by
  obtain ⟨n, hn⟩ := Option.isSome_iff_exists.1 (List.isSome_idxOf?.2 h)
  refine ⟨n, hn, ?_⟩
  simp only [spend, ofOutput, hn, Id.ofText_encode]
  rfl

/-- The input that spends an output of which one of the texts is the record: its ids, its index and its
amount are those that the record carries, and it is signed by the first of the owners that is `owner`. -/
def FromRecord (texts : List String) (owner : Owner) (u : Utxo) (i : TransferInput) : Prop :=
  ∃ text ∈ texts, ∃ bytes txId index o signer, GuardedHex.decode text = .ok bytes ∧
    record txId index o <+: bytes ∧ u = ofOutput txId index o ∧
    i = ⟨txId, index, o.assetId, o.amount, [signer]⟩ ∧
    u.owners[signer.toNat]? = some owner ∧ ∀ k < signer.toNat, u.owners[k]? ≠ some owner

theorem exists_spend_of_mem_decodeAll {texts : List String} {us : List Utxo}
    (h : decodeAll texts = .ok us) {u : Utxo} (hu : u ∈ us) {owner : Owner} (howner : owner ∈ u.owners) :
    ∃ i, spend u owner = .ok i ∧ FromRecord texts owner u i := by
  obtain ⟨text, hmem, bytes, htext, hread⟩ := of_mem_decodeAll h hu
  obtain ⟨txId, index, o, rfl, hcount, hrecord⟩ := record_of_decode hread
  obtain ⟨n, hn, hspend⟩ := spend_ofOutput howner txId index
  obtain ⟨hlt, hat, hbefore⟩ := List.idxOf?_eq_some_iff.1 hn
  have htoNat : (UInt32.ofNat n).toNat = n := UInt32.toNat_ofNat_of_lt' (hlt.trans hcount)
  refine ⟨_, hspend, text, hmem, bytes, txId, index, o, UInt32.ofNat n, htext,
    hrecord ▸ List.take_prefix _ _, rfl, rfl, ?_, fun k hk => ?_⟩
  · rw [htoNat]
    exact List.getElem?_eq_some_iff.2 ⟨hlt, hat⟩
  · rw [htoNat] at hk
    rw [ne_eq, List.getElem?_eq_some_iff]
    exact fun ⟨_, hfound⟩ => hbefore k hk hfound

theorem spendEach_of_forall {R : Utxo → TransferInput → Prop} {owner : Owner} {us : List Utxo}
    (h : ∀ u ∈ us, ∃ i, spend u owner = .ok i ∧ R u i) :
    ∃ is, spendEach owner us = .ok is ∧ List.Forall₂ R us is := by
  induction us with
  | nil => exact ⟨[], rfl, .nil⟩
  | cons u us ih =>
    obtain ⟨i, hi, hr⟩ := h u List.mem_cons_self
    obtain ⟨is, his, hrs⟩ := ih fun v hv => h v (List.mem_cons_of_mem _ hv)
    exact ⟨i :: is, by simp [spendEach, hi, his], .cons hr hrs⟩

/-- Whatever is selected of the outputs that texts list, for whomever and whenever, can be spent: there is
one input for each output that was selected, and it is the one that the output's record tells. -/
theorem spendAll_select {texts : List String} {us : List Utxo} (h : decodeAll texts = .ok us)
    (assetId : String) (owner : Owner) (now : UInt64) (target fee : Amount) : ∃ inputs each,
      spendAll (select us assetId owner now target fee).inputs owner = .ok inputs ∧
      each.Perm inputs ∧
      List.Forall₂ (FromRecord texts owner) (select us assetId owner now target fee).inputs each := by
  have hspend : ∀ u ∈ (select us assetId owner now target fee).inputs,
      ∃ i, spend u owner = .ok i ∧ FromRecord texts owner u i := by
    intro u hu
    obtain ⟨hmem, -, -, -, howner⟩ := of_mem_select hu
    exact exists_spend_of_mem_decodeAll h hmem howner
  obtain ⟨each, heach, hrecords⟩ := spendEach_of_forall hspend
  refine ⟨sort each, each, ?_, (List.mergeSort_perm each le).symm, hrecords⟩
  rw [spendAll, heach]
  rfl

/-- The second of two owners spends the only output that is listed. -/
theorem spendAll_select_specimen :
    let o : TransferOutput :=
      ⟨Octets.replicate 32 1, 5, 0, 1, [Octets.replicate 20 4, Octets.replicate 20 6]⟩
    let u := ofOutput (Octets.replicate 32 2) 3 o
    let text := GuardedHex.encode (record (Octets.replicate 32 2) 3 o)
    decodeAll [text] = .ok [u] ∧ (select [u] u.assetId (Octets.replicate 20 6) 0 3 1).inputs = [u] ∧
      ∃ i, spendAll [u] (Octets.replicate 20 6) = .ok [i] ∧
        FromRecord [text] (Octets.replicate 20 6) u i := by
  intro o u text
  have hread : decode (record (Octets.replicate 32 2) 3 o) = .ok (some u) := by
    simpa using decode_record_append (o := o) (by decide) (Octets.replicate 32 2) 3 []
  have hlisted : decodeAll [text] = .ok [u] := by
    simp only [decodeAll, decodeHex, text, GuardedHex.decode_encode]
    simp [hread]
  have hspendable : u.SpendableBy (Octets.replicate 20 6) 0 := by decide
  have hselected : (select [u] u.assetId (Octets.replicate 20 6) 0 3 1).inputs = [u] := by
    simp [select, hspendable, take]
  obtain ⟨inputs, each, hspent, hperm, hrecords⟩ :=
    spendAll_select hlisted u.assetId (Octets.replicate 20 6) 0 3 1
  rw [hselected] at hspent hrecords
  obtain _ | ⟨hrecord, ⟨⟩⟩ := hrecords
  obtain rfl := List.singleton_perm.1 hperm
  exact ⟨hlisted, hselected, _, hspent, hrecord⟩

end TransferInput

end LocalFleet
