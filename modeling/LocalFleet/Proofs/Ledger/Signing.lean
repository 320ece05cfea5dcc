import LocalFleet.Proofs.Ledger.Format

/-! What signing adds to a transaction: one credential for each input, in the order of the inputs, with
the signature once for each signer. The credentials are counted in one word, although an import takes its
inputs from two lists, so they are read back only if both lists together are short enough for it. -/

namespace LocalFleet

open Codec Codec.Read

theorem Codec.length_list {α : Type} (write : α → Bytes) (xs : List α) :
    (Codec.list write xs).length = 4 + (xs.map fun x => (write x).length).sum := by
  simp [Codec.list, List.length_flatMap]

/-- The count of a list is written modulo `2 ^ 32`: so many of its elements are its own. -/
theorem Codec.list_eq_append {α : Type} (write : α → Bytes) (xs : List α) : Codec.list write xs =
    Codec.list write (xs.take (xs.length % 2 ^ 32)) ++ (xs.drop (xs.length % 2 ^ 32)).flatMap write := by
  have hle : xs.length % 2 ^ 32 ≤ xs.length := Nat.mod_le _ _
  have hcount : count (xs.take (xs.length % 2 ^ 32)).length = count xs.length := by
    rw [List.length_take, Nat.min_eq_left hle, count, count]
    congr 1
    apply UInt32.toNat_inj.1
    simp
  conv_lhs => rw [Codec.list, ← List.take_append_drop (xs.length % 2 ^ 32) xs, List.flatMap_append,
    List.take_append_drop]
  rw [Codec.list, hcount, List.append_assoc]

theorem Scan.whole?_of_reads_append {α : Type} {scan : Scan α} {v s : Bytes} {x : α}
    (h : Reads scan v x) (hs : s ≠ []) : scan.whole? (v ++ s) = none := by
  simp [whole?, front?_of_reads h s, hs]

namespace UnsignedTx

theorem signedInputs_eq (tx : UnsignedTx) : tx.signedInputs = tx.base.inputs ++ tx.imported := by
  cases tx with
  | exportTo base _ _ => exact (List.append_nil base.inputs).symm
  | importFrom => rfl

theorem length_credential (signature : Octets 65) (i : TransferInput) :
    (credential signature i).length = 8 + 65 * i.signers.length := by
  simp [credential, length_list, signature.property]
  omega

def credentialOf (signature : Octets 65) (i : TransferInput) : Credential :=
  ⟨List.replicate i.signers.length signature⟩

theorem reads_credential (signature : Octets 65) {i : TransferInput} (h : i.signers.length < 2 ^ 32) :
    Reads Credential.read (credential signature i) (credentialOf signature i) := by
  have hsignatures : Reads (list (octets 65) : Scan _) (Codec.list (fun _ => signature.val) i.signers)
      (i.signers.map fun _ => signature) :=
    reads_list (fun _ _ => reads_octets signature) h
  rw [List.map_const'] at hsignatures
  exact (Scan.reads_expect credentialType).bind (hsignatures.map Credential.mk)

theorem reads_credentials (signature : Octets 65) {inputs : List TransferInput}
    (hcount : inputs.length < 2 ^ 32) (h : ∀ i ∈ inputs, i.signers.length < 2 ^ 32) :
    Reads (list Credential.read) (Codec.list (credential signature) inputs)
      (inputs.map (credentialOf signature)) :=
  reads_list (fun i hi => reads_credential signature (h i hi)) hcount

theorem Counted.reads_signed {tx : UnsignedTx} (h : tx.Counted) (signature : Octets 65)
    {inputs : List TransferInput} (hcount : inputs.length < 2 ^ 32)
    (hsigners : ∀ i ∈ inputs, i.signers.length < 2 ^ 32) :
    Reads SignedTx.read (tx.bytes ++ Codec.list (credential signature) inputs)
      (tx, inputs.map (credentialOf signature)) :=
  h.reads_bytes.bind ((reads_credentials signature hcount hsigners).map (Prod.mk tx))

theorem flatMap_credential_drop_ne_nil (signature : Octets 65) {inputs : List TransferInput}
    (h : 2 ^ 32 ≤ inputs.length) :
    (inputs.drop (inputs.length % 2 ^ 32)).flatMap (credential signature) ≠ [] := by
  have hlt : inputs.length % 2 ^ 32 < inputs.length := Nat.lt_of_lt_of_le (Nat.mod_lt _ (by decide)) h
  rw [List.drop_eq_getElem_cons hlt, List.flatMap_cons]
  refine List.append_ne_nil_of_left_ne_nil ?_ _
  simp [← List.length_pos_iff, length_credential]

/-- What is read with nothing left over wherever the count tells all inputs is so read only there. -/
theorem whole?_credentials_iff {α : Type} {scan : Scan α} {v : Bytes} {value : List TransferInput → α}
    (signature : Octets 65) {inputs : List TransferInput}
    (hreads : ∀ told : List TransferInput, told.length < 2 ^ 32 → told ⊆ inputs →
      Reads scan (v ++ Codec.list (credential signature) told) (value told)) :
    scan.whole? (v ++ Codec.list (credential signature) inputs) = some (value inputs) ↔
      inputs.length < 2 ^ 32 := by
  constructor
  · intro hwhole
    by_contra hmany
    -- the count tells only the inputs up to the word, and the credentials of the others are left over
    have htold : (inputs.take (inputs.length % 2 ^ 32)).length < 2 ^ 32 :=
      Nat.lt_of_le_of_lt (List.length_take_le _ _) (Nat.mod_lt _ (by decide))
    have hnone := Scan.whole?_of_reads_append (hreads _ htold (List.take_subset _ _))
      (flatMap_credential_drop_ne_nil signature (Nat.not_lt.1 hmany))
    rw [List.append_assoc, ← Codec.list_eq_append, hwhole] at hnone
    cases hnone
  · intro hfew
    exact Scan.whole?_of_reads (hreads inputs hfew (List.Subset.refl _))

theorem Counted.whole?_credentials_iff {tx : UnsignedTx} (h : tx.Counted) (signature : Octets 65) :
    Scan.whole? (list Credential.read) (Codec.list (credential signature) tx.signedInputs) =
        some ((tx.base.inputs ++ tx.imported).map (credentialOf signature)) ↔
      (tx.base.inputs ++ tx.imported).length < 2 ^ 32 := by
  rw [signedInputs_eq]
  exact UnsignedTx.whole?_credentials_iff (v := []) signature fun told hcount htold =>
    reads_credentials signature hcount fun i hi => h.signers i (htold hi)

theorem Counted.parts?_signed_iff {tx : UnsignedTx} (h : tx.Counted) (signature : Octets 65) :
    SignedTx.parts? (tx.bytes ++ Codec.list (credential signature) tx.signedInputs) =
        some (tx, (tx.base.inputs ++ tx.imported).map (credentialOf signature)) ↔
      (tx.base.inputs ++ tx.imported).length < 2 ^ 32 := by
  rw [signedInputs_eq]
  exact UnsignedTx.whole?_credentials_iff signature fun told hcount htold =>
    h.reads_signed signature hcount fun i hi => h.signers i (htold hi)

theorem sign_eq_of_valid {key : SecretKey} (h : key.Valid) (tx : UnsignedTx) : ∃ signature,
    key.sign tx.bytes = .ok signature ∧
      tx.sign key = .ok ⟨Cb58.encode (Sha256.digest
        (tx.bytes ++ Codec.list (credential signature) tx.signedInputs)).val,
        tx.bytes ++ Codec.list (credential signature) tx.signedInputs⟩ := by
  refine ⟨_, if_pos h, ?_⟩
  rw [sign, SecretKey.sign, if_pos h]
  rfl

/-- A key that is a scalar signs every transaction: after the unsigned bytes comes one credential for each
input, those from the memory shared with the other chain last, with the signature of the unsigned bytes
once for each signer, and nothing else. With lists that are short enough for their counts the credentials
are read back, alone and behind the transaction, just if the inputs of both lists are short enough
together. Any other key signs none. -/
theorem sign_appends_credentials (tx : UnsignedTx) (key : SecretKey) :
    (key.Valid → ∃ signature signed credentials,
      key.sign tx.bytes = .ok signature ∧ tx.sign key = .ok signed ∧
      signed.bytes = tx.bytes ++ credentials ∧
      (tx.Counted →
        (Scan.whole? (list Credential.read) credentials = some ((tx.base.inputs ++ tx.imported).map
          fun i => ⟨List.replicate i.signers.length signature⟩) ↔
            (tx.base.inputs ++ tx.imported).length < 2 ^ 32) ∧
        (SignedTx.parts? signed.bytes = some (tx, (tx.base.inputs ++ tx.imported).map
          fun i => ⟨List.replicate i.signers.length signature⟩) ↔
            (tx.base.inputs ++ tx.imported).length < 2 ^ 32)) ∧
      signed.bytes.length = tx.bytes.length + 4
        + ((tx.base.inputs ++ tx.imported).map fun i => 8 + 65 * i.signers.length).sum ∧
      signed.id = Cb58.encode (Sha256.digest signed.bytes).val) ∧
    (¬ key.Valid → tx.sign key = .error .secretKey) := by
  refine ⟨fun hvalid => ?_, fun hinvalid => ?_⟩
  · obtain ⟨signature, hsignature, hsign⟩ := sign_eq_of_valid hvalid tx
    refine ⟨signature, _, _, hsignature, hsign, rfl,
      fun h => ⟨h.whole?_credentials_iff signature, h.parts?_signed_iff signature⟩, ?_, rfl⟩
    rw [List.length_append, length_list, signedInputs_eq]
    simp only [length_credential]
    omega
  · rw [sign, SecretKey.sign, if_neg hinvalid]
    rfl

def keyOne : SecretKey := ⟨BigEndian.octets 32 1⟩

theorem valid_keyOne : keyOne.Valid := by decide

/-- The key one signs the specimen: two signatures for the shared output, one for the other. The key zero
does not. -/
theorem sign_specimen : specimen.Counted ∧ keyOne.Valid ∧
    ¬ (SecretKey.mk (Octets.replicate 32 0)).Valid ∧
    (∃ signature signed, specimen.sign keyOne = .ok signed ∧
      SignedTx.parts? signed.bytes = some (specimen, [⟨[signature, signature]⟩, ⟨[signature]⟩])) ∧
    specimen.sign ⟨Octets.replicate 32 0⟩ = .error .secretKey := by
  have hzero : ¬ (SecretKey.mk (Octets.replicate 32 0)).Valid := by decide
  obtain ⟨signature, signed, _, _, hsigned, _, hparts, _⟩ :=
    (sign_appends_credentials specimen keyOne).1 valid_keyOne
  exact ⟨counted_specimen, valid_keyOne, hzero,
    ⟨signature, signed, hsigned, (hparts counted_specimen).2.2 (by decide)⟩,
    (sign_appends_credentials specimen _).2 hzero⟩

/-- An import of one input over and over, `n` times from either chain. -/
def repeated (n : Nat) : UnsignedTx :=
  let input : TransferInput := ⟨Octets.replicate 32 2, 0, Octets.replicate 32 1, 2, [0]⟩
  .importFrom ⟨1337, Id.platform, [], List.replicate n input, []⟩ (Octets.replicate 32 3)
    (List.replicate n input)

theorem counted_repeated {n : Nat} (h : n < 2 ^ 32) : (repeated n).Counted where
  outputs := by simp [repeated, base]
  inputs := by simpa [repeated, base] using h
  memo := by simp [repeated, base]
  exported := by simp [exported, repeated]
  imported := by simpa [repeated, imported] using h
  owners := by simp [repeated, base, exported]
  signers i hi := by
    simp only [repeated, base, imported, List.mem_append, List.mem_replicate] at hi
    obtain ⟨_, rfl⟩ | ⟨_, rfl⟩ := hi <;> decide

theorem length_inputs_repeated (n : Nat) :
    ((repeated n).base.inputs ++ (repeated n).imported).length = n + n := by
  simp [repeated, base, imported]

/-- Each list is short enough for its count, but both together are not: the credentials, which are counted
together, are not read back. -/
theorem repeated_not_read_back : ∃ signature signed credentials, (repeated (2 ^ 31)).Counted ∧
    keyOne.Valid ∧ keyOne.sign (repeated (2 ^ 31)).bytes = .ok signature ∧
    (repeated (2 ^ 31)).sign keyOne = .ok signed ∧
    signed.bytes = (repeated (2 ^ 31)).bytes ++ credentials ∧
    Scan.whole? (list Credential.read) credentials ≠
      some (((repeated (2 ^ 31)).base.inputs ++ (repeated (2 ^ 31)).imported).map
        fun i => ⟨List.replicate i.signers.length signature⟩) := by
  have hcounted : (repeated (2 ^ 31)).Counted := counted_repeated (by decide)
  obtain ⟨signature, hsignature, hsign⟩ := sign_eq_of_valid valid_keyOne (repeated (2 ^ 31))
  refine ⟨signature, _, _, hcounted, valid_keyOne, hsignature, hsign, rfl, fun hwhole => ?_⟩
  have hfew := (hcounted.whole?_credentials_iff signature).1 hwhole
  rw [length_inputs_repeated] at hfew
  exact absurd hfew (by decide)

end UnsignedTx

end LocalFleet
