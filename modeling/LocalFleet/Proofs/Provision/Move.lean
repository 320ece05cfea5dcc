import LocalFleet.Proofs.Ledger.Selection
import LocalFleet.Proofs.Settings.Validity
import LocalFleet.Provision.Transfer

/-! The two transactions of a move between chains: what an export and an import are made of, and that
each makes outputs worth its inputs less the fee. -/

namespace LocalFleet

/-- What validated settings promise of the amounts: the transfer covers the export and a fee, with
something left. -/
theorem ProvisionSettings.export_fee_lt_transfer {s : ProvisionSettings} (h : s.validate = .ok ()) :
    s.exportAmount.toNat + s.fee.toNat < s.transferAmount.toNat :=
  (s.judges.passes.1 h).amounts

theorem ProvisionSettings.export_add_fee_lt {s : ProvisionSettings} (h : s.validate = .ok ()) :
    s.exportAmount.toNat + s.fee.toNat < 2 ^ 64 - 1 := by
  have hlt := export_fee_lt_transfer h
  have htop := s.transferAmount.toNat_lt
  omega

namespace UnsignedTx

def outputs : UnsignedTx → List TransferOutput
  | exportTo base _ exported => base.outputs ++ exported
  | importFrom base _ _ => base.outputs

def created (tx : UnsignedTx) : Nat := (tx.outputs.map fun o => o.amount.toNat).sum

def spent (tx : UnsignedTx) : Nat := TransferInput.worth tx.signedInputs

end UnsignedTx

namespace Move

variable (m : Move)

def exportOf (asset exchange : Id) (change : Amount) (inputs : List TransferInput) : UnsignedTx :=
  .exportTo
    { networkId := m.networkId
      blockchainId := exchange
      outputs := if change > 0 then [.ownedBy asset change m.owner] else []
      inputs
      memo := [] }
    Id.platform [.ownedBy asset m.amount m.owner]

def importOf (asset exchange : Id) (amount : Amount) (inputs : List TransferInput) : UnsignedTx :=
  .importFrom
    { networkId := m.networkId
      blockchainId := Id.platform
      outputs := [.ownedBy asset amount m.owner]
      inputs := []
      memo := [] }
    exchange inputs

variable {m}

@[simp] theorem created_importOf (asset exchange : Id) (amount : Amount) (inputs : List TransferInput) :
    (m.importOf asset exchange amount inputs).created = amount.toNat := by
  simp [importOf, UnsignedTx.created, UnsignedTx.outputs, TransferOutput.ownedBy]

@[simp] theorem created_exportOf (asset exchange : Id) (change : Amount) (inputs : List TransferInput) :
    (m.exportOf asset exchange change inputs).created = change.toNat + m.amount.toNat := by
  by_cases h : change > 0
  · simp [exportOf, UnsignedTx.created, UnsignedTx.outputs, TransferOutput.ownedBy, h]
  · have hzero : change.toNat = 0 := by
      rw [gt_iff_lt, UInt64.lt_iff_toNat_lt] at h
      simpa using h
    simp [exportOf, UnsignedTx.created, UnsignedTx.outputs, TransferOutput.ownedBy, h, hzero]

theorem assetId_of_mem_outputs_exportOf {asset exchange : Id} {change : Amount}
    {inputs : List TransferInput} {o : TransferOutput}
    (h : o ∈ (m.exportOf asset exchange change inputs).outputs) : o.assetId = asset := by
  simp only [exportOf, UnsignedTx.outputs, List.mem_append, List.mem_singleton] at h
  rcases h with h | rfl
  · split at h
    · obtain rfl := List.mem_singleton.1 h
      rfl
    · cases h
  · rfl

theorem assetId_of_mem_spendAll {utxos : List Utxo} {assetId : String} {owner : Owner} {now : UInt64}
    {target fee : Amount} {is : List TransferInput}
    (h : TransferInput.spendAll (Utxo.select utxos assetId owner now target fee).inputs owner = .ok is)
    {i : TransferInput} (hi : i ∈ is) : Id.ofText assetId = .ok i.assetId := by
  obtain ⟨u, hu, hs⟩ := TransferInput.exists_spends_of_mem_spendAll h hi
  rw [← (Utxo.of_mem_select hu).2.1]
  exact hs.assetId

/-- What an export is, when there is one: nothing but the cap on sums is lost between its inputs and
its outputs. -/
theorem of_exportTx_eq_ok {listed : List Utxo} {tx : UnsignedTx} (h : m.exportTx listed = .ok tx)
    (hfit : m.amount.toNat + m.fee.toNat < 2 ^ 64) :
    ∃ asset exchange change inputs, Id.ofText m.assetId = .ok asset ∧
      tx = m.exportOf asset exchange change inputs ∧
      change.toNat + m.amount.toNat + m.fee.toNat = min tx.spent (2 ^ 64 - 1) ∧
      ∀ i ∈ inputs, i.assetId = asset := by
  unfold exportTx at h
  dsimp only at h
  split at h
  · simp only [bind_eq_ok, throw_ne_ok, false_and, exists_false] at h
  · rename_i hcovered
    simp only [bind_eq_ok, mapError_eq_ok, pure_eq_ok] at h
    obtain ⟨asset, ha, exchange, _, inputs, hi, rfl⟩ := h
    refine ⟨asset, exchange, _, inputs, ha, rfl, ?_, fun i hmem => ?_⟩
    · have hneed : m.needed.toNat = m.amount.toNat + m.fee.toNat := by
        have := Amount.toNat_addCapped m.amount m.fee
        simp only [needed]
        omega
      have htotal : (m.exportSelection listed).total.toNat =
          min (TransferInput.worth inputs) (2 ^ 64 - 1) := by
        rw [TransferInput.worth_spendAll hi]
        exact Utxo.toNat_total_select ..
      have hle : m.needed ≤ (m.exportSelection listed).total := UInt64.not_lt.1 hcovered
      have hchange := UInt64.toNat_sub_of_le _ _ hle
      rw [UInt64.le_iff_toNat_le] at hle
      show _ = min (TransferInput.worth inputs) _
      omega
    · have hasset := assetId_of_mem_spendAll hi hmem
      exact Except.ok.inj (hasset.symm.trans ha)

theorem of_importTx_eq_ok {listed : List Utxo} {tx : UnsignedTx} (h : m.importTx listed = .ok tx) :
    ∃ asset exchange amount inputs, Id.ofText m.assetId = .ok asset ∧
      tx = m.importOf asset exchange amount inputs ∧ 0 < amount ∧
      amount.toNat + m.fee.toNat = min tx.spent (2 ^ 64 - 1) ∧ ∀ i ∈ inputs, i.assetId = asset := by
  unfold importTx at h
  dsimp only at h
  split at h
  · simp only [bind_eq_ok, throw_ne_ok, false_and, exists_false] at h
  · rename_i hcovered
    simp only [bind_eq_ok, mapError_eq_ok, pure_eq_ok] at h
    obtain ⟨asset, ha, exchange, _, inputs, hi, rfl⟩ := h
    have htotal : (m.importSelection listed).total.toNat =
        min (TransferInput.worth inputs) (2 ^ 64 - 1) := by
      rw [TransferInput.worth_spendAll hi]
      exact Utxo.toNat_total_select ..
    have hlt : m.fee < (m.importSelection listed).total := UInt64.not_le.1 hcovered
    have hamount := UInt64.toNat_sub_of_le _ _ (UInt64.le_of_lt hlt)
    rw [UInt64.lt_iff_toNat_lt] at hlt
    refine ⟨asset, exchange, _, inputs, ha, rfl, ?_, ?_, fun i hmem => ?_⟩
    · rw [UInt64.lt_iff_toNat_lt, hamount]
      simpa using by omega
    · show _ = min (TransferInput.worth inputs) _
      omega
    · have hasset := assetId_of_mem_spendAll hi hmem
      exact Except.ok.inj (hasset.symm.trans ha)

end Move

/-- The move of a wallet that the settings ask for, at a second of the clock. -/
def Provisioner.move (p : Provisioner) (wallet : Wallet) (owner : Owner) (networkId : UInt32)
    (now : UInt64) : Move :=
  { walletName := wallet.name, owner, networkId, assetId := p.view.ids.asset,
    exchangeId := p.view.ids.exchange, amount := p.settings.provision.exportAmount,
    fee := p.settings.provision.fee, now }

end LocalFleet
