import LocalFleet.Proofs.Provision.Purse
import LocalFleet.Proofs.Settings.Validity

/-! Whether a move can be completed. What is demanded of the amounts covers the export and its fee; it
does not cover the fee of the import, which is paid out of what was exported. -/

namespace LocalFleet

namespace Provisioner

variable {p : Provisioner} {s : Provisioned}

namespace Purse

theorem outputs_exportTx_pos {f : p.Purse s} (hpos : 0 < p.settings.provision.exportAmount)
    {o : TransferOutput} (ho : o ∈ f.exportTx.outputs) : 0 < o.amount := by
  simp only [exportTx, Move.exportOf, UnsignedTx.outputs, List.mem_append, List.mem_singleton] at ho
  rcases ho with ho | rfl
  · by_cases hchange : p.settings.provision.change > 0
    · rw [if_pos hchange, List.mem_singleton] at ho
      rw [ho]
      exact hchange
    · simp [if_neg hchange] at ho
  · exact hpos

theorem outputs_importTx (f : p.Purse s) (export_ : SignedTx) : (f.importTx export_).outputs =
    [.ownedBy f.asset (p.settings.provision.exportAmount - p.settings.provision.fee) f.owner] := rfl

end Purse

/-- With valid settings, a single output of the transferred amount and a fleet that keeps its side, the
export is issued and leaves a change. The move is completed, by an import of what remains after the fee,
if what was exported exceeds the fee; otherwise the import fails for want of funds. -/
theorem exportImport_completes_of_fee_lt (f : p.Purse s) (hv : p.settings.validate = .ok ()) :
    ∃ export_, f.exportTx.sign f.wallet.key = .ok export_ ∧ 0 < p.settings.provision.change ∧
      p.settings.provision.change.toNat + p.settings.provision.exportAmount.toNat
        + p.settings.provision.fee.toNat = p.settings.provision.transferAmount.toNat ∧
      ∀ answers, f.Answered export_ answers →
        (p.settings.provision.fee < p.settings.provision.exportAmount →
          ∃ import_ rs, (f.importTx export_).sign f.wallet.key = .ok import_ ∧
            Plan.play answers [] (p.exportImport s) = (some (.ok (), s), rs) ∧
            issued rs = [(.x, export_.bytes), (.p, import_.bytes)] ∧
            (∀ o ∈ f.exportTx.outputs ++ (f.importTx export_).outputs, 0 < o.amount) ∧
            (p.settings.provision.exportAmount - p.settings.provision.fee).toNat
              + p.settings.provision.fee.toNat = p.settings.provision.exportAmount.toNat) ∧
        (p.settings.provision.exportAmount ≤ p.settings.provision.fee →
          ∃ rs, Plan.play answers [] (p.exportImport s) =
            (some (.error (.provision (.insufficientFunds f.wallet.name .p
              (p.settings.provision.fee.addCapped 1) p.settings.provision.exportAmount)), s), rs) ∧
            issued rs = [(.x, export_.bytes)]) := by
  have hp := Settings.provision_validate hv
  obtain ⟨export_, hs⟩ := f.exists_signed f.exportTx
  refine ⟨export_, hs, ProvisionSettings.change_pos hp, ProvisionSettings.toNat_change hp,
    fun answers ha => ⟨fun hlt => ?_, fun hle => ?_⟩⟩
  · obtain ⟨import_, rs, himport, hissued, hplay⟩ := Purse.play_exportImport_of_lt hp hlt hs ha
    have hle := UInt64.le_of_lt hlt
    have hsub := UInt64.toNat_sub_of_le _ _ hle
    rw [UInt64.lt_iff_toNat_lt] at hlt
    have hpaid : 0 < p.settings.provision.exportAmount - p.settings.provision.fee := by
      rw [UInt64.lt_iff_toNat_lt, hsub, UInt64.toNat_zero]
      omega
    have hexported : 0 < p.settings.provision.exportAmount := by
      rw [UInt64.lt_iff_toNat_lt, UInt64.toNat_zero]
      omega
    refine ⟨import_, rs, himport, hplay, hissued, fun o ho => ?_, by omega⟩
    rcases List.mem_append.1 ho with ho | ho
    · exact Purse.outputs_exportTx_pos hexported ho
    · rw [f.outputs_importTx, List.mem_singleton] at ho
      rw [ho]
      exact hpaid
  · obtain ⟨rs, hissued, hplay⟩ := Purse.play_exportImport_of_le hp hle hs ha
    exact ⟨rs, hplay, hissued⟩

/-- Valid settings that export just the fee: the export is issued, and the move fails. -/
theorem exportImport_fails_at_fee : (specimen 1000000).settings.validate = .ok () ∧
    ∃ answers exported rs, issued rs = [(.x, exported)] ∧
      Plan.play answers [] ((specimen 1000000).exportImport { wallets := [specimenWallet] }) =
        (some (.error (.provision (.insufficientFunds "first" .p 1000001 1000000)),
          { wallets := [specimenWallet] }), rs) := by
  let f := specimenPurse 1000000
  have hv : (specimen 1000000).settings.validate = .ok () := rfl
  obtain ⟨export_, _, _, _, houtcome⟩ := exportImport_completes_of_fee_lt f hv
  obtain ⟨rs, hplay, hissued⟩ := (houtcome _ (f.answered_answering export_)).2 (by decide)
  exact ⟨hv, f.answering export_, export_.bytes, rs, hissued, hplay⟩

end Provisioner

end LocalFleet
