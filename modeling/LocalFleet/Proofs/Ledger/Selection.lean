import LocalFleet.Ledger.Transaction
import LocalFleet.Proofs.Result

/-! What a spender picks and what becomes of it: the total of a selection is the exact sum of what was
picked, capped, and the inputs that spend a selection are worth as much as the selection. -/

namespace LocalFleet

namespace Utxo

def worth (us : List Utxo) : Nat := (us.map fun u => u.amount.toNat).sum

@[simp] theorem worth_nil : worth [] = 0 := rfl

@[simp] theorem worth_cons (u : Utxo) (us : List Utxo) : worth (u :: us) = u.amount.toNat + worth us := by
  simp [worth]

theorem toNat_total_take (target needed total : Amount) (us : List Utxo) :
    (take target needed total us).total.toNat =
      min (total.toNat + worth (take target needed total us).inputs) (2 ^ 64 - 1) := by
  induction us generalizing total with
  | nil =>
    have := total.toNat_lt
    simp only [take, worth_nil]
    omega
  | cons u us ih =>
    by_cases h : target ≠ 0 ∧ total > needed
    · have := total.toNat_lt
      simp only [take, if_pos h, worth_nil]
      omega
    · have hadd := Amount.toNat_addCapped total u.amount
      simp only [take, if_neg h, ih, worth_cons]
      omega

theorem inputs_take_initial (target needed total : Amount) (us : List Utxo) :
    (take target needed total us).inputs <+: us := by
  induction us generalizing total with
  | nil => simp [take]
  | cons u us ih =>
    by_cases h : target ≠ 0 ∧ total > needed
    · simp [take, if_pos h]
    · simpa [take, if_neg h] using ih _

theorem toNat_total_select (utxos : List Utxo) (assetId : String) (owner : Owner) (now : UInt64)
    (target fee : Amount) :
    (select utxos assetId owner now target fee).total.toNat =
      min (worth (select utxos assetId owner now target fee).inputs) (2 ^ 64 - 1) := by
  simp [select, toNat_total_take]

theorem of_mem_select {utxos : List Utxo} {assetId : String} {owner : Owner} {now : UInt64}
    {target fee : Amount} {u : Utxo}
    (h : u ∈ (select utxos assetId owner now target fee).inputs) :
    u ∈ utxos ∧ u.assetId = assetId ∧ u.SpendableBy owner now := by
  have hh := (inputs_take_initial _ _ _ _).subset h
  simpa using List.mem_filter.1 hh

end Utxo

namespace TransferInput

def worth (is : List TransferInput) : Nat := (is.map fun i => i.amount.toNat).sum

/-- What an input takes over from the output that it spends. -/
structure Spends (u : Utxo) (i : TransferInput) : Prop where
  txId : Id.ofText u.txId = .ok i.txId
  outputIndex : i.outputIndex = u.outputIndex
  assetId : Id.ofText u.assetId = .ok i.assetId
  amount : i.amount = u.amount

theorem spends_of_spend {u : Utxo} {owner : Owner} {i : TransferInput} (h : spend u owner = .ok i) :
    Spends u i := by
  unfold spend at h
  cases hn : u.owners.idxOf? owner with
  | none => simp [hn] at h
  | some n =>
    simp only [hn, bind_eq_ok, mapError_eq_ok, pure_eq_ok] at h
    obtain ⟨txId, ht, assetId, ha, rfl⟩ := h
    exact ⟨ht, rfl, ha, rfl⟩

theorem spends_of_spendEach {owner : Owner} {us : List Utxo} {is : List TransferInput}
    (h : spendEach owner us = .ok is) : List.Forall₂ Spends us is := by
  induction us generalizing is with
  | nil =>
    obtain rfl : [] = is := by simpa [spendEach] using h
    exact .nil
  | cons u us ih =>
    simp only [spendEach, bind_eq_ok, pure_eq_ok] at h
    obtain ⟨i, hi, rest, hr, rfl⟩ := h
    exact .cons (spends_of_spend hi) (ih hr)

theorem worth_of_spends {us : List Utxo} {is : List TransferInput} (h : List.Forall₂ Spends us is) :
    worth is = Utxo.worth us := by
  induction h with
  | nil => rfl
  | cons hi _ ih => simp [worth, Utxo.worth, hi.amount] at ih ⊢; omega

theorem worth_sort (is : List TransferInput) : worth (sort is) = worth is :=
  ((List.mergeSort_perm is le).map _).sum_nat

/-- The inputs that spend a list of outputs are worth what the outputs are worth. -/
theorem worth_spendAll {us : List Utxo} {owner : Owner} {is : List TransferInput}
    (h : spendAll us owner = .ok is) : worth is = Utxo.worth us := by
  simp only [spendAll, map_eq_ok] at h
  obtain ⟨js, hj, rfl⟩ := h
  rw [worth_sort, worth_of_spends (spends_of_spendEach hj)]

theorem exists_spends_of_mem_spendAll {us : List Utxo} {owner : Owner} {is : List TransferInput}
    (h : spendAll us owner = .ok is) {i : TransferInput} (hi : i ∈ is) : ∃ u ∈ us, Spends u i := by
  simp only [spendAll, map_eq_ok] at h
  obtain ⟨js, hj, rfl⟩ := h
  have hmem : i ∈ js := List.mem_mergeSort.1 hi
  have hs := spends_of_spendEach hj
  clear hj hi
  induction hs with
  | nil => cases hmem
  | cons hu _ ih =>
    rcases List.mem_cons.1 hmem with rfl | hmem
    · exact ⟨_, by simp, hu⟩
    · obtain ⟨u, hu, hs⟩ := ih hmem
      exact ⟨u, by simp [hu], hs⟩

end TransferInput

end LocalFleet
