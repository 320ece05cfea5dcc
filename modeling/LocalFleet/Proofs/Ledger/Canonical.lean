import LocalFleet.Proofs.Encoding.Base58
import LocalFleet.Proofs.Ledger.Selection
import LocalFleet.Proofs.Sorting

/-! The inputs that spend a list of outputs. There is one for each output unless an output cannot be
spent, and then the first such output is the error. They stand in the one order that transactions have:
by the bytes of the transaction that is spent, then by index. So it does not matter in which order the
outputs are listed. -/

namespace LocalFleet

namespace Utxo

/-- The transaction that made an output, as listed, and the place of the output there. -/
def outpoint (u : Utxo) : String × UInt32 := (u.txId, u.outputIndex)

/-- Why `owner` cannot spend an output, if there is a reason: a missing owner comes before an unreadable
transaction id, and that before an unreadable asset id. -/
def obstacle? (owner : Owner) (u : Utxo) : Option Error :=
  if owner ∈ u.owners then
    match Id.ofText u.txId, Id.ofText u.assetId with
    | .error e, _ => some (.encoding e)
    | .ok _, .error e => some (.encoding e)
    | .ok _, .ok _ => none
  else some (.provision (.unspendable u.txId u.outputIndex))

theorem obstacle?_eq_none_iff {owner : Owner} {u : Utxo} : u.obstacle? owner = none ↔
    owner ∈ u.owners ∧ (∃ txId : Id, u.txId = Cb58.encode txId.val) ∧
      ∃ assetId : Id, u.assetId = Cb58.encode assetId.val := by
  simp only [← Id.ofText_eq_ok_iff, obstacle?]
  by_cases h : owner ∈ u.owners
  · cases ht : Id.ofText u.txId with
    | error e => simp [h]
    | ok txId => cases ha : Id.ofText u.assetId <;> simp [h]
  · simp [h]

end Utxo

namespace TransferInput

open Utxo

variable {owner : Owner} {us vs : List Utxo} {is js : List TransferInput}

/-! ### Which outputs can be spent -/

theorem spend_eq_error_iff {u : Utxo} {e : Error} :
    spend u owner = .error e ↔ u.obstacle? owner = some e := by
  cases hn : u.owners.idxOf? owner with
  | none =>
    have hmem : owner ∉ u.owners := by simpa using hn
    simp [spend, obstacle?, hn, hmem]
  | some n =>
    have hmem : owner ∈ u.owners := by
      have hsome : (u.owners.idxOf? owner).isSome := by simp [hn]
      simpa using hsome
    simp only [spend, obstacle?, hn, if_pos hmem]
    cases ht : Id.ofText u.txId with
    | error c => simp [bind, Except.bind, Except.mapError]
    | ok txId =>
      cases ha : Id.ofText u.assetId <;> simp [bind, Except.bind, Except.mapError, pure, Except.pure]

theorem spendEach_eq_mapM : spendEach owner us = us.mapM fun u => spend u owner := by
  induction us with
  | nil => rfl
  | cons u us ih => rw [spendEach, List.mapM_cons, ih]

theorem spendEach_eq_ok_iff : spendEach owner us = .ok is ↔
    List.Forall₂ (fun u i => spend u owner = .ok i) us is := by
  rw [spendEach_eq_mapM, mapM_eq_ok_iff]

/-- The error is that of the first output that cannot be spent. -/
theorem spendEach_eq_error_iff {e : Error} :
    spendEach owner us = .error e ↔ us.findSome? (obstacle? owner) = some e := by
  induction us with
  | nil => simp [spendEach]
  | cons u us ih =>
    rw [List.findSome?_cons]
    cases hu : spend u owner with
    | error c =>
      rw [spend_eq_error_iff.1 hu]
      simp [spendEach, hu, bind, Except.bind]
    | ok i =>
      have hnone : u.obstacle? owner = none := by
        cases ho : u.obstacle? owner with
        | none => rfl
        | some c => simp [spend_eq_error_iff.2 ho] at hu
      rw [hnone, ← ih]
      cases hrest : spendEach owner us <;> simp [spendEach, hu, hrest, bind, Except.bind, pure, Except.pure]

theorem spendAll_eq_ok_iff :
    spendAll us owner = .ok is ↔ ∃ each, spendEach owner us = .ok each ∧ sort each = is := by
  simp only [spendAll, map_eq_ok]

theorem spendAll_eq_error_iff {e : Error} :
    spendAll us owner = .error e ↔ us.findSome? (obstacle? owner) = some e := by
  rw [← spendEach_eq_error_iff, spendAll]
  cases spendEach owner us <;> simp [Except.map]

theorem exists_spendAll_iff :
    (∃ is, spendAll us owner = .ok is) ↔ ∀ u ∈ us, u.obstacle? owner = none := by
  rw [← List.findSome?_eq_none_iff]
  cases h : us.findSome? (obstacle? owner) with
  | some e => simp [spendAll_eq_error_iff.2 h]
  | none =>
    cases hs : spendAll us owner with
    | ok is => simp
    | error e => simp [spendAll_eq_error_iff.1 hs] at h

/-! ### The order of inputs -/

/-- The transaction whose output an input spends, and the place of the output there. -/
def outpoint (i : TransferInput) : Id × UInt32 := (i.txId, i.outputIndex)

/-- One input comes before another: by the bytes of the transaction, then by index. -/
def Precedes (i j : TransferInput) : Prop :=
  i.txId.val < j.txId.val ∨ i.txId = j.txId ∧ i.outputIndex < j.outputIndex

theorem le_eq_true_iff {i j : TransferInput} :
    le i j = true ↔ Precedes i j ∨ i.outpoint = j.outpoint := by
  simp only [le, Precedes, outpoint, Prod.mk.injEq]
  by_cases h : i.txId = j.txId
  · have hirrefl : ¬ j.txId.val < j.txId.val := List.lt_irrefl _
    simp [h, hirrefl, UInt32.le_iff_lt_or_eq]
  · simp [h]

theorem Precedes.trans {i j k : TransferInput} (h : Precedes i j) (h' : Precedes j k) : Precedes i k := by
  rcases h with h | ⟨htx, hindex⟩
  · rcases h' with h' | ⟨htx', _⟩
    · exact .inl (List.lt_trans h h')
    · exact .inl (htx' ▸ h)
  · rcases h' with h' | ⟨htx', hindex'⟩
    · exact .inl (htx ▸ h')
    · exact .inr ⟨htx.trans htx', UInt32.lt_trans hindex hindex'⟩

theorem le_trans (i j k : TransferInput) (h : le i j = true) (h' : le j k = true) : le i k = true := by
  rw [le_eq_true_iff] at *
  rcases h with h | h
  · rcases h' with h' | h'
    · exact .inl (h.trans h')
    · simp only [outpoint, Prod.mk.injEq] at h'
      rw [Precedes, ← h'.1, ← h'.2]
      exact .inl h
  · simp only [outpoint, Prod.mk.injEq] at h ⊢
    rw [Precedes, h.1, h.2]
    simpa only [Precedes, outpoint, Prod.mk.injEq] using h'

theorem le_total (i j : TransferInput) : (le i j || le j i) = true := by
  simp only [le, Bool.or_eq_true]
  by_cases h : i.txId = j.txId
  · simp only [if_pos h, if_pos h.symm, decide_eq_true_eq]
    exact UInt32.le_total _ _
  · simp only [if_neg h, if_neg (Ne.symm h), decide_eq_true_eq]
    by_contra hno
    rw [not_or, List.not_lt, List.not_lt] at hno
    exact h (Subtype.ext (List.le_antisymm hno.2 hno.1))

theorem outpoint_eq_of_le {i j : TransferInput} (h : le i j = true) (h' : le j i = true) :
    i.outpoint = j.outpoint := by
  rcases le_eq_true_iff.1 h with h | h
  · rcases le_eq_true_iff.1 h' with h' | h'
    · rcases h.trans h' with hh | ⟨_, hh⟩
      · exact absurd hh (List.lt_irrefl _)
      · exact absurd hh (UInt32.lt_irrefl _)
    · exact h'.symm
  · exact h

theorem sort_perm (is : List TransferInput) : (sort is).Perm is := List.mergeSort_perm is le

theorem pairwise_sort (is : List TransferInput) :
    (sort is).Pairwise fun i j => Precedes i j ∨ i.outpoint = j.outpoint :=
  (List.pairwise_mergeSort le_trans le_total is).imp le_eq_true_iff.1

theorem filter_sort (is : List TransferInput) (o : Id × UInt32) :
    (sort is).filter (·.outpoint = o) = is.filter (·.outpoint = o) := by
  refine filter_mergeSort le_trans le_total (fun i j hi hj => ?_) is
  have hio : i.outpoint = o := by simpa using hi
  have hjo : j.outpoint = o := by simpa using hj
  exact le_eq_true_iff.2 (.inr (hio.trans hjo.symm))

/-- Inputs that spend different outputs have one order. -/
theorem sort_eq_of_perm (h : is.Perm js) (hdistinct : (is.map outpoint).Nodup) : sort is = sort js := by
  have hsorted (ks : List TransferInput) := List.pairwise_mergeSort le_trans le_total ks
  have hperm : (sort is).Perm (sort js) := (sort_perm is).trans (h.trans (sort_perm js).symm)
  refine hperm.eq_of_pairwise (fun i j hi hj hle hle' => ?_) (hsorted is) (hsorted js)
  have hj' : j ∈ is := h.mem_iff.2 ((sort_perm js).mem_iff.1 hj)
  exact List.inj_on_of_nodup_map hdistinct ((sort_perm is).mem_iff.1 hi) hj' (outpoint_eq_of_le hle hle')

theorem pairwise_sort_of_nodup (hdistinct : (is.map outpoint).Nodup) : (sort is).Pairwise Precedes := by
  have hnodup : ((sort is).map outpoint).Nodup := ((sort_perm is).map outpoint).nodup_iff.2 hdistinct
  have hne : (sort is).Pairwise fun i j => i.outpoint ≠ j.outpoint := List.pairwise_map.1 hnodup
  exact (pairwise_sort is).imp₂ (fun _ _ hle hne => hle.resolve_right hne) hne

/-! ### Outputs in any order -/

theorem outpoint_of_spends {u : Utxo} {i : TransferInput} (h : Spends u i) :
    u.outpoint = (Cb58.encode i.outpoint.1.val, i.outpoint.2) := by
  rw [Utxo.outpoint, Id.ofText_eq_ok_iff.1 h.txId, ← h.outputIndex]
  rfl

theorem nodup_outpoint_of_spends (h : List.Forall₂ Spends us is) (hdistinct : (us.map Utxo.outpoint).Nodup) :
    (is.map outpoint).Nodup := by
  have hmap : us.map Utxo.outpoint =
      (is.map outpoint).map fun o => (Cb58.encode o.1.val, o.2) := by
    clear hdistinct
    induction h with
    | nil => rfl
    | cons hu _ ih => simp [ih, outpoint_of_spends hu]
  exact (hmap ▸ hdistinct).of_map _

theorem exists_spendEach_of_perm (h : us.Perm vs) (his : spendEach owner us = .ok is) :
    ∃ js, spendEach owner vs = .ok js ∧ js.Perm is := by
  obtain ⟨js, hjs, hperm⟩ := List.perm_comp_forall₂ h.symm (spendEach_eq_ok_iff.1 his)
  exact ⟨js, spendEach_eq_ok_iff.2 hjs, hperm⟩

/-- All outputs are spent just if each lists the owner and has the texts of two ids, and otherwise the
first in the list that does not is the error. The inputs are those that spend each output, put in order;
inputs of one output stand as their outputs were listed. Of different outputs the order of the list does
not matter. -/
theorem spendAll_canonical (us : List Utxo) (owner : Owner) :
    ((∃ is, spendAll us owner = .ok is) ↔ ∀ u ∈ us, owner ∈ u.owners ∧
      (∃ txId : Id, u.txId = Cb58.encode txId.val) ∧
      ∃ assetId : Id, u.assetId = Cb58.encode assetId.val) ∧
    (∀ e, spendAll us owner = .error e ↔ ∃ before u after, us = before ++ u :: after ∧
      u.obstacle? owner = some e ∧ ∀ v ∈ before, v.obstacle? owner = none) ∧
    ∀ is, spendAll us owner = .ok is →
      (∃ each, List.Forall₂ (fun u i => spend u owner = .ok i) us each ∧ is.Perm each ∧
        ∀ o, is.filter (·.outpoint = o) = each.filter (·.outpoint = o)) ∧
      (is.Pairwise fun i j => Precedes i j ∨ i.outpoint = j.outpoint) ∧
      ∀ vs, us.Perm vs → (us.map Utxo.outpoint).Nodup →
        spendAll vs owner = .ok is ∧ is.Pairwise Precedes := by
  refine ⟨?_, fun e => ?_, fun is his => ?_⟩
  · simp only [exists_spendAll_iff, obstacle?_eq_none_iff]
  · rw [spendAll_eq_error_iff, List.findSome?_eq_some_iff]
  · obtain ⟨each, heach, hsort⟩ := spendAll_eq_ok_iff.1 his
    subst hsort
    have hspend := spendEach_eq_ok_iff.1 heach
    refine ⟨⟨each, hspend, sort_perm each, filter_sort each⟩, pairwise_sort each, ?_⟩
    intro vs hperm hdistinct
    have hinputs := nodup_outpoint_of_spends (hspend.imp fun _ _ => spends_of_spend) hdistinct
    obtain ⟨other, hother, hsame⟩ := exists_spendEach_of_perm hperm heach
    have horder : sort each = sort other := sort_eq_of_perm hsame.symm hinputs
    exact ⟨spendAll_eq_ok_iff.2 ⟨other, hother, horder.symm⟩, pairwise_sort_of_nodup hinputs⟩

/-- Two outputs, listed in either order; the one of the lesser transaction comes first. -/
theorem spendAll_canonical_specimen :
    let owner := Octets.replicate 20 4
    let coin (b : UInt8) (index : UInt32) : Utxo :=
      ⟨Cb58.encode (Octets.replicate 32 b).val, index, Cb58.encode (Octets.replicate 32 9).val, 5, 0, 1,
        [owner]⟩
    let input (b : UInt8) (index : UInt32) : TransferInput :=
      ⟨Octets.replicate 32 b, index, Octets.replicate 32 9, 5, [0]⟩
    spendAll [coin 2 0, coin 1 7] owner = .ok [input 1 7, input 2 0] ∧
      spendAll [coin 1 7, coin 2 0] owner = .ok [input 1 7, input 2 0] ∧
      [input 1 7, input 2 0].Pairwise Precedes := by
  intro owner coin input
  have hspend (b : UInt8) (index : UInt32) : spend (coin b index) owner = .ok (input b index) := by
    simp only [spend, coin, Id.ofText_encode]
    rfl
  have heach : spendEach owner [coin 2 0, coin 1 7] = .ok [input 2 0, input 1 7] :=
    spendEach_eq_ok_iff.2 (.cons (hspend 2 0) (.cons (hspend 1 7) .nil))
  have hordered : sort [input 1 7, input 2 0] = [input 1 7, input 2 0] :=
    List.mergeSort_of_pairwise (by decide)
  have hsort : sort [input 2 0, input 1 7] = [input 1 7, input 2 0] :=
    (sort_eq_of_perm (List.Perm.swap _ _ _) (by decide)).trans hordered
  have hspent := spendAll_eq_ok_iff.2 ⟨_, heach, hsort⟩
  obtain ⟨_, _, hcanonical⟩ := spendAll_canonical [coin 2 0, coin 1 7] owner
  obtain ⟨_, _, hlisted⟩ := hcanonical _ hspent
  have hdistinct : ([coin 2 0, coin 1 7].map Utxo.outpoint).Nodup := by simp [Utxo.outpoint, coin]
  exact ⟨hspent, hlisted _ (List.Perm.swap _ _ _) hdistinct⟩

end TransferInput

end LocalFleet
