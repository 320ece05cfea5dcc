import LocalFleet.Proofs.Ledger.Selection

/-! What is picked to cover an amount. Of the outputs that can be spent, in the order in which they are
listed, it is the shortest initial part whose sum exceeds what is needed, and all of them if none does. A
target of zero picks all of them. -/

namespace LocalFleet.Utxo

/-- The outputs of an asset that `owner` alone can spend now, in the order in which they are listed. -/
def spendable (utxos : List Utxo) (assetId : String) (owner : Owner) (now : UInt64) : List Utxo :=
  utxos.filter fun u => u.assetId = assetId ∧ u.SpendableBy owner now

/-- The sum of some outputs, at most the largest amount, exceeds what is needed. -/
def Exceeds (needed : Amount) (us : List Utxo) : Prop := needed.toNat < min (worth us) (2 ^ 64 - 1)

/-- The initial part that is picked exceeds what is needed, and no shorter one does. -/
structure Shortest (needed : Amount) (us picked : List Utxo) : Prop where
  initial : picked <+: us
  exceeds : Exceeds needed picked
  least : ∀ part, part <+: us → Exceeds needed part → picked <+: part

theorem worth_perm {us vs : List Utxo} (h : us.Perm vs) : worth us = worth vs := (h.map _).sum_nat

theorem worth_le_of_initial {us vs : List Utxo} (h : us <+: vs) : worth us ≤ worth vs := by
  obtain ⟨rest, hrest⟩ := h
  simp [← hrest, worth]

variable {target needed total : Amount} {us : List Utxo}

theorem inputs_take_zero (needed total : Amount) (us : List Utxo) :
    (take 0 needed total us).inputs = us := by
  induction us generalizing total with
  | nil => simp [take]
  | cons u us ih => simp [take, ih]

theorem take_of_lt (h : target ≠ 0) (ht : needed < total) (us : List Utxo) :
    take target needed total us = ⟨[], total⟩ := by
  cases us with
  | nil => simp [take]
  | cons u us => simp [take, h, ht]

theorem take_cons_of_le (h : total ≤ needed) (u : Utxo) (us : List Utxo) :
    take target needed total (u :: us) =
      ⟨u :: (take target needed (total.addCapped u.amount) us).inputs,
        (take target needed (total.addCapped u.amount) us).total⟩ := by
  have hstop : ¬ (target ≠ 0 ∧ total > needed) := fun hh => UInt64.not_lt.2 h hh.2
  simp only [take, if_neg hstop]

/-- Either everything is taken or what is taken exceeds what is needed. -/
theorem inputs_take_or_lt (target needed total : Amount) (us : List Utxo) :
    (take target needed total us).inputs = us ∨ needed < (take target needed total us).total := by
  induction us generalizing total with
  | nil => simp [take]
  | cons u us ih =>
    by_cases h : target ≠ 0 ∧ needed < total
    · right
      rw [take_of_lt h.1 h.2]
      exact h.2
    · have hrest := ih (total.addCapped u.amount)
      simp only [take, gt_iff_lt, if_neg h, List.cons.injEq, true_and]
      exact hrest

theorem inputs_take_least (h : target ≠ 0) {part : List Utxo} (hpart : part <+: us)
    (hexceeds : needed.toNat < min (total.toNat + worth part) (2 ^ 64 - 1)) :
    (take target needed total us).inputs <+: part := by
  induction us generalizing total part with
  | nil => simp [take]
  | cons u us ih =>
    by_cases ht : needed < total
    · simp [take_of_lt h ht]
    · have hle : total ≤ needed := UInt64.not_lt.1 ht
      rw [UInt64.le_iff_toNat_le] at hle
      cases part with
      | nil =>
        rw [worth_nil] at hexceeds
        omega
      | cons v part =>
        rw [List.cons_prefix_cons] at hpart
        have hadd := Amount.toNat_addCapped total u.amount
        rw [hpart.1, worth_cons] at hexceeds
        rw [take_cons_of_le (UInt64.not_lt.1 ht), hpart.1, List.cons_prefix_cons]
        exact ⟨rfl, ih hpart.2 (by omega)⟩

/-- What is taken is not changed by outputs that come after it, once its total exceeds what is needed. -/
theorem take_append (h : target ≠ 0) (hlt : needed < (take target needed total us).total)
    (more : List Utxo) : take target needed total (us ++ more) = take target needed total us := by
  induction us generalizing total with
  | nil => exact take_of_lt h (by simpa [take] using hlt) more
  | cons u us ih =>
    by_cases ht : needed < total
    · rw [take_of_lt h ht, take_of_lt h ht]
    · have hle : total ≤ needed := UInt64.not_lt.1 ht
      rw [take_cons_of_le hle] at hlt
      rw [List.cons_append, take_cons_of_le hle, take_cons_of_le hle, ih hlt]

variable {utxos : List Utxo} {assetId : String} {owner : Owner} {now : UInt64} {fee : Amount}

theorem inputs_select_initial :
    (select utxos assetId owner now target fee).inputs <+: spendable utxos assetId owner now :=
  inputs_take_initial _ _ _ _

theorem inputs_select_zero :
    (select utxos assetId owner now 0 fee).inputs = spendable utxos assetId owner now :=
  inputs_take_zero _ _ _

theorem lt_total_iff_exceeds : needed < (select utxos assetId owner now target fee).total ↔
    Exceeds needed (select utxos assetId owner now target fee).inputs := by
  rw [UInt64.lt_iff_toNat_lt, toNat_total_select, Exceeds]

theorem inputs_select_or_exceeds (utxos : List Utxo) (assetId : String) (owner : Owner) (now : UInt64)
    (target fee : Amount) :
    (select utxos assetId owner now target fee).inputs = spendable utxos assetId owner now ∨
      Exceeds (target.addCapped fee) (select utxos assetId owner now target fee).inputs := by
  rw [← lt_total_iff_exceeds]
  exact inputs_take_or_lt _ _ _ _

theorem inputs_select_least (h : target ≠ 0) {part : List Utxo}
    (hpart : part <+: spendable utxos assetId owner now) (hexceeds : Exceeds (target.addCapped fee) part) :
    (select utxos assetId owner now target fee).inputs <+: part := by
  have hsum : (target.addCapped fee).toNat < min ((0 : Amount).toNat + worth part) (2 ^ 64 - 1) := by
    simpa [Exceeds] using hexceeds
  exact inputs_take_least h hpart hsum

/-- If some initial part exceeds what is needed, the shortest one is selected. -/
theorem shortest_select (h : target ≠ 0) {part : List Utxo}
    (hpart : part <+: spendable utxos assetId owner now) (hexceeds : Exceeds (target.addCapped fee) part) :
    Shortest (target.addCapped fee) (spendable utxos assetId owner now)
      (select utxos assetId owner now target fee).inputs where
  initial := inputs_select_initial
  exceeds := by
    rcases inputs_select_or_exceeds utxos assetId owner now target fee with hall | hh
    · have hleast := inputs_select_least h hpart hexceeds
      rw [hall] at hleast ⊢
      rwa [hleast.eq_of_length_le hpart.length_le]
    · exact hh
  least part hpart hexceeds := inputs_select_least h hpart hexceeds

theorem select_append (h : target ≠ 0)
    (hlt : target.addCapped fee < (select utxos assetId owner now target fee).total) (more : List Utxo) :
    select (utxos ++ more) assetId owner now target fee = select utxos assetId owner now target fee := by
  rw [select, List.filter_append]
  exact take_append h hlt _

theorem select_zero_of_perm {utxos' : List Utxo} (h : utxos'.Perm utxos) :
    (select utxos' assetId owner now 0 fee).inputs.Perm (select utxos assetId owner now 0 fee).inputs ∧
      (select utxos' assetId owner now 0 fee).total = (select utxos assetId owner now 0 fee).total := by
  have hinputs : (select utxos' assetId owner now 0 fee).inputs.Perm
      (select utxos assetId owner now 0 fee).inputs := by
    rw [inputs_select_zero, inputs_select_zero]
    exact h.filter _
  refine ⟨hinputs, UInt64.toNat_inj.1 ?_⟩
  rw [toNat_total_select, toNat_total_select, worth_perm hinputs]

/-- A selection covers its target with the shortest initial part of the outputs that can be spent, or with
all of them if none suffices; its total is their exact sum, capped. Once the total exceeds what is needed
nothing that is listed later is looked at. A target of zero selects all, in whatever order they come. -/
theorem select_covers (utxos : List Utxo) (assetId : String) (owner : Owner) (now : UInt64)
    (target fee : Amount) :
    let all := spendable utxos assetId owner now
    let needed := target.addCapped fee
    let picked := select utxos assetId owner now target fee
    needed.toNat = min (target.toNat + fee.toNat) (2 ^ 64 - 1) ∧
    picked.total.toNat = min (worth picked.inputs) (2 ^ 64 - 1) ∧
    (target ≠ 0 →
      ((∃ part, part <+: all ∧ Exceeds needed part) → Shortest needed all picked.inputs) ∧
      ((∀ part, part <+: all → ¬ Exceeds needed part) → picked.inputs = all) ∧
      (needed < picked.total →
        ∀ more, select (utxos ++ more) assetId owner now target fee = picked)) ∧
    (target = 0 → picked.inputs = all ∧ ∀ utxos', utxos'.Perm utxos →
      (select utxos' assetId owner now target fee).inputs.Perm picked.inputs ∧
      (select utxos' assetId owner now target fee).total = picked.total) := by
  intro all needed picked
  have hall : target ≠ 0 → (∀ part, part <+: all → ¬ Exceeds needed part) → picked.inputs = all := by
    intro _ hnone
    rcases inputs_select_or_exceeds utxos assetId owner now target fee with hh | hh
    · exact hh
    · exact absurd hh (hnone _ inputs_select_initial)
  refine ⟨Amount.toNat_addCapped target fee, toNat_total_select .., fun h => ⟨?_, hall h, ?_⟩, ?_⟩
  · intro ⟨part, hpart, hexceeds⟩
    exact shortest_select h hpart hexceeds
  · exact fun hlt => select_append h hlt
  · intro h
    subst h
    exact ⟨inputs_select_zero, fun utxos' hperm => select_zero_of_perm hperm⟩

/-- Two of three outputs cover five and a fee of one, whatever else is listed; for a target of zero all
are selected. -/
theorem select_covers_specimen :
    let owner := Octets.replicate 20 4
    let coin (amount : Amount) : Utxo := ⟨"", 0, "", amount, 0, 1, [owner]⟩
    let picked := select [coin 3, coin 4, coin 5] "" owner 0 5 1
    picked = ⟨[coin 3, coin 4], 7⟩ ∧ Shortest 6 [coin 3, coin 4, coin 5] [coin 3, coin 4] ∧
      (∀ more, select ([coin 3, coin 4, coin 5] ++ more) "" owner 0 5 1 = picked) ∧
      (select [coin 3] "" owner 0 5 1).inputs = [coin 3] ∧
      (select [coin 4, coin 3] "" owner 0 0 1).inputs.Perm [coin 3, coin 4] := by
  intro owner coin picked
  have hpicked : picked = ⟨[coin 3, coin 4], 7⟩ := by decide
  obtain ⟨-, -, hcovers, -⟩ := select_covers [coin 3, coin 4, coin 5] "" owner 0 5 1
  obtain ⟨-, -, hshort, -⟩ := select_covers [coin 3] "" owner 0 5 1
  obtain ⟨-, -, -, hzero⟩ := select_covers [coin 3, coin 4] "" owner 0 0 1
  obtain ⟨hshortest, -, happend⟩ := hcovers (by decide)
  refine ⟨hpicked, ?_, happend (by decide), ?_, ?_⟩
  · have hpart : [coin 3, coin 4] <+: spendable [coin 3, coin 4, coin 5] "" owner 0 := by decide
    have hexceeds : Exceeds 6 [coin 3, coin 4] := by simp [Exceeds, coin]
    have hh := hshortest ⟨_, hpart, hexceeds⟩
    rwa [show select _ _ _ _ _ _ = _ from hpicked] at hh
  · refine (hshort (by decide)).2.1 fun part hpart hexceeds => ?_
    cases part with
    | nil => simp [Exceeds] at hexceeds
    | cons u rest =>
      have hhead := List.cons_prefix_cons.1 (show u :: rest <+: [coin 3] from hpart)
      simp [Exceeds, hhead.1, List.prefix_nil.1 hhead.2, coin, Amount.addCapped, Amount.capped] at hexceeds
  · exact ((hzero rfl).2 _ (List.Perm.swap _ _ _)).1

/-- A selection for a target of zero grows with the list, also when its total exceeds what is needed. -/
theorem select_zero_append :
    let owner := Octets.replicate 20 4
    let coin (amount : Amount) : Utxo := ⟨"", 0, "", amount, 0, 1, [owner]⟩
    ¬ ((0 : Amount).addCapped 0 < (select [coin 5] "" owner 0 0 0).total →
      select ([coin 5] ++ [coin 3]) "" owner 0 0 0 = select [coin 5] "" owner 0 0 0) := by
  decide

end LocalFleet.Utxo
