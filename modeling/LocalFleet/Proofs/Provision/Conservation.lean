import LocalFleet.Proofs.Provision.Purse

/-! Conservation: whatever the nodes list and answer, a transaction that is issued to move funds between
the chains makes outputs worth its inputs less the fee, but for the cap on sums, in one asset. -/

namespace LocalFleet

namespace Provisioner

variable (p : Provisioner)

/-- An export to `owner`: the change is an output of its own unless it is zero, and change, amount and
fee together are the exact sum of the inputs, capped. -/
def Exports (owner : Owner) (tx : UnsignedTx) : Prop :=
  ∃ (m : Move) (asset exchange : Id) (change : Amount) (inputs : List TransferInput),
    m.owner = owner ∧ m.amount = p.settings.provision.exportAmount ∧
    tx = m.exportOf asset exchange change inputs ∧
    change.toNat + m.amount.toNat + p.settings.provision.fee.toNat = min tx.spent (2 ^ 64 - 1)

/-- An import to `owner`: the one output is positive, and output and fee together are the exact sum of
the inputs, capped. -/
def Imports (owner : Owner) (tx : UnsignedTx) : Prop :=
  ∃ (m : Move) (asset exchange : Id) (amount : Amount) (inputs : List TransferInput),
    m.owner = owner ∧ tx = m.importOf asset exchange amount inputs ∧ 0 < amount ∧
    amount.toNat + p.settings.provision.fee.toNat = min tx.spent (2 ^ 64 - 1)

/-- All inputs and outputs are of the native asset of the fleet. -/
def OneAsset (tx : UnsignedTx) : Prop :=
  ∃ asset : Id, Id.ofText p.view.ids.asset = .ok asset ∧
    (∀ i ∈ tx.signedInputs, i.assetId = asset) ∧ ∀ o ∈ tx.outputs, o.assetId = asset

def Issuable (wallet : Wallet) (owner : Owner) (chain : Chain) (bytes : Bytes) : Prop :=
  ∃ tx signed, UnsignedTx.sign tx wallet.key = .ok signed ∧ bytes = signed.bytes ∧ p.OneAsset tx ∧
    (chain = .x ∧ p.Exports owner tx ∨ chain = .p ∧ p.Imports owner tx)

variable {p} {wallet : Wallet} {owner : Owner} {networkId : UInt32} {now : UInt64}

theorem oneAsset_and_exports {listed : List Utxo} {tx : UnsignedTx}
    (hv : p.settings.provision.validate = .ok ())
    (h : (p.move wallet owner networkId now).exportTx listed = .ok tx) :
    p.OneAsset tx ∧ p.Exports owner tx := by
  have hlt := ProvisionSettings.export_add_fee_lt hv
  have hfit : p.settings.provision.exportAmount.toNat + p.settings.provision.fee.toNat < 2 ^ 64 := by
    omega
  obtain ⟨asset, exchange, change, inputs, ha, rfl, hsum, hin⟩ := Move.of_exportTx_eq_ok h hfit
  exact ⟨⟨asset, ha, hin, fun o ho => Move.assetId_of_mem_outputs_exportOf ho⟩,
    _, asset, exchange, change, inputs, rfl, rfl, rfl, hsum⟩

theorem oneAsset_and_imports {listed : List Utxo} {tx : UnsignedTx}
    (h : (p.move wallet owner networkId now).importTx listed = .ok tx) :
    p.OneAsset tx ∧ p.Imports owner tx := by
  obtain ⟨asset, exchange, amount, inputs, ha, rfl, hpos, hsum, hin⟩ := Move.of_importTx_eq_ok h
  refine ⟨⟨asset, ha, hin, fun o ho => ?_⟩, _, asset, exchange, amount, inputs, rfl, rfl, hpos, hsum⟩
  obtain rfl := List.mem_singleton.1 ho
  rfl

theorem created_add_fee {tx : UnsignedTx} (h : p.Exports owner tx ∨ p.Imports owner tx) :
    tx.created + p.settings.provision.fee.toNat = min tx.spent (2 ^ 64 - 1) := by
  rcases h with ⟨m, asset, exchange, change, inputs, _, _, rfl, hsum⟩ |
      ⟨m, asset, exchange, amount, inputs, _, rfl, _, hsum⟩
  · rw [Move.created_exportOf, hsum]
  · rw [Move.created_importOf, hsum]

/-- Questions that issue no transaction, or only one of which `P` holds. -/
def IssuesOnly (P : Chain → Bytes → Prop) (q : Question) : Prop :=
  ∀ chain bytes, q.issues? = some (chain, bytes) → P chain bytes

section

open Stage

variable {P : Chain → Bytes → Prop} {s : Provisioned}

theorem confirmTxEverywhere_issuesOnly (chain : Chain) (txId : String) :
    Keeps (Law.asking (IssuesOnly P)) (fun _ _ _ => True) (fun _ _ _ => True) () s
      (p.confirmTxEverywhere chain txId) := by
  refine Keeps.mono (keeps_forM (fun _ _ _ => True) ?_ trivial) (fun _ _ _ h => h) fun _ _ _ h => h
  intro seen node rest g s _ _
  refine Keeps.bind (Q := fun _ _ _ => True) (keeps_await ?_ (fun _ _ _ => trivial) fun _ _ _ => trivial)
    fun _ _ _ _ => keeps_pure trivial
  intro _ _ h
  cases h

theorem issue_issuesOnly {what : String} {chain : Chain} {tx : UnsignedTx} {key : SecretKey}
    (h : ∀ signed, tx.sign key = .ok signed → P chain signed.bytes) :
    Keeps (Law.asking (IssuesOnly P)) (fun _ _ _ => True) (fun _ _ _ => True) () s
      (p.issue what chain tx key) := by
  refine Keeps.bind (Q := fun _ signed _ => tx.sign key = .ok signed)
    (keeps_lift (fun signed hs => mapError_eq_ok.1 hs) fun _ _ => trivial) fun _ signed s hs => ?_
  refine Keeps.bind (Q := fun _ _ _ => True) (keeps_call ?_ (fun _ _ _ => trivial) fun _ _ _ => trivial)
    fun _ txId s _ => confirmTxEverywhere_issuesOnly chain txId
  intro chain' bytes hissue
  obtain ⟨rfl, rfl⟩ := Prod.mk.inj (Option.some.inj hissue)
  exact h signed hs

/-- A move asks to issue nothing but transactions that conserve value. -/
theorem exportImport_issuesOnly (hv : p.settings.provision.validate = .ok ()) :
    Keeps (Law.asking (IssuesOnly fun chain bytes => ∃ wallet owner, s.firstWallet = .ok wallet ∧
        wallet.key.owner = .ok owner ∧ p.Issuable wallet owner chain bytes))
      (fun _ _ _ => True) (fun _ _ _ => True) () s p.exportImport := by
  unfold exportImport
  refine Keeps.bind (Q := fun _ _ t => s = t) (keeps_lift (fun _ _ => rfl) fun _ _ => trivial) ?_
  rintro _ networkId _ rfl
  refine Keeps.bind (Q := fun _ t _ => s = t) (keeps_get rfl) ?_
  rintro _ _ t rfl
  refine Keeps.bind (Q := fun _ wallet _ => s.firstWallet = .ok wallet)
    (keeps_lift (fun _ h => h) fun _ _ => trivial) fun _ wallet t hw => ?_
  refine Keeps.bind (Q := fun _ owner _ => wallet.key.owner = .ok owner)
    (keeps_lift (fun _ h => mapError_eq_ok.1 h) fun _ _ => trivial) fun _ owner t ho => ?_
  refine Keeps.bind (Q := fun _ _ _ => True) (keeps_lift (fun _ _ => trivial) fun _ _ => trivial)
    fun _ xAddress t _ => ?_
  refine Keeps.bind (Q := fun _ _ _ => True) (keeps_lift (fun _ _ => trivial) fun _ _ => trivial)
    fun _ pAddress t _ => ?_
  refine Keeps.bind (Q := fun _ _ _ => True) (keeps_ask nofun fun _ _ _ => trivial)
    fun _ now t _ => ?_
  refine Keeps.bind (Q := fun _ _ _ => True)
    (keeps_call nofun (fun _ _ _ => trivial) fun _ _ _ => trivial) fun _ listed t _ => ?_
  refine Keeps.bind (Q := fun _ tx _ => (p.move wallet owner networkId now).exportTx listed = .ok tx)
    (keeps_lift (fun _ h => h) fun _ _ => trivial) fun _ export_ t hexport => ?_
  have hx := oneAsset_and_exports hv hexport
  refine Keeps.bind (Q := fun _ _ _ => True) (issue_issuesOnly fun signed hs =>
    ⟨wallet, owner, hw, ho, export_, signed, hs, rfl, hx.1, .inl ⟨rfl, hx.2⟩⟩) fun _ _ t _ => ?_
  refine Keeps.bind (Q := fun _ _ _ => True)
    (keeps_await nofun (fun _ _ _ => trivial) fun _ _ _ => trivial) fun _ arrived t _ => ?_
  refine Keeps.bind (Q := fun _ tx _ => (p.move wallet owner networkId now).importTx arrived = .ok tx)
    (keeps_lift (fun _ h => h) fun _ _ => trivial) fun _ import_ t himport => ?_
  have hp := oneAsset_and_imports himport
  exact issue_issuesOnly fun signed hs =>
    ⟨wallet, owner, hw, ho, import_, signed, hs, rfl, hp.1, .inr ⟨rfl, hp.2⟩⟩

end

/-- Whatever is listed and answered, and whenever: a transaction that is issued is signed with the key of
the first wallet, is an export or an import of its, and never makes value. It balances exactly when the
exact sum of its inputs is an amount. -/
theorem issued_conserves (hv : p.settings.provision.validate = .ok ()) (s : Provisioned)
    (answers : List Reply → (q : Question) → q.Answer) {chain : Chain} {bytes : Bytes}
    (h : (chain, bytes) ∈ issued (Plan.play answers [] (p.exportImport s)).2) :
    ∃ wallet owner tx signed, s.firstWallet = .ok wallet ∧ wallet.key.owner = .ok owner ∧
      UnsignedTx.sign tx wallet.key = .ok signed ∧ bytes = signed.bytes ∧ p.OneAsset tx ∧
      (chain = .x ∧ p.Exports owner tx ∨ chain = .p ∧ p.Imports owner tx) ∧
      tx.created + p.settings.provision.fee.toNat ≤ tx.spent ∧
      (tx.created + p.settings.provision.fee.toNat = tx.spent ↔ tx.spent < 2 ^ 64) := by
  obtain ⟨reply, hmem, hissue⟩ := List.mem_filterMap.1 h
  have hasked : IssuesOnly _ reply.question :=
    Plan.of_mem_play (exportImport_issuesOnly hv) (by simp) reply hmem
  obtain ⟨wallet, owner, hw, ho, tx, signed, hs, hbytes, hasset, htx⟩ := hasked chain bytes hissue
  have hsum := created_add_fee (htx.imp And.right And.right)
  exact ⟨wallet, owner, tx, signed, hw, ho, hs, hbytes, hasset, htx, by omega, by omega⟩

/-- Half of the transferred amount is moved by two transactions, and both are bound so. -/
theorem issued_conserves_specimen : ∃ answers exported imported,
    issued (Plan.play answers [] ((specimen 50000000000000).exportImport
      { wallets := [specimenWallet] })).2 = [(.x, exported), (.p, imported)] ∧
    (∃ tx signed, UnsignedTx.sign tx specimenWallet.key = .ok signed ∧ exported = signed.bytes ∧
      tx.created + 1000000 ≤ tx.spent) ∧
    ∃ tx signed, UnsignedTx.sign tx specimenWallet.key = .ok signed ∧ imported = signed.bytes ∧
      tx.created + 1000000 ≤ tx.spent := by
  let f := specimenPurse 50000000000000
  have hv : (specimen 50000000000000).settings.provision.validate = .ok () := rfl
  obtain ⟨export_, hs⟩ := f.exists_signed f.exportTx
  obtain ⟨import_, rs, _, hissued, hplay⟩ :=
    Purse.play_exportImport_of_lt hv (by decide) hs (f.answered_answering export_)
  have hall : issued (Plan.play (f.answering export_) [] ((specimen 50000000000000).exportImport
      { wallets := [specimenWallet] })).2 = [(.x, export_.bytes), (.p, import_.bytes)] := by
    rw [hplay, hissued]
  refine ⟨f.answering export_, export_.bytes, import_.bytes, hall, ?_, ?_⟩
  · obtain ⟨wallet, _, tx, signed, hw, _, hsign, hbytes, _, _, hle, _⟩ :=
      issued_conserves hv _ _ (hall ▸ List.mem_cons_self : (Chain.x, export_.bytes) ∈ _)
    obtain rfl : specimenWallet = wallet := Except.ok.inj hw
    exact ⟨tx, signed, hsign, hbytes, hle⟩
  · obtain ⟨wallet, _, tx, signed, hw, _, hsign, hbytes, _, _, hle, _⟩ :=
      issued_conserves hv _ _
        (hall ▸ List.mem_cons_of_mem _ List.mem_cons_self : (Chain.p, import_.bytes) ∈ _)
    obtain rfl : specimenWallet = wallet := Except.ok.inj hw
    exact ⟨tx, signed, hsign, hbytes, hle⟩

end Provisioner

end LocalFleet
