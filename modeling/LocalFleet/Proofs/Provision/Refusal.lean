import LocalFleet.Proofs.Ledger.Canonical
import LocalFleet.Proofs.Ledger.Covering
import LocalFleet.Proofs.Provision.Affordable
import LocalFleet.Proofs.Transcript

/-! When a move is refused for want of funds. A selection stops early and all sums are capped; with settings
that were checked neither changes the verdict, which is that of the exact sum of all the wallet can spend. -/

namespace LocalFleet

def Error.IsShortage : Error → Prop
  | .provision (.insufficientFunds ..) => True
  | _ => False

theorem Utxo.not_isShortage_of_obstacle {owner : Owner} {u : Utxo} {e : Error}
    (h : u.obstacle? owner = some e) : ¬ e.IsShortage := by
  rw [obstacle?] at h
  split at h
  · split at h
    · cases h
      exact id
    · cases h
      exact id
    · cases h
  · cases h
    exact id

theorem TransferInput.not_isShortage_of_spendAll {owner : Owner} {us : List Utxo} {e : Error}
    (h : spendAll us owner = .error e) : ¬ e.IsShortage := by
  rw [spendAll_eq_error_iff] at h
  obtain ⟨u, -, hu⟩ := List.exists_of_findSome?_eq_some h
  exact Utxo.not_isShortage_of_obstacle hu

theorem not_isShortage_of_encoding {α : Type} {x : Except EncodingError α} {e : Error}
    (h : x.mapError Error.encoding = .error e) : ¬ e.IsShortage := by
  obtain ⟨cause, -, hcause⟩ := mapError_eq_error.1 h
  simp [← hcause, Error.IsShortage]

theorem not_isShortage_of_made {asset exchange : String} {owner : Owner} {us : List Utxo} {e : Error}
    {made : Id → Id → List TransferInput → UnsignedTx}
    (h : (do
      let asset ← (Id.ofText asset).mapError Error.encoding
      let exchange ← (Id.ofText exchange).mapError Error.encoding
      let inputs ← TransferInput.spendAll us owner
      return made asset exchange inputs : Result UnsignedTx) = .error e) : ¬ e.IsShortage := by
  rcases bind_eq_error.1 h with h | ⟨_, -, h⟩
  · exact not_isShortage_of_encoding h
  rcases bind_eq_error.1 h with h | ⟨_, -, h⟩
  · exact not_isShortage_of_encoding h
  rcases bind_eq_error.1 h with h | ⟨_, -, h⟩
  · exact TransferInput.not_isShortage_of_spendAll h
  · cases h

theorem ClusterSettings.exists_networkNumber {s : ClusterSettings} (h : s.validate = .ok ()) :
    ∃ networkId, s.networkNumber = .ok networkId := (accepted_of_validate h).network

namespace Move

variable {m : Move} {listed : List Utxo}

def held (m : Move) (listed : List Utxo) : Nat :=
  Utxo.worth (Utxo.spendable listed m.assetId m.owner m.now)

theorem toNat_needed (hfit : m.amount.toNat + m.fee.toNat < 2 ^ 64) :
    m.needed.toNat = m.amount.toNat + m.fee.toNat := by
  have hcap := Amount.toNat_addCapped m.amount m.fee
  simp only [needed]
  omega

/-- The selection tells of everything that is held, or its total exceeds what is needed. -/
theorem total_exportSelection (m : Move) (listed : List Utxo) :
    (m.exportSelection listed).total.toNat = min (m.held listed) (2 ^ 64 - 1) ∨
      m.needed.toNat < (m.exportSelection listed).total.toNat ∧
        (m.exportSelection listed).total.toNat ≤ m.held listed := by
  have htotal : (m.exportSelection listed).total.toNat =
      min (Utxo.worth (m.exportSelection listed).inputs) (2 ^ 64 - 1) := Utxo.toNat_total_select ..
  rcases Utxo.inputs_select_or_exceeds listed m.assetId m.owner m.now m.amount m.fee with hall | hexceeds
  · left
    rw [htotal, exportSelection, hall, held]
  · right
    have hle : Utxo.worth (m.exportSelection listed).inputs ≤ m.held listed :=
      Utxo.worth_le_of_initial Utxo.inputs_select_initial
    have hlt : m.needed.toNat < min (Utxo.worth (m.exportSelection listed).inputs) (2 ^ 64 - 1) := hexceeds
    omega

theorem toNat_total_importSelection (m : Move) (listed : List Utxo) :
    (m.importSelection listed).total.toNat = min (m.held listed) (2 ^ 64 - 1) := by
  have htotal : (m.importSelection listed).total.toNat =
      min (Utxo.worth (m.importSelection listed).inputs) (2 ^ 64 - 1) := Utxo.toNat_total_select ..
  rw [htotal, importSelection, Utxo.inputs_select_zero, held]

/-- A transaction is refused for want of funds just if less is held than it takes, and the refusal tells by
how much. -/
structure RefusedBelow (m : Move) (chain : Chain) (least : Nat) (listed : List Utxo)
    (r : Result UnsignedTx) : Prop where
  refused : m.held listed < least → ∃ needed available : Amount, needed.toNat = least ∧
    available.toNat = m.held listed ∧ r = .error (m.insufficient chain needed available)
  held : ∀ e, r = .error e → e.IsShortage → m.held listed < least

theorem exportTx_refusedBelow (hfit : m.amount.toNat + m.fee.toNat < 2 ^ 64) (listed : List Utxo) :
    m.RefusedBelow .x (m.amount.toNat + m.fee.toNat) listed (m.exportTx listed) := by
  have hneeded := toNat_needed hfit
  have htotal := total_exportSelection m listed
  constructor
  · intro hlt
    have hshort : (m.exportSelection listed).total < m.needed := by
      rw [UInt64.lt_iff_toNat_lt]
      omega
    refine ⟨m.needed, (m.exportSelection listed).total, hneeded, by omega, ?_⟩
    simp only [exportTx, if_pos hshort]
    rfl
  · intro e he hshortage
    by_contra hnot
    have hcovered : ¬ (m.exportSelection listed).total < m.needed := by
      rw [UInt64.lt_iff_toNat_lt]
      omega
    simp only [exportTx, if_neg hcovered] at he
    exact not_isShortage_of_made he hshortage

theorem importTx_refusedBelow (hfit : m.fee.toNat < 2 ^ 64 - 1) (listed : List Utxo) :
    m.RefusedBelow .p (m.fee.toNat + 1) listed (m.importTx listed) := by
  have htotal := toNat_total_importSelection m listed
  constructor
  · intro hlt
    have hshort : (m.importSelection listed).total ≤ m.fee := by
      rw [UInt64.le_iff_toNat_le]
      omega
    have hneeded := Amount.toNat_addCapped m.fee 1
    rw [UInt64.toNat_one] at hneeded
    refine ⟨m.fee.addCapped 1, (m.importSelection listed).total, by omega, by omega, ?_⟩
    simp only [importTx, if_pos hshort]
    rfl
  · intro e he hshortage
    by_contra hnot
    have hcovered : ¬ (m.importSelection listed).total ≤ m.fee := by
      rw [UInt64.le_iff_toNat_le]
      omega
    simp only [importTx, if_neg hcovered] at he
    exact not_isShortage_of_made he hshortage

theorem held_singleton {u : Utxo} (ha : u.assetId = m.assetId) (hu : u.SpendableBy m.owner m.now) :
    m.held [u] = u.amount.toNat := by
  simp [held, Utxo.spendable, ha, hu]

theorem hasArrived_iff : m.hasArrived listed = true ↔
    ∃ u ∈ listed, u.assetId = m.assetId ∧ u.SpendableBy m.owner m.now := by
  simp [hasArrived, importSelection, Utxo.inputs_select_zero, Utxo.spendable]

end Move

def Plan.LacksFunds : Plan (Result Unit × Provisioned) → Prop
  | .done (.error e, _) => e.IsShortage
  | _ => False

/-- Where a move is settled, a run ends for want of funds just if less is held than it takes. It tells then
exactly what it takes and what is held, and has changed nothing. -/
structure Move.Settles (m : Move) (chain : Chain) (least : Nat) (listed : List Utxo) (s : Provisioned)
    (rest : Plan (Result Unit × Provisioned)) : Prop where
  lacks_iff : rest.LacksFunds ↔ m.held listed < least
  report : m.held listed < least → ∃ needed available : Amount, needed.toNat = least ∧
    available.toNat = m.held listed ∧ rest = .done (.error (m.insufficient chain needed available), s)

def Question.IssuesOn (chain : Chain) : Question → Prop
  | .call _ _ (.issueTx on _) => on = chain
  | .await _ _ _ (.getTxStatus ..) _ => True
  | _ => False

namespace Provisioner

open Stage

variable {p : Provisioner} {s : Provisioned} {wallet : Wallet} {owner : Owner} {networkId : UInt32}
  {xAddress pAddress : String} {now : UInt64} {m : Move} {key : SecretKey} {what : String} {chain : Chain}
  {tx : UnsignedTx}

/-! ### Issuing a transaction -/

theorem issue_cases (p : Provisioner) (s : Provisioned) (what : String) (chain : Chain) (tx : UnsignedTx)
    (key : SecretKey) : (∃ cause, p.issue what chain tx key s = .done (.error (.encoding cause), s)) ∨
      ∃ q next, p.issue what chain tx key s = .ask q next := by
  rw [issue, bind_apply]
  cases tx.sign key with
  | error cause => exact .inl ⟨cause, rfl⟩
  | ok signed => exact .inr ⟨_, _, rfl⟩

theorem not_lacksFunds_issue_bind (g : Unit → Provisioning Unit) :
    ¬ ((p.issue what chain tx key >>= g) s).LacksFunds := by
  rw [bind_apply]
  rcases issue_cases p s what chain tx key with ⟨cause, h⟩ | ⟨q, next, h⟩ <;>
    simp [h, Plan.LacksFunds, Error.IsShortage]

theorem not_lacksFunds_issue : ¬ (p.issue what chain tx key s).LacksFunds := by
  have hbind : ¬ ((p.issue what chain tx key >>= pure) s).LacksFunds := not_lacksFunds_issue_bind pure
  rwa [bind_pure] at hbind

theorem issue_keeps : Keeps (Law.asking (Question.IssuesOn chain)) (fun _ _ t => t = s) (fun _ _ t => t = s)
    () s (p.issue what chain tx key) := by
  refine Keeps.bind (Q := fun _ _ t => t = s) (keeps_lift (fun _ _ => rfl) fun _ _ => rfl) ?_
  intro _ signed t ht
  refine Keeps.bind (Q := fun _ _ t => t = s) (keeps_call rfl (fun _ _ _ => ht) fun _ _ _ => ht) ?_
  intro _ txId t ht
  refine keeps_forM (fun _ _ t => t = s) ?_ ht
  intro _ node _ _ t _ ht
  exact Keeps.bind (Q := fun _ _ t => t = s) (keeps_await trivial (fun _ _ _ => ht) fun _ _ _ => ht)
    fun _ _ _ ht => keeps_pure ht

theorem exists_confirm_reaches (chain : Chain) (txId : String) (nodes : List NodeSpec) : ∃ since,
      (nodes.forM (fun node => p.confirmTx node chain txId) s).Reaches since (.done (.ok (), s)) := by
  induction nodes with
  | nil => exact ⟨[], .here _⟩
  | cons node nodes ih =>
    obtain ⟨since, hsince⟩ := ih
    have hfinal : (p.confirmTx node chain txId s).Reaches
        [⟨.await s!"{chain}-chain tx {txId} on {node.name}" p.pace node (.getTxStatus chain txId)
          fun (status : TxStatus) => status = chain.finalStatus, .ok chain.finalStatus⟩]
        (.done (.ok (), s)) := reaches_await_bind (.here _)
    exact ⟨_, reaches_bind_ok hfinal hsince⟩

theorem exists_issue_reaches {signed : SignedTx} (h : tx.sign key = .ok signed) :
    ∃ since, (p.issue what chain tx key s).Reaches since (.done (.ok (), s)) := by
  obtain ⟨since, hsince⟩ := exists_confirm_reaches (p := p) (s := s) chain signed.id p.view.nodes
  exact ⟨_, reaches_lift_bind (mapError_eq_ok.2 h) (reaches_call_bind hsince)⟩

/-! ### The move, up to where it is settled -/

/-- A move from the import on, once outputs have arrived. -/
def importArrived (p : Provisioner) (key : SecretKey) (m : Move) (arrived : List Utxo) :
    Provisioning Unit := do
  let import_ ← Stage.lift (m.importTx arrived)
  p.issue "import X to P" .p import_ key

/-- A move from the wait for what was exported on. -/
def importing (p : Provisioner) (key : SecretKey) (pAddress : String) (m : Move) : Provisioning Unit := do
  let arrived ← Stage.await s!"atomic utxos for {pAddress}" p.pace p.first
    (.getUtxos .p [pAddress] (some .x)) m.hasArrived
  p.importArrived key m arrived

/-- A move from the export on, once outputs were listed. -/
def exporting (p : Provisioner) (key : SecretKey) (pAddress : String) (m : Move) (listed : List Utxo) :
    Provisioning Unit := do
  let export_ ← Stage.lift (m.exportTx listed)
  p.issue "export X to P" .x export_ key
  p.importing key pAddress m

/-- The replies with which a move begins: the second of the clock, and what is listed on the exchange
chain. -/
def begun (p : Provisioner) (xAddress : String) (now : UInt64) (listed : List Utxo) : List Reply :=
  [⟨.clock, now⟩, ⟨.call "list X-chain utxos" p.first (.getUtxos .x [xAddress] none), .ok listed⟩]

/-- The reply with what has arrived at the platform chain. -/
def arrival (p : Provisioner) (pAddress : String) (m : Move) (arrived : List Utxo) : Reply :=
  ⟨.await s!"atomic utxos for {pAddress}" p.pace p.first (.getUtxos .p [pAddress] (some .x)) m.hasArrived,
    .ok arrived⟩

theorem exportImport_reaches (hn : p.settings.cluster.networkNumber = .ok networkId)
    (hw : s.firstWallet = .ok wallet) (ho : wallet.key.owner = .ok owner)
    (hx : wallet.address .x = .ok xAddress) (hp : wallet.address .p = .ok pAddress) (listed : List Utxo) :
    (p.exportImport s).Reaches (p.begun xAddress now listed)
      (p.exporting wallet.key pAddress (p.move wallet owner networkId now) listed s) := by
  unfold exportImport
  refine reaches_lift_bind hn (reaches_get_bind ?_)
  refine reaches_lift_bind hw (reaches_lift_bind (mapError_eq_ok.2 ho) ?_)
  refine reaches_lift_bind hx (reaches_lift_bind hp ?_)
  exact reaches_ask_bind (reaches_call_bind (.here _))

theorem importing_eq : p.importing key pAddress m s =
    .ask (.await s!"atomic utxos for {pAddress}" p.pace p.first (.getUtxos .p [pAddress] (some .x)) m.hasArrived)
      fun r => match r with
        | .ok arrived => p.importArrived key m arrived s
        | .error e => .done (.error e, s) := by
  rw [importing, bind_apply]
  show Plan.ask _ _ = _
  congr 1
  funext r
  cases r <;> rfl

theorem importArrived_keeps {arrived : List Utxo} : Keeps (Law.asking (Question.IssuesOn .p))
    (fun _ _ _ => True) (fun _ _ _ => True) () s (p.importArrived key m arrived) := by
  refine Keeps.bind (Q := fun _ _ t => t = s) (keeps_lift (fun _ _ => rfl) fun _ _ => trivial) ?_
  intro _ tx t _
  exact issue_keeps.mono (fun _ _ _ _ => trivial) fun _ _ _ _ => trivial

variable {before : List Reply} {arrived listed : List Utxo} {rest : Plan (Result Unit × Provisioned)}

theorem not_issuesOn_arrival : ¬ (p.arrival pAddress m arrived).question.IssuesOn chain := id

theorem reaches_importing
    (h : (p.importing key pAddress m s).Reaches (before ++ [p.arrival pAddress m arrived]) rest) :
    before = [] ∧ rest = p.importArrived key m arrived s := by
  rw [importing_eq] at h
  cases before with
  | nil =>
    cases h with
    | answered h => exact ⟨rfl, h.eq_of_nil⟩
  | cons reply before =>
    cases h with
    | answered h =>
      rename_i answer
      cases answer with
      | error e => simpa using h.eq_nil_of_done
      | ok first =>
        have hissuing := (Plan.Keeps.of_reaches importArrived_keeps h).1 (p.arrival pAddress m arrived)
        exact absurd (hissuing (by simp)) not_issuesOn_arrival

/-- Until something has arrived, nothing but the export is issued. -/
theorem reaches_exporting
    (h : (p.exporting key pAddress m listed s).Reaches (before ++ [p.arrival pAddress m arrived]) rest) :
    (∀ reply ∈ before, reply.question.IssuesOn .x) ∧ rest = p.importArrived key m arrived s := by
  unfold exporting at h
  cases hexport : m.exportTx listed with
  | error e =>
    rw [hexport] at h
    simpa using h.eq_nil_of_done
  | ok tx =>
    have hrun : ((p.issue "export X to P" .x tx key >>= fun _ => p.importing key pAddress m) s).Reaches
        (before ++ [p.arrival pAddress m arrived]) rest := by
      rw [hexport] at h
      exact h
    rw [bind_apply] at hrun
    rcases Plan.reaches_bind_cases hrun with ⟨q, hq⟩ | ⟨since, more, ⟨r, t⟩, hall, hsince, hmore⟩
    · have hissuing := (Plan.Keeps.of_reaches issue_keeps hq).1 (p.arrival pAddress m arrived)
      exact absurd (hissuing (by simp)) not_issuesOn_arrival
    · obtain ⟨hissuing, hends⟩ := Plan.Keeps.of_reaches issue_keeps hsince
      rcases List.eq_nil_or_concat more with rfl | ⟨init, last, rfl⟩
      · rw [List.append_nil] at hall
        exact absurd (hissuing (p.arrival pAddress m arrived) (by simp [← hall])) not_issuesOn_arrival
      · rw [List.concat_eq_append, ← List.append_assoc] at hall
        obtain ⟨rfl, hlast⟩ := List.append_inj' hall rfl
        cases r with
        | error e => simpa using hmore.eq_nil_of_done
        | ok u =>
          obtain rfl : t = s := hends
          rw [List.concat_eq_append, ← hlast] at hmore
          obtain ⟨rfl, hrest⟩ := reaches_importing hmore
          exact ⟨by simpa using hissuing, hrest⟩

/-! ### Where the move is settled -/

theorem settles_lift_bind {least : Nat} {listed : List Utxo} {r : Result UnsignedTx}
    {g : UnsignedTx → Provisioning Unit} (h : m.RefusedBelow chain least listed r)
    (hg : ∀ tx, ¬ (g tx s).LacksFunds) : m.Settles chain least listed s ((Stage.lift r >>= g) s) := by
  constructor
  · constructor
    · intro hlacks
      cases r with
      | ok tx => exact absurd hlacks (hg tx)
      | error e => exact h.held e rfl hlacks
    · intro hlt
      obtain ⟨_, _, _, _, rfl⟩ := h.refused hlt
      trivial
  · intro hlt
    obtain ⟨needed, available, hneeded, havailable, rfl⟩ := h.refused hlt
    exact ⟨needed, available, hneeded, havailable, rfl⟩

theorem exporting_settles (hv : p.settings.provision.validate = .ok ()) (listed : List Utxo) :
    (p.move wallet owner networkId now).Settles .x
      (p.settings.provision.exportAmount.toNat + p.settings.provision.fee.toNat) listed s
      (p.exporting key pAddress (p.move wallet owner networkId now) listed s) := by
  have hlt := ProvisionSettings.export_add_fee_lt hv
  have hfit : p.settings.provision.exportAmount.toNat + p.settings.provision.fee.toNat < 2 ^ 64 := by omega
  exact settles_lift_bind (Move.exportTx_refusedBelow hfit listed) fun tx => not_lacksFunds_issue_bind _

theorem importArrived_settles (hv : p.settings.provision.validate = .ok ()) (arrived : List Utxo) :
    (p.move wallet owner networkId now).Settles .p (p.settings.provision.fee.toNat + 1) arrived s
      (p.importArrived key (p.move wallet owner networkId now) arrived s) := by
  have hlt := ProvisionSettings.export_add_fee_lt hv
  have hfit : p.settings.provision.fee.toNat < 2 ^ 64 - 1 := by omega
  exact settles_lift_bind (Move.importTx_refusedBelow hfit arrived) fun tx => not_lacksFunds_issue

theorem issued_of_issuesOn {replies : List Reply}
    (h : ∀ reply ∈ replies, reply.question.IssuesOn chain) : ∀ c ∈ issued replies, c.1 = chain := by
  intro c hc
  obtain ⟨reply, hmem, hissues⟩ := List.mem_filterMap.1 hc
  have hon := h reply hmem
  unfold Question.issues? at hissues
  split at hissues
  · rename_i hquestion
    rw [hquestion] at hon
    rw [← Option.some.inj hissues]
    exact hon
  · cases hissues

/-- The two places where a move can be refused for want of funds. Once outputs are listed on the exchange
chain, nothing has been issued, and the export is refused just if all that the wallet alone can spend of
them now is worth less than amount and fee together. Once outputs have arrived at the platform chain, only
the export has been issued, and the import is refused just if what can be spent of them is worth no more
than the fee. Such a refusal tells the exact sums. If there is an export, any outputs can arrive. -/
theorem exportImport_settled (hv : p.settings.validate = .ok ()) (hw : s.firstWallet = .ok wallet)
    (ho : wallet.key.owner = .ok owner) (hx : wallet.address .x = .ok xAddress)
    (hp : wallet.address .p = .ok pAddress) (now : UInt64) (listed : List Utxo) :
    ∃ networkId, p.settings.cluster.networkNumber = .ok networkId ∧
      let m := p.move wallet owner networkId now
      let begun := p.begun xAddress now listed
      issued begun = [] ∧
      (∃ rest, (p.exportImport s).Reaches begun rest ∧
        m.Settles .x (p.settings.provision.exportAmount.toNat + p.settings.provision.fee.toNat) listed s
          rest) ∧
      (∀ before arrived rest,
        (p.exportImport s).Reaches (begun ++ before ++ [p.arrival pAddress m arrived]) rest →
        (∀ c ∈ issued before, c.1 = .x) ∧
        m.Settles .p (p.settings.provision.fee.toNat + 1) arrived s rest) ∧
      (∀ arrived, m.hasArrived arrived = true ↔
        ∃ u ∈ arrived, u.assetId = p.view.ids.asset ∧ u.SpendableBy owner now) ∧
      ∀ export_, m.exportTx listed = .ok export_ → ∀ arrived, ∃ before rest,
        (p.exportImport s).Reaches (begun ++ before ++ [p.arrival pAddress m arrived]) rest := by
  have hprovision := Settings.provision_validate hv
  obtain ⟨networkId, hn⟩ := ClusterSettings.exists_networkNumber (Settings.cluster_validate hv)
  refine ⟨networkId, hn, ?_⟩
  intro m begun
  have hbegun : (p.exportImport s).Reaches begun (p.exporting wallet.key pAddress m listed s) :=
    exportImport_reaches hn hw ho hx hp listed
  refine ⟨rfl, ⟨_, hbegun, exporting_settles hprovision listed⟩, ?_, fun arrived => Move.hasArrived_iff, ?_⟩
  · intro before arrived rest hreaches
    rw [List.append_assoc] at hreaches
    obtain ⟨q, hq, hmore⟩ := hreaches.split
    rw [hq.unique hbegun] at hmore
    obtain ⟨hissuing, hrest⟩ := reaches_exporting hmore
    rw [hrest]
    exact ⟨issued_of_issuesOn hissuing, importArrived_settles hprovision arrived⟩
  · intro export_ hexport arrived
    obtain ⟨signed, hsigned⟩ := UnsignedTx.exists_sign ho export_
    obtain ⟨since, hissue⟩ := exists_issue_reaches (p := p) (s := s) hsigned
    have harrive : (p.importing wallet.key pAddress m s).Reaches [p.arrival pAddress m arrived]
        (p.importArrived wallet.key m arrived s) := reaches_await_bind (.here _)
    have hexporting : (p.exporting wallet.key pAddress m listed s).Reaches
        (since ++ [p.arrival pAddress m arrived]) (p.importArrived wallet.key m arrived s) :=
      reaches_lift_bind hexport (reaches_bind_ok hissue harrive)
    refine ⟨since, p.importArrived wallet.key m arrived s, ?_⟩
    rw [List.append_assoc]
    exact hbegun.trans hexporting

/-- Without outputs the export is refused. With the transferred amount it is not, and if then just the fee
arrives, the import is. -/
theorem exportImport_settled_specimen :
    let p := specimen 50000000000000
    let f := specimenPurse 50000000000000
    let s : Provisioned := { wallets := [specimenWallet] }
    (∃ rest, (p.exportImport s).Reaches (p.begun "X-first" 0 []) rest ∧ rest.LacksFunds) ∧
    (∃ rest, (p.exportImport s).Reaches (p.begun "X-first" 0 [f.coin]) rest ∧ ¬ rest.LacksFunds) ∧
    ∃ arrived before rest, (f.moveAt 0).hasArrived arrived = true ∧ (p.exportImport s).Reaches
      (p.begun "X-first" 0 [f.coin] ++ before ++ [p.arrival "P-first" (f.moveAt 0) arrived]) rest ∧
      rest.LacksFunds ∧ ∀ c ∈ issued before, c.1 = .x := by
  intro p f s
  have hv : (specimen 50000000000000).settings.validate = .ok () := rfl
  have hspendable : f.coin.SpendableBy f.owner 0 := ⟨UInt64.le_refl _, rfl, List.mem_singleton_self _⟩
  let dust : Utxo := { f.coin with amount := 1000000 }
  have hdust : dust.SpendableBy f.owner 0 := ⟨UInt64.le_refl _, rfl, List.mem_singleton_self _⟩
  obtain ⟨_, hnumber, _, ⟨rest, hreaches, hsettles⟩, _⟩ :=
    exportImport_settled hv f.isFirst f.owns f.onExchange f.onPlatform 0 []
  obtain ⟨networkId, hn, _, ⟨rest', hreaches', hsettles'⟩, himport, harrived, hexists⟩ :=
    exportImport_settled hv f.isFirst f.owns f.onExchange f.onPlatform 0 [f.coin]
  obtain rfl : f.networkId = networkId := Except.ok.inj (f.network.symm.trans hn)
  obtain ⟨before, last, hlast⟩ := hexists f.exportTx (Purse.exportTx_coin rfl (UInt64.le_refl _)) [dust]
  obtain ⟨hissued, hrefused⟩ := himport before [dust] last hlast
  have hcoin : (f.moveAt 0).held [f.coin] = 100000000000000 := Move.held_singleton f.coinAsset hspendable
  have hheld : (f.moveAt 0).held [dust] = 1000000 := Move.held_singleton f.coinAsset hdust
  refine ⟨⟨rest, hreaches, hsettles.lacks_iff.2 ?_⟩, ⟨rest', hreaches', fun hlacks => ?_⟩,
    [dust], before, last, (harrived _).2 ⟨dust, List.mem_singleton_self _, f.coinAsset, hdust⟩, hlast,
    hrefused.lacks_iff.2 ?_, hissued⟩
  · show 0 < 50000001000000
    decide
  · have hlt : (f.moveAt 0).held [f.coin] < 50000001000000 := hsettles'.lacks_iff.1 hlacks
    omega
  · show (f.moveAt 0).held [dust] < 1000001
    omega

end Provisioner

end LocalFleet
