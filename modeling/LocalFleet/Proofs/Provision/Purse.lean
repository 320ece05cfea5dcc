import LocalFleet.Proofs.Encoding.Base58
import LocalFleet.Proofs.Plan
import LocalFleet.Proofs.Provision.Move

/-! A wallet that owns a single unspent output, and a fleet that keeps its side of a move: it lists
what there is, takes every transaction that is issued and confirms it. What a move does then is computed
here from the amounts alone. -/

namespace LocalFleet

/-- The transaction that a question asks a node to issue, and the chain. -/
def Question.issues? : Question → Option (Chain × Bytes)
  | .call _ _ (.issueTx chain tx) => some (chain, tx)
  | _ => none

def issued (replies : List Reply) : List (Chain × Bytes) := replies.filterMap (·.question.issues?)

theorem issued_append (replies rs : List Reply) : issued (replies ++ rs) = issued replies ++ issued rs :=
  List.filterMap_append

theorem Amount.zero_addCapped (a : Amount) : Amount.addCapped 0 a = a := by
  have := a.toNat_lt
  have hsum := Amount.toNat_addCapped 0 a
  rw [UInt64.toNat_zero] at hsum
  exact UInt64.toNat_inj.1 (by omega)

theorem Utxo.select_singleton {u : Utxo} {assetId : String} {owner : Owner} {now : UInt64}
    (target fee : Amount) (ha : u.assetId = assetId) (hu : u.SpendableBy owner now) :
    select [u] assetId owner now target fee = ⟨[u], u.amount⟩ := by
  have hzero : ¬ (target ≠ 0 ∧ (0 : Amount) > target.addCapped fee) := by simp
  simp only [select, List.filter_cons, ha, hu, and_self, decide_true, if_true, List.filter_nil, take,
    if_neg hzero, Amount.zero_addCapped]

theorem TransferInput.spendAll_singleton {u : Utxo} {owner : Owner} {txId assetId : Id}
    (hu : u.owners = [owner]) (ht : Id.ofText u.txId = .ok txId) (ha : Id.ofText u.assetId = .ok assetId) :
    spendAll [u] owner = .ok [⟨txId, u.outputIndex, assetId, u.amount, [0]⟩] := by
  have hidx : u.owners.idxOf? owner = some 0 := by simp [hu, List.idxOf?, List.findIdx?_cons]
  have hspend : spend u owner = .ok ⟨txId, u.outputIndex, assetId, u.amount, [0]⟩ := by
    simp only [spend, hidx, ht, ha]
    rfl
  simp [spendAll, spendEach, hspend, bind, Except.bind, pure, Except.pure, Except.map, sort]

theorem UnsignedTx.exists_sign {key : SecretKey} {owner : Owner} (h : key.owner = .ok owner)
    (tx : UnsignedTx) : ∃ signed, tx.sign key = .ok signed := by
  have hvalid : key.Valid := by
    by_contra hnot
    rw [SecretKey.owner, if_neg hnot] at h
    cases h
  simp only [UnsignedTx.sign, SecretKey.sign, if_pos hvalid]
  exact ⟨_, rfl⟩

namespace ProvisionSettings

/-- What is left of a transferred amount after the export and its fee. -/
def change (s : ProvisionSettings) : Amount := s.transferAmount - (s.exportAmount + s.fee)

variable {s : ProvisionSettings}

theorem addCapped_fee (h : s.validate = .ok ()) : s.exportAmount.addCapped s.fee = s.exportAmount + s.fee := by
  have hlt := export_add_fee_lt h
  have hcap := Amount.toNat_addCapped s.exportAmount s.fee
  have hadd := UInt64.toNat_add s.exportAmount s.fee
  exact UInt64.toNat_inj.1 (by omega)

theorem toNat_change (h : s.validate = .ok ()) :
    s.change.toNat + s.exportAmount.toNat + s.fee.toNat = s.transferAmount.toNat := by
  have hlt := export_fee_lt_transfer h
  have htop := s.transferAmount.toNat_lt
  have hadd := UInt64.toNat_add s.exportAmount s.fee
  have hle : s.exportAmount + s.fee ≤ s.transferAmount := by
    rw [UInt64.le_iff_toNat_le]
    omega
  rw [change, UInt64.toNat_sub_of_le _ _ hle]
  omega

theorem change_pos (h : s.validate = .ok ()) : 0 < s.change := by
  have hlt := export_fee_lt_transfer h
  have hsum := toNat_change h
  rw [UInt64.lt_iff_toNat_lt, UInt64.toNat_zero]
  omega

end ProvisionSettings

namespace Provisioner

variable (p : Provisioner)

/-- The first wallet of a state, when it is on both chains and owns one unlocked output of the
transferred amount, alone. -/
structure Purse (s : Provisioned) where
  wallet : Wallet
  owner : Owner
  xAddress : String
  pAddress : String
  networkId : UInt32
  asset : Id
  exchange : Id
  origin : Id
  coin : Utxo
  isFirst : s.firstWallet = .ok wallet
  owns : wallet.key.owner = .ok owner
  onExchange : wallet.address .x = .ok xAddress
  onPlatform : wallet.address .p = .ok pAddress
  network : p.settings.cluster.networkNumber = .ok networkId
  readAsset : Id.ofText p.view.ids.asset = .ok asset
  readExchange : Id.ofText p.view.ids.exchange = .ok exchange
  readOrigin : Id.ofText coin.txId = .ok origin
  coinAsset : coin.assetId = p.view.ids.asset
  coinAmount : coin.amount = p.settings.provision.transferAmount
  coinThreshold : coin.threshold = 1
  coinOwners : coin.owners = [owner]

namespace Purse

variable {p} {s : Provisioned} (f : p.Purse s)

def moveAt (now : UInt64) : Move := p.move f.wallet f.owner f.networkId now

def exportTx : UnsignedTx :=
  (f.moveAt 0).exportOf f.asset f.exchange p.settings.provision.change
    [⟨f.origin, f.coin.outputIndex, f.asset, p.settings.provision.transferAmount, [0]⟩]

/-- The exported output of a signed export, as it is listed in the shared memory. It comes after the
change. -/
def exported (export_ : SignedTx) : Utxo :=
  { txId := export_.id, outputIndex := 1, assetId := p.view.ids.asset,
    amount := p.settings.provision.exportAmount, locktime := 0, threshold := 1, owners := [f.owner] }

def importTx (export_ : SignedTx) : UnsignedTx :=
  (f.moveAt 0).importOf f.asset f.exchange
    (p.settings.provision.exportAmount - p.settings.provision.fee)
    [⟨Sha256.digest export_.bytes, 1, f.asset, p.settings.provision.exportAmount, [0]⟩]

/-- The fleet keeps its side: it lists the one output, and the exported one when it is issued, takes
every transaction and confirms each. The clock has reached the locktime. -/
structure Answered (export_ : SignedTx) (answers : List Reply → (q : Question) → q.Answer) : Prop where
  clock : ∀ replies, f.coin.locktime ≤ answers replies .clock
  lists : ∀ replies what node addresses,
    answers replies (.call what node (.getUtxos .x addresses none)) = .ok [f.coin]
  issues : ∀ replies what node chain tx, ∃ txId,
    answers replies (.call what node (.issueTx chain tx)) = .ok txId
  confirms : ∀ replies what pace node chain txId enough, ∃ status,
    answers replies (.await what pace node (.getTxStatus chain txId) enough) = .ok status
  arrives : ∀ replies what pace node addresses enough,
    answers replies (.await what pace node (.getUtxos .p addresses (some .x)) enough)
      = .ok [f.exported export_]

variable {f} {export_ : SignedTx} {now : UInt64}

theorem exists_signed (tx : UnsignedTx) : ∃ signed, tx.sign f.wallet.key = .ok signed :=
  UnsignedTx.exists_sign f.owns tx

theorem id_of_sign {tx : UnsignedTx} {key : SecretKey} (h : tx.sign key = .ok export_) :
    export_.id = Cb58.encode (Sha256.digest export_.bytes).val := by
  simp only [UnsignedTx.sign, bind_eq_ok, pure_eq_ok] at h
  obtain ⟨_, _, rfl⟩ := h
  rfl

theorem select_coin (target fee : Amount) (hnow : f.coin.locktime ≤ now) :
    Utxo.select [f.coin] p.view.ids.asset f.owner now target fee = ⟨[f.coin], f.coin.amount⟩ :=
  Utxo.select_singleton target fee f.coinAsset ⟨hnow, f.coinThreshold, by simp [f.coinOwners]⟩

theorem exportTx_coin (hv : p.settings.provision.validate = .ok ()) (hnow : f.coin.locktime ≤ now) :
    (f.moveAt now).exportTx [f.coin] = .ok f.exportTx := by
  have hselect : (f.moveAt now).exportSelection [f.coin] = ⟨[f.coin], f.coin.amount⟩ :=
    select_coin _ _ hnow
  have hneeded : (f.moveAt now).needed =
      p.settings.provision.exportAmount + p.settings.provision.fee :=
    ProvisionSettings.addCapped_fee hv
  have hspend : TransferInput.spendAll [f.coin] f.owner =
      .ok [⟨f.origin, f.coin.outputIndex, f.asset, f.coin.amount, [0]⟩] :=
    TransferInput.spendAll_singleton f.coinOwners f.readOrigin (f.coinAsset ▸ f.readAsset)
  have hcovered : ¬ f.coin.amount < p.settings.provision.exportAmount + p.settings.provision.fee := by
    have hlt := ProvisionSettings.export_fee_lt_transfer hv
    have hadd := UInt64.toNat_add p.settings.provision.exportAmount p.settings.provision.fee
    rw [f.coinAmount, UInt64.lt_iff_toNat_lt]
    omega
  unfold Move.exportTx
  simp only [hselect, hneeded, if_neg hcovered]
  refine bind_eq_ok.2 ⟨f.asset, mapError_eq_ok.2 f.readAsset, ?_⟩
  refine bind_eq_ok.2 ⟨f.exchange, mapError_eq_ok.2 f.readExchange, ?_⟩
  refine bind_eq_ok.2 ⟨_, hspend, ?_⟩
  rw [f.coinAmount]
  rfl

theorem select_exported (target fee : Amount) :
    Utxo.select [f.exported export_] p.view.ids.asset f.owner now target fee =
      ⟨[f.exported export_], p.settings.provision.exportAmount⟩ :=
  Utxo.select_singleton target fee rfl ⟨UInt64.zero_le, rfl, by simp [exported]⟩

theorem importTx_exported (hs : f.exportTx.sign f.wallet.key = .ok export_)
    (hlt : p.settings.provision.fee < p.settings.provision.exportAmount) :
    (f.moveAt now).importTx [f.exported export_] = .ok (f.importTx export_) := by
  have hselect : (f.moveAt now).importSelection [f.exported export_] =
      ⟨[f.exported export_], p.settings.provision.exportAmount⟩ := select_exported _ _
  have hid : Id.ofText export_.id = .ok (Sha256.digest export_.bytes) := by
    rw [id_of_sign hs, Id.ofText_encode]
  have hspend : TransferInput.spendAll [f.exported export_] f.owner =
      .ok [⟨Sha256.digest export_.bytes, 1, f.asset, p.settings.provision.exportAmount, [0]⟩] :=
    TransferInput.spendAll_singleton rfl hid f.readAsset
  have hcovered : ¬ p.settings.provision.exportAmount ≤ (f.moveAt now).fee := UInt64.not_le.2 hlt
  unfold Move.importTx
  simp only [hselect, if_neg hcovered]
  refine bind_eq_ok.2 ⟨f.asset, mapError_eq_ok.2 f.readAsset, ?_⟩
  refine bind_eq_ok.2 ⟨f.exchange, mapError_eq_ok.2 f.readExchange, ?_⟩
  exact bind_eq_ok.2 ⟨_, hspend, rfl⟩

theorem importTx_exported_of_le (hle : p.settings.provision.exportAmount ≤ p.settings.provision.fee) :
    (f.moveAt now).importTx [f.exported export_] =
      .error (.provision (.insufficientFunds f.wallet.name .p (p.settings.provision.fee.addCapped 1)
        p.settings.provision.exportAmount)) := by
  have hselect : (f.moveAt now).importSelection [f.exported export_] =
      ⟨[f.exported export_], p.settings.provision.exportAmount⟩ := select_exported _ _
  have hshort : p.settings.provision.exportAmount ≤ (f.moveAt now).fee := hle
  unfold Move.importTx
  simp only [hselect, if_pos hshort]
  rfl

variable {answers : List Reply → (q : Question) → q.Answer}

theorem play_confirmTxEverywhere (ha : f.Answered export_ answers) (chain : Chain) (txId : String)
    (replies : List Reply) : ∃ rs, Plan.play answers replies (p.confirmTxEverywhere chain txId s) =
      (some (.ok (), s), rs) ∧ issued rs = issued replies := by
  unfold confirmTxEverywhere
  induction p.view.nodes generalizing replies with
  | nil => exact ⟨replies, rfl, rfl⟩
  | cons node nodes ih =>
    obtain ⟨status, hstatus⟩ := ha.confirms replies s!"{chain}-chain tx {txId} on {node.name}" p.pace
      node chain txId fun (status : TxStatus) => status = chain.finalStatus
    have hconfirm : Plan.play answers replies (p.confirmTx node chain txId s) = (some (.ok (), s), _) :=
      Stage.play_bind_ok (fun _ => pure ()) ((Stage.play_await ..).trans (by rw [hstatus]))
    obtain ⟨rs, hplay, hissued⟩ := ih _
    refine ⟨rs, (Stage.play_bind_ok _ hconfirm).trans hplay, hissued.trans ?_⟩
    rw [issued_append]
    exact List.append_nil _

theorem play_issue (ha : f.Answered export_ answers) (what : String) (chain : Chain) {tx : UnsignedTx}
    {key : SecretKey} {signed : SignedTx} (hs : tx.sign key = .ok signed) (replies : List Reply) :
    ∃ rs, Plan.play answers replies (p.issue what chain tx key s) = (some (.ok (), s), rs) ∧
      issued rs = issued replies ++ [(chain, signed.bytes)] := by
  obtain ⟨txId, htx⟩ := ha.issues replies what p.first chain signed.bytes
  have hlift : Plan.play answers replies
      (Stage.lift ((tx.sign key).mapError Error.encoding) s) = (some (.ok signed, s), replies) :=
    Stage.play_lift (mapError_eq_ok.2 hs)
  have hcall : Plan.play answers replies (Stage.call what p.first (.issueTx chain signed.bytes) s) =
      (some (.ok txId, s), _) := (Stage.play_call ..).trans (by rw [htx])
  obtain ⟨rs, hplay, hissued⟩ := play_confirmTxEverywhere ha chain txId _
  refine ⟨rs, ?_, hissued.trans ?_⟩
  · exact (Stage.play_bind_ok _ hlift).trans ((Stage.play_bind_ok _ hcall).trans hplay)
  · rw [issued_append]
    rfl

/-- Up to the import: the export is issued, and its output has arrived. -/
theorem play_exportImport (hv : p.settings.provision.validate = .ok ())
    (hs : f.exportTx.sign f.wallet.key = .ok export_) (ha : f.Answered export_ answers) :
    ∃ now rs, issued rs = [(.x, export_.bytes)] ∧
      Plan.play answers [] (p.exportImport s) = Plan.play answers rs
        ((do
          let import_ ← Stage.lift ((f.moveAt now).importTx [f.exported export_])
          p.issue "import X to P" .p import_ f.wallet.key : Provisioning Unit) s) := by
  have hexport := exportTx_coin (f := f) hv (ha.clock [])
  let begun : List Reply := [⟨.clock, answers [] .clock⟩]
  let listing : Question := .call "list X-chain utxos" p.first (.getUtxos .x [f.xAddress] none)
  have hlist : Plan.play answers begun
      (Stage.call "list X-chain utxos" p.first (.getUtxos .x [f.xAddress] none) s) =
      (some (.ok [f.coin], s), begun ++ [⟨listing, answers begun listing⟩]) :=
    (Stage.play_call ..).trans (by rw [ha.lists])
  obtain ⟨rs, hissue, hissued⟩ := play_issue ha "export X to P" .x hs
    (begun ++ [⟨listing, answers begun listing⟩])
  let arrival : Question := .await s!"atomic utxos for {f.pAddress}" p.pace p.first
    (.getUtxos .p [f.pAddress] (some .x)) (f.moveAt (answers [] .clock)).hasArrived
  have harrive : Plan.play answers rs (Stage.await s!"atomic utxos for {f.pAddress}" p.pace p.first
      (.getUtxos .p [f.pAddress] (some .x)) (f.moveAt (answers [] .clock)).hasArrived s) =
      (some (.ok [f.exported export_], s), rs ++ [⟨arrival, answers rs arrival⟩]) :=
    (Stage.play_await ..).trans (by rw [ha.arrives])
  refine ⟨answers [] .clock, rs ++ [⟨arrival, answers rs arrival⟩], ?_, ?_⟩
  · rw [issued_append, hissued]
    rfl
  · unfold exportImport
    refine (Stage.play_bind_ok _ (Stage.play_lift f.network)).trans ?_
    refine (Stage.play_bind_ok (a := s) _ rfl).trans ?_
    refine (Stage.play_bind_ok _ (Stage.play_lift f.isFirst)).trans ?_
    refine (Stage.play_bind_ok _ (Stage.play_lift (mapError_eq_ok.2 f.owns))).trans ?_
    refine (Stage.play_bind_ok _ (Stage.play_lift f.onExchange)).trans ?_
    refine (Stage.play_bind_ok _ (Stage.play_lift f.onPlatform)).trans ?_
    refine (Stage.play_bind_ok _ (Stage.play_ask .clock)).trans ?_
    refine (Stage.play_bind_ok _ hlist).trans ?_
    refine (Stage.play_bind_ok _ (Stage.play_lift hexport)).trans ?_
    refine (Stage.play_bind_ok _ hissue).trans ?_
    exact Stage.play_bind_ok _ harrive

theorem play_exportImport_of_lt (hv : p.settings.provision.validate = .ok ())
    (hlt : p.settings.provision.fee < p.settings.provision.exportAmount)
    (hs : f.exportTx.sign f.wallet.key = .ok export_) (ha : f.Answered export_ answers) :
    ∃ import_ rs, (f.importTx export_).sign f.wallet.key = .ok import_ ∧
      issued rs = [(.x, export_.bytes), (.p, import_.bytes)] ∧
      Plan.play answers [] (p.exportImport s) = (some (.ok (), s), rs) := by
  obtain ⟨import_, himport⟩ := f.exists_signed (f.importTx export_)
  obtain ⟨now, begun, hbegun, hplay⟩ := play_exportImport hv hs ha
  obtain ⟨rs, hissue, hissued⟩ := play_issue ha "import X to P" .p himport begun
  refine ⟨import_, rs, himport, by rw [hissued, hbegun, List.singleton_append], ?_⟩
  rw [hplay, Stage.play_bind_ok _ (Stage.play_lift (importTx_exported hs hlt)), hissue]

theorem play_exportImport_of_le (hv : p.settings.provision.validate = .ok ())
    (hle : p.settings.provision.exportAmount ≤ p.settings.provision.fee)
    (hs : f.exportTx.sign f.wallet.key = .ok export_) (ha : f.Answered export_ answers) :
    ∃ rs, issued rs = [(.x, export_.bytes)] ∧
      Plan.play answers [] (p.exportImport s) =
        (some (.error (.provision (.insufficientFunds f.wallet.name .p
          (p.settings.provision.fee.addCapped 1) p.settings.provision.exportAmount)), s), rs) := by
  obtain ⟨now, rs, hissued, hplay⟩ := play_exportImport hv hs ha
  refine ⟨rs, hissued, hplay.trans (Stage.play_bind_error _ ?_)⟩
  rw [importTx_exported_of_le hle]
  rfl

/-- Answers that keep the fleet's side; nothing else that may be refused is answered. -/
def answering (f : p.Purse s) (export_ : SignedTx) (_ : List Reply) : (q : Question) → q.Answer
  | .call _ _ (.getUtxos .x _ none) => .ok [f.coin]
  | .call _ _ (.issueTx _ _) => .ok export_.id
  | .await _ _ _ (.getTxStatus _ _) _ => .ok .accepted
  | .await _ _ _ (.getUtxos .p _ (some .x)) _ => .ok [f.exported export_]
  | .clock => f.coin.locktime
  | .launch _ | .checkpoint _ | .awaitHealth .. | .listNodes _ | .call .. | .await .. | .publish .. =>
    .error (.fatal "")
  | .readFile _ => .ok []
  | .newWallets .. => []
  | .install | .enter _ | .announceReady | .report _ => ()

theorem answered_answering (export_ : SignedTx) : f.Answered export_ (f.answering export_) where
  clock _ := UInt64.le_refl _
  lists _ _ _ _ := rfl
  issues _ _ _ _ _ := ⟨_, rfl⟩
  confirms _ _ _ _ _ _ _ := ⟨_, rfl⟩
  arrives _ _ _ _ _ _ := rfl

end Purse

def specimen (amount : Amount) : Provisioner where
  settings := { provision := { exportAmount := amount } }
  view :=
    { nodes := [⟨"node1", "NodeID-1", "http://127.0.0.1:9650"⟩]
      ids := ⟨Cb58.encode (List.replicate 32 1), Cb58.encode (List.replicate 32 2), ""⟩
      nonempty := by simp }

def specimenWallet : Wallet where
  name := "first"
  key := ⟨⟨List.replicate 31 0 ++ [1], rfl⟩⟩
  addresses := ⟨some "X-first", some "P-first", some "0xfirst"⟩
  balances := ⟨none, none, none⟩

def specimenPurse (amount : Amount) : (specimen amount).Purse { wallets := [specimenWallet] } where
  wallet := specimenWallet
  owner := shortDigest (Secp256k1.publicKey specimenWallet.key.scalar).compressed
  xAddress := "X-first"
  pAddress := "P-first"
  networkId := 1337
  asset := Octets.replicate 32 1
  exchange := Octets.replicate 32 2
  origin := Octets.replicate 32 3
  coin :=
    { txId := Cb58.encode (List.replicate 32 3)
      outputIndex := 0
      assetId := Cb58.encode (List.replicate 32 1)
      amount := 100000000000000
      locktime := 0
      threshold := 1
      owners := [shortDigest (Secp256k1.publicKey specimenWallet.key.scalar).compressed] }
  isFirst := rfl
  owns := by
    have hvalid : specimenWallet.key.Valid := by decide
    rw [SecretKey.owner, if_pos hvalid]
  onExchange := rfl
  onPlatform := rfl
  network := rfl
  readAsset := Id.ofText_encode (Octets.replicate 32 1)
  readExchange := Id.ofText_encode (Octets.replicate 32 2)
  readOrigin := Id.ofText_encode (Octets.replicate 32 3)
  coinAsset := rfl
  coinAmount := rfl
  coinThreshold := rfl
  coinOwners := rfl

end Provisioner

end LocalFleet
