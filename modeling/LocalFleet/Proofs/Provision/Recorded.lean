import LocalFleet.Proofs.Encoding.Hex
import LocalFleet.Proofs.Ledger.Spelling
import LocalFleet.Proofs.Provision.Gathered
import LocalFleet.Proofs.Run.Stopping

/-! The record of a fleet on which all of provisioning went well tells what the nodes have answered. -/

namespace LocalFleet

variable {σ : Type}

namespace WalletRecord

/-- The two texts of the key are of the same bytes, and the common address is that of the contract chain. -/
structure Consistent (r : WalletRecord) : Prop where
  key : ∃ key, SecretKey.ofEncoded r.privateKey = .ok key ∧
    Hex.decode r.privateKeyHex.toList = .ok key.octets.val
  common : r.commonAddress = r.cChain.address

theorem consistent_ofWallet (w : Wallet) : (ofWallet w).Consistent where
  key := by
    refine ⟨w.key, SecretKey.ofEncoded_eq_ok_iff.2 rfl, ?_⟩
    show Hex.decode (String.ofList (Hex.encode w.key.octets.val)).toList = _
    rw [String.toList_ofList, Hex.decode_encode]
  common := rfl

end WalletRecord

namespace Provisioner

variable {p : Provisioner} {replies : List Reply} {t : Provisioned}

/-- What a record tells of the replies of a run. -/
structure Tells (p : Provisioner) (replies : List Reply) (r : ClusterRecord) : Prop where
  uris : r.uris.Perm (p.view.nodes.map NodeSpec.uri)
  uris_sorted : r.uris.Pairwise fun a b => Text.le a b = true
  /-- the extra address of each node, which the node made and later listed -/
  xExtras : p.Extras .x p.view.nodes replies r.xChainSecondary
  pExtras : p.Extras .p p.view.nodes replies r.pChainSecondary
  genesis : ∀ chain, (r.genesisWallet.account chain).address = p.settings.fixture.expected.get chain
  length_wallets : r.wallets.length = p.settings.provision.walletCount.toNat
  /-- the wallets that were made, in that order; after them, every node answered for every key and chain with
  the recorded address -/
  wallets : ∃ made, List.Forall₂ (fun w r => r.name = w.name ∧ r.privateKey = w.key.encoded) made r.wallets ∧
    ⟨.newWallets p.settings.provision.walletCount.toNat p.settings.provision.nameLength.toNat, made⟩ ::
      r.wallets.flatMap p.keyReplies <:+: replies
  /-- the last balances that the first node told -/
  balances : (r.genesisWallet :: r.wallets).flatMap p.accountReplies <:+ balanceReplies replies
  consistent : ∀ w ∈ r.genesisWallet :: r.wallets, w.Consistent
  endpoint : if p.settings.subnet.enabled then
      ∃ request id, p.createdReply request id ∈ replies ∧ r.endpoint = some ("/ext/bc/" ++ id)
    else r.endpoint = none

/-- The tables are in order, so that the record is read back as it is saved. -/
theorem Tells.ordered {r : ClusterRecord} (h : p.Tells replies r) : r.Ordered :=
  ⟨h.xExtras.ordered, h.pExtras.ordered⟩

theorem Gathered.tells {pid : UInt32} {logsDir : String} (h : p.Gathered replies t)
    (hcreated : if p.settings.subnet.enabled then ∃ request id, p.createdReply request id ∈ replies ∧
        t.blockchainId = some id
      else t.blockchainId = none) :
    ∃ r, t.record p.view pid logsDir = .ok r ∧ p.Tells replies r := by
  obtain ⟨w, hw, hexpected, htold⟩ := h.genesis
  obtain ⟨made, hlength, hbecome, hpool⟩ := h.pool
  have hrecord : t.record p.view pid logsDir = .ok _ :=
    bind_eq_ok.2 ⟨w, by rw [Provisioned.genesisWallet, hw]; rfl, rfl⟩
  refine ⟨_, hrecord, {
    uris := Text.sorted_perm _
    uris_sorted := Text.pairwise_sorted _
    xExtras := h.xExtras
    pExtras := h.pExtras
    genesis := fun chain => ?genesis
    length_wallets := by rw [List.length_map, ← hbecome.length_eq, hlength]
    wallets := ⟨made, ?same, ?keys⟩
    balances := ?balances
    consistent := ?consistent
    endpoint := ?endpoint }⟩
  case genesis =>
    rw [WalletRecord.account_ofWallet, hexpected]
    rfl
  case same =>
    rw [List.forall₂_map_right_iff]
    exact hbecome.imp fun w u hu => ⟨hu.name, congrArg SecretKey.encoded hu.key⟩
  case keys =>
    rw [List.flatMap_map]
    exact hpool
  case balances =>
    show ((w :: t.wallets).map WalletRecord.ofWallet).flatMap p.accountReplies <:+ _
    rw [List.flatMap_map]
    exact htold
  case consistent =>
    show ∀ r ∈ (w :: t.wallets).map WalletRecord.ofWallet, r.Consistent
    rw [List.forall_mem_map]
    exact fun u _ => WalletRecord.consistent_ofWallet u
  case endpoint =>
    by_cases henabled : p.settings.subnet.enabled = true
    · rw [if_pos henabled] at hcreated ⊢
      obtain ⟨request, id, hmem, hid⟩ := hcreated
      exact ⟨request, id, hmem, by rw [hid]; rfl⟩
    · rw [if_neg henabled] at hcreated ⊢
      rw [hcreated]
      rfl

/-- When all of provisioning has gone well on nodes of different names, whenever the run was told to stop, there
is a record, and it tells what the nodes have answered. -/
theorem record_tells {env : Surroundings σ} {stopAt : Option Nat} {w w' : World σ}
    (hnodes : (p.view.nodes.map NodeSpec.name).Nodup)
    (h : env.Goes (p.all {}) w stopAt replies (.done (.ok (), t)) w') (pid : UInt32) (logsDir : String) :
    ∃ r, t.record p.view pid logsDir = .ok r ∧ p.Tells replies r := by
  obtain ⟨hgathered, hcreated⟩ := h.yields (all_yields hnodes)
  exact hgathered.tells hcreated

/-- A fleet of two nodes that is to get a blockchain of its own. -/
def subnetSpecimen : Provisioner where
  settings := { provision := { walletCount := 2 }, subnet := { genesisPath := some "genesis" } }
  view := ⟨[Rehearsal.node 0, Rehearsal.node 1], Rehearsal.chainIds, by simp⟩

/-- The record of that fleet tells all that is asked of it, and where the blockchain is served. -/
theorem record_tells_specimen :
    let w : World Rehearsal.Memory := ⟨0, { rules := [] }, .put .empty ["genesis"] (.file [] 0), [], 0, []⟩
    ∃ replies t w' r, (Job.agreeable subnetSpecimen.settings).Goes (subnetSpecimen.all {}) w none replies
        (.done (.ok (), t)) w' ∧ t.record subnetSpecimen.view 1 "logs" = .ok r ∧
      subnetSpecimen.Tells replies r ∧ r.wallets.length = 2 ∧ r.endpoint = some "/ext/bc/tx-6" := by
  intro w
  have hrun : ((Job.agreeable subnetSpecimen.settings).run none (subnetSpecimen.all {}) w).1.bind
      (fun r => r.1.toOption.map fun _ => r.2.blockchainId) = some (some "tx-6") := by decide +kernel
  obtain ⟨⟨result, t⟩, hend, hid⟩ := Option.bind_eq_some_iff.1 hrun
  cases result with
  | error e => cases hid
  | ok u =>
    obtain ⟨replies, h⟩ := Surroundings.Goes.start.run hend
    obtain ⟨r, hrecord, htells⟩ := record_tells (by decide) h 1 "logs"
    refine ⟨replies, t, _, r, h, hrecord, htells, htells.length_wallets, ?_⟩
    obtain ⟨genesis, _, hr⟩ := bind_eq_ok.1 hrecord
    have hid : t.blockchainId = some "tx-6" := Option.some.inj hid
    rw [← Except.ok.inj hr, hid]
    rfl

end Provisioner

end LocalFleet
