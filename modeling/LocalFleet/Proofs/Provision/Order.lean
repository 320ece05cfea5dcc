import LocalFleet.Proofs.Provision.Wallets
import LocalFleet.Proofs.Run.Timed

/-! Provisioning follows its script, whatever the nodes answer, however long that takes, and whenever the
run is stopped. -/

namespace LocalFleet

namespace Holder

theorem isOf_firstWallet {pool : List Holder} {s : Provisioned} {w : Wallet} (h : Holder)
    (hpool : List.Forall₂ IsOf pool s.wallets) (hw : s.firstWallet = .ok w) : (pool.headD h).IsOf w := by
  rw [Provisioned.firstWallet] at hw
  cases hwallets : s.wallets with
  | nil =>
    rw [hwallets] at hw
    cases hw
  | cons v vs =>
    rw [hwallets] at hw hpool
    cases hw
    cases hpool with
    | cons hv _ => exact hv

end Holder

theorem SecretKey.signedBytes_eq {key : SecretKey} {r : Result UnsignedTx} {tx : UnsignedTx}
    {signed : SignedTx} (hr : r = .ok tx) (h : tx.sign key = .ok signed) :
    key.signedBytes r = signed.bytes := by
  simp [signedBytes, Except.toOption, hr, h]

namespace Provisioner

open Stage

variable {p : Provisioner} {g h : Holder} {pool : List Holder} {s : Provisioned}

instance nonempty_moved : Nonempty Moved := ⟨⟨0, [], "", [], ""⟩⟩

theorem confirmTx_plays {σ : Type} {node : NodeSpec} {chain : Chain} {txId : String} {s : σ} :
    Plays (finality chain txId node) (fun _ t => t = s) s (p.confirmTx node chain txId) := confirm_plays

theorem transferToWallet_tracks (hs : Stocked g pool s) :
    Tracks (p.sendScript g (pool.headD g)) (fun _ _ t => Stocked g pool t) s p.transferToWallet := by
  obtain ⟨w, hw, hisOf⟩ := hs.genesis
  refine tracks_get_bind (tracks_lift_bind fun genesis hgenesis => tracks_lift_bind fun wallet hwallet => ?_)
  rw [Provisioned.genesisWallet, hw] at hgenesis
  cases hgenesis
  have hfirst := Holder.isOf_firstWallet g hs.pool hwallet
  refine tracks_lift_bind fun source hsource => tracks_lift_bind fun recipient hrecipient => ?_
  rw [hisOf.address_eq] at hsource
  cases hsource
  rw [hfirst.address_eq] at hrecipient
  cases hrecipient
  refine Tracks.bind_plays (tracks_call (c := .send (p.sendRequest g (pool.headD g)))) ?_
  rintro sent a t ⟨rfl, rfl⟩
  exact Plays.mono confirmTx_plays fun _ t ht => by rwa [ht]

theorem issue_tracks {what : String} {chain : Chain} {r : Result UnsignedTx} {tx : UnsignedTx}
    {key : SecretKey} (hr : r = .ok tx) : Tracks (p.issueScript chain (key.signedBytes r)) (fun _ _ t => t = s) s
      (p.issue what chain tx key) := by
  refine tracks_lift_bind fun signed hsigned => ?_
  rw [SecretKey.signedBytes_eq hr (mapError_eq_ok.1 hsigned)]
  refine Tracks.bind_plays tracks_call ?_
  rintro id a t ⟨rfl, rfl⟩
  exact plays_forM_same fun _ => confirmTx_plays

theorem exportImport_tracks (hs : List.Forall₂ Holder.IsOf pool s.wallets) :
    Tracks (p.moveScript (pool.headD g)) (fun _ _ t => t = s) s p.exportImport := by
  refine tracks_lift_bind fun networkId hnetwork => tracks_get_bind (tracks_lift_bind fun wallet hwallet => ?_)
  have hfirst := Holder.isOf_firstWallet g hs hwallet
  generalize pool.headD g = h at hfirst ⊢
  refine tracks_lift_bind fun owner howner => ?_
  rw [mapError_eq_ok, hfirst.key] at howner
  refine tracks_lift_bind fun x hx => tracks_lift_bind fun y hy => ?_
  rw [hfirst.address_eq] at hx hy
  cases hx
  cases hy
  refine tracks_ask_bind (fun es o ho => ho) fun now _ => ?_
  have hmove : p.moveOf h now = p.move wallet owner networkId now := by
    simp [moveOf, move, howner, hnetwork, Except.toOption, hfirst.name, Holder.wallet, Wallet.new]
  rw [move] at hmove
  rw [← hmove, hfirst.key]
  refine Tracks.bind (fun listed (φ : String × List Utxo × String) => ⟨now, listed, φ.1, φ.2.1, φ.2.2⟩)
    tracks_call (fun _ _ => rfl) ?_
  rintro listed a t ⟨rfl, rfl⟩
  refine tracks_lift_bind fun export_ hexport => ?_
  refine Tracks.bind (fun exported (φ : List Utxo × String) => (exported, φ)) (issue_tracks hexport)
    (fun _ _ => rfl) ?_
  rintro exported _ t rfl
  refine Tracks.bind (fun arrived (imported : String) => (arrived, imported)) tracks_await
    (fun _ _ => rfl) ?_
  rintro arrived a t ⟨rfl, rfl⟩
  exact tracks_lift_bind fun import_ himport => issue_tracks himport

theorem controlAddress_plays (hs : Funded g s) :
    Plays [] (fun a t => a = g.address.p ∧ t = s) s controlAddress := by
  obtain ⟨w, hw, hisOf⟩ := hs
  refine tracks_get_bind (tracks_lift_bind fun genesis hgenesis => plays_lift fun a ha => ⟨?_, rfl⟩)
  rw [Provisioned.genesisWallet, hw] at hgenesis
  cases hgenesis
  rw [hisOf.address_eq] at ha
  exact (Except.ok.inj ha).symm

theorem createSubnet_tracks (hs : Funded p.genesisHolder s) :
    Tracks p.subnetScript (fun id _ t => Funded p.genesisHolder t ∧ t.subnetId = some id) s
      p.createSubnet := by
  refine Plays.silent_bind (controlAddress_plays hs) ?_
  rintro _ t ⟨rfl, rfl⟩
  refine TracksOr.bind_plays (tracksOr_call (c := .createSubnet p.subnetRequest)
    fun (id : String) => p.checkSubnet id = .ok ()) ?_ ?_
  · rintro id a u ⟨rfl, hcheck, rfl⟩
    refine tracks_lift_bind fun _ _ => ?_
    refine Tracks.bind_silent (plays_forM_same fun node => ?_) ?_
    · refine Plays.bind confirmTx_plays fun _ t ht => ?_
      subst ht
      exact confirm_plays
    · rintro _ _ t rfl
      exact plays_modify ⟨hs, rfl⟩
  · intro a t hbad
    exact refuses_lift_bind fun _ h => hbad h

theorem addSubnetValidators_tracks {id : String} (hs : Funded p.genesisHolder s)
    (hid : s.subnetId = some id) : Tracks (alongside (p.validatorScript id) p.view.nodes)
      (fun _ _ t => t = s) s p.addSubnetValidators := by
  refine tracks_get_bind (tracks_lift_bind fun a ha => ?_)
  rw [Provisioned.subnet, hid] at ha
  cases ha
  refine Plays.silent_bind (controlAddress_plays hs) ?_
  rintro _ t ⟨rfl, rfl⟩
  refine tracks_forM (fun u => u = t) (fun node u hu => ?_) rfl
  subst hu
  refine tracks_ask_bind (fun es o ho => ho) fun now _ => ?_
  cases htimes : p.validationTimes now with
  | none => exact tracks_overflow
  | some times =>
    have hrequest : Tracks (fun txId => p.validatorScript id node (now, txId)) (fun _ _ v => v = u) u (do
        let txId ← Stage.call "add subnet validator" node (.addSubnetValidator (p.validatorRequest id node now))
        p.confirmTx node .p txId) := by
      refine Tracks.bind_plays tracks_call ?_
      rintro txId a v ⟨rfl, rfl⟩
      exact confirmTx_plays
    refine TracksOr.map (fun txId => (now, txId)) ?_ (fun _ => rfl) fun _ _ _ h => h
    rw [validatorRequest, htimes] at hrequest
    exact hrequest

theorem readGenesis_plays : Plays [] (fun _ t => t = s) s p.readGenesis :=
  tracks_lift_bind fun _ _ => tracks_ask_bind (fun _ _ ho => ho) fun _ _ => plays_lift fun _ _ => rfl

theorem createBlockchain_tracks {id : String} (hs : Funded p.genesisHolder s)
    (hid : s.subnetId = some id) :
    Tracks (fun φ : Bytes × String => p.blockchainScript id φ.1 φ.2)
      (fun φ _ t => t.blockchainId = some φ.2) s p.createBlockchain := by
  refine tracks_get_bind (tracks_lift_bind fun a ha => ?_)
  rw [Provisioned.subnet, hid] at ha
  cases ha
  refine Plays.silent_bind (controlAddress_plays hs) ?_
  rintro _ t ⟨rfl, rfl⟩
  refine Plays.silent_bind readGenesis_plays ?_
  rintro genesis _ rfl
  refine TracksOr.map (S := p.blockchainScript id genesis) (fun blockchain => (genesis, blockchain))
    (Tracks.bind_plays tracks_call ?_) (fun _ => rfl) fun _ _ _ h => h
  rintro blockchain a u ⟨rfl, rfl⟩
  refine Tracks.bind_silent (plays_forM_same fun node => ?_) ?_
  · refine Plays.bind confirmTx_plays fun _ t ht => ?_
    subst ht
    refine Plays.bind confirm_plays fun _ t ht => ?_
    subst ht
    exact confirm_plays
  · rintro _ _ t rfl
    exact plays_modify rfl

theorem awaitBootstrap_plays {id : String} (hid : s.blockchainId = some id) :
    Plays (p.bootstrapScript id) (fun _ t => t = s) s p.awaitBootstrap := by
  refine tracks_get_bind (tracks_lift_bind fun a ha => ?_)
  rw [Provisioned.blockchain, hid] at ha
  cases ha
  exact plays_forM_same fun _ => confirm_plays

theorem funding_tracks :
    Tracks (fun φ : (Nat → PerChain String) ×
        {pool : List Holder // pool.length = p.settings.provision.walletCount.toNat} × String × Moved =>
      p.fundingScript φ.1 φ.2.1.1 φ.2.2.1 φ.2.2.2) (fun _ _ t => Funded p.genesisHolder t) s
      p.funding := by
  have : Nonempty (PerChain String) := ⟨⟨"", "", ""⟩⟩
  refine Plays.silent_bind plays_checkpoint fun _ s _ => ?_
  refine Tracks.bind (fun _ φ => φ) createUsers_plays (fun _ _ => rfl) fun _ _ s _ => ?_
  refine Plays.silent_bind plays_checkpoint fun _ s _ => ?_
  refine Tracks.bind (fun _ φ => φ) fundFromGenesis_plays (fun _ _ => rfl) fun _ _ s hs => ?_
  refine Plays.silent_bind plays_checkpoint fun _ s' hs' => ?_
  subst hs'
  refine Tracks.bind (fun extra φ => (extra, φ)) (createSecondaryAddresses_tracks hs) (fun _ _ => rfl)
    fun extra _ s hs => ?_
  refine Plays.silent_bind plays_checkpoint fun _ s' hs' => ?_
  subst hs'
  refine Tracks.bind (fun pool φ => (pool, φ)) (createWallets_tracks hs) (fun _ _ => rfl)
    fun pool _ s hs => ?_
  refine Plays.silent_bind plays_checkpoint fun _ s' hs' => ?_
  subst hs'
  refine Tracks.bind (fun sent moved => (sent, moved)) (transferToWallet_tracks hs) (fun _ _ => rfl)
    fun sent _ s hs => ?_
  refine Plays.silent_bind plays_checkpoint fun _ s' hs' => ?_
  subst hs'
  refine Tracks.bind_plays (exportImport_tracks hs.pool) fun moved _ s' hs' => ?_
  subst hs'
  exact Plays.mono (refreshBalances_plays hs) fun _ t ht => ht.genesis

theorem subnetwork_tracks (hs : Funded p.genesisHolder s) :
    Tracks (fun φ : String × (Nat → UInt64 × String) × Bytes × String =>
      p.subnetworkScript φ.1 φ.2.1 φ.2.2.1 φ.2.2.2) (fun _ _ _ => True) s p.subnetwork := by
  refine Plays.silent_bind plays_checkpoint fun _ s' hs' => ?_
  subst hs'
  refine Tracks.bind (fun subnet φ => (subnet, φ)) (createSubnet_tracks hs) (fun _ _ => rfl)
    fun subnet _ s hs => ?_
  refine Plays.silent_bind plays_checkpoint fun _ s' hs' => ?_
  subst hs'
  refine Tracks.bind (fun validators φ => (validators, φ)) (addSubnetValidators_tracks hs.1 hs.2)
    (fun _ _ => rfl) fun validators _ s' hs' => ?_
  subst hs'
  refine Plays.silent_bind plays_checkpoint fun _ s' hs' => ?_
  subst hs'
  refine Tracks.bind_plays (createBlockchain_tracks hs.1 hs.2) fun blockchain _ s hs => ?_
  refine Plays.silent_bind plays_checkpoint fun _ s' hs' => ?_
  subst hs'
  exact Plays.mono (awaitBootstrap_plays hs) fun _ _ _ => trivial

theorem all_tracks (p : Provisioner) (s : Provisioned) :
    Tracks p.script (fun _ _ _ => True) s p.all := by
  refine Tracks.bind (fun φ (ψ : String × (Nat → UInt64 × String) × Bytes × String) =>
    ⟨φ.1, φ.2.1.1, φ.2.1.2, φ.2.2.1, φ.2.2.2, ψ.1, ψ.2.1, ψ.2.2.1, ψ.2.2.2⟩) funding_tracks
    (fun _ _ => rfl) fun φ _ t ht => ?_
  by_cases henabled : p.settings.subnet.enabled = true
  · simp only [if_pos henabled]
    exact subnetwork_tracks ht
  · simp only [if_neg henabled]
    exact TracksOr.map (fun _ => Classical.ofNonempty) (plays_pure trivial) (fun _ => rfl)
      fun _ _ _ h => h

/-- Whatever the nodes answer, however long that takes, and whenever the run is stopped: the calls that
provisioning makes follow its script, which is done when provisioning ends well. -/
theorem all_follows_script {σ : Type} (p : Provisioner) (env : Surroundings σ) (stopAt : Option Nat)
    (w : World σ) (s : Provisioned) :
    ∃ since, env.Passes w since (env.run stopAt (p.all s) w).2 ∧ ∃ f : p.Findings,
      Follows (p.script f) (env.fleet.exchanges w.fleet since) ∧
        ∀ t, (env.run stopAt (p.all s) w).1 = some (.ok (), t) →
          Performed (p.script f) (env.fleet.exchanges w.fleet since) := by
  obtain ⟨since, hpasses, _, htraces⟩ := Surroundings.run_traces env stopAt (p.all s) w
  obtain ⟨f, hfollows, hends⟩ := all_tracks p s _ _ htraces
  refine ⟨since, hpasses, f, hfollows, fun t ht => ?_⟩
  rcases hends () t ht with ⟨hdone, _⟩ | hh
  · exact hdone
  · exact hh.elim

end Provisioner

end LocalFleet
