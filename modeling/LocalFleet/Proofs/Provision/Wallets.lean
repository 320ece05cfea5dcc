import LocalFleet.Proofs.Provision.Script

/-! Users, keys and addresses follow the script: what is done with a single wallet, and then with the
funded wallet, the extra addresses and the pool. -/

namespace LocalFleet

namespace Holder

variable {h : Holder} {w : Wallet}

theorem Admits.isOf (hw : h.Admits w) (hknown : ∀ chain, w.knownAddress chain ≠ none) : h.IsOf w where
  name := hw.name
  key := hw.key
  known chain := by
    obtain ⟨a, ha⟩ := Option.ne_none_iff_exists'.1 (hknown chain)
    rw [ha, hw.agrees chain a ha]

theorem exists_admits (w : Wallet) : ∃ h : Holder, h.Admits w := by
  refine ⟨⟨w.name, w.key, ⟨(w.knownAddress .x).getD "", (w.knownAddress .p).getD "",
    (w.knownAddress .c).getD ""⟩⟩, rfl, rfl, fun chain a ha => ?_⟩
  cases chain <;> simp [PerChain.get, ha]

theorem IsOf.address_eq (hw : h.IsOf w) (chain : Chain) : w.address chain = .ok (h.address.get chain) := by
  rw [Wallet.address, hw.known]

theorem IsOf.setBalance (hw : h.IsOf w) (chain : Chain) (amount : Amount) :
    h.IsOf (w.setBalance chain amount) := ⟨hw.name, hw.key, hw.known⟩

theorem admits_new (h : Holder) : h.Admits (Wallet.new h.name h.key) where
  name := rfl
  key := rfl
  agrees chain a ha := by cases chain <;> cases ha

end Holder

namespace Wallet

def Knows (chains : List Chain) (w : Wallet) : Prop := ∀ chain ∈ chains, w.knownAddress chain ≠ none

theorem Knows.all {w : Wallet} (h : w.Knows Chain.all) (chain : Chain) : w.knownAddress chain ≠ none :=
  h chain (by cases chain <;> decide)

@[simp] theorem knownAddress_setAddress (w : Wallet) (chain other : Chain) (a : String) :
    (w.setAddress chain a).knownAddress other = if other = chain then some a else w.knownAddress other :=
  PerChain.get_set ..

theorem Knows.setAddress {chains : List Chain} {w : Wallet} (h : w.Knows chains) (chain : Chain)
    (a : String) : (w.setAddress chain a).Knows (chains ++ [chain]) := by
  intro other hmem
  rw [knownAddress_setAddress]
  by_cases hother : other = chain
  · simp [hother]
  · rw [if_neg hother]
    exact h other (by simpa [hother] using hmem)

theorem Knows.append_singleton {chains : List Chain} {chain : Chain} {w : Wallet} (h : w.Knows chains)
    (hchain : w.knownAddress chain ≠ none) : w.Knows (chains ++ [chain]) := by
  intro other hmem
  rcases List.mem_append.1 hmem with hmem | hmem
  · exact h other hmem
  · rwa [List.mem_singleton.1 hmem]

end Wallet

namespace Holder

variable {h : Holder} {w : Wallet} {chain : Chain}

theorem Admits.setAddress (hw : h.Admits w) :
    h.Admits (w.setAddress chain (h.address.get chain)) where
  name := hw.name
  key := hw.key
  agrees other a ha := by
    rw [Wallet.knownAddress_setAddress] at ha
    by_cases hother : other = chain
    · rw [if_pos hother] at ha
      rw [hother, Option.some.inj ha]
    · rw [if_neg hother] at ha
      exact hw.agrees other a ha

theorem Admits.of_setAddress {a : String} (hnone : w.knownAddress chain = none)
    (hw : h.Admits (w.setAddress chain a)) : h.Admits w ∧ a = h.address.get chain := by
  refine ⟨⟨hw.name, hw.key, fun other b hb => hw.agrees other b ?_⟩, hw.agrees chain a (by simp)⟩
  rw [Wallet.knownAddress_setAddress, if_neg, hb]
  rintro rfl
  simp [hnone] at hb

end Holder

namespace Provisioner

open Stage

variable {p : Provisioner} {h : Holder} {w : Wallet} {s : Provisioned}

theorem confirm_plays {σ : Type} {what : String} {node : NodeSpec} {c : Call} {enough : c.Answer → Bool}
    {s : σ} : Plays [.poll node c enough fun _ => True] (fun _ t => t = s) s
      (p.confirm what node c enough) :=
  Tracks.bind_silent plays_await fun _ _ _ ht => plays_pure ht

theorem readBalances_plays (hw : h.IsOf w) :
    Plays (p.balanceScript h) (fun _ t => h.IsOf t) w p.readBalances := by
  refine plays_forM (fun _ t => h.IsOf t) (fun _ chain _ w _ hw => ?_) hw
  refine tracks_get_bind (tracks_lift_bind fun address ha => ?_)
  rw [hw.address_eq] at ha
  cases ha
  refine Tracks.bind_silent plays_call fun _ balance t ht => ?_
  subst ht
  exact plays_modify (hw.setBalance chain balance)

theorem confirmAddresses_plays (hw : h.IsOf w) :
    Plays (p.listingScript h) (fun _ t => h.IsOf t) w p.confirmAddresses := by
  refine plays_forM (fun _ t => h.IsOf t) (fun _ node _ w _ hw => ?_) hw
  refine plays_forM (fun _ t => h.IsOf t) (fun _ chain _ w _ hw => ?_) hw
  refine tracks_get_bind (tracks_lift_bind fun address ha => ?_)
  rw [hw.address_eq] at ha
  cases ha
  exact Plays.mono confirm_plays fun _ t ht => by rwa [ht]

theorem importGenesis_plays (hh : p.settings.fixture.expected = h.address) (hw : h.Admits w) :
    Plays (p.importScript h) (fun _ t => h.IsOf t) w p.importGenesis := by
  refine Plays.mono (plays_forM (fun seen t => h.Admits t ∧ (seen ≠ [] → t.Knows Chain.all))
    (fun _ node _ w _ hw => ?_) ⟨hw, by simp⟩) fun _ t ht => ht.1.isOf (ht.2 p.view.nonempty).all
  refine Plays.mono (plays_forM (fun seen t => h.Admits t ∧ t.Knows seen)
    (fun seen chain _ w _ hw => ?_) ⟨hw.1, by simp [Wallet.Knows]⟩) fun _ t ht => ⟨ht.1, fun _ => ht.2⟩
  obtain ⟨hadmits, hknows⟩ := hw
  refine tracks_get_bind ?_
  rw [hadmits.key]
  refine TracksOr.bind_silent (playsOr_call (c := .importKey chain p.user h.key.encoded)
    fun (a : String) => a = h.address.get chain) ?_ ?_
  · rintro _ a t ⟨rfl, rfl⟩
    rw [hh]
    simp only [ne_eq, not_true_eq_false, if_false]
    exact plays_modify ⟨hadmits.setAddress, hknows.setAddress chain _⟩
  · rintro a t hbad
    rw [hh]
    simp only [ne_eq, if_pos hbad]
    exact refuses_of_eq rfl

/-- The first answer for a chain settles the address there, and any other has to be the same. -/
theorem importKey_settles (p : Provisioner) (node : NodeSpec) {chain : Chain} {seen : List Chain}
    (hw : w.Knows seen) : Settles Holder.Admits (p.keyGiven · node chain)
      (fun t => t.Knows (seen ++ [chain])) w (p.importKey node chain) := by
  intro es o htraces
  rcases traces_bind (x := Stage.call _ node (.importKey chain p.user w.key.encoded)) htraces with
    ⟨begun, rest, a, t, rfl, hbegun, hrest⟩ | ⟨ho, o', hes, ho'⟩
  · rcases traces_call hbegun with ⟨b, hok, rfl⟩ | ⟨hno, _⟩
    · obtain ⟨rfl, rfl⟩ : a = b ∧ w = t := by cases hok; exact ⟨rfl, rfl⟩
      -- whatever holder the wallet turns out to have, the key that was sent is the holder's
      have hdone : ∀ h : Holder, h.Admits w → a = h.address.get chain →
          Performed (p.keyGiven h node chain) ([⟨node, .importKey chain p.user w.key.encoded, .ok a⟩] ++ []) :=
        fun h hh hb => performed_singleton ⟨a, by rw [hh.key]; rfl, hb⟩
      cases hknown : w.knownAddress chain with
      | none =>
        simp only [hknown] at hrest
        obtain ⟨rfl, rfl⟩ := hrest
        obtain ⟨h, hh⟩ := Holder.exists_admits (w.setAddress chain a)
        obtain ⟨hbefore, hb⟩ := hh.of_setAddress hknown
        refine ⟨⟨h, hbefore, (hdone h hbefore hb).follows⟩, fun t ht => ?_⟩
        cases ht
        refine ⟨hw.setAddress chain a, fun h hh => ?_⟩
        obtain ⟨hbefore, hb⟩ := hh.of_setAddress hknown
        exact ⟨hbefore, hdone h hbefore hb⟩
      | some known =>
        simp only [hknown] at hrest
        by_cases hsame : known = a
        · rw [if_neg (not_not.2 hsame)] at hrest
          obtain ⟨rfl, rfl⟩ := hrest
          have hb : ∀ h : Holder, h.Admits w → a = h.address.get chain :=
            fun h hh => hsame ▸ hh.agrees chain known hknown
          obtain ⟨h, hh⟩ := Holder.exists_admits w
          refine ⟨⟨h, hh, (hdone h hh (hb h hh)).follows⟩, fun t ht => ?_⟩
          cases ht
          exact ⟨hw.append_singleton (by simp [hknown]), fun h hh => ⟨hh, hdone h hh (hb h hh)⟩⟩
        · rw [if_pos hsame] at hrest
          obtain ⟨rfl, rfl⟩ := hrest
          obtain ⟨h, hh⟩ := Holder.exists_admits w
          refine ⟨⟨h, hh, .begun [] (.inr ⟨.ok a, ?_⟩)⟩, nofun⟩
          rw [hh.key]
          rfl
    · exact absurd rfl (hno a t)
  · rcases traces_call hes with ⟨b, rfl, _⟩ | ⟨_, hbegun⟩
    · exact absurd rfl (ho' b w)
    · obtain ⟨h, hh⟩ := Holder.exists_admits w
      refine ⟨⟨h, hh, .begun [] ?_⟩, fun t ht => absurd ht (ho () t)⟩
      rwa [← hh.key]

theorem importWallet_settles (p : Provisioner) (w : Wallet) :
    Settles Holder.Admits p.importScript (fun t => t.Knows Chain.all) w p.importWallet := by
  refine Settles.mono (settles_forM (fun seen t => seen ≠ [] → t.Knows Chain.all) Holder.exists_admits
    (fun _ node _ w _ _ => ?_) (by simp)) fun t ht => ht p.view.nonempty
  refine Settles.mono (settles_forM (fun seen t => t.Knows seen) Holder.exists_admits
    (fun seen chain _ w _ hw => importKey_settles p node hw) (by simp [Wallet.Knows])) fun t ht _ => ht

theorem importWallet_tracks (p : Provisioner) (w : Wallet) :
    Tracks (fun h : {h : Holder // h.Admits w} => p.importScript h.1) (fun h _ t => h.1.IsOf t) w
      p.importWallet :=
  (importWallet_settles p w).tracks fun t ht =>
    have ⟨h, hh⟩ := Holder.exists_admits t
    ⟨h, hh, hh.isOf ht.all⟩

def Funded (h : Holder) (s : Provisioned) : Prop := ∃ w, s.genesis = some w ∧ h.IsOf w

structure Stocked (h : Holder) (pool : List Holder) (s : Provisioned) : Prop where
  genesis : Funded h s
  pool : List.Forall₂ Holder.IsOf pool s.wallets

theorem createUsers_plays : Plays p.usersScript (fun _ _ => True) s p.createUsers :=
  plays_forM (fun _ _ => True) (fun _ _ _ _ _ _ => Plays.mono plays_call fun _ _ _ => trivial) trivial

theorem fundFromGenesis_plays :
    Plays (p.importScript p.genesisHolder ++ (p.listingScript p.genesisHolder ++
      p.balanceScript p.genesisHolder)) (fun _ t => Funded p.genesisHolder t) s p.fundFromGenesis := by
  refine tracks_lift_bind fun key hkey => ?_
  rw [mapError_eq_ok] at hkey
  have hholder : p.genesisHolder = ⟨genesisName, key, p.settings.fixture.expected⟩ := by
    rw [genesisHolder, hkey]
    rfl
  generalize p.genesisHolder = h at hholder ⊢
  have hwallet : Plays (p.importScript h ++ (p.listingScript h ++ p.balanceScript h))
      (fun _ t => h.IsOf t) (Wallet.new genesisName key) (do
        p.importGenesis
        p.confirmAddresses
        p.readBalances) := by
    have hadmits := Holder.admits_new h
    rw [hholder] at hadmits ⊢
    exact Plays.bind (importGenesis_plays rfl hadmits) fun _ w hw =>
      Plays.bind (confirmAddresses_plays hw) fun _ w hw => readBalances_plays hw
  refine TracksOr.bind_silent (playsOr_on hwallet) ?_ ?_
  · rintro _ ⟨r, w⟩ t ⟨_, rfl, hw, rfl⟩
    exact plays_modify ⟨w, rfl, hw⟩
  · rintro ⟨r, w⟩ t ⟨e, rfl⟩
    exact refuses_of_eq rfl

theorem funded_addSecondary {h : Holder} (hs : Funded h s) (chain : Chain) (node address : String) :
    Funded h (s.addSecondary chain node address) := by
  cases chain <;> exact hs

theorem createSecondaryAddresses_tracks {h : Holder} (hs : Funded h s) :
    Tracks (alongside p.extraScript p.view.nodes) (fun _ _ t => Funded h t) s
      p.createSecondaryAddresses := by
  have : Nonempty (PerChain String) := ⟨⟨"", "", ""⟩⟩
  refine tracks_forM (Funded h) (fun node s hs => ?_) hs
  refine TracksOr.map (S := alongside (p.addressMade node) listedChains) (fun φ => ⟨φ 0, φ 1, ""⟩)
    (tracks_forM (Funded h) (fun chain s hs => ?_) hs) (fun _ => rfl) fun _ _ _ h => h
  refine Tracks.bind_plays tracks_call ?_
  rintro address a t ⟨rfl, rfl⟩
  refine Tracks.bind_silent confirm_plays fun _ _ t ht => ?_
  subst ht
  exact plays_modify (funded_addSecondary hs chain node.name a)

instance nonempty_pool (n : Nat) : Nonempty {pool : List Holder // pool.length = n} :=
  ⟨List.replicate n ⟨"", ⟨Octets.replicate 32 0⟩, ⟨"", "", ""⟩⟩, List.length_replicate⟩

theorem createWallets_tracks {h : Holder} (hs : Funded h s) :
    Tracks (fun pool : {pool // pool.length = p.settings.provision.walletCount.toNat} =>
      p.poolScript pool.1) (fun pool _ t => Stocked h pool.1 t) s p.createWallets := by
  refine tracks_ask_bind (fun es o ho => ⟨ho.1, ?_⟩) fun fresh hfresh => ?_
  · obtain ⟨_, _, rfl, _⟩ := ho
    rfl
  · obtain ⟨_, wallets, hsome, hlength⟩ := hfresh
    cases hsome
    refine TracksOr.map (fun pool => ⟨pool.1, pool.2.length_eq.trans hlength⟩)
      (TracksOr.bind_plays (tracksOr_each_of_before (importWallet_tracks p) Holder.exists_admits fresh) ?_ ?_)
      (fun _ => rfl) fun _ _ _ h => h
    · rintro pool ⟨r, imported⟩ t ⟨ts, hr, himported, rfl⟩
      cases hr
      refine tracks_lift_bind fun _ _ => ?_
      refine PlaysOr.bind (playsOr_each (fun _ _ hw => confirmAddresses_plays hw) himported) ?_ ?_
      · rintro ⟨r, confirmed⟩ t ⟨ts, hr, hconfirmed, rfl⟩
        cases hr
        refine tracks_lift_bind fun _ _ => ?_
        refine TracksOr.bind_silent (playsOr_each (fun _ _ hw => readBalances_plays hw) hconfirmed) ?_ ?_
        · rintro _ ⟨r, wallets⟩ t ⟨ts, hr, hwallets, rfl⟩
          cases hr
          exact plays_modify ⟨hs, hwallets⟩
        · rintro ⟨r, wallets⟩ t ⟨e, rfl⟩
          exact refuses_of_eq rfl
      · rintro ⟨r, confirmed⟩ t ⟨e, rfl⟩
        exact refuses_of_eq rfl
    · rintro ⟨r, imported⟩ t ⟨e, rfl⟩
      exact refuses_of_eq rfl

theorem refreshBalances_plays {h : Holder} {pool : List Holder} (hs : Stocked h pool s) :
    Plays (p.balanceScript h ++ pool.flatMap p.balanceScript) (fun _ t => Stocked h pool t) s
      p.refreshBalances := by
  obtain ⟨w, hw, hisOf⟩ := hs.genesis
  refine tracks_get_bind (tracks_lift_bind fun genesis hgenesis => ?_)
  rw [Provisioned.genesisWallet, hw] at hgenesis
  cases hgenesis
  refine PlaysOr.bind (playsOr_on (readBalances_plays hisOf)) ?_ ?_
  · rintro ⟨r, genesis⟩ t ⟨_, rfl, hgenesis, rfl⟩
    refine tracks_lift_bind fun _ _ => tracks_modify_bind (tracks_get_bind ?_)
    refine TracksOr.bind_silent (playsOr_each (fun _ _ hw => readBalances_plays hw) hs.pool) ?_ ?_
    · rintro _ ⟨r, wallets⟩ t ⟨ts, hr, hwallets, rfl⟩
      cases hr
      exact plays_of_eq rfl ⟨⟨genesis, rfl, hgenesis⟩, hwallets⟩
    · rintro ⟨r, wallets⟩ t ⟨e, rfl⟩
      exact refuses_of_eq rfl
  · rintro ⟨r, genesis⟩ t ⟨e, rfl⟩
    exact refuses_of_eq rfl

end Provisioner

end LocalFleet
