import LocalFleet.Proofs.Endings
import LocalFleet.Proofs.Provision.Gathered
import LocalFleet.Proofs.Provision.Purse
import LocalFleet.Proofs.Provision.Routine

/-! Reading all balances again. The wallets of the pool are taken one after another, and on each of them the
chains; whatever stops this, only balances have changed by then, and of these just the ones that were
answered. The funded wallet is replaced once all of its balances are there. -/

namespace LocalFleet

namespace Wallet

def bare (w : Wallet) : Wallet := { w with balances := ⟨none, none, none⟩ }

/-- A wallet becomes another by the balances found on some chains, and by nothing else. -/
structure Observes (w : Wallet) (chains : List Chain) (found : Chain → Amount) (u : Wallet) : Prop where
  bare : u.bare = w.bare
  found : ∀ chain ∈ chains, u.balances.get chain = some (found chain)
  kept : ∀ chain, chain ∉ chains → u.balances.get chain = w.balances.get chain

variable {w u : Wallet} {chain : Chain} {chains : List Chain} {found : Chain → Amount} {balance : Amount}

theorem balances_setBalance (other : Chain) : (w.setBalance chain balance).balances.get other =
    if other = chain then some balance else w.balances.get other := PerChain.get_set ..

theorem observes_nil_iff : Observes w [] found u ↔ u = w := by
  constructor
  · intro h
    have hbalances (chain : Chain) : u.balances.get chain = w.balances.get chain := h.kept chain (by simp)
    have hx := hbalances .x
    have hp := hbalances .p
    have hc := hbalances .c
    have hbare := h.bare
    obtain ⟨_, _, _, _, _, _⟩ := u
    obtain ⟨_, _, _, _, _, _⟩ := w
    simp_all [bare, PerChain.get]
  · rintro rfl
    exact ⟨rfl, by simp, fun _ _ => rfl⟩

theorem observes_cons_iff (hchain : chain ∉ chains) : Observes w (chain :: chains) found u ↔
    Observes (w.setBalance chain (found chain)) chains found u := by
  constructor
  · intro h
    refine ⟨h.bare, fun other hother => h.found other (List.mem_cons_of_mem _ hother), fun other hother => ?_⟩
    rw [balances_setBalance]
    by_cases hsame : other = chain
    · rw [if_pos hsame, h.found other (by simp [hsame]), hsame]
    · rw [if_neg hsame, h.kept other (by simp [hsame, hother])]
  · intro h
    refine ⟨h.bare, fun other hother => ?_, fun other hother => ?_⟩
    · rcases List.mem_cons.1 hother with rfl | hother
      · rw [h.kept other hchain, balances_setBalance, if_pos rfl]
      · exact h.found other hother
    · rw [List.mem_cons, not_or] at hother
      rw [h.kept other hother.2, balances_setBalance, if_neg hother.1]

theorem Observes.congr {found' : Chain → Amount} (h : Observes w chains found u)
    (hfound : ∀ chain ∈ chains, found' chain = found chain) : Observes w chains found' u :=
  ⟨h.bare, fun chain hchain => by rw [h.found chain hchain, hfound chain hchain], h.kept⟩

theorem address_eq_error {e : Error} :
    w.address chain = .error e ↔ w.knownAddress chain = none ∧ e = .provision (.missing "wallet address") := by
  rw [address]
  cases w.knownAddress chain <;> simp [eq_comm]

end Wallet

namespace Provisioner

open Stage

variable (p : Provisioner)

def readBalance (chain : Chain) : Stage Wallet Unit := do
  let address ← Stage.lift ((← get).address chain)
  let balance ← Stage.call "fetch balance" p.first (.getBalance chain address)
  modify (·.setBalance chain balance)

theorem readBalances_eq : p.readBalances = Chain.all.forM p.readBalance := rfl

def observed (w : Wallet) (chains : List Chain) (found : Chain → Amount) : List Reply :=
  chains.map fun chain => p.balanceReply chain ⟨(w.knownAddress chain).getD "", found chain⟩

/-- The balances of a wallet are read on some chains, each at the address that the wallet has there. -/
def Reads (chains : List Chain) (w : Wallet) (since : List Reply) (u : Wallet) : Prop :=
  ∃ found, w.Knows chains ∧ since = p.observed w chains found ∧ w.Observes chains found u

/-- Reading the balance of a wallet on a chain fails. -/
inductive Fails (w : Wallet) (chain : Chain) : List Reply → Error → Prop
  | homeless (h : w.knownAddress chain = none) : Fails w chain [] (.provision (.missing "wallet address"))
  /-- the node refuses, or the wait for it is given up -/
  | refused {address : String} (h : w.knownAddress chain = some address) (e : Error) :
    Fails w chain [⟨.call "fetch balance" p.first (.getBalance chain address), .error e⟩] e

/-- Reading the balances of a wallet on some chains fails at one of them; the wallet has by then the balances
on the chains before. -/
def Stops (chains : List Chain) (w : Wallet) (since : List Reply) (e : Error) (u : Wallet) : Prop :=
  ∃ before chain after told failing, chains = before ++ chain :: after ∧ since = told ++ failing ∧
    p.Reads before w told u ∧ p.Fails w chain failing e

variable {p} {w u : Wallet} {chain : Chain} {chains : List Chain} {since : List Reply} {e : Error}

theorem ends_readBalance_iff {r : Result Unit} : Ends (p.readBalance chain) w since r u ↔
    (∃ e, p.Fails w chain since e ∧ r = .error e ∧ u = w) ∨
      ∃ address balance, w.knownAddress chain = some address ∧
        since = [p.balanceReply chain ⟨address, balance⟩] ∧ r = .ok () ∧ u = w.setBalance chain balance := by
  constructor
  · intro h
    rcases ends_lift_bind_iff.1 (ends_get_bind_iff.1 h) with ⟨e, hnone, rfl, rfl, rfl⟩ | ⟨address, hsome, hcall⟩
    · obtain ⟨hknown, rfl⟩ := Wallet.address_eq_error.1 hnone
      exact .inl ⟨_, .homeless hknown, rfl, rfl⟩
    · have hknown := Wallet.address_eq_ok.1 hsome
      rcases ends_call_bind_iff.1 hcall with ⟨e, rfl, rfl, rfl⟩ | ⟨balance, more, rfl, hmodify⟩
      · exact .inl ⟨e, .refused hknown e, rfl, rfl⟩
      · obtain ⟨rfl, rfl, rfl⟩ := ends_modify_iff.1 hmodify
        exact .inr ⟨address, balance, hknown, rfl, rfl, rfl⟩
  · rintro (⟨e, hfails, rfl, rfl⟩ | ⟨address, balance, hknown, rfl, rfl, rfl⟩) <;> apply ends_get_bind_iff.2
    · cases hfails with
      | homeless hnone =>
        exact ends_lift_bind_iff.2 (.inl ⟨_, Wallet.address_eq_error.2 ⟨hnone, rfl⟩, rfl, rfl, rfl⟩)
      | refused hsome =>
        refine ends_lift_bind_iff.2 (.inr ⟨_, Wallet.address_eq_ok.2 hsome, ?_⟩)
        exact ends_call_bind_iff.2 (.inl ⟨e, rfl, rfl, rfl⟩)
    · refine ends_lift_bind_iff.2 (.inr ⟨address, Wallet.address_eq_ok.2 hknown, ?_⟩)
      refine ends_call_bind_iff.2 (.inr ⟨balance, [], rfl, ?_⟩)
      exact ends_modify_iff.2 ⟨rfl, rfl, rfl⟩

theorem reads_nil_iff : p.Reads [] w since u ↔ since = [] ∧ u = w := by
  simp [Reads, observed, Wallet.observes_nil_iff, Wallet.Knows]

theorem reads_cons_iff (hchain : chain ∉ chains) : p.Reads (chain :: chains) w since u ↔
    ∃ address balance more, w.knownAddress chain = some address ∧
      since = p.balanceReply chain ⟨address, balance⟩ :: more ∧
      p.Reads chains (w.setBalance chain balance) more u := by
  constructor
  · rintro ⟨found, hknows, rfl, hobserves⟩
    obtain ⟨hfirst, hrest⟩ := List.forall_mem_cons.1 hknows
    obtain ⟨address, haddress⟩ := Option.ne_none_iff_exists'.1 hfirst
    refine ⟨address, found chain, p.observed w chains found, haddress, ?_, found, hrest, rfl,
      (Wallet.observes_cons_iff hchain).1 hobserves⟩
    rw [observed, List.map_cons, haddress]
    rfl
  · rintro ⟨address, balance, _, haddress, rfl, found, hknows, rfl, hobserves⟩
    have hne (other : Chain) (hother : other ∈ chains) : other ≠ chain := by
      rintro rfl
      exact hchain hother
    have hfound (other : Chain) (hother : other ∈ chains) : Function.update found chain balance other = found other :=
      Function.update_of_ne (hne other hother) ..
    -- what was found on this chain is put beside what was found on the others
    refine ⟨Function.update found chain balance, ?_, ?_, (Wallet.observes_cons_iff hchain).2 ?_⟩
    · exact List.forall_mem_cons.2 ⟨by simp [haddress], hknows⟩
    · rw [observed, observed, List.map_cons, haddress, Function.update_self]
      refine congrArg _ (List.map_congr_left fun other hother => ?_)
      rw [hfound other hother]
      rfl
    · rw [Function.update_self]
      exact hobserves.congr hfound

theorem fails_setBalance_iff {other : Chain} {balance : Amount} :
    p.Fails (w.setBalance chain balance) other since e ↔ p.Fails w other since e := by
  constructor
  · intro h
    cases h with
    | homeless hnone => exact .homeless (by simpa using hnone)
    | refused hsome => exact .refused (by simpa using hsome) e
  · intro h
    cases h with
    | homeless hnone => exact .homeless (by simpa using hnone)
    | refused hsome => exact .refused (by simpa using hsome) e

theorem not_stops_nil : ¬ p.Stops [] w since e u := by
  rintro ⟨before, chain, after, _, _, hsplit, _⟩
  simp at hsplit

theorem stops_cons_iff (hchain : chain ∉ chains) : p.Stops (chain :: chains) w since e u ↔
    (p.Fails w chain since e ∧ u = w) ∨
      ∃ address balance more, w.knownAddress chain = some address ∧
        since = p.balanceReply chain ⟨address, balance⟩ :: more ∧
        p.Stops chains (w.setBalance chain balance) more e u := by
  constructor
  · rintro ⟨before, other, after, told, failing, hsplit, rfl, hreads, hfails⟩
    cases before with
    | nil =>
      obtain ⟨rfl, rfl⟩ := List.cons.inj hsplit
      obtain ⟨rfl, rfl⟩ := reads_nil_iff.1 hreads
      exact .inl ⟨hfails, rfl⟩
    | cons first before =>
      obtain ⟨rfl, rfl⟩ := List.cons.inj hsplit
      have hbefore : chain ∉ before := fun hmem => hchain (List.mem_append_left _ hmem)
      obtain ⟨address, balance, more, hknown, rfl, hrest⟩ := (reads_cons_iff hbefore).1 hreads
      exact .inr ⟨address, balance, more ++ failing, hknown, rfl, before, other, after, more, failing, rfl, rfl,
        hrest, fails_setBalance_iff.2 hfails⟩
  · rintro (⟨hfails, rfl⟩ | ⟨address, balance, _, hknown, rfl, before, other, after, told, failing, rfl, rfl,
      hreads, hfails⟩)
    · exact ⟨[], chain, chains, [], since, rfl, rfl, reads_nil_iff.2 ⟨rfl, rfl⟩, hfails⟩
    · have hbefore : chain ∉ before := fun hmem => hchain (List.mem_append_left _ hmem)
      exact ⟨chain :: before, other, after, _, failing, rfl, rfl,
        (reads_cons_iff hbefore).2 ⟨address, balance, told, hknown, rfl, hreads⟩, fails_setBalance_iff.1 hfails⟩

/-- The chains are taken in order, up to the first on which a balance cannot be read. -/
theorem ends_forM_readBalance_iff (hchains : chains.Nodup) {r : Result Unit} :
    Ends (chains.forM p.readBalance) w since r u ↔
      r = .ok () ∧ p.Reads chains w since u ∨ ∃ e, r = .error e ∧ p.Stops chains w since e u := by
  induction chains generalizing w since with
  | nil =>
    simp only [not_stops_nil, and_false, exists_false, or_false, reads_nil_iff]
    rw [show [].forM p.readBalance = pure () from rfl, ends_pure_iff]
    tauto
  | cons chain chains ih =>
    obtain ⟨hchain, hrest⟩ := List.nodup_cons.1 hchains
    rw [show (chain :: chains).forM p.readBalance = p.readBalance chain >>= fun _ => chains.forM p.readBalance
      from rfl, ends_bind_iff]
    simp only [ends_readBalance_iff, ih hrest, reads_cons_iff hchain, stops_cons_iff hchain]
    constructor
    · rintro (⟨e, ⟨_, hfails, he, rfl⟩ | ⟨_, _, _, _, h, _⟩, rfl⟩ | ⟨_, more, _, _, rfl,
        ⟨_, _, h, _⟩ | ⟨address, balance, hknown, rfl, -, rfl⟩, hends⟩)
      · cases he
        exact .inr ⟨e, rfl, .inl ⟨hfails, rfl⟩⟩
      · cases h
      · cases h
      · rcases hends with ⟨rfl, hreads⟩ | ⟨e, rfl, hstops⟩
        · exact .inl ⟨rfl, address, balance, more, hknown, rfl, hreads⟩
        · exact .inr ⟨e, rfl, .inr ⟨address, balance, more, hknown, rfl, hstops⟩⟩
    · rintro (⟨rfl, address, balance, more, hknown, rfl, hreads⟩ | ⟨e, rfl, ⟨hfails, rfl⟩ |
        ⟨address, balance, more, hknown, rfl, hstops⟩⟩)
      · exact .inr ⟨_, more, (), _, rfl, .inr ⟨address, balance, hknown, rfl, trivial, rfl⟩, .inl ⟨rfl, hreads⟩⟩
      · exact .inl ⟨e, .inl ⟨e, hfails, rfl, rfl⟩, rfl⟩
      · exact .inr ⟨_, more, (), _, rfl, .inr ⟨address, balance, hknown, rfl, trivial, rfl⟩, .inr ⟨e, rfl, hstops⟩⟩

theorem ends_readBalances_iff {r : Result Unit} : Ends p.readBalances w since r u ↔
    r = .ok () ∧ p.Reads Chain.all w since u ∨ ∃ e, r = .error e ∧ p.Stops Chain.all w since e u := by
  rw [readBalances_eq]
  exact ends_forM_readBalance_iff (by decide)

def refreshPool (p : Provisioner) : Provisioning Unit := do
  let (result, wallets) ← Stage.ofPlan (Stage.each p.readBalances (← get).wallets)
  modify fun s => { s with wallets }
  Stage.lift result

theorem ends_refreshPool_iff {s t : Provisioned} {r : Result Unit} : Ends p.refreshPool s since r t ↔
    r = .ok () ∧ (∃ wallets, Through (p.Reads Chain.all) s.wallets since wallets ∧ t = { s with wallets }) ∨
    ∃ e before w after told failing before' u, r = .error e ∧ s.wallets = before ++ w :: after ∧
      since = told ++ failing ∧ t = { s with wallets := before' ++ u :: after } ∧
      Through (p.Reads Chain.all) before told before' ∧ p.Stops Chain.all w failing e u := by
  have hread {w u : Wallet} {since : List Reply} : Ends p.readBalances w since (.ok ()) u ↔
      p.Reads Chain.all w since u := by simp [ends_readBalances_iff]
  have hstop {w u : Wallet} {since : List Reply} {e : Error} : Ends p.readBalances w since (.error e) u ↔
      p.Stops Chain.all w since e u := by simp [ends_readBalances_iff]
  constructor
  · intro h
    obtain ⟨first, more, ⟨q, wallets⟩, rfl, hpool, hrest⟩ := ends_ofPlan_bind_iff.1 (ends_get_bind_iff.1 h)
    obtain ⟨rfl, rfl, rfl⟩ := ends_lift_iff.1 (ends_modify_bind_iff.1 hrest)
    rw [List.append_nil]
    cases r with
    | ok v =>
      have hthrough := each_ok_iff.1 hpool
      simp only [hread] at hthrough
      exact .inl ⟨rfl, wallets, hthrough, rfl⟩
    | error e =>
      obtain ⟨before, w, after, told, failing, before', u, hwallets, rfl, rfl, hfails, hthrough⟩ :=
        each_error_iff.1 hpool
      simp only [hread] at hthrough
      exact .inr ⟨e, before, w, after, told, failing, before', u, rfl, hwallets, rfl, rfl, hthrough,
        hstop.1 hfails⟩
  · intro h
    suffices ∃ wallets, (each p.readBalances s.wallets).Reaches since (.done (r, wallets)) ∧
        t = { s with wallets } by
      obtain ⟨wallets, hpool, rfl⟩ := this
      refine ends_get_bind_iff.2 (ends_ofPlan_bind_iff.2 ⟨since, [], (r, wallets), ?_, hpool, ?_⟩)
      · rw [List.append_nil]
      · exact ends_modify_bind_iff.2 (ends_lift_iff.2 ⟨rfl, rfl, rfl⟩)
    rcases h with ⟨rfl, wallets, hthrough, rfl⟩ | ⟨e, before, w, after, told, failing, before', u, rfl, hwallets,
      rfl, rfl, hthrough, hstops⟩
    · refine ⟨wallets, each_ok_iff.2 ?_, rfl⟩
      simpa only [hread] using hthrough
    · refine ⟨before' ++ u :: after, each_error_iff.2 ?_, rfl⟩
      refine ⟨before, w, after, told, failing, before', u, hwallets, rfl, rfl, hstop.2 hstops, ?_⟩
      simpa only [hread] using hthrough

/-- How reading all balances again can end. -/
inductive Refreshes (p : Provisioner) (s : Provisioned) : List Reply → Result Unit → Provisioned → Prop
  | missing (hgenesis : s.genesis = none) :
    Refreshes p s [] (.error (Provisioned.missing "genesis wallet")) s
  /-- the funded wallet cannot be read on some chain, and nothing at all has changed -/
  | genesis {genesis u : Wallet} {since : List Reply} {e : Error} (hgenesis : s.genesis = some genesis)
    (hstops : p.Stops Chain.all genesis since e u) : Refreshes p s since (.error e) s
  /-- a wallet of the pool cannot be read on some chain: the funded wallet and the wallets before it have all
  new balances, itself those on the chains before, and the wallets after it none -/
  | pool {genesis genesis' w u : Wallet} {before before' after : List Wallet} {first told failing : List Reply}
    {e : Error} (hgenesis : s.genesis = some genesis) (hwallets : s.wallets = before ++ w :: after)
    (hreads : p.Reads Chain.all genesis first genesis')
    (hbefore : Through (p.Reads Chain.all) before told before') (hstops : p.Stops Chain.all w failing e u) :
    Refreshes p s (first ++ (told ++ failing)) (.error e)
      { s with genesis := some genesis', wallets := before' ++ u :: after }
  | all {genesis genesis' : Wallet} {wallets : List Wallet} {first told : List Reply}
    (hgenesis : s.genesis = some genesis) (hreads : p.Reads Chain.all genesis first genesis')
    (hwallets : Through (p.Reads Chain.all) s.wallets told wallets) :
    Refreshes p s (first ++ told) (.ok ()) { s with genesis := some genesis', wallets }

end Provisioner

def Provisioned.bare (s : Provisioned) : Provisioned :=
  { s with genesis := s.genesis.map Wallet.bare, wallets := s.wallets.map Wallet.bare }

namespace Provisioner

open Stage

variable {p : Provisioner} {s t : Provisioned} {since : List Reply} {r : Result Unit}

theorem genesisWallet_eq_ok_iff {genesis : Wallet} :
    s.genesisWallet = .ok genesis ↔ s.genesis = some genesis := by
  rw [Provisioned.genesisWallet]
  cases s.genesis <;> simp [Provisioned.need]

theorem genesisWallet_eq_error_iff {e : Error} :
    s.genesisWallet = .error e ↔ s.genesis = none ∧ e = Provisioned.missing "genesis wallet" := by
  rw [Provisioned.genesisWallet]
  cases s.genesis <;> simp [Provisioned.need, eq_comm]

theorem ends_refreshBalances_iff : Ends p.refreshBalances s since r t ↔ p.Refreshes s since r t := by
  constructor
  · intro h
    rcases ends_lift_bind_iff.1 (ends_get_bind_iff.1 h) with ⟨e, hnone, rfl, rfl, rfl⟩ | ⟨genesis, hsome, hrest⟩
    · obtain ⟨hgenesis, rfl⟩ := genesisWallet_eq_error_iff.1 hnone
      exact .missing hgenesis
    have hgenesis := genesisWallet_eq_ok_iff.1 hsome
    obtain ⟨first, more, ⟨q, u⟩, rfl, hread, hrest⟩ := ends_ofPlan_bind_iff.1 hrest
    rcases ends_readBalances_iff.1 hread with ⟨rfl, hreads⟩ | ⟨e, rfl, hstops⟩
    · rcases ends_lift_bind_iff.1 hrest with ⟨_, h, _⟩ | ⟨_, -, hrest⟩
      · cases h
      have hpool : Ends p.refreshPool { s with genesis := some u } more r t := hrest
      rcases ends_refreshPool_iff.1 hpool with ⟨rfl, wallets, hthrough, rfl⟩ |
        ⟨e, before, w, after, told, failing, before', v, rfl, hwallets, rfl, rfl, hthrough, hstops⟩
      · exact .all hgenesis hreads hthrough
      · exact .pool hgenesis hwallets hreads hthrough hstops
    · rcases ends_lift_bind_iff.1 hrest with ⟨_, he, rfl, rfl, rfl⟩ | ⟨_, h, _⟩
      · cases he
        rw [List.append_nil]
        exact .genesis hgenesis hstops
      · cases h
  · intro h
    have hgo {genesis u : Wallet} {q : Result Unit} {first more : List Reply} (hgenesis : s.genesis = some genesis)
        (hread : Ends p.readBalances genesis first q u)
        (hrest : Ends (Stage.lift q >>= fun _ => modify (fun s => { s with genesis := some u }) >>= fun _ =>
          p.refreshPool) s more r t) : Ends p.refreshBalances s (first ++ more) r t :=
      ends_get_bind_iff.2 (ends_lift_bind_iff.2 (.inr ⟨genesis, genesisWallet_eq_ok_iff.2 hgenesis,
        ends_ofPlan_bind_iff.2 ⟨first, more, (q, u), rfl, hread, hrest⟩⟩))
    cases h with
    | missing hgenesis =>
      exact ends_get_bind_iff.2 (ends_lift_bind_iff.2
        (.inl ⟨_, genesisWallet_eq_error_iff.2 ⟨hgenesis, rfl⟩, rfl, rfl, rfl⟩))
    | genesis hgenesis hstops =>
      rw [← List.append_nil since]
      exact hgo hgenesis (ends_readBalances_iff.2 (.inr ⟨_, rfl, hstops⟩))
        (ends_lift_bind_iff.2 (.inl ⟨_, rfl, rfl, rfl, rfl⟩))
    | pool hgenesis hwallets hreads hbefore hstops =>
      refine hgo hgenesis (ends_readBalances_iff.2 (.inl ⟨rfl, hreads⟩))
        (ends_lift_bind_iff.2 (.inr ⟨(), rfl, ends_modify_bind_iff.2 (ends_refreshPool_iff.2 (.inr ?_))⟩))
      exact ⟨_, _, _, _, _, _, _, _, rfl, hwallets, rfl, rfl, hbefore, hstops⟩
    | all hgenesis hreads hwallets =>
      refine hgo hgenesis (ends_readBalances_iff.2 (.inl ⟨rfl, hreads⟩))
        (ends_lift_bind_iff.2 (.inr ⟨(), rfl, ends_modify_bind_iff.2 (ends_refreshPool_iff.2 (.inl ?_))⟩))
      exact ⟨rfl, _, hwallets, rfl⟩

theorem Reads.bare {chains : List Chain} {w u : Wallet} (h : p.Reads chains w since u) : u.bare = w.bare := by
  obtain ⟨_, -, -, hobserves⟩ := h
  exact hobserves.bare

theorem Stops.bare {chains : List Chain} {w u : Wallet} {e : Error} (h : p.Stops chains w since e u) :
    u.bare = w.bare := by
  obtain ⟨_, _, _, _, _, -, -, hreads, -⟩ := h
  exact hreads.bare

theorem Refreshes.bare (h : p.Refreshes s since r t) : t.bare = s.bare := by
  have hpool {before before' : List Wallet} {told : List Reply}
      (hbefore : Through (p.Reads Chain.all) before told before') :
      before'.map Wallet.bare = before.map Wallet.bare :=
    hbefore.map_eq fun _ _ _ hreads => hreads.bare
  cases h with
  | missing => rfl
  | genesis => rfl
  | pool hgenesis hwallets hreads hbefore hstops =>
    simp [Provisioned.bare, hgenesis, hwallets, hreads.bare, hpool hbefore, hstops.bare]
  | all hgenesis hreads hwallets => simp [Provisioned.bare, hgenesis, hreads.bare, hpool hwallets]

/-- Reading all balances again ends whatever is answered, and in one of four ways; in each of them the pool has
the same wallets in the same order, and they, the funded wallet and all that is provisioned beside them are as
they were but for balances. -/
theorem refreshBalances_frame (p : Provisioner) (s : Provisioned) :
    (∀ answers, ∃ since r t, Ends p.refreshBalances s since r t ∧
      (Plan.play answers [] (p.refreshBalances s)).1 = some (r, t)) ∧
    (∀ since r t, Ends p.refreshBalances s since r t ↔ p.Refreshes s since r t) ∧
    ∀ since r t, Ends p.refreshBalances s since r t → t.bare = s.bare :=
  ⟨fun answers => (refreshBalances_asks p).ends answers s, fun _ _ _ => ends_refreshBalances_iff,
    fun _ _ _ h => (ends_refreshBalances_iff.1 h).bare⟩

/-- The wait for the second of three balances of the first pool wallet is given up. -/
theorem refreshBalances_frame_specimen :
    let p := specimen 0
    let w := { specimenWallet with balances := ⟨some 7, some 8, some 9⟩ }
    let s : Provisioned := { genesis := some specimenWallet, wallets := [w, w] }
    let t : Provisioned :=
      { genesis := some { specimenWallet with balances := ⟨some 1, some 2, some 3⟩ },
        wallets := [{ w with balances := ⟨some 4, some 8, some 9⟩ }, w] }
    let cause := Error.abandoned "fetch balance"
    Ends p.refreshBalances s
      [p.balanceReply .x ⟨"X-first", 1⟩, p.balanceReply .p ⟨"P-first", 2⟩, p.balanceReply .c ⟨"0xfirst", 3⟩,
        p.balanceReply .x ⟨"X-first", 4⟩, ⟨.call "fetch balance" p.first (.getBalance .p "P-first"), .error cause⟩]
      (.error cause) t ∧ t.bare = s.bare := by
  intro p w s t cause
  have hends : Ends p.refreshBalances s
      [p.balanceReply .x ⟨"X-first", 1⟩, p.balanceReply .p ⟨"P-first", 2⟩, p.balanceReply .c ⟨"0xfirst", 3⟩,
        p.balanceReply .x ⟨"X-first", 4⟩, ⟨.call "fetch balance" p.first (.getBalance .p "P-first"), .error cause⟩]
      (.error cause) t :=
    .answered (.answered (.answered (.answered (.answered (.here _)))))
  obtain ⟨-, -, hbare⟩ := refreshBalances_frame p s
  exact ⟨hends, hbare _ _ _ hends⟩

end Provisioner

end LocalFleet
