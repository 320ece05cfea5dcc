import LocalFleet.Proofs.Provision.Wallets
import LocalFleet.Proofs.Record.Table
import LocalFleet.Proofs.Run.Yield

/-! What provisioning has gathered when its parts end well: the funded wallet, the extra addresses and the
pool of wallets, and what the nodes said of them. -/

namespace LocalFleet

variable {σ τ α β : Type}

/-- A question for a balance, be it asked once or until the answer is enough. -/
def Question.asksBalance : Question → Bool
  | .call _ _ (.getBalance ..) => true
  | .await _ _ _ (.getBalance ..) _ => true
  | _ => false

def balanceReplies (replies : List Reply) : List Reply := replies.filter (·.question.asksBalance)

theorem balanceReplies_append (since more : List Reply) :
    balanceReplies (since ++ more) = balanceReplies since ++ balanceReplies more := List.filter_append ..

theorem forall₂_trans {R : α → β → Prop} {S : β → τ → Prop} {T : α → τ → Prop}
    (h : ∀ a b c, R a b → S b c → T a c) {as : List α} {bs : List β} {cs : List τ}
    (hab : List.Forall₂ R as bs) (hbc : List.Forall₂ S bs cs) : List.Forall₂ T as cs := by
  induction hab generalizing cs with
  | nil =>
    cases hbc
    exact .nil
  | cons hfirst _ ih =>
    cases hbc with
    | cons hsecond hrest => exact .cons (h _ _ _ hfirst hsecond) (ih hrest)

theorem flatMap_eq_of_forall₂ {R : α → α → Prop} {f : α → List β} (hf : ∀ a b, R a b → f b = f a)
    {as bs : List α} (h : List.Forall₂ R as bs) : bs.flatMap f = as.flatMap f := by
  induction h with
  | nil => rfl
  | cons hfirst _ ih => rw [List.flatMap_cons, List.flatMap_cons, hf _ _ hfirst, ih]

namespace Stage

/-- A stage that leaves its state alone when it ends well, and asks for no balance. -/
def Quiet (s : σ) (stage : Stage σ α) : Prop :=
  Yields (fun since _ t => t = s ∧ balanceReplies since = []) s stage

variable {s : σ} {x : Stage σ α} {f : α → Stage σ β}

theorem Quiet.bind (hx : Quiet s x) (hf : ∀ a, Quiet s (f a)) : Quiet s (x >>= f) := by
  refine Yields.bind hx ?_
  rintro since a t ⟨rfl, hsince⟩
  refine (hf a).mono ?_
  rintro more b u ⟨rfl, hmore⟩
  exact ⟨rfl, by rw [balanceReplies_append, hsince, hmore]; rfl⟩

theorem quiet_get_bind {f : σ → Stage σ β} (h : Quiet s (f s)) : Quiet s (get >>= f) := h

theorem quiet_lift (r : Result α) : Quiet s (Stage.lift r) := yields_lift fun _ _ => ⟨rfl, rfl⟩

theorem quiet_ask {q : Question} (hq : q.asksBalance = false) : Quiet s (Stage.ask q) :=
  yields_ask fun _ _ => ⟨rfl, by simp [balanceReplies, hq]⟩

theorem quiet_call {what : String} {node : NodeSpec} {c : Call}
    (hq : (Question.call what node c).asksBalance = false) : Quiet s (Stage.call what node c) :=
  yields_call fun _ => ⟨rfl, by simp [balanceReplies, hq]⟩

theorem quiet_await {what : String} {pace : Pace} {node : NodeSpec} {c : Call} {enough : c.Answer → Bool}
    (hq : (Question.await what pace node c enough).asksBalance = false) :
    Quiet s (Stage.await what pace node c enough) :=
  yields_await fun _ _ => ⟨rfl, by simp [balanceReplies, hq]⟩

theorem quiet_checkpoint {after : String} : Quiet s (Stage.checkpoint after) := yields_checkpoint ⟨rfl, rfl⟩

theorem quiet_forM {body : β → Stage σ Unit} (h : ∀ y, Quiet s (body y)) (ys : List β) :
    Quiet s (ys.forM body) := by
  induction ys with
  | nil => exact yields_pure ⟨rfl, rfl⟩
  | cons y ys ih => exact (h y).bind fun _ => ih

theorem quiet_each {inner : Stage τ Unit} (h : ∀ y, Quiet y inner) (ys : List τ) :
    Yields (fun _ r t => t = s ∧ (r.1 = .ok () → r.2 = ys)) s
      (Stage.ofPlan (each inner ys) : Stage σ _) := by
  refine (yields_each h ys).mono ?_
  rintro _ ⟨r, ts⟩ t ⟨rfl, hr⟩
  refine ⟨rfl, fun hok => ?_⟩
  obtain ⟨outs, houts, _, rfl⟩ := hr hok
  have hsame : List.Forall₂ (· = ·) ys (outs.map Prod.snd) :=
    List.forall₂_map_right_iff.2 (houts.imp fun _ _ hout => hout.1.symm)
  rw [List.forall₂_eq_eq_eq] at hsame
  exact hsame.symm

/-- Before anything else a stage that leaves the state alone can be passed over. -/
theorem Quiet.bind_yields {R : List Reply → β → σ → Prop} (hx : Quiet s x)
    (hf : ∀ since a, balanceReplies since = [] → Yields (fun more b u => R (since ++ more) b u) s (f a)) :
    Yields R s (x >>= f) := by
  refine Yields.bind hx ?_
  rintro since a t ⟨rfl, hsince⟩
  exact hf since a hsince

end Stage

namespace Wallet

variable {w u : Wallet}

/-- What a wallet can become: more of it is known, and no address that was known has changed. -/
structure Becomes (w u : Wallet) : Prop where
  name : u.name = w.name
  key : u.key = w.key
  known : ∀ chain a, w.knownAddress chain = some a → u.knownAddress chain = some a

theorem Becomes.refl (w : Wallet) : Becomes w w := ⟨rfl, rfl, fun _ _ h => h⟩

theorem Becomes.trans {v : Wallet} (h : Becomes w u) (h' : Becomes u v) : Becomes w v where
  name := h'.name.trans h.name
  key := h'.key.trans h.key
  known chain a ha := h'.known chain a (h.known chain a ha)

theorem Becomes.knows {chains : List Chain} (h : Becomes w u) (hw : w.Knows chains) : u.Knows chains := by
  intro chain hmem
  obtain ⟨a, ha⟩ := Option.ne_none_iff_exists'.1 (hw chain hmem)
  rw [h.known chain a ha]
  exact Option.some_ne_none a

theorem Becomes.knownAddress_eq (h : Becomes w u) {chain : Chain} (hw : w.knownAddress chain ≠ none) :
    u.knownAddress chain = w.knownAddress chain := by
  obtain ⟨a, ha⟩ := Option.ne_none_iff_exists'.1 hw
  rw [ha, h.known chain a ha]

theorem becomes_setAddress {chain : Chain} (a : String) (h : w.knownAddress chain = none) :
    Becomes w (w.setAddress chain a) := by
  refine ⟨rfl, rfl, fun other b hb => ?_⟩
  rw [knownAddress_setAddress, if_neg, hb]
  rintro rfl
  simp [h] at hb

@[simp] theorem knownAddress_setBalance (w : Wallet) (chain other : Chain) (amount : Amount) :
    (w.setBalance chain amount).knownAddress other = w.knownAddress other := rfl

@[simp] theorem balance_setBalance (w : Wallet) (chain other : Chain) (amount : Amount) :
    (w.setBalance chain amount).balance other = if other = chain then amount else w.balance other := by
  rw [balance, setBalance, PerChain.get_set]
  split <;> rfl

theorem address_eq_ok {chain : Chain} {a : String} :
    w.address chain = .ok a ↔ w.knownAddress chain = some a := by
  rw [address]
  cases w.knownAddress chain <;> simp

end Wallet

namespace WalletRecord

def account (r : WalletRecord) : Chain → Account
  | .x => r.xChain
  | .p => r.pChain
  | .c => r.cChain

@[simp] theorem account_ofWallet (w : Wallet) (chain : Chain) :
    (ofWallet w).account chain = ⟨(w.knownAddress chain).getD "", w.balance chain⟩ := by
  cases chain <;> rfl

end WalletRecord

namespace Provisioner

open Stage

variable (p : Provisioner)

def keyReply (node : NodeSpec) (chain : Chain) (key address : String) : Reply :=
  ⟨.call "import wallet key" node (.importKey chain p.user key), .ok address⟩

def keyReplies (r : WalletRecord) : List Reply :=
  p.view.nodes.flatMap fun node =>
    Chain.all.flatMap fun chain => [p.keyReply node chain r.privateKey (r.account chain).address]

def balanceReply (chain : Chain) (account : Account) : Reply :=
  ⟨.call "fetch balance" p.first (.getBalance chain account.address), .ok account.balance⟩

def accountReplies (r : WalletRecord) : List Reply :=
  Chain.all.map fun chain => p.balanceReply chain (r.account chain)

def madeReply (node : NodeSpec) (chain : Chain) (address : String) : Reply :=
  ⟨.call "create address" node (.createAddress chain p.user), .ok address⟩

def listedReply (node : NodeSpec) (chain : Chain) (address : String) (listed : List String) : Reply :=
  ⟨.await s!"{chain}-chain address {address} on {node.name}" p.pace node (.listAddresses chain p.user)
    fun (listed : List String) => listed.contains address, .ok listed⟩

variable {p}

theorem keyReply_eq {w u : Wallet} (h : w.Becomes u) (node : NodeSpec) {chain : Chain}
    (hw : w.knownAddress chain ≠ none) :
    p.keyReply node chain (WalletRecord.ofWallet u).privateKey ((WalletRecord.ofWallet u).account chain).address =
      p.keyReply node chain (WalletRecord.ofWallet w).privateKey
        ((WalletRecord.ofWallet w).account chain).address := by
  have hkey : (WalletRecord.ofWallet u).privateKey = (WalletRecord.ofWallet w).privateKey :=
    congrArg SecretKey.encoded h.key
  rw [hkey, WalletRecord.account_ofWallet, WalletRecord.account_ofWallet, h.knownAddress_eq hw]

theorem keyReplies_eq {w u : Wallet} (h : w.Becomes u) (hw : w.Knows Chain.all) :
    p.keyReplies (.ofWallet u) = p.keyReplies (.ofWallet w) := by
  simp only [keyReplies, keyReply_eq h _ (hw.all _)]

theorem confirm_quiet {what : String} {node : NodeSpec} {c : Call} {enough : c.Answer → Bool} {s : σ}
    (hq : (Question.await what p.pace node c enough).asksBalance = false) :
    Quiet s (p.confirm what node c enough) := (quiet_await hq).bind fun _ => yields_pure ⟨rfl, rfl⟩

theorem createUsers_quiet {s : Provisioned} : Quiet s p.createUsers := quiet_forM (fun _ => quiet_call rfl) _

theorem confirmAddresses_quiet {w : Wallet} : Quiet w p.confirmAddresses :=
  quiet_forM (fun _ => quiet_forM (fun _ => quiet_get_bind ((quiet_lift _).bind fun _ => confirm_quiet rfl)) _) _

theorem transferToWallet_quiet {s : Provisioned} : Quiet s p.transferToWallet :=
  quiet_get_bind <| (quiet_lift _).bind fun _ => (quiet_lift _).bind fun _ => (quiet_lift _).bind fun _ =>
    (quiet_lift _).bind fun _ => (quiet_call rfl).bind fun _ => confirm_quiet rfl

theorem issue_quiet {what : String} {chain : Chain} {tx : UnsignedTx} {key : SecretKey} {s : Provisioned} :
    Quiet s (p.issue what chain tx key) :=
  (quiet_lift _).bind fun _ => (quiet_call rfl).bind fun _ => quiet_forM (fun _ => confirm_quiet rfl) _

theorem exportImport_quiet {s : Provisioned} : Quiet s p.exportImport :=
  (quiet_lift _).bind fun _ => quiet_get_bind <| (quiet_lift _).bind fun _ => (quiet_lift _).bind fun _ =>
    (quiet_lift _).bind fun _ => (quiet_lift _).bind fun _ => (quiet_ask (q := .clock) rfl).bind fun _ =>
    (quiet_call rfl).bind fun _ => (quiet_lift _).bind fun _ => issue_quiet.bind fun _ =>
    (quiet_await rfl).bind fun _ => (quiet_lift _).bind fun _ => issue_quiet

theorem readBalances_yields {w : Wallet} :
    Yields (fun since _ u => (w.Becomes u ∧ w.Knows Chain.all) ∧ since = p.accountReplies (.ofWallet u)) w
      p.readBalances := by
  let body (chain : Chain) : Stage Wallet Unit := do
    let address ← Stage.lift ((← get).address chain)
    let balance ← Stage.call "fetch balance" p.first (.getBalance chain address)
    modify (·.setBalance chain balance)
  have hbody (chain : Chain) (w : Wallet) : Yields (fun since _ u => ∃ a balance,
      w.knownAddress chain = some a ∧ u = w.setBalance chain balance ∧
      since = [p.balanceReply chain ⟨a, balance⟩]) w (body chain) := by
    refine yields_get_bind (yields_lift_bind fun a ha => ?_)
    exact yields_call_bind fun balance =>
      yields_modify ⟨a, balance, Wallet.address_eq_ok.1 ha, rfl, rfl⟩
  show Yields _ w (body .x >>= fun _ => body .p >>= fun _ => body .c >>= fun _ => pure ())
  refine (hbody .x w).bind ?_
  rintro _ _ _ ⟨x, xBalance, hx, rfl, rfl⟩
  refine (hbody .p _).bind ?_
  rintro _ _ _ ⟨y, pBalance, hp, rfl, rfl⟩
  refine (hbody .c _).bind ?_
  rintro _ _ _ ⟨z, cBalance, hc, rfl, rfl⟩
  rw [Wallet.knownAddress_setBalance] at hp hc
  refine yields_pure ⟨⟨⟨rfl, rfl, fun _ _ h => h⟩, fun chain _ => ?_⟩, ?_⟩
  · cases chain <;> simp_all
  · simp_all [accountReplies, Chain.all]

/-- A node that took a key for a chain answered with what is from then on the address there. -/
theorem importKey_yields {w : Wallet} (node : NodeSpec) (chain : Chain) :
    Yields (fun since _ u => w.Becomes u ∧ u.knownAddress chain ≠ none ∧
      since = [p.keyReply node chain (WalletRecord.ofWallet u).privateKey
        ((WalletRecord.ofWallet u).account chain).address]) w (p.importKey node chain) := by
  refine yields_get_bind (yields_call_bind fun a => ?_)
  -- a reply with the address that is known in the end
  have htells (u : Wallet) (hkey : u.key = w.key) (hknown : u.knownAddress chain = some a) :
      [p.keyReply node chain w.key.encoded a] = [p.keyReply node chain (WalletRecord.ofWallet u).privateKey
        ((WalletRecord.ofWallet u).account chain).address] := by
    rw [WalletRecord.account_ofWallet, hknown, ← hkey]
    rfl
  cases hknown : w.knownAddress chain with
  | none =>
    have hset : (w.setAddress chain a).knownAddress chain = some a := by simp
    exact yields_modify ⟨Wallet.becomes_setAddress a hknown, by simp, htells _ rfl hset⟩
  | some known =>
    show Yields _ w (if known ≠ a then throw _ else pure ())
    by_cases hsame : known = a
    · rw [if_neg (not_not.2 hsame)]
      rw [hsame] at hknown
      exact yields_pure ⟨.refl w, by simp [hknown], htells w rfl hknown⟩
    · rw [if_pos hsame]
      exact yields_throw

theorem importWallet_yields {w : Wallet} :
    Yields (fun since _ u => w.Becomes u ∧ since = p.keyReplies (.ofWallet u)) w
      p.importWallet := by
  have hnode (node : NodeSpec) (w : Wallet) : Yields (fun since _ u => w.Becomes u ∧ u.Knows Chain.all ∧
      since = Chain.all.flatMap fun chain => [p.keyReply node chain (WalletRecord.ofWallet u).privateKey
        ((WalletRecord.ofWallet u).account chain).address]) w (Chain.all.forM (p.importKey node)) := by
    refine yields_forM_telling Wallet.Becomes (fun chain u => u.knownAddress chain ≠ none) _
      Wallet.Becomes.refl (fun _ _ _ => Wallet.Becomes.trans) (fun chain w u h hw => ⟨?_, ?_⟩)
      fun chain w => importKey_yields node chain
    · rwa [h.knownAddress_eq hw]
    · rw [keyReply_eq h node hw]
  refine (yields_forM_telling Wallet.Becomes (fun _ u => u.Knows Chain.all) _ Wallet.Becomes.refl
    (fun _ _ _ => Wallet.Becomes.trans) (fun node w u h hw => ⟨h.knows hw, ?_⟩) hnode).mono ?_
  · simp only [keyReply_eq h node (hw.all _)]
  · rintro _ _ u ⟨hbecomes, _, rfl⟩
    exact ⟨hbecomes, rfl⟩

theorem importGenesis_yields {w : Wallet} :
    Yields (fun _ _ u => ∀ chain, u.knownAddress chain = some (p.settings.fixture.expected.get chain)) w
      p.importGenesis := by
  refine (yields_forM (fun seen _ u => seen ≠ [] → ∀ chain,
    u.knownAddress chain = some (p.settings.fixture.expected.get chain)) (fun _ node _ _ w _ _ => ?_)
    (by simp)).mono fun _ _ u hu => hu p.view.nonempty
  refine (yields_forM (fun seen _ u => ∀ chain ∈ seen,
    u.knownAddress chain = some (p.settings.fixture.expected.get chain)) (fun seen chain _ _ w _ hw => ?_)
    (by simp)).mono fun _ _ u hu _ chain => hu chain (by cases chain <;> decide)
  refine yields_get_bind (yields_call_bind fun (a : String) => ?_)
  by_cases ha : a = p.settings.fixture.expected.get chain
  · simp only [ne_eq, ha, not_true_eq_false, if_false]
    refine yields_modify fun other hother => ?_
    rw [Wallet.knownAddress_setAddress]
    by_cases hsame : other = chain
    · rw [if_pos hsame, hsame]
    · rw [if_neg hsame]
      exact hw other (by simpa [hsame] using hother)
  · simp only [ne_eq, if_pos ha]
    exact yields_throw

theorem fundFromGenesis_yields {s : Provisioned} :
    Yields (fun _ _ t => ∃ w : Wallet, t = { s with genesis := some w } ∧
      ∀ chain, w.knownAddress chain = some (p.settings.fixture.expected.get chain)) s p.fundFromGenesis := by
  refine yields_lift_bind fun key _ => ?_
  have hwallet : Yields (fun _ _ u => ∀ chain,
      u.knownAddress chain = some (p.settings.fixture.expected.get chain)) (Wallet.new genesisName key) (do
        p.importGenesis
        p.confirmAddresses
        p.readBalances) := by
    refine importGenesis_yields.bind fun _ _ w hw => confirmAddresses_quiet.bind_yields fun _ _ _ => ?_
    exact readBalances_yields.mono fun _ _ u hu chain => hu.1.1.known chain _ (hw chain)
  refine (yields_on hwallet).bind ?_
  rintro _ ⟨r, w⟩ _ ⟨rfl, hr⟩
  exact yields_lift_bind fun u hu => yields_modify ⟨w, rfl, hr u hu⟩

/-- For the nodes that were gone through, a table has the address that each of them made and later
listed. -/
structure Extras (p : Provisioner) (chain : Chain) (nodes : List NodeSpec) (replies : List Reply)
    (table : Table) : Prop where
  keys : (table.map Prod.fst).Perm (nodes.map NodeSpec.name)
  ordered : table.Ordered
  made : ∀ node ∈ nodes, ∃ address listed, table.find? node.name = some address ∧ address ∈ listed ∧
    [p.madeReply node chain address, p.listedReply node chain address listed].Sublist replies

theorem Extras.insert {chain : Chain} {nodes : List NodeSpec} {since more : List Reply} {table : Table}
    {node : NodeSpec} {address : String} {listed : List String} (h : p.Extras chain nodes since table)
    (hnew : node.name ∉ nodes.map NodeSpec.name) (hlisted : address ∈ listed)
    (hmore : [p.madeReply node chain address, p.listedReply node chain address listed].Sublist more) :
    p.Extras chain (nodes ++ [node]) (since ++ more) (table.insert node.name address) where
  keys := by
    have hkey : node.name ∉ table.map Prod.fst := fun hmem => hnew (h.keys.mem_iff.1 hmem)
    have hperm : ((table.insert node.name address).map Prod.fst).Perm
        (node.name :: nodes.map NodeSpec.name) :=
      ((Table.insert_perm hkey).map Prod.fst).trans (h.keys.cons _)
    rw [List.map_append]
    exact hperm.trans (List.perm_append_singleton _ _).symm
  ordered := h.ordered.insert
  made other hother := by
    rcases List.mem_append.1 hother with hother | hother
    · obtain ⟨a, as, hfind, hmem, hsince⟩ := h.made other hother
      refine ⟨a, as, ?_, hmem, hsince.trans (List.sublist_append_left _ _)⟩
      rw [Table.find?_insert, if_neg, hfind]
      exact fun hname => hnew (hname ▸ List.mem_map_of_mem hother)
    · obtain rfl := List.mem_singleton.1 hother
      refine ⟨address, listed, ?_, hlisted, hmore.trans (List.sublist_append_right _ _)⟩
      rw [Table.find?_insert, if_pos rfl]

theorem confirmAddress_yields {s : σ} {node : NodeSpec} {chain : Chain} {address : String} :
    Yields (fun since _ t => t = s ∧ ∃ listed, address ∈ listed ∧
      since = [p.listedReply node chain address listed]) s (p.confirmAddress node chain address) := by
  refine Yields.bind (R := fun since _ t => t = s ∧ ∃ listed, address ∈ listed ∧
    since = [p.listedReply node chain address listed])
    (yields_await fun (listed : List String) hlisted => ⟨rfl, listed, by simpa using hlisted, rfl⟩) ?_
  rintro since _ t ⟨rfl, listed, hlisted, rfl⟩
  exact yields_pure ⟨rfl, listed, hlisted, rfl⟩

/-- Every node made an address on both chains, and listed each before the next was made. -/
theorem createSecondaryAddresses_yields {s : Provisioned} (hnodes : (p.view.nodes.map NodeSpec.name).Nodup)
    (hx : s.xSecondary = []) (hp : s.pSecondary = []) :
    Yields (fun since _ t => t = { s with xSecondary := t.xSecondary, pSecondary := t.pSecondary } ∧
      p.Extras .x p.view.nodes since t.xSecondary ∧ p.Extras .p p.view.nodes since t.pSecondary) s
      p.createSecondaryAddresses := by
  let body (node : NodeSpec) (chain : Chain) : Provisioning Unit := do
    let address ← Stage.call "create address" node (.createAddress chain p.user)
    p.confirmAddress node chain address
    modify (·.addSecondary chain node.name address)
  have hbody (node : NodeSpec) (chain : Chain) (s : Provisioned) : Yields (fun since _ t => ∃ address listed,
      address ∈ listed ∧ t = s.addSecondary chain node.name address ∧
      since = [p.madeReply node chain address, p.listedReply node chain address listed]) s
      (body node chain) := by
    refine yields_call_bind fun address => confirmAddress_yields.bind ?_
    rintro _ _ _ ⟨rfl, listed, hlisted, rfl⟩
    exact yields_modify ⟨address, listed, hlisted, rfl, rfl⟩
  refine yields_forM (fun seen since (t : Provisioned) =>
    t = { s with xSecondary := t.xSecondary, pSecondary := t.pSecondary } ∧
    p.Extras .x seen since t.xSecondary ∧ p.Extras .p seen since t.pSecondary) ?_
    ⟨rfl, ⟨by simp [hx], hx ▸ .nil, by simp⟩, ⟨by simp [hp], hp ▸ .nil, by simp⟩⟩
  rintro seen node rest since t hsplit ⟨ht, hxs, hps⟩
  have hnew : node.name ∉ seen.map NodeSpec.name := by
    rw [hsplit, List.map_append, List.map_cons, List.nodup_append] at hnodes
    exact fun hmem => hnodes.2.2 _ hmem _ List.mem_cons_self rfl
  show Yields _ t (body node .x >>= fun _ => body node .p >>= fun _ => pure ())
  refine (hbody node .x t).bind ?_
  rintro _ _ _ ⟨x, xListed, hxListed, rfl, rfl⟩
  refine (hbody node .p _).bind ?_
  rintro _ _ _ ⟨y, pListed, hpListed, rfl, rfl⟩
  refine yields_pure ⟨?_, hxs.insert hnew hxListed ?_, hps.insert hnew hpListed ?_⟩
  · rw [ht]
    rfl
  · exact List.sublist_append_left _ _
  · exact (List.sublist_append_left _ _).trans (List.sublist_append_right _ _)

/-- The pool consists of the wallets that were made, in the order in which they were made, each with the
address with which every node answered. -/
theorem createWallets_yields {s : Provisioned} :
    Yields (fun since _ t => ∃ fresh ws,
      fresh.length = p.settings.provision.walletCount.toNat ∧ List.Forall₂ Wallet.Becomes fresh ws ∧
      ⟨.newWallets p.settings.provision.walletCount.toNat p.settings.provision.nameLength.toNat, fresh⟩ ::
        ws.flatMap (p.keyReplies <| .ofWallet ·) <+: since ∧ t = { s with wallets := ws }) s
      p.createWallets := by
  refine yields_ask_bind fun fresh hfresh => ?_
  refine (yields_each_telling (fun _ => importWallet_yields) fresh).bind ?_
  rintro _ ⟨r, imported⟩ _ ⟨rfl, himported⟩
  refine yields_lift_bind fun _ hok => ?_
  obtain ⟨hbecome, rfl⟩ := himported hok
  refine (quiet_each (fun _ => confirmAddresses_quiet) imported).bind ?_
  rintro _ ⟨r, confirmed⟩ _ ⟨rfl, hconfirmed⟩
  refine yields_lift_bind fun _ hok => ?_
  obtain rfl := hconfirmed hok
  refine (yields_each_telling (fun _ => readBalances_yields) confirmed).bind ?_
  rintro _ ⟨r, wallets⟩ _ ⟨rfl, hwallets⟩
  refine yields_lift_bind fun _ hok => ?_
  obtain ⟨hread, _⟩ := hwallets hok
  refine yields_modify ⟨fresh, wallets, hfresh, forall₂_trans (fun _ _ _ h h' => h.trans h'.1) hbecome hread,
    ?_, rfl⟩
  rw [flatMap_eq_of_forall₂ (fun _ _ h => keyReplies_eq h.1 h.2) hread]
  exact List.cons_prefix_cons.2 ⟨rfl, List.prefix_append _ _⟩

theorem refreshBalances_yields {s : Provisioned} :
    Yields (fun since _ t => ∃ genesis w ws, s.genesis = some genesis ∧ genesis.Becomes w ∧
      List.Forall₂ (fun w u => w.Becomes u ∧ w.Knows Chain.all) s.wallets ws ∧
      since = (w :: ws).flatMap (p.accountReplies <| .ofWallet ·) ∧
      t = { s with genesis := some w, wallets := ws }) s p.refreshBalances := by
  refine yields_get_bind (yields_lift_bind fun genesis hgenesis => ?_)
  have hsome : s.genesis = some genesis := by
    rw [Provisioned.genesisWallet] at hgenesis
    cases hs : s.genesis with
    | none => simp [hs, Provisioned.need] at hgenesis
    | some w => simpa [hs, Provisioned.need] using hgenesis
  refine (yields_on readBalances_yields).bind ?_
  rintro _ ⟨r, w⟩ _ ⟨rfl, hw⟩
  refine yields_lift_bind fun _ hok => yields_modify_bind (yields_get_bind ?_)
  obtain ⟨⟨hbecomes, _⟩, rfl⟩ := hw _ hok
  refine (yields_each_telling (fun _ => readBalances_yields) _).bind ?_
  rintro _ ⟨r, wallets⟩ _ ⟨rfl, hwallets⟩
  refine yields_modify_bind (yields_lift fun _ hok => ?_)
  obtain ⟨hread, rfl⟩ := hwallets hok
  refine ⟨genesis, w, wallets, hsome, hbecomes, hread, ?_, rfl⟩
  rw [List.append_nil, List.flatMap_cons]

theorem controlAddress_quiet {s : Provisioned} : Quiet s controlAddress :=
  quiet_get_bind ((quiet_lift _).bind fun _ => quiet_lift _)

theorem createSubnet_yields {s : Provisioned} :
    Yields (fun since _ t => balanceReplies since = [] ∧ ∃ id, t = { s with subnetId := some id }) s
      p.createSubnet := by
  have hconfirmed (id : String) : Quiet s (p.view.nodes.forM fun node => do
      p.confirmTx node .p id
      p.confirmSubnet node id) := quiet_forM (fun _ => (confirm_quiet rfl).bind fun _ => confirm_quiet rfl) _
  refine controlAddress_quiet.bind_yields fun _ _ hcontrol => yields_call_bind fun id =>
    yields_lift_bind fun _ _ => (hconfirmed id).bind_yields fun _ _ hsince => yields_modify ⟨?_, id, rfl⟩
  rw [balanceReplies_append, hcontrol, List.nil_append, List.append_nil]
  exact hsince

theorem addSubnetValidators_quiet {s : Provisioned} : Quiet s p.addSubnetValidators := by
  refine quiet_get_bind <| (quiet_lift _).bind fun _ => controlAddress_quiet.bind fun _ =>
    quiet_forM (fun node => (quiet_ask (q := .clock) rfl).bind fun now => ?_) _
  cases p.validationTimes now with
  | none => exact yields_overflow
  | some times => exact (quiet_call rfl).bind fun _ => confirm_quiet rfl

def createdReply (p : Provisioner) (request : CreateBlockchainRequest) (id : String) : Reply :=
  ⟨.call "create blockchain" p.first (.createBlockchain request), .ok id⟩

theorem createBlockchain_yields {s : Provisioned} :
    Yields (fun since _ t => balanceReplies since = [] ∧ ∃ request id, p.createdReply request id ∈ since ∧
      t = { s with blockchainId := some id }) s p.createBlockchain := by
  have hgenesis : Quiet s p.readGenesis :=
    (quiet_lift _).bind fun _ => (quiet_ask (q := .readFile _) rfl).bind fun _ => quiet_lift _
  have hconfirmed (subnetId id : String) : Quiet s (p.view.nodes.forM fun node => do
      p.confirmTx node .p id
      p.confirmBlockchain node subnetId id) :=
    quiet_forM (fun _ => (confirm_quiet rfl).bind fun _ => (confirm_quiet rfl).bind fun _ => confirm_quiet rfl) _
  refine yields_get_bind <| yields_lift_bind fun subnetId _ => controlAddress_quiet.bind_yields
    fun since control hcontrol => hgenesis.bind_yields fun mid genesis hmid => yields_call_bind fun id =>
      (hconfirmed subnetId id).bind_yields fun more _ hmore => yields_modify ?_
  refine ⟨?_, _, id, List.mem_append_right _ (List.mem_append_right _ List.mem_cons_self), rfl⟩
  rw [balanceReplies_append, balanceReplies_append, hcontrol, hmid, List.append_nil]
  exact hmore

theorem awaitBootstrap_quiet {s : Provisioned} : Quiet s p.awaitBootstrap :=
  quiet_get_bind <| (quiet_lift _).bind fun _ => quiet_forM (fun _ => confirm_quiet rfl) _

theorem subnetwork_yields {s : Provisioned} :
    Yields (fun since _ t => balanceReplies since = [] ∧ ∃ subnet request id,
      p.createdReply request id ∈ since ∧
      t = { s with subnetId := some subnet, blockchainId := some id }) s p.subnetwork := by
  refine quiet_checkpoint.bind_yields fun _ _ h₁ => createSubnet_yields.bind ?_
  rintro _ _ _ ⟨h₂, subnet, rfl⟩
  refine quiet_checkpoint.bind_yields fun _ _ h₃ => addSubnetValidators_quiet.bind_yields fun _ _ h₄ =>
    quiet_checkpoint.bind_yields fun _ _ h₅ => createBlockchain_yields.bind ?_
  rintro _ _ _ ⟨h₆, request, id, hcreated, rfl⟩
  refine (quiet_checkpoint.bind fun _ => awaitBootstrap_quiet).mono ?_
  rintro _ _ _ ⟨rfl, h₇⟩
  refine ⟨?_, subnet, request, id, by simp [hcreated], rfl⟩
  simp only [balanceReplies_append, h₁, h₂, h₃, h₄, h₅, h₆, h₇, List.nil_append]

/-- What provisioning leaves: the funded wallet with the expected addresses, the extra addresses, the pool of
the wallets that were made, and all balances as they were told last. -/
structure Gathered (p : Provisioner) (replies : List Reply) (s : Provisioned) : Prop where
  genesis : ∃ w, s.genesis = some w ∧
    (∀ chain, w.knownAddress chain = some (p.settings.fixture.expected.get chain)) ∧
    (w :: s.wallets).flatMap (p.accountReplies <| .ofWallet ·) <:+ balanceReplies replies
  xExtras : p.Extras .x p.view.nodes replies s.xSecondary
  pExtras : p.Extras .p p.view.nodes replies s.pSecondary
  pool : ∃ fresh, fresh.length = p.settings.provision.walletCount.toNat ∧
    List.Forall₂ Wallet.Becomes fresh s.wallets ∧
    ⟨.newWallets p.settings.provision.walletCount.toNat p.settings.provision.nameLength.toNat, fresh⟩ ::
      s.wallets.flatMap (p.keyReplies <| .ofWallet ·) <:+: replies

theorem Extras.mono {chain : Chain} {nodes : List NodeSpec} {since replies : List Reply} {table : Table}
    (h : p.Extras chain nodes since table) (hsince : since.Sublist replies) :
    p.Extras chain nodes replies table where
  keys := h.keys
  ordered := h.ordered
  made node hnode := by
    obtain ⟨a, listed, hfind, hmem, hmade⟩ := h.made node hnode
    exact ⟨a, listed, hfind, hmem, hmade.trans hsince⟩

theorem balanceReplies_accountReplies (ws : List Wallet) :
    balanceReplies (ws.flatMap (p.accountReplies <| .ofWallet ·)) =
      ws.flatMap (p.accountReplies <| .ofWallet ·) := by
  refine List.filter_eq_self.2 fun r hr => ?_
  obtain ⟨_, _, hr⟩ := List.mem_flatMap.1 hr
  obtain ⟨chain, _, rfl⟩ := List.mem_map.1 hr
  rfl

theorem funding_yields (hnodes : (p.view.nodes.map NodeSpec.name).Nodup) :
    Yields (fun since _ t => p.Gathered since t ∧ t.blockchainId = none) {} p.funding := by
  refine quiet_checkpoint.bind_yields fun c₁ _ _ => createUsers_quiet.bind_yields fun users _ _ =>
    quiet_checkpoint.bind_yields fun c₂ _ _ => fundFromGenesis_yields.bind ?_
  rintro fund _ _ ⟨w, rfl, hw⟩
  refine quiet_checkpoint.bind_yields fun c₃ _ _ =>
    (createSecondaryAddresses_yields hnodes rfl rfl).bind ?_
  rintro extras _ s ⟨hs, hx, hp⟩
  refine quiet_checkpoint.bind_yields fun c₄ _ _ => createWallets_yields.bind ?_
  rintro pool _ _ ⟨fresh, ws, hlength, hbecome, hpool, rfl⟩
  refine quiet_checkpoint.bind_yields fun c₅ _ _ => transferToWallet_quiet.bind_yields fun sent _ _ =>
    quiet_checkpoint.bind_yields fun c₆ _ _ => exportImport_quiet.bind_yields fun moved _ _ =>
      refreshBalances_yields.mono ?_
  rintro told _ _ ⟨genesis, u, us, hgenesis, hu, hread, htold, rfl⟩
  have hfunded : s.genesis = some w ∧ s.blockchainId = none := by rw [hs]; exact ⟨rfl, rfl⟩
  obtain rfl : w = genesis := Option.some.inj (hfunded.1.symm.trans hgenesis)
  generalize hall : c₁ ++ (users ++ (c₂ ++ (fund ++ (c₃ ++ (extras ++ (c₄ ++ (pool ++ (c₅ ++ (sent ++
    (c₆ ++ (moved ++ told))))))))))) = all
  have hextras : extras <:+: all :=
    ⟨c₁ ++ users ++ c₂ ++ fund ++ c₃, c₄ ++ pool ++ c₅ ++ sent ++ c₆ ++ moved ++ told, by simp [← hall]⟩
  have hmade : pool <:+: all :=
    ⟨c₁ ++ users ++ c₂ ++ fund ++ c₃ ++ extras ++ c₄, c₅ ++ sent ++ c₆ ++ moved ++ told, by simp [← hall]⟩
  have hbalances : balanceReplies told = told := by rw [htold, balanceReplies_accountReplies]
  have hlast : told <:+ balanceReplies all :=
    ⟨balanceReplies (c₁ ++ users ++ c₂ ++ fund ++ c₃ ++ extras ++ c₄ ++ pool ++ c₅ ++ sent ++ c₆ ++ moved),
      by simp [← hall, balanceReplies_append, hbalances]⟩
  refine ⟨⟨⟨u, rfl, fun chain => hu.known chain _ (hw chain), htold ▸ hlast⟩, hx.mono hextras.sublist,
    hp.mono hextras.sublist, fresh, hlength, ?_, ?_⟩, hfunded.2⟩
  · exact forall₂_trans (fun _ _ _ h h' => h.trans h'.1) hbecome hread
  · rw [flatMap_eq_of_forall₂ (fun _ _ h => keyReplies_eq h.1 h.2) hread]
    exact hpool.isInfix.trans hmade

/-- What comes after without asking for balances leaves what was gathered. -/
theorem Gathered.append {since more : List Reply} {s t : Provisioned} (h : p.Gathered since s)
    (hmore : balanceReplies more = []) (hgenesis : t.genesis = s.genesis) (hwallets : t.wallets = s.wallets)
    (hx : t.xSecondary = s.xSecondary) (hp : t.pSecondary = s.pSecondary) :
    p.Gathered (since ++ more) t := by
  have hsame : balanceReplies (since ++ more) = balanceReplies since := by
    rw [balanceReplies_append, hmore, List.append_nil]
  refine ⟨?_, ?_, ?_, ?_⟩
  · rw [hgenesis, hwallets, hsame]
    exact h.genesis
  · rw [hx]
    exact h.xExtras.mono (List.sublist_append_left _ _)
  · rw [hp]
    exact h.pExtras.mono (List.sublist_append_left _ _)
  · obtain ⟨fresh, hlength, hbecome, hpool⟩ := h.pool
    rw [hwallets]
    exact ⟨fresh, hlength, hbecome, hpool.trans (List.prefix_append _ _).isInfix⟩

/-- A blockchain is known in the end just if one was to be created: the one that was. -/
theorem all_yields (hnodes : (p.view.nodes.map NodeSpec.name).Nodup) :
    Yields (fun since _ t => p.Gathered since t ∧
      if p.settings.subnet.enabled then ∃ request id, p.createdReply request id ∈ since ∧
        t.blockchainId = some id
      else t.blockchainId = none) {} p.all := by
  refine (funding_yields hnodes).bind ?_
  rintro since _ s ⟨hs, hnone⟩
  by_cases henabled : p.settings.subnet.enabled = true
  · simp only [if_pos henabled]
    refine subnetwork_yields.mono ?_
    rintro more _ _ ⟨hmore, subnet, request, id, hcreated, rfl⟩
    exact ⟨hs.append hmore rfl rfl rfl rfl, request, id, List.mem_append_right _ hcreated, rfl⟩
  · simp only [if_neg henabled]
    refine yields_pure ⟨?_, hnone⟩
    rwa [List.append_nil]

end Provisioner

end LocalFleet
