import LocalFleet.Proofs.Leaves
import LocalFleet.Proofs.Ledger.Spelling
import LocalFleet.Proofs.Provision.Wallets
import LocalFleet.Proofs.Trial

/-! Keys are given to every node for every chain. The answers decide alone whether provisioning gets past
that: for the funded key each has to be the expected address, and for a wallet of the pool the address that
the first node answered. The first answer that is not ends it, and nothing is kept then. -/

namespace LocalFleet

open Plan Stage

structure Import where
  node : NodeSpec
  index : Nat
  chain : Chain

/-- The key of a wallet given to a node. Wallets go by their places in the pool. -/
structure WalletImport extends Import where
  name : String
  key : SecretKey
  wallet : Nat

namespace Provisioner

variable (p : Provisioner)

def imports : List Import :=
  p.view.nodes.zipIdx.flatMap fun node => Chain.all.map fun chain => ⟨node.1, node.2, chain⟩

def walletImports (drawn : (String × SecretKey) × Nat) : List WalletImport :=
  p.imports.map fun i => ⟨i, drawn.1.1, drawn.1.2, drawn.2⟩

def poolImports (drawn : List (String × SecretKey)) : List WalletImport :=
  drawn.zipIdx.flatMap p.walletImports

/-- Every answer has to be the expected address of its chain. -/
def genesisTrial (key : SecretKey) (answer : Nat → Chain → Result String) : Trial Import where
  told i := ⟨.call "import genesis key" i.node (.importKey i.chain p.user key.encoded),
    answer i.index i.chain⟩
  Good i := answer i.index i.chain = .ok (p.settings.fixture.expected.get i.chain)
  Fault i e := answer i.index i.chain = .error e ∨ ∃ got, answer i.index i.chain = .ok got ∧
    e = .fixture (.genesisAddress i.chain i.node.name got (p.settings.fixture.expected.get i.chain))

/-- Every answer has to be that of the first node. -/
def poolTrial (answer : Nat → Nat → Chain → Result String) : Trial WalletImport where
  told i := ⟨.call "import wallet key" i.node (.importKey i.chain p.user i.key.encoded),
    answer i.wallet i.index i.chain⟩
  Good i := ∃ a, answer i.wallet 0 i.chain = .ok a ∧ answer i.wallet i.index i.chain = .ok a
  Fault i e := answer i.wallet i.index i.chain = .error e ∨ ∃ got first,
    answer i.wallet i.index i.chain = .ok got ∧ answer i.wallet 0 i.chain = .ok first ∧
    e = .fixture (.walletAddress i.name i.chain i.node.name got first)

variable {p} {P : Nat → Chain → Prop} {key : SecretKey} {s : Provisioned}

theorem forall_imports :
    (∀ i ∈ p.imports, P i.index i.chain) ↔ ∀ i < p.view.nodes.length, ∀ chain, P i chain := by
  simp only [imports, List.forall_mem_flatMap, List.forall_mem_map]
  constructor
  · intro h i hi chain
    have hnode : (p.view.nodes[i], i) ∈ p.view.nodes.zipIdx := List.mem_zipIdx_iff_getElem?.2 (by simp [hi])
    exact h _ hnode chain (by cases chain <;> decide)
  · intro h node hnode chain _
    obtain ⟨hi, -⟩ := List.getElem?_eq_some_iff.1 (List.mem_zipIdx_iff_getElem?.1 hnode)
    exact h node.2 hi chain

/-! ### The funded key -/

variable {answer : Nat → Chain → Result String}

theorem importGenesis_tries :
    Tries (p.genesisTrial key answer) p.imports (Wallet.Knows Chain.all)
      (p.importGenesis (Wallet.new genesisName key)) := by
  rw [importGenesis, forM_zipIdx _ _ 0]
  refine (tries_forM (fun seen w => w.key = key ∧ (seen ≠ [] → w.Knows Chain.all))
    (fun _ node _ w _ hw => ?_) ⟨rfl, nofun⟩).mono fun w hw => hw.2 (by simp [p.view.nonempty])
  rw [List.map_eq_flatMap]
  refine (tries_forM (fun seen w => w.key = key ∧ w.Knows seen) (fun seen chain _ w _ hw => ?_)
    ⟨hw.1, by simp [Wallet.Knows]⟩).mono fun w hw => ⟨hw.1, fun _ => hw.2⟩
  obtain ⟨rfl, hknows⟩ := hw
  refine tries_get_bind (tries_call (c := .importKey chain p.user w.key.encoded) rfl (fun hgood => ?_)
    (fun hbad got hgot => ?_) fun e he => .inl he)
  · refine ⟨_, w.setAddress chain (p.settings.fixture.expected.get chain), hgood, ?_, rfl,
      hknows.setAddress chain _⟩
    simp only [ne_eq, not_true_eq_false, if_false]
    rfl
  · have hne : got ≠ p.settings.fixture.expected.get chain := by
      rintro rfl
      exact hbad hgot
    refine ⟨_, w, .inr ⟨got, hgot, rfl⟩, ?_⟩
    simp only [if_pos hne]
    rfl

/-! ### The keys of the pool -/

/-- A new wallet that has noted what the first node answered on the chains that it was asked for. -/
structure Noted (draw : String × SecretKey) (first : Chain → Result String) (asked : Chain → Prop)
    (w : Wallet) : Prop where
  name : w.name = draw.1
  key : w.key = draw.2
  known : ∀ chain, asked chain → ∃ a, first chain = .ok a ∧ w.knownAddress chain = some a
  unknown : ∀ chain, ¬ asked chain → w.knownAddress chain = none

variable {draw : String × SecretKey} {first : Chain → Result String} {asked asked' : Chain → Prop}
  {w : Wallet}

theorem noted_new (hnone : ∀ chain, ¬ asked chain) : Noted draw first asked (Wallet.new draw.1 draw.2) where
  name := rfl
  key := rfl
  known chain h := absurd h (hnone chain)
  unknown chain _ := by cases chain <;> rfl

theorem Noted.congr (h : Noted draw first asked w) (hasked : ∀ chain, asked' chain ↔ asked chain) :
    Noted draw first asked' w where
  name := h.name
  key := h.key
  known chain hchain := h.known chain ((hasked chain).1 hchain)
  unknown chain hchain := h.unknown chain ((hasked chain).not.1 hchain)

theorem Noted.setAddress (h : Noted draw first asked w) {chain : Chain} {a : String}
    (hfirst : first chain = .ok a) (hasked : ∀ other, asked' other ↔ other = chain ∨ asked other) :
    Noted draw first asked' (w.setAddress chain a) where
  name := h.name
  key := h.key
  known other hother := by
    rw [Wallet.knownAddress_setAddress]
    by_cases hsame : other = chain
    · rw [if_pos hsame, hsame]
      exact ⟨a, hfirst, rfl⟩
    · rw [if_neg hsame]
      exact h.known other (((hasked other).1 hother).resolve_left hsame)
  unknown other hother := by
    rw [hasked, not_or] at hother
    rw [Wallet.knownAddress_setAddress, if_neg hother.1]
    exact h.unknown other hother.2

theorem Noted.knows (h : Noted draw first asked w) (hall : ∀ chain, asked chain) : w.Knows Chain.all := by
  intro chain _
  obtain ⟨a, -, ha⟩ := h.known chain (hall chain)
  rw [ha]
  exact Option.some_ne_none a

variable {answers : Nat → Nat → Chain → Result String}

theorem importKey_tries {k i : Nat} {node : NodeSpec} {chain : Chain} {seen : List Chain}
    (hnew : chain ∉ seen) (hw : Noted draw (answers k 0) (fun other => 0 < i ∨ other ∈ seen) w) :
    Tries (p.poolTrial answers) [⟨⟨node, i, chain⟩, draw.1, draw.2, k⟩]
      (Noted draw (answers k 0) fun other => 0 < i ∨ other ∈ seen ++ [chain]) (p.importKey node chain w) := by
  refine tries_get_bind (tries_call (c := .importKey chain p.user w.key.encoded) (by rw [hw.key]; rfl)
    (fun hgood => ?_) (fun hbad got hgot => ?_) fun e he => .inl he)
  -- on the first node nothing is known of a chain yet, on any other node its answer is
  · obtain ⟨a, hfirst, ha⟩ := hgood
    rcases Nat.eq_zero_or_pos i with rfl | hi
    · have hnone : w.knownAddress chain = none := hw.unknown chain (by simpa using hnew)
      refine ⟨a, w.setAddress chain a, ha, ?_, hw.setAddress hfirst fun other => by simp [or_comm]⟩
      simp only [hnone]
      rfl
    · obtain ⟨b, hb, hknown⟩ := hw.known chain (.inl hi)
      obtain rfl : a = b := Except.ok.inj (hfirst.symm.trans hb)
      refine ⟨a, w, ha, ?_, hw.congr fun other => by simp [hi]⟩
      simp only [hknown, ne_eq, not_true_eq_false, if_false]
      rfl
  · rcases Nat.eq_zero_or_pos i with rfl | hi
    · exact absurd ⟨got, hgot, hgot⟩ hbad
    · obtain ⟨b, hb, hknown⟩ := hw.known chain (.inl hi)
      have hne : b ≠ got := by
        rintro rfl
        exact hbad ⟨b, hb, hgot⟩
      refine ⟨_, w, .inr ⟨got, b, hgot, hb, rfl⟩, ?_⟩
      simp only [hknown, if_pos hne, hw.name]
      rfl

theorem index_eq_length {nodes : List NodeSpec} {seen rest : List (NodeSpec × Nat)} {node : NodeSpec × Nat}
    (h : nodes.zipIdx = seen ++ node :: rest) : node.2 = seen.length := by
  have hat : nodes.zipIdx[seen.length]? = some node := by simp [h]
  rw [List.getElem?_zipIdx] at hat
  obtain ⟨x, -, rfl⟩ := Option.map_eq_some_iff.1 hat
  exact Nat.zero_add _

theorem importWallet_tries (drawn : (String × SecretKey) × Nat) :
    Tries (p.poolTrial answers) (p.walletImports drawn) (Wallet.Knows Chain.all)
      (p.importWallet (Wallet.new drawn.1.1 drawn.1.2)) := by
  obtain ⟨draw, k⟩ := drawn
  rw [walletImports, imports, List.map_flatMap, importWallet, forM_zipIdx _ _ 0]
  refine (tries_forM (fun seen w => Noted draw (answers k 0) (fun _ => 0 < seen.length) w)
    (fun seen node _ w hnodes hw => ?_) (noted_new (by simp))).mono fun w hw => hw.knows fun _ => ?_
  · obtain ⟨node, i⟩ := node
    obtain rfl : i = seen.length := index_eq_length hnodes
    rw [List.map_map, List.map_eq_flatMap]
    refine (tries_forM
      (fun chains w => Noted draw (answers k 0) (fun other => 0 < seen.length ∨ other ∈ chains) w)
      (fun chains chain _ w hchains hw => ?_) (hw.congr (by simp))).mono fun w hw => hw.congr fun other => ?_
    · have hnodup : (chains ++ chain :: _).Nodup := hchains ▸ (by decide : Chain.all.Nodup)
      have hnew : chain ∉ chains := fun hmem =>
        (List.nodup_append.1 hnodup).2.2 chain hmem chain List.mem_cons_self rfl
      exact importKey_tries hnew hw
    · have hmem : other ∈ Chain.all := by cases other <;> decide
      simp [hmem]
  · rw [List.length_zipIdx]
    exact List.length_pos_iff.2 p.view.nonempty

theorem forall_poolImports {drawn : List (String × SecretKey)} :
    (∀ i ∈ p.poolImports drawn, (p.poolTrial answers).Good i) ↔
      ∀ k < drawn.length, ∀ chain, ∃ a, ∀ i < p.view.nodes.length, answers k i chain = .ok a := by
  have hnodes : 0 < p.view.nodes.length := List.length_pos_iff.2 p.view.nonempty
  have hwallet (k : Nat) : (∀ i ∈ p.imports, ∃ a, answers k 0 i.chain = .ok a ∧
      answers k i.index i.chain = .ok a) ↔
      ∀ chain, ∃ a, ∀ i < p.view.nodes.length, answers k i chain = .ok a := by
    rw [forall_imports (P := fun i chain => ∃ a, answers k 0 chain = .ok a ∧ answers k i chain = .ok a)]
    constructor
    · intro h chain
      obtain ⟨a, hfirst, -⟩ := h 0 hnodes chain
      refine ⟨a, fun i hi => ?_⟩
      obtain ⟨b, hb, hanswer⟩ := h i hi chain
      rwa [Except.ok.inj (hfirst.symm.trans hb)]
    · intro h i hi chain
      obtain ⟨a, ha⟩ := h chain
      exact ⟨a, ha 0 hnodes, ha i hi⟩
  simp only [poolImports, walletImports, List.forall_mem_flatMap, List.forall_mem_map]
  constructor
  · intro h k hk
    exact (hwallet k).1 (h (drawn[k], k) (List.mem_zipIdx_iff_getElem?.2 (by simp [hk])))
  · intro h draw hdraw
    obtain ⟨hk, -⟩ := List.getElem?_eq_some_iff.1 (List.mem_zipIdx_iff_getElem?.1 hdraw)
    exact (hwallet draw.2).2 (h draw.2 hk)

/-! ### What comes after the imports -/

theorem confirmAddresses_asking (h : w.Knows Chain.all) : (p.confirmAddresses w).Asking := by
  obtain ⟨node, nodes, hnodes⟩ := List.exists_cons_of_ne_nil p.view.nonempty
  obtain ⟨a, ha⟩ := Option.ne_none_iff_exists'.1 (h.all .x)
  have haddress : w.address .x = .ok a := by rw [Wallet.address, ha]
  have hfirst : ((Stage.lift (w.address .x) >>= fun a => p.confirmAddress node .x a) w).Asking := by
    rw [haddress]
    exact ⟨_, _, rfl⟩
  rw [confirmAddresses, hnodes]
  exact (hfirst.bind _).bind _

theorem fundFromGenesis_decides (hkey : SecretKey.ofEncoded p.settings.fixture.genesisKey = .ok key) :
    Decides (p.genesisTrial key answer) p.imports [] s (p.fundFromGenesis s)
      (∀ i < p.view.nodes.length, ∀ chain, answer i chain = .ok (p.settings.fixture.expected.get chain)) := by
  let rest (r : Result Unit × Wallet) : Plan (Result Unit × Provisioned) :=
    (match r.1 with
      | .ok _ => (p.confirmAddresses >>= fun _ => p.readBalances) r.2
      | .error e => .done (.error e, r.2)).bind fun r =>
      (Stage.lift r.1 >>= fun _ => modify fun s : Provisioned => { s with genesis := some r.2 }) s
  have hwhole : p.fundFromGenesis s = (p.importGenesis (Wallet.new genesisName key)).bind rest := by
    rw [fundFromGenesis, hkey]
    refine (ofPlan_bind _ _ s).trans ?_
    rw [bind_apply, bind_assoc]
    congr 1
    funext ⟨r, w⟩
    cases r <;> rfl
  rw [hwhole]
  refine importGenesis_tries.decides (.here _) (fun w hw => ?_) (fun _ _ => rfl)
    (forall_imports (P := fun i chain => answer i chain = .ok (p.settings.fixture.expected.get chain)))
  exact (((confirmAddresses_asking hw).bind _).bind _).not_failed

theorem createWallets_decides (drawn : List (String × SecretKey)) :
    let provision := p.settings.provision
    let fresh := drawn.map fun draw => Wallet.new draw.1 draw.2
    Decides (p.poolTrial answers) (p.poolImports drawn)
      [⟨.newWallets provision.walletCount.toNat provision.nameLength.toNat, fresh⟩] s (p.createWallets s)
      (∀ k < drawn.length, ∀ chain, ∃ a, ∀ i < p.view.nodes.length, answers k i chain = .ok a) := by
  intro provision fresh
  have hfresh : fresh = drawn.zipIdx.map fun draw => Wallet.new draw.1.1 draw.1.2 := by
    show drawn.map _ = _
    conv_lhs => rw [← List.zipIdx_map_fst 0 drawn, List.map_map]
    rfl
  have himport : Tries (p.poolTrial answers) (p.poolImports drawn) (fun ws => ∀ w ∈ ws, w.Knows Chain.all)
      (each p.importWallet fresh) := by
    rw [hfresh]
    exact tries_each fun draw _ => importWallet_tries draw
  refine himport.decides (f := ?rest) ?whole ?_ ?_ forall_poolImports
  case whole =>
    refine reaches_ask_bind (q := .newWallets _ _) ?_
    rw [ofPlan_bind]
    exact .here _
  · intro ws hws
    cases ws with
    | nil =>
      rintro ⟨e, t, h⟩
      cases h
    | cons w ws =>
      have hnext : (each p.confirmAddresses (w :: ws)).Asking :=
        (confirmAddresses_asking (hws w List.mem_cons_self)).bind _
      exact ((hnext.bind _).bind _).not_failed
  · exact fun _ _ => rfl

/-! ### What is stored -/

/-- A wallet that is put on one chain after another on every node is on all of them: there is a node. -/
theorem leaves_everywhere {body : NodeSpec → Chain → Stage Wallet Unit}
    (h : ∀ node chain seen w, Wallet.Knows seen w →
      (body node chain w).Leaves (Wallet.Knows (seen ++ [chain]))) (w : Wallet) :
    ((p.view.nodes.forM fun node => Chain.all.forM (body node)) w).Leaves (Wallet.Knows Chain.all) := by
  refine (leaves_forM (fun seen u => seen ≠ [] → u.Knows Chain.all) (fun _ node _ w _ _ => ?_)
    (by simp)).mono fun w hw => hw p.view.nonempty
  refine (leaves_forM (fun seen u => u.Knows seen) (fun seen chain _ w _ hw => h node chain seen w hw)
    (by simp [Wallet.Knows])).mono fun w hw _ => hw

theorem importGenesis_leaves (w : Wallet) : (p.importGenesis w).Leaves (Wallet.Knows Chain.all) := by
  refine leaves_everywhere (fun node chain seen w hw => ?_) w
  refine leaves_get_bind (leaves_call_bind fun (a : String) => ?_)
  by_cases ha : a = p.settings.fixture.expected.get chain
  · simp only [ne_eq, ha, not_true_eq_false, if_false]
    exact leaves_modify (hw.setAddress chain _)
  · simp only [ne_eq, if_pos ha]
    exact leaves_throw_bind

theorem importWallet_leaves (w : Wallet) : (p.importWallet w).Leaves (Wallet.Knows Chain.all) := by
  refine leaves_everywhere (fun node chain seen w hw => ?_) w
  refine leaves_get_bind (leaves_call_bind fun a => ?_)
  cases hknown : w.knownAddress chain with
  | none => exact leaves_modify (hw.setAddress chain a)
  | some known =>
    simp only
    split
    · exact leaves_throw
    · exact leaves_pure (hw.append_singleton (by simp [hknown]))

theorem confirmAddresses_leaves (hw : w.Knows Chain.all) :
    (p.confirmAddresses w).Leaves (Wallet.Knows Chain.all) :=
  leaves_forM (fun _ => Wallet.Knows Chain.all) (fun _ _ _ _ _ hw =>
    leaves_forM (fun _ => Wallet.Knows Chain.all) (fun _ _ _ _ _ hw =>
      leaves_get_bind (leaves_lift_bind fun _ _ => leaves_await_bind fun _ => leaves_pure hw)) hw) hw

theorem readBalances_leaves (hw : w.Knows Chain.all) :
    (p.readBalances w).Leaves (Wallet.Knows Chain.all) :=
  leaves_forM (fun _ => Wallet.Knows Chain.all) (fun _ _ _ _ _ hw =>
    leaves_get_bind (leaves_lift_bind fun _ _ => leaves_call_bind fun _ => leaves_modify hw)) hw

theorem fundFromGenesis_leaves (s : Provisioned) : (p.fundFromGenesis s).Leaves fun t =>
    ∃ w : Wallet, t = { s with genesis := some w } ∧ w.Knows Chain.all := by
  refine leaves_lift_bind fun key _ => leaves_ofPlan_bind (P := Wallet.Knows Chain.all) ?_ ?_
  · refine leaves_bind (importGenesis_leaves _) fun _ _ hw => ?_
    exact leaves_bind (confirmAddresses_leaves hw) fun _ _ hw => readBalances_leaves hw
  · rintro ⟨r, w⟩ hr
    exact leaves_lift_bind fun a ha => leaves_modify ⟨w, rfl, hr a ha⟩

theorem createWallets_leaves (s : Provisioned) : (p.createWallets s).Leaves fun t =>
    t = { s with wallets := t.wallets } ∧ ∀ w ∈ t.wallets, w.Knows Chain.all := by
  refine leaves_ask_bind fun fresh => ?_
  refine leaves_ofPlan_bind (leaves_each fun w _ => importWallet_leaves w) ?_
  rintro ⟨r, imported⟩ himported
  refine leaves_lift_bind fun a ha => ?_
  refine leaves_ofPlan_bind (leaves_each fun w hw => confirmAddresses_leaves (himported a ha w hw)) ?_
  rintro ⟨r, confirmed⟩ hconfirmed
  refine leaves_lift_bind fun a ha => ?_
  refine leaves_ofPlan_bind (leaves_each fun w hw => readBalances_leaves (hconfirmed a ha w hw)) ?_
  rintro ⟨r, wallets⟩ hwallets
  exact leaves_lift_bind fun a ha => leaves_modify ⟨rfl, hwallets a ha⟩

/-- Whatever the nodes answer, the funded key gets past its imports just if each of them answered with the
expected address on every chain, and the pool just if for each of its wallets and every chain all nodes
answered with one address. Otherwise the first answer that is not so ends it, after just the imports up to
it: a wrong address with an error that names it and an error as it is, and what was provisioned stays as it
was. A wallet that is stored has an address on every chain. Without a key that can be read nothing is
asked. -/
theorem imports_decide (p : Provisioner) (s : Provisioned) :
    (∀ cause, SecretKey.ofEncoded p.settings.fixture.genesisKey = .error cause →
      p.fundFromGenesis s = .done (.error (.encoding cause), s)) ∧
    (∀ key, SecretKey.ofEncoded p.settings.fixture.genesisKey = .ok key → ∀ answer,
      Decides (p.genesisTrial key answer) p.imports [] s (p.fundFromGenesis s)
        (∀ i < p.view.nodes.length, ∀ chain, answer i chain = .ok (p.settings.fixture.expected.get chain))) ∧
    (∀ since t, (p.fundFromGenesis s).Reaches since (.done (.ok (), t)) →
      ∃ w : Wallet, t = { s with genesis := some w } ∧ w.Knows Chain.all) ∧
    (∀ (drawn : List (String × SecretKey)) answer,
      let provision := p.settings.provision
      let fresh := drawn.map fun draw => Wallet.new draw.1 draw.2
      Decides (p.poolTrial answer) (p.poolImports drawn)
        [⟨.newWallets provision.walletCount.toNat provision.nameLength.toNat, fresh⟩] s (p.createWallets s)
        (∀ k < drawn.length, ∀ chain, ∃ a, ∀ i < p.view.nodes.length, answer k i chain = .ok a)) ∧
    ∀ since t, (p.createWallets s).Reaches since (.done (.ok (), t)) →
      t = { s with wallets := t.wallets } ∧ ∀ w ∈ t.wallets, w.Knows Chain.all := by
  refine ⟨fun cause hcause => ?_, fun key hkey answer => fundFromGenesis_decides hkey,
    fun since t h => (fundFromGenesis_leaves s).of_reaches h, fun drawn answer => createWallets_decides drawn,
    fun since t h => (createWallets_leaves s).of_reaches h⟩
  rw [fundFromGenesis, hcause]
  rfl

/-- A fleet of two nodes, with a text for the funded key. -/
def pair (genesisKey : String) : Provisioner where
  settings := { fixture := { genesisKey } }
  view := ⟨[⟨"node1", "NodeID-1", "http://127.0.0.1:9650"⟩, ⟨"node2", "NodeID-2", "http://127.0.0.1:9652"⟩],
    ⟨"", "", ""⟩, by decide⟩

/-- Answers with the expected addresses for every key, and one wallet of this key for the pool. -/
def agreeing (key : SecretKey) (_ : List Reply) : (q : Question) → q.Answer
  | .call _ _ (.importKey chain _ _) => .ok ((pair key.encoded).settings.fixture.expected.get chain)
  | .call _ _ (.getBalance _ _) => .ok 1
  | .await _ _ _ (.listAddresses chain _) _ =>
    .ok [(pair key.encoded).settings.fixture.expected.get chain]
  | .newWallets .. => [Wallet.new "wallet" key]
  | .clock => 0
  | .launch _ | .checkpoint _ | .awaitHealth .. | .listNodes _ | .call .. | .await .. | .publish .. =>
    .error (.fatal "")
  | .readFile _ => .ok []
  | .install | .enter _ | .announceReady | .report _ => ()

/-- The funded wallet and a pool of one wallet are made, and a text that is no key is refused. Where the
second node answers with another address on the platform chain, neither wallet is made. -/
theorem imports_decide_specimen :
    let key : SecretKey := ⟨Octets.replicate 32 1⟩
    let p := pair key.encoded
    let good : Nat → Chain → Result String := fun _ chain => .ok (p.settings.fixture.expected.get chain)
    let bad : Nat → Chain → Result String := fun i chain =>
      if i = 1 ∧ chain = .p then .ok "P-other" else good i chain
    (∃ rest, (p.fundFromGenesis {}).Reaches (p.imports.map (p.genesisTrial key good).told) rest ∧
      ¬ rest.Failed) ∧
    (∃ w : Wallet, (∃ since, (p.fundFromGenesis {}).Reaches since (.done (.ok (), { genesis := some w }))) ∧
      w.Knows Chain.all) ∧
    (∃ w : Wallet, (∃ since, (p.createWallets {}).Reaches since (.done (.ok (), { wallets := [w] }))) ∧
      w.Knows Chain.all) ∧
    (∃ asked name, asked <+: p.imports ∧
      (p.fundFromGenesis {}).Reaches (asked.map (p.genesisTrial key bad).told) (.done (.error (.fixture
        (.genesisAddress .p name "P-other" (p.settings.fixture.expected.get .p))), {}))) ∧
    (∃ asked name node, asked <+: p.poolImports [("wallet", key)] ∧
      (p.createWallets {}).Reaches (⟨.newWallets p.settings.provision.walletCount.toNat
        p.settings.provision.nameLength.toNat, [Wallet.new "wallet" key]⟩ ::
          asked.map (p.poolTrial fun _ => bad).told) (.done (.error (.fixture
        (.walletAddress name .p node "P-other" (p.settings.fixture.expected.get .p))), {}))) ∧
    (pair "").fundFromGenesis {} = .done (.error (.encoding (.missingHead SecretKey.head)), {}) := by
  intro key p good bad
  have hkey : SecretKey.ofEncoded p.settings.fixture.genesisKey = .ok key :=
    SecretKey.ofEncoded_eq_ok_iff.2 rfl
  obtain ⟨_, hgenesis, hstored, hdrawn, hpool⟩ := imports_decide p {}
  have hother (i : Nat) (chain : Chain) : bad i chain = good i chain ∨ chain = .p ∧ bad i chain = .ok "P-other" := by
    by_cases h : i = 1 ∧ chain = .p
    · exact .inr ⟨h.2, if_pos h⟩
    · exact .inl (if_neg h)
  -- only the answer of the second node on the platform chain deviates, so no other import can be faulted
  have hwrong : bad 1 .p ≠ good 1 .p := by decide
  refine ⟨(hgenesis key hkey good).past.2 fun _ _ _ => rfl, ?_, ?_, ?_, ?_, ?_⟩
  · have hplay : ∃ t, (play (agreeing key) [] (p.fundFromGenesis {})).1 = some (.ok (), t) := by
      rw [fundFromGenesis, hkey]
      exact ⟨_, rfl⟩
    obtain ⟨t, ht⟩ := hplay
    obtain ⟨since, hsince⟩ := reaches_of_play ht
    obtain ⟨w, rfl, hw⟩ := hstored since t hsince
    exact ⟨w, ⟨since, hsince⟩, hw⟩
  · have hplay : (play (agreeing key) [] (p.createWallets {})).1 = some (.ok (), { wallets := [_] }) := rfl
    obtain ⟨since, hsince⟩ := reaches_of_play hplay
    exact ⟨_, ⟨since, hsince⟩, (hpool since _ hsince).2 _ List.mem_cons_self⟩
  · have hnot : ¬ ∀ i < p.view.nodes.length, ∀ chain,
        bad i chain = .ok (p.settings.fixture.expected.get chain) := fun h => hwrong (h 1 (by decide) .p)
    obtain ⟨asked, x, e, hasked, hx, he, hreaches⟩ := (hgenesis key hkey bad).exists_asked hnot
    rcases hother x.index x.chain with h | ⟨hchain, hanswer⟩
    · exact absurd h hx
    · rcases he with he | ⟨got, hgot, rfl⟩
      · exact absurd (hanswer.symm.trans he) nofun
      · obtain rfl : "P-other" = got := Except.ok.inj (hanswer.symm.trans hgot)
        rw [hchain] at hreaches
        exact ⟨_, _, hasked, hreaches⟩
  · have hnot : ¬ ∀ k < [("wallet", key)].length, ∀ chain, ∃ a, ∀ i < p.view.nodes.length,
        bad i chain = .ok a := by
      intro h
      obtain ⟨a, ha⟩ := h 0 (by decide) .p
      exact hwrong ((ha 1 (by decide)).trans (ha 0 (by decide)).symm)
    obtain ⟨asked, x, e, hasked, hx, he, hreaches⟩ :=
      (hdrawn [("wallet", key)] fun _ => bad).exists_asked hnot
    rcases hother x.index x.chain with h | ⟨hchain, hanswer⟩
    · exact absurd ⟨_, rfl, h⟩ hx
    · rcases he with he | ⟨got, first, hgot, hfirst, rfl⟩
      · exact absurd (hanswer.symm.trans he) nofun
      · obtain rfl : "P-other" = got := Except.ok.inj (hanswer.symm.trans hgot)
        rw [hchain] at hfirst hreaches
        obtain rfl : p.settings.fixture.expected.get .p = first := Except.ok.inj hfirst
        exact ⟨_, _, _, hasked, hreaches⟩
  · exact (imports_decide (pair "") {}).1 _ (by decide +kernel)

end Provisioner

end LocalFleet
