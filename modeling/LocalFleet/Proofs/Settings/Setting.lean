import LocalFleet.Cli.Command
import LocalFleet.Proofs.Settings.Layer

/-! The settings one by one: where each is found in a layer, how its value is read and written there, and
which option of a run sets it. Reading settings from a layer reads each of them from its own value. -/

namespace LocalFleet.Settings

inductive Kind where
  | word
  | port
  | text
  | optional
  deriving DecidableEq, Repr

namespace Kind

abbrev Value : Kind → Type
  | word => UInt64
  | port => UInt16
  | text => String
  | optional => Option String

def read : (kind : Kind) → Item → Option kind.Value
  | word => fun v => v.word?.map UInt64.ofNat
  | port => fun v => (v.word?.filter (· < 0x10000)).map UInt16.ofNat
  | text => Item.text?
  | optional => fun
    | .absent => some none
    | v => v.text?.map some

def write : (kind : Kind) → kind.Value → Item
  | word, v => ofWord v
  | port, v => .int v.toNat
  | text, v => .text v
  | optional, v => ofOptional v

theorem read_write (kind : Kind) (v : kind.Value) : kind.read (kind.write v) = some v := by
  cases kind with
  | word =>
    have hlt := v.toNat_lt
    have hrange : (0 : Int) ≤ v.toNat ∧ (v.toNat : Int) < 0x10000000000000000 := by omega
    simp [read, write, ofWord, Item.word?, hrange]
  | port =>
    have hlt := v.toNat_lt
    have hrange : (0 : Int) ≤ v.toNat ∧ (v.toNat : Int) < 0x10000000000000000 := by omega
    simp [read, write, Item.word?, hrange, hlt]
  | text => rfl
  | optional => cases v <;> rfl

end Kind

end Settings

open Settings

structure Setting where
  sec : String
  name : String
  kind : Kind
  value : Settings → kind.Value
  flag : Cli.RunFlags → Option kind.Value := fun _ => none

namespace Setting

def cluster : List Setting :=
  [{ sec := "cluster", name := "node_count", kind := .word, value := (·.cluster.nodeCount),
     flag := (·.nodes) },
   { sec := "cluster", name := "avalanchego_path", kind := .text, value := (·.cluster.binary),
     flag := (·.binary) },
   { sec := "cluster", name := "log_dir", kind := .optional, value := (·.cluster.logDir),
     flag := fun flags => flags.logDir.map some },
   { sec := "cluster", name := "http_port_base", kind := .port, value := (·.cluster.portBase) },
   { sec := "cluster", name := "network_id", kind := .text, value := (·.cluster.networkId) },
   { sec := "cluster", name := "node_log_level", kind := .text, value := (·.cluster.logLevel) },
   { sec := "cluster", name := "rpc_timeout_ms", kind := .word, value := (·.cluster.rpcTimeoutMs) }]

def poll : List Setting :=
  [{ sec := "poll", name := "check_interval_ms", kind := .word, value := (·.poll.checkIntervalMs) },
   { sec := "poll", name := "tx_confirm_timeout_ms", kind := .word, value := (·.poll.confirmTimeoutMs) },
   { sec := "poll", name := "health_timeout_ms", kind := .word, value := (·.poll.healthTimeoutMs) }]

def fixture : List Setting :=
  [{ sec := "fixture", name := "username", kind := .text, value := (·.fixture.username) },
   { sec := "fixture", name := "password", kind := .text, value := (·.fixture.password) },
   { sec := "fixture", name := "genesis_private_key", kind := .text, value := (·.fixture.genesisKey) },
   { sec := "fixture", name := "expected_x_address", kind := .text, value := (·.fixture.expected.x) },
   { sec := "fixture", name := "expected_p_address", kind := .text, value := (·.fixture.expected.p) },
   { sec := "fixture", name := "expected_c_address", kind := .text, value := (·.fixture.expected.c) },
   { sec := "fixture", name := "expected_subnet_id", kind := .optional, value := (·.fixture.subnetId) }]

def provision : List Setting :=
  [{ sec := "provision", name := "wallet_count", kind := .word, value := (·.provision.walletCount) },
   { sec := "provision", name := "wallet_name_len", kind := .word, value := (·.provision.nameLength) },
   { sec := "provision", name := "transfer_amount", kind := .word,
     value := (·.provision.transferAmount) },
   { sec := "provision", name := "export_amount", kind := .word, value := (·.provision.exportAmount) },
   { sec := "provision", name := "tx_fee", kind := .word, value := (·.provision.fee) }]

def subnet : List Setting :=
  [{ sec := "subnet", name := "vm_name", kind := .text, value := (·.subnet.vmName),
     flag := (·.vmName) },
   { sec := "subnet", name := "vm_id", kind := .text, value := (·.subnet.vmId), flag := (·.vmId) },
   { sec := "subnet", name := "genesis_path", kind := .optional, value := (·.subnet.genesisPath),
     flag := fun flags => flags.genesisPath.map some },
   { sec := "subnet", name := "validator_weight", kind := .word, value := (·.subnet.weight) },
   { sec := "subnet", name := "validator_start_delay_secs", kind := .word,
     value := (·.subnet.startDelay) },
   { sec := "subnet", name := "validator_duration_secs", kind := .word, value := (·.subnet.duration) }]

def output : List Setting :=
  [{ sec := "output", name := "path", kind := .optional, value := (·.output.path),
     flag := fun flags => flags.outputPath.map some }]

def all : List Setting := cluster ++ poll ++ fixture ++ provision ++ subnet ++ output

/-- A value that a setting takes, or its default. -/
def taken (σ : Setting) : Option Item → Option σ.kind.Value := take σ.kind.read (σ.value {})

theorem isSetting {σ : Setting} (h : σ ∈ all) : IsSetting σ.sec σ.name := by
  have hnames : all.all (fun σ => ((namesOf σ.sec).getD []).contains σ.name) = true := by decide
  have hname := List.all_eq_true.mp hnames σ h
  cases hsec : namesOf σ.sec with
  | none => simp [hsec] at hname
  | some names => exact ⟨names, hsec, by simpa [hsec] using hname⟩

/-- Settings of a section are read from their own values, each under its name. -/
structure AreRead {γ : Type} (sec : String) (σs : List Setting) (part : Settings → γ)
    (ofItem? : Item → Option γ) : Prop where
  named : ∀ σ ∈ σs, σ.sec = sec
  depends : ∀ s s', part s = part s' → ∀ σ ∈ σs, σ.value s = σ.value s'
  reads : ∀ ms s, ofItem? (.table ms) = some (part s) →
    ∀ σ ∈ σs, σ.taken (Members.find? ms σ.name) = some (σ.value s)
  readable : ∀ ms, (∀ σ ∈ σs, ∃ v, σ.taken (Members.find? ms σ.name) = some v) →
    ∃ p, ofItem? (.table ms) = some p

/-- A value for each of some settings. -/
def Values : List Setting → Type
  | [] => Unit
  | σ :: σs => σ.kind.Value × Values σs

def values (s : Settings) : (σs : List Setting) → Values σs
  | [] => ()
  | σ :: σs => (σ.value s, values s σs)

/-- Reads some settings one after another, and makes something of their values. -/
def gather {γ : Type} (ms : Members) : (σs : List Setting) → (Values σs → γ) → Option γ
  | [], make => some (make ())
  | σ :: σs, make => do
    let v ← σ.taken (Members.find? ms σ.name)
    gather ms σs fun vs => make (v, vs)

section

variable {γ : Type} {ms : Members} {σs : List Setting} {s s' : Settings}

theorem value_eq_of_values (h : values s σs = values s' σs) : ∀ σ ∈ σs, σ.value s = σ.value s' := by
  induction σs with
  | nil => simp
  | cons σ σs ih =>
    obtain ⟨hvalue, hvalues⟩ := Prod.mk.inj h
    exact List.forall_mem_cons.2 ⟨hvalue, ih hvalues⟩

theorem exists_of_gather {make : Values σs → γ} {c : γ} (h : gather ms σs make = some c) :
    ∃ vs, make vs = c ∧ ∀ s, vs = values s σs →
      ∀ σ ∈ σs, σ.taken (Members.find? ms σ.name) = some (σ.value s) := by
  induction σs with
  | nil => exact ⟨(), Option.some.inj h, by simp⟩
  | cons σ σs ih =>
    simp only [gather, Option.bind_eq_bind, Option.bind_eq_some_iff] at h
    obtain ⟨v, hv, h⟩ := h
    obtain ⟨vs, hmake, hread⟩ := ih h
    refine ⟨(v, vs), hmake, fun s hvalues => ?_⟩
    obtain ⟨rfl, hrest⟩ := Prod.mk.inj hvalues
    exact List.forall_mem_cons.2 ⟨hv, hread s hrest⟩

theorem exists_gather (h : ∀ σ ∈ σs, ∃ v, σ.taken (Members.find? ms σ.name) = some v)
    (make : Values σs → γ) : ∃ c, gather ms σs make = some c := by
  induction σs with
  | nil => exact ⟨_, rfl⟩
  | cons σ σs ih =>
    obtain ⟨⟨v, hv⟩, hrest⟩ := List.forall_mem_cons.1 h
    obtain ⟨c, hc⟩ := ih hrest fun vs => make (v, vs)
    refine ⟨c, ?_⟩
    rw [gather, hv]
    exact hc

/-- A section whose settings are read one after another, and which is made of nothing but their values. -/
theorem AreRead.of_gather {sec : String} {part : Settings → γ} {ofItem? : Item → Option γ}
    (make : Values σs → γ) (split : γ → Values σs) (hnamed : ∀ σ ∈ σs, σ.sec = sec)
    (hread : ∀ ms, ofItem? (.table ms) = gather ms σs make) (hsplit : ∀ vs, split (make vs) = vs)
    (hvalues : ∀ s, values s σs = split (part s)) : AreRead sec σs part ofItem? where
  named := hnamed
  depends s s' h := value_eq_of_values (by rw [hvalues, hvalues, h])
  reads ms s h := by
    rw [hread] at h
    obtain ⟨vs, hmake, htaken⟩ := exists_of_gather h
    refine htaken s ?_
    rw [hvalues, ← hmake, hsplit]
  readable ms h := by
    rw [hread]
    exact exists_gather h make

end

theorem cluster_areRead : AreRead "cluster" cluster (·.cluster) ClusterSettings.ofItem? :=
  .of_gather (fun ⟨count, binary, logs, base, network, level, timeout, _⟩ =>
      ⟨count, binary, logs, base, network, level, timeout⟩)
    (fun c => (c.nodeCount, c.binary, c.logDir, c.portBase, c.networkId, c.logLevel,
      c.rpcTimeoutMs, ()))
    (by simp [cluster]) (fun _ => rfl) (fun _ => rfl) fun _ => rfl

theorem poll_areRead : AreRead "poll" poll (·.poll) PollSettings.ofItem? :=
  .of_gather (fun ⟨interval, confirm, health, _⟩ => ⟨interval, confirm, health⟩)
    (fun p => (p.checkIntervalMs, p.confirmTimeoutMs, p.healthTimeoutMs, ()))
    (by simp [poll]) (fun _ => rfl) (fun _ => rfl) fun _ => rfl

theorem fixture_areRead : AreRead "fixture" fixture (·.fixture) FixtureSettings.ofItem? :=
  .of_gather (fun ⟨username, password, key, x, p, c, subnet, _⟩ =>
      ⟨username, password, key, ⟨x, p, c⟩, subnet⟩)
    (fun f => (f.username, f.password, f.genesisKey, f.expected.x, f.expected.p, f.expected.c,
      f.subnetId, ()))
    (by simp [fixture]) (fun _ => rfl) (fun _ => rfl) fun _ => rfl

theorem provision_areRead : AreRead "provision" provision (·.provision) ProvisionSettings.ofItem? :=
  .of_gather (fun ⟨count, length, transfer, moved, fee, _⟩ => ⟨count, length, transfer, moved, fee⟩)
    (fun p => (p.walletCount, p.nameLength, p.transferAmount, p.exportAmount, p.fee, ()))
    (by simp [provision]) (fun _ => rfl) (fun _ => rfl) fun _ => rfl

theorem subnet_areRead : AreRead "subnet" subnet (·.subnet) SubnetSettings.ofItem? :=
  .of_gather (fun ⟨name, id, genesis, weight, delay, duration, _⟩ =>
      ⟨name, id, genesis, weight, delay, duration⟩)
    (fun n => (n.vmName, n.vmId, n.genesisPath, n.weight, n.startDelay, n.duration, ()))
    (by simp [subnet]) (fun _ => rfl) (fun _ => rfl) fun _ => rfl

theorem output_areRead : AreRead "output" output (·.output) OutputSettings.ofItem? :=
  .of_gather (fun ⟨path, _⟩ => ⟨path⟩) (fun o => (o.path, ())) (by simp [output])
    (fun _ => rfl) (fun _ => rfl) fun _ => rfl

variable {s : Settings} {layer : Item}

/-- A section that a layer leaves out is as by default; of another one each setting is read on its
own. -/
theorem AreRead.taken_of_take {γ : Type} {sec : String} {σs : List Setting} {part : Settings → γ}
    {ofItem? : Item → Option γ} (hread : AreRead sec σs part ofItem?) {ms : Members}
    (h : take ofItem? (part {}) (ms.find? sec) = some (part s)) (hlayer : (Item.table ms).Sectioned)
    (hsec : (namesOf sec).isSome) :
    ∀ σ ∈ σs, σ.taken ((Item.table ms).valueOf? σ.sec σ.name) = some (σ.value s) := by
  intro σ hσ
  rw [Item.valueOf?_table, hread.named σ hσ]
  cases hv : ms.find? sec with
  | none =>
    rw [hv] at h
    exact congrArg some (hread.depends _ _ (Option.some.inj h) σ hσ)
  | some v =>
    obtain ⟨ms', rfl⟩ := hlayer.sections sec hsec v hv
    rw [hv] at h
    exact hread.reads ms' s h σ hσ

theorem taken_of_ofItem? (hlayer : layer.Sectioned) (h : Settings.ofItem? layer = some s)
    {σ : Setting} (hσ : σ ∈ all) : σ.taken (layer.valueOf? σ.sec σ.name) = some (σ.value s) := by
  obtain ⟨ms, rfl⟩ := hlayer.isTable
  simp only [Settings.ofItem?, given, sections, List.map_cons, List.map_nil, Option.bind_eq_bind,
    Option.bind_some, Option.bind_eq_some_iff, Option.pure_def, Option.some.injEq] at h
  obtain ⟨_, h1, _, h2, _, h3, _, h4, _, h5, _, h6, rfl⟩ := h
  revert σ
  simp only [all, List.forall_mem_append]
  exact ⟨⟨⟨⟨⟨cluster_areRead.taken_of_take h1 hlayer rfl, poll_areRead.taken_of_take h2 hlayer rfl⟩,
    fixture_areRead.taken_of_take h3 hlayer rfl⟩, provision_areRead.taken_of_take h4 hlayer rfl⟩,
    subnet_areRead.taken_of_take h5 hlayer rfl⟩, output_areRead.taken_of_take h6 hlayer rfl⟩

theorem AreRead.exists_take {γ : Type} {sec : String} {σs : List Setting} {part : Settings → γ}
    {ofItem? : Item → Option γ} (hread : AreRead sec σs part ofItem?) {ms : Members}
    (hlayer : (Item.table ms).Sectioned) (hsec : (namesOf sec).isSome)
    (h : ∀ σ ∈ σs, ∃ v, σ.taken ((Item.table ms).valueOf? σ.sec σ.name) = some v) :
    ∃ p, take ofItem? (part {}) (ms.find? sec) = some p := by
  cases hv : ms.find? sec with
  | none => exact ⟨_, rfl⟩
  | some v =>
    obtain ⟨ms', rfl⟩ := hlayer.sections sec hsec v hv
    refine hread.readable ms' fun σ hσ => ?_
    have hσv := h σ hσ
    rwa [Item.valueOf?_table, hread.named σ hσ, hv] at hσv

theorem exists_ofItem? (hlayer : layer.Sectioned)
    (h : ∀ σ ∈ all, ∃ v, σ.taken (layer.valueOf? σ.sec σ.name) = some v) :
    ∃ s, Settings.ofItem? layer = some s := by
  obtain ⟨ms, rfl⟩ := hlayer.isTable
  simp only [all, List.forall_mem_append] at h
  obtain ⟨⟨⟨⟨⟨h1, h2⟩, h3⟩, h4⟩, h5⟩, h6⟩ := h
  obtain ⟨_, h1⟩ := cluster_areRead.exists_take hlayer rfl h1
  obtain ⟨_, h2⟩ := poll_areRead.exists_take hlayer rfl h2
  obtain ⟨_, h3⟩ := fixture_areRead.exists_take hlayer rfl h3
  obtain ⟨_, h4⟩ := provision_areRead.exists_take hlayer rfl h4
  obtain ⟨_, h5⟩ := subnet_areRead.exists_take hlayer rfl h5
  obtain ⟨_, h6⟩ := output_areRead.exists_take hlayer rfl h6
  simp only [Settings.ofItem?, given, sections, List.map_cons, List.map_nil, Option.bind_eq_bind,
    Option.bind_some, Option.bind_eq_some_iff, Option.pure_def]
  exact ⟨_, _, h1, _, h2, _, h3, _, h4, _, h5, _, h6, rfl⟩

theorem valueOf?_toItem (s : Settings) {σ : Setting} (hσ : σ ∈ all) :
    s.toItem.valueOf? σ.sec σ.name = some (σ.kind.write (σ.value s)) := by
  have hall : all.Forall fun σ => s.toItem.valueOf? σ.sec σ.name = some (σ.kind.write (σ.value s)) := by
    repeat' constructor
  exact List.forall_iff_forall_mem.mp hall σ hσ

theorem sectioned_toItem (s : Settings) : s.toItem.Sectioned := by
  refine ⟨⟨_, rfl⟩, fun sec _ v hv => ?_⟩
  simp only [Settings.toItem, Item.members, sections, List.zip_cons_cons, List.zip_nil_left,
    Members.find?_cons] at hv
  repeat' split at hv
  all_goals first
    | exact ⟨_, (Option.some.inj hv).symm⟩
    | contradiction

theorem value_apply (flags : Cli.RunFlags) (s : Settings) {σ : Setting} (hσ : σ ∈ all) :
    σ.value (flags.apply s) = (σ.flag flags).getD (σ.value s) := by
  have hall : all.Forall fun σ => σ.value (flags.apply s) = (σ.flag flags).getD (σ.value s) := by
    have hor (v v' : Option String) : v.or v' = (v.map some).getD v' := by cases v <;> rfl
    simp only [all, cluster, poll, fixture, provision, subnet, output, List.cons_append, List.nil_append,
      List.Forall, Cli.RunFlags.apply, hor, Option.getD_none, and_self]
  exact List.forall_iff_forall_mem.mp hall σ hσ

theorem eq_of_values {s s' : Settings} (h : ∀ σ ∈ all, σ.value s = σ.value s') : s = s' := by
  have hall := List.forall_iff_forall_mem.mpr h
  simp only [all, cluster, poll, fixture, provision, subnet, output, List.cons_append, List.nil_append,
      List.Forall] at hall
  rcases s with ⟨⟨⟩, ⟨⟩, ⟨_, _, _, ⟨⟩, _⟩, ⟨⟩, ⟨⟩, ⟨⟩⟩
  rcases s' with ⟨⟨⟩, ⟨⟩, ⟨_, _, _, ⟨⟩, _⟩, ⟨⟩, ⟨⟩, ⟨⟩⟩
  simp_all

end Setting

end LocalFleet
