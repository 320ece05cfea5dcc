import LocalFleet.Cli.Machine
import LocalFleet.Proofs.Result
import LocalFleet.Proofs.Text.Decimal

/-! The settings that are accepted, by what they have to be in exact integers. A check is a row of demands,
and what becomes of it is put together from what becomes of each. A number can leave its range in one place
only, where the ports of a fleet are counted. -/

namespace LocalFleet

/-- What becomes of a check: it is passed just if `accepts` holds, a number leaves its range in it just if
`overflows` does, and otherwise it refuses the settings for a reason. -/
structure Judges (check : Checked Unit) (accepts overflows : Prop) : Prop where
  passes : check = .ok () ↔ accepts
  halts : check = .error .overflow ↔ overflows
  refuses : ¬ accepts → ¬ overflows → ∃ reason, check = .error (.failed (.invalidSettings reason))

section

variable {α : Type} {x y : Checked Unit} {A A' B O O' : Prop}

theorem Judges.congr (h : Judges x A O) (hA : A' ↔ A) (hO : O' ↔ O) : Judges x A' O' := by
  rwa [propext hA, propext hO]

theorem judges_pass : Judges (pure ()) True False := ⟨by simp, by simp [pure, Except.pure], by simp⟩

theorem judges_overflow : Judges (throw .overflow) False True :=
  ⟨by simp, by simp [throw, throwThe, MonadExceptOf.throw], by simp⟩

theorem judges_demand (condition : Bool) (reason : String) :
    Judges (demand condition reason) (condition = true) False := by
  cases condition with
  | true => exact ⟨by simp, by simp [demand], by simp⟩
  | false => exact ⟨by simp, by simp [demand], fun _ _ => ⟨reason, rfl⟩⟩

/-- One check after another: the second is made only if the first is passed. -/
theorem Judges.bind (hx : Judges x A O) (hy : A → Judges y B O') :
    Judges (x >>= fun _ => y) (A ∧ B) (O ∨ A ∧ O') := by
  -- What the second check would do counts only if the first is passed.
  by_cases hA : A
  · have hpass : x = .ok () := hx.passes.2 hA
    have hO : ¬ O := fun hO => by simp [hx.halts.2 hO] at hpass
    rw [hpass]
    exact (hy hA).congr (by simp [hA]) (by simp [hA, hO])
  · by_cases hO : O
    · rw [hx.halts.2 hO]
      exact judges_overflow.congr (by simp [hA]) (by simp [hO])
    · obtain ⟨reason, hreason⟩ := hx.refuses hA hO
      rw [hreason]
      exact (judges_demand false reason).congr (by simp [hA]) (by simp [hA, hO])

theorem Judges.and (hx : Judges x A False) (hy : Judges y B False) : Judges (x >>= fun _ => y) (A ∧ B) False :=
  (hx.bind fun _ => hy).congr Iff.rfl (by simp)

theorem judges_forIn {xs : List α} {body : α → Checked Unit} {P : α → Prop}
    (h : ∀ a, Judges (body a) (P a) False) :
    Judges (do for a in xs do body a) (∀ a ∈ xs, P a) False := by
  induction xs with
  | nil => exact judges_pass.congr (by simp) Iff.rfl
  | cons a xs ih =>
    rw [List.forIn_cons]
    simp only [bind_assoc, pure_bind]
    exact ((h a).and ih).congr (by simp) Iff.rfl

theorem judges_checked {r : Result α} (h : ∀ e, r = .error e → ∃ reason, e = .invalidSettings reason) :
    Judges (r.checked >>= fun _ => pure ()) (∃ a, r = .ok a) False := by
  cases r with
  | ok a => exact judges_pass.congr (by simp) Iff.rfl
  | error e =>
    obtain ⟨reason, rfl⟩ := h e rfl
    exact (judges_demand false reason).congr (by simp) Iff.rfl

end

structure ClusterSettings.Accepted (s : ClusterSettings) : Prop where
  nodes : s.nodeCount ≠ 0
  first : 1 ≤ s.portBase.toNat
  room : s.portBase.toNat + 2 * s.nodeCount.toNat ≤ 65535
  binary : s.binary ≠ ""
  timeout : s.rpcTimeoutMs ≠ 0
  network : ∃ networkId, s.networkNumber = .ok networkId

structure PollSettings.Accepted (s : PollSettings) : Prop where
  interval : s.checkIntervalMs ≠ 0
  confirmation : s.checkIntervalMs.toNat ≤ s.confirmTimeoutMs.toNat
  health : s.healthTimeoutMs ≠ 0

/-- What the user and the funded key have to be like. Of the key only the beginning of its text counts. -/
structure FixtureSettings.Accepted (s : FixtureSettings) : Prop where
  username : s.username ≠ ""
  password : s.password ≠ ""
  key : ∃ body, s.genesisKey = SecretKey.head ++ body
  expected : ∀ chain, s.expected.get chain ≠ ""

structure ProvisionSettings.Accepted (s : ProvisionSettings) : Prop where
  wallets : s.walletCount ≠ 0
  names : s.nameLength ≠ 0
  transfer : s.transferAmount ≠ 0
  amounts : s.exportAmount.toNat + s.fee.toNat < s.transferAmount.toNat

structure SubnetSettings.Accepted (s : SubnetSettings) : Prop where
  vmName : s.enabled = true → s.vmName ≠ ""
  weight : s.enabled = true → s.weight ≠ 0
  duration : s.enabled = true → s.duration ≠ 0

structure OutputSettings.Accepted (s : OutputSettings) : Prop where
  path : ∀ path, s.path = some path → OutputSettings.namesSomething path = true

structure Settings.Accepted (s : Settings) : Prop where
  cluster : s.cluster.Accepted
  poll : s.poll.Accepted
  fixture : s.fixture.Accepted
  provision : s.provision.Accepted
  subnet : s.subnet.Accepted
  output : s.output.Accepted

namespace ClusterSettings

variable (s : ClusterSettings)

theorem invalidSettings_of_networkNumber {e : Error} (h : s.networkNumber = .error e) :
    ∃ reason, e = .invalidSettings reason := by
  unfold networkNumber at h
  split_ifs at h
  split at h
  · cases h
  · exact ⟨_, (Except.error.inj h).symm⟩

theorem exists_networkNumber_iff : (∃ networkId, s.networkNumber = .ok networkId) ↔
    s.networkId ∈ ["local", "mainnet", "fuji"] ∨ ∃ n < 2 ^ 32, Decimal.Writes s.networkId n := by
  simp only [List.mem_cons, List.not_mem_nil, or_false]
  unfold networkNumber
  split_ifs with hlocal hmain hfuji
  · simp [hlocal]
  · simp [hmain]
  · simp [hfuji]
  · split
    · rename_i n hn
      obtain ⟨hwrites, hlt⟩ := Decimal.word?_eq_some_iff.1 hn
      exact iff_of_true ⟨_, rfl⟩ (.inr ⟨n, hlt, hwrites⟩)
    · rename_i hnone
      refine iff_of_false nofun ?_
      rintro (hname | ⟨n, hlt, hwrites⟩)
      · simp_all
      · exact absurd hlt (Nat.not_lt.2 (Decimal.word?_eq_none_iff.1 hnone n hwrites))

theorem judges : Judges s.validate s.Accepted (2 ^ 64 ≤ s.portBase.toNat + 2 * s.nodeCount.toNat) := by
  have hbase := s.portBase.toNat_lt
  have hnodes : s.nodeCount ≠ 0 ↔ s.nodeCount.toNat ≠ 0 := by rw [ne_eq, ← UInt64.toNat_inj]; rfl
  have hfirst : s.portBase ≠ 0 ↔ 1 ≤ s.portBase.toNat := by
    rw [ne_eq, ← UInt16.toNat_inj, UInt16.toNat_zero]
    omega
  unfold validate portEnd?
  -- If the sum is not a word, nothing that comes after it is checked.
  by_cases hfit : s.portBase.toNat + s.nodeCount.toNat * 2 < 0x10000000000000000
  · rw [if_pos hfit]
    refine ((judges_demand _ _).and ((judges_demand _ _).and ((judges_demand _ _).and ((judges_demand _ _).and
      (judges_checked fun _ => s.invalidSettings_of_networkNumber))))).congr ?_ (iff_false_intro (by omega))
    simp only [Bool.and_eq_true, decide_eq_true_eq, hfirst]
    constructor
    · rintro ⟨hn, hb, hr, hbin, ht, hid⟩
      exact ⟨hn, ⟨hb, by omega⟩, hbin, ht, hid⟩
    · rintro ⟨hn, ⟨hb, hr⟩, hbin, ht, hid⟩
      exact ⟨hn, hb, by omega, hbin, ht, hid⟩
  · rw [if_neg hfit]
    refine ((judges_demand _ _).bind fun _ => judges_overflow).congr ?_ ?_
    · exact ⟨fun h => absurd h.room (by omega), fun h => h.2.elim⟩
    · simp only [decide_eq_true_eq, hnodes, and_true, false_or]
      omega

end ClusterSettings

theorem PollSettings.judges (s : PollSettings) : Judges s.validate s.Accepted False := by
  unfold validate
  refine ((judges_demand _ _).and ((judges_demand _ _).and (judges_demand _ _))).congr ?_ Iff.rfl
  simp only [decide_eq_true_eq, UInt64.le_iff_toNat_le]
  exact ⟨fun ⟨hi, hc, hh⟩ => ⟨hi, hc, hh⟩, fun ⟨hi, hc, hh⟩ => ⟨hi, hc, hh⟩⟩

theorem startsWith_iff {head text : String} :
    Text.startsWith head.toList text.toList = true ↔ ∃ body, text = head ++ body := by
  simp only [Text.startsWith, Option.isSome_iff_exists, Text.dropHead?_eq_some_iff]
  constructor
  · rintro ⟨rest, h⟩
    exact ⟨String.ofList rest, String.toList_injective (by simp [h])⟩
  · rintro ⟨body, rfl⟩
    exact ⟨body.toList, String.toList_append⟩

theorem FixtureSettings.judges (s : FixtureSettings) : Judges s.validate s.Accepted False := by
  unfold validate
  refine ((judges_demand _ _).and ((judges_demand _ _).and (judges_forIn fun chain =>
    judges_demand _ _))).congr ?_ Iff.rfl
  simp only [Bool.and_eq_true, decide_eq_true_eq, startsWith_iff]
  constructor
  · rintro ⟨hu, hp, hk, he⟩
    exact ⟨⟨hu, hp⟩, hk, fun chain _ => he chain⟩
  · rintro ⟨⟨hu, hp⟩, hk, he⟩
    exact ⟨hu, hp, hk, fun chain => he chain (by cases chain <;> decide)⟩

theorem ProvisionSettings.judges (s : ProvisionSettings) : Judges s.validate s.Accepted False := by
  have htransfer := s.transferAmount.toNat_lt
  unfold validate
  refine ((judges_demand _ _).and ((judges_demand _ _).and ((judges_demand _ _).and
    (judges_demand _ _)))).congr ?_ Iff.rfl
  simp only [decide_eq_true_eq, UInt64.lt_iff_toNat_lt, Amount.toNat_addCapped]
  constructor
  · rintro ⟨hw, hn, ht, ha⟩
    exact ⟨hw, hn, ht, by omega⟩
  · rintro ⟨hw, hn, ht, ha⟩
    exact ⟨hw, hn, ht, by omega⟩

theorem SubnetSettings.judges (s : SubnetSettings) : Judges s.validate s.Accepted False := by
  unfold validate
  by_cases henabled : s.enabled = true
  · rw [if_pos henabled]
    refine ((judges_demand _ _).and ((judges_demand _ _).and (judges_demand _ _))).congr ?_ Iff.rfl
    simp only [decide_eq_true_eq]
    exact ⟨fun ⟨hn, hw, hd⟩ => ⟨hn henabled, hw henabled, hd henabled⟩,
      fun ⟨hn, hw, hd⟩ => ⟨fun _ => hn, fun _ => hw, fun _ => hd⟩⟩
  · rw [if_neg henabled]
    exact judges_pass.congr (iff_true_intro ⟨fun h => absurd h henabled, fun h => absurd h henabled,
      fun h => absurd h henabled⟩) Iff.rfl

theorem OutputSettings.judges (s : OutputSettings) : Judges s.validate s.Accepted False := by
  unfold validate
  cases hpath : s.path with
  | none => exact judges_pass.congr (iff_true_intro ⟨by simp [hpath]⟩) Iff.rfl
  | some path =>
    refine (judges_demand _ _).congr ⟨fun h => h.path path hpath, fun h => ⟨?_⟩⟩ Iff.rfl
    rintro _ hsome
    rwa [← Option.some.inj (hpath.symm.trans hsome)]

namespace Settings

variable (s : Settings)

theorem judges : Judges s.validate s.Accepted
    (2 ^ 64 ≤ s.cluster.portBase.toNat + 2 * s.cluster.nodeCount.toNat) := by
  unfold validate
  refine (s.cluster.judges.bind fun _ => s.poll.judges.and (s.fixture.judges.and (s.provision.judges.and
    (s.subnet.judges.and s.output.judges)))).congr ?_ (by simp)
  constructor
  · rintro ⟨hc, hp, hf, hv, hs, ho⟩
    exact ⟨hc, hp, hf, hv, hs, ho⟩
  · rintro ⟨hc, hp, hf, hv, hs, ho⟩
    exact ⟨hc, hp, hf, hv, hs, ho⟩

end Settings

theorem ClusterSettings.accepted_of_validate {s : ClusterSettings} (h : s.validate = .ok ()) : s.Accepted :=
  s.judges.passes.1 h

theorem Settings.cluster_validate {s : Settings} (h : s.validate = .ok ()) :
    s.cluster.validate = .ok () :=
  s.cluster.judges.passes.2 (s.judges.passes.1 h).cluster

theorem Settings.provision_validate {s : Settings} (h : s.validate = .ok ()) :
    s.provision.validate = .ok () :=
  s.provision.judges.passes.2 (s.judges.passes.1 h).provision

/-- Settings that are checked come back as they are if every section has what it has to have. The check
itself fails if the ports of the fleet cannot be counted in sixty-four bits, and refuses all other
settings. -/
theorem Cli.Machine.validated_iff (s : Settings) :
    (∀ t, validated (.ok s) = .ok t ↔ t = s ∧ s.Accepted) ∧
    (validated (.ok s) = .error .overflow ↔
      2 ^ 64 ≤ s.cluster.portBase.toNat + 2 * s.cluster.nodeCount.toNat) ∧
    ((∃ reason, validated (.ok s) = .error (.failed (.invalidSettings reason))) ↔
      ¬ s.Accepted ∧ s.cluster.portBase.toNat + 2 * s.cluster.nodeCount.toNat < 2 ^ 64) ∧
    ((∃ networkId, s.cluster.networkNumber = .ok networkId) ↔
      s.cluster.networkId ∈ ["local", "mainnet", "fuji"] ∨
        ∃ n < 2 ^ 32, Decimal.Writes s.cluster.networkId n) := by
  have hcheck : validated (.ok s) = s.validate >>= fun _ => pure s := rfl
  have hjudges := s.judges
  refine ⟨fun t => ?_, ?_, ?_, s.cluster.exists_networkNumber_iff⟩
  · rw [hcheck, bind_eq_ok]
    simp only [pure_eq_ok, hjudges.passes]
    constructor
    · rintro ⟨-, haccepted, rfl⟩
      exact ⟨rfl, haccepted⟩
    · rintro ⟨rfl, haccepted⟩
      exact ⟨(), haccepted, rfl⟩
  · rw [hcheck, bind_eq_error, ← hjudges.halts]
    simp [pure, Except.pure]
  · simp only [hcheck, bind_eq_error]
    constructor
    · rintro ⟨reason, hreason | ⟨_, _, hreason⟩⟩
      · refine ⟨fun haccepted => ?_, Nat.not_le.1 fun hover => ?_⟩
        · rw [hjudges.passes.2 haccepted] at hreason
          cases hreason
        · rw [hjudges.halts.2 hover] at hreason
          cases hreason
      · cases hreason
    · rintro ⟨haccepted, hlt⟩
      obtain ⟨reason, hreason⟩ := hjudges.refuses haccepted (Nat.not_le.2 hlt)
      exact ⟨reason, .inl hreason⟩

/-- With `2 ^ 63` nodes the ports cannot be counted. -/
theorem Cli.Machine.validated_iff_specimen :
    validated (.ok { cluster := { nodeCount := 0x8000000000000000 } }) = .error .overflow :=
  (validated_iff _).2.1.2 (by decide)

end LocalFleet
