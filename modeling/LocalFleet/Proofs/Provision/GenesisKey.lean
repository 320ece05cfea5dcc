import LocalFleet.Proofs.Ledger.Spelling
import LocalFleet.Proofs.Provision.Imports
import LocalFleet.Proofs.Settings.Validity

/-! When the funded key of the settings is found not to be a key. The settings are accepted with every text
that begins as a key does; whether it is one is seen when the fleet runs and every node has its user. -/

namespace LocalFleet

/-- Of the texts that begin as a key does, those that are none have a wrong character, a wrong checksum or
not the length of a key. -/
theorem SecretKey.ofEncoded_error_cases {body : String} {cause : EncodingError}
    (h : SecretKey.ofEncoded (head ++ body) = .error cause) :
    (∃ e, cause = .base58 e) ∨ cause = .checksum ∨ ∃ n, cause = .tooShort n := by
  have hbody : Text.dropHead? head.toList (head ++ body).toList = some body.toList :=
    Text.dropHead?_eq_some_iff.2 String.toList_append
  rw [ofEncoded, Cb58.decodeAfter, hbody, bind_eq_error] at h
  rcases h with h | ⟨raw, -, h⟩
  · simp only [Cb58.decodeChars, unguard] at h
    split at h
    · exact .inl ⟨_, (Except.error.inj h).symm⟩
    · split_ifs at h
      · exact .inr (.inr ⟨_, (Except.error.inj h).symm⟩)
      · exact .inr (.inl (Except.error.inj h).symm)
  · split at h
    · cases h
    · exact .inr (.inr ⟨_, (Except.error.inj h).symm⟩)

theorem FixtureSettings.validate_of_genesisKey {s : FixtureSettings} (h : s.validate = .ok ()) (text : String) :
    { s with genesisKey := text }.validate = .ok () ↔ ∃ body, text = SecretKey.head ++ body := by
  have haccepted := s.judges.passes.1 h
  rw [(judges _).passes]
  exact ⟨Accepted.key, fun hkey => ⟨haccepted.username, haccepted.password, hkey, haccepted.expected⟩⟩

namespace Provisioner

open Stage

variable (p : Provisioner)

def userReplies : List Reply :=
  p.view.nodes.map fun node => ⟨.call "create keystore user" node (.createUser p.user), .ok ()⟩

theorem createUsers_reaches (s : Provisioned) : (p.createUsers s).Reaches p.userReplies (.done (.ok (), s)) := by
  unfold createUsers userReplies
  generalize p.view.nodes = nodes
  induction nodes with
  | nil => exact .here _
  | cons node nodes ih => exact reaches_call_bind ih

/-- Without a key that can be read the users are made, and that is all. -/
theorem all_of_unreadable {cause : EncodingError}
    (h : SecretKey.ofEncoded p.settings.fixture.genesisKey = .error cause) : p.all = (do
      Stage.checkpoint "create keystore users"
      p.createUsers
      Stage.checkpoint "fund from genesis key"
      throw (.encoding cause)) := by
  have hfund : p.fundFromGenesis = throw (.encoding cause) := by
    rw [fundFromGenesis, h]
    rfl
  -- What was to come after the failure falls away.
  have hthrow : ∀ {α β : Type} (f : α → Provisioning β),
      (throw (.encoding cause) >>= f : Provisioning β) = throw (.encoding cause) := fun _ => rfl
  simp only [all, funding, hfund, bind_assoc, hthrow]

variable {p}

theorem fundFromGenesis_asks_first {key : SecretKey}
    (h : SecretKey.ofEncoded p.settings.fixture.genesisKey = .ok key) (s : Provisioned) :
    ∃ next, p.fundFromGenesis s =
      .ask (.call "import genesis key" p.first (.importKey .x p.user p.settings.fixture.genesisKey)) next := by
  obtain ⟨node, nodes, hnodes⟩ := List.exists_cons_of_ne_nil p.view.nonempty
  have hfirst : p.first = node := by simp [first, ClusterView.first, hnodes]
  have hkey := SecretKey.ofEncoded_eq_ok_iff.1 h
  rw [fundFromGenesis, h, importGenesis, hnodes, hkey, hfirst]
  exact ⟨_, rfl⟩

/-- Settings are accepted with every text for the funded key that begins as a key does. Funding fails to read
the text just if it is not what is written for a key, and then neither for want of that beginning nor before
every node has its user. -/
theorem genesisKey_read_last (p : Provisioner) (hvalid : p.settings.fixture.validate = .ok ()) :
    (∀ text, { p.settings.fixture with genesisKey := text }.validate = .ok () ↔
      ∃ body, text = SecretKey.head ++ body) ∧
    (∀ s, (∃ cause, p.fundFromGenesis s = .done (.error (.encoding cause), s)) ↔
      ∀ key : SecretKey, p.settings.fixture.genesisKey ≠ key.encoded) ∧
    ∀ cause, SecretKey.ofEncoded p.settings.fixture.genesisKey = .error cause →
      ((∃ e, cause = .base58 e) ∨ cause = .checksum ∨ ∃ n, cause = .tooShort n) ∧
      ∀ s, (p.all s).Reaches
        (⟨.checkpoint "create keystore users", .ok ()⟩ :: p.userReplies ++
          [⟨.checkpoint "fund from genesis key", .ok ()⟩])
        (.done (.error (.encoding cause), s)) := by
  refine ⟨FixtureSettings.validate_of_genesisKey hvalid, fun s => ⟨?_, fun hno => ?_⟩,
    fun cause hcause => ⟨?_, fun s => ?_⟩⟩
  · rintro ⟨cause, hfund⟩ key hkey
    obtain ⟨next, hask⟩ := fundFromGenesis_asks_first (SecretKey.ofEncoded_eq_ok_iff.2 hkey) s
    rw [hask] at hfund
    cases hfund
  · cases hread : SecretKey.ofEncoded p.settings.fixture.genesisKey with
    | ok key => exact absurd (SecretKey.ofEncoded_eq_ok_iff.1 hread) (hno key)
    | error cause =>
      rw [fundFromGenesis, hread]
      exact ⟨cause, rfl⟩
  · obtain ⟨body, hbody⟩ := (p.settings.fixture.judges.passes.1 hvalid).key
    rw [hbody] at hcause
    exact SecretKey.ofEncoded_error_cases hcause
  · rw [p.all_of_unreadable hcause, List.cons_append]
    refine .answered ?_
    exact reaches_bind_ok (p.createUsers_reaches s) (.answered (.here _))

/-- A text that is nothing but the beginning of a key. -/
theorem genesisKey_read_last_specimen :
    let p := pair SecretKey.head
    p.settings.fixture.validate = .ok () ∧
      (p.all {}).Reaches
        (⟨.checkpoint "create keystore users", .ok ()⟩ :: p.userReplies ++
          [⟨.checkpoint "fund from genesis key", .ok ()⟩])
        (.done (.error (.encoding (.tooShort 0)), {})) := by
  intro p
  have hvalid : p.settings.fixture.validate = .ok () := by decide +kernel
  refine ⟨hvalid, ?_⟩
  exact ((genesisKey_read_last p hvalid).2.2 (.tooShort 0) (by decide +kernel)).2 {}

end Provisioner

end LocalFleet
