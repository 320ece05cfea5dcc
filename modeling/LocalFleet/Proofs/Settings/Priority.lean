import LocalFleet.Cli.Machine
import LocalFleet.Proofs.Result
import LocalFleet.Proofs.Settings.Setting

/-! Where the value of a setting comes from: of all the sources that a run has, the first that says
anything of the setting decides, and what it says is read as if it were alone. -/

namespace LocalFleet

open Settings

namespace Settings

namespace Environment

/-- The path in a layer that the name of a variable means, if it is that of a setting. -/
def path? (key : String) : Option (List String) :=
  (Text.dropHead? head.toList (lower key).toList).map fun rest =>
    pathOf (lower (String.ofList (pointed rest)))

/-- The last value, but for empty ones, of a variable that is named after a setting. -/
def valueOf? (sec name : String) : Environment → Option String
  | [] => none
  | (key, value) :: env =>
    (valueOf? sec name env).or
      (if (path? key).map (·.map lower) = some [sec, name] ∧ value ≠ "" then some value else none)

theorem members_item (s : String) : (item s).members = [] := by
  unfold item
  split
  · rfl
  · split
    · rfl
    · split
      · rfl
      · split <;> rfl

theorem said_item (sec name : String) (path : List String) (s : String) :
    said sec name path (item s) = if path.map lower = [sec, name] then some (item s) else none := by
  match path with
  | [] => rfl
  | [n] =>
    rw [said, members_item, if_neg (by simp : ¬ [n].map lower = [sec, name])]
    exact ite_self _
  | [n, m] => simp [said]
  | _ :: _ :: _ :: _ => simp [said]

theorem members_cons (key value : String) (env : Environment) :
    members ((key, value) :: env) =
      match Text.dropHead? head.toList (lower key).toList with
      | none => members env
      | some rest =>
        if value = "" then members env else (String.ofList (pointed rest), item value) :: members env := by
  cases hrest : Text.dropHead? head.toList (lower key).toList with
  | none => simp [members, hrest]
  | some rest => by_cases h : value = "" <;> simp [members, hrest, h]

theorem said_members (env : Environment) (sec name : String) :
    Members.said sec name env.members = (env.valueOf? sec name).map item := by
  induction env with
  | nil => rfl
  | cons v env ih =>
    obtain ⟨key, value⟩ := v
    rw [members_cons, valueOf?, path?]
    cases Text.dropHead? head.toList (lower key).toList with
    | none => simp [ih]
    | some rest =>
      by_cases h : value = ""
      · simp [h, ih]
      · simp only [h, if_false, Members.said, ih, said_item, Option.map_some, Option.some.injEq, ne_eq,
          not_false_eq_true, and_true]
        cases valueOf? sec name env <;> split <;> rfl

end Environment

variable {env : Environment} {cwd : Files.Place} {t : Files.Tree} {s s' : Settings}

def membersAt (path : Option String) (cwd : Files.Place) (t : Files.Tree) : Members :=
  (path.bind fun path => (fileMembers cwd path t).toOption).getD []

theorem withSources_some_eq_ok_iff {path : String} :
    withSources s env (some path) cwd t = .ok s' ↔
      ∃ ms, fileMembers cwd path t = .ok ms ∧ overlaid s [ms, env.members] = some s' := by
  simp only [withSources, mapError_eq_ok, bind_eq_ok, pure_eq_ok, ↓existsAndEq, List.cons_append,
    List.nil_append]
  refine exists_congr fun ms => and_congr_right fun _ => ?_
  cases overlaid s [ms, env.members] <;> simp

theorem overlaid_of_withSources {path : Option String} (h : withSources s env path cwd t = .ok s') :
    overlaid s [membersAt path cwd t, env.members] = some s' := by
  cases path with
  | none =>
    change overlaid s [env.members] = some s'
    rw [withSources, mapError_eq_ok] at h
    cases hover : overlaid s [env.members] with
    | none => simp [hover] at h
    | some s₁ => simpa [hover] using h
  | some path =>
    obtain ⟨ms, hms, hover⟩ := withSources_some_eq_ok_iff.mp h
    rw [membersAt, Option.bind_some, hms]
    exact hover

/-- Settings with a file and the environment laid over them have what the first of the two says of a
setting. -/
theorem value_of_withSources {path : Option String} (h : withSources s env path cwd t = .ok s')
    (hfile : (membersAt path cwd t).OnlySet) (henv : env.members.OnlySet)
    {σ : Setting} (hσ : σ ∈ Setting.all) :
    take σ.kind.read (σ.value s) (((env.valueOf? σ.sec σ.name).map Environment.item).or
      ((membersAt path cwd t).valueOf? σ.sec σ.name)) = some (σ.value s') := by
  have hs := Setting.isSetting hσ
  have hover := overlaid_of_withSources h
  rw [overlaid] at hover
  split at hover
  · obtain ⟨hsec, hentry⟩ := Item.sectioned_overlay (Setting.sectioned_toItem s) hfile
    obtain ⟨hsec', hentry'⟩ := Item.sectioned_overlay hsec henv
    have htaken := Setting.taken_of_ofItem? hsec' hover hσ
    rw [hentry' _ _ hs, hentry _ _ hs, Setting.valueOf?_toItem s hσ, ← hfile.valueOf?_eq_said hs,
      Environment.said_members] at htaken
    rw [← htaken, Setting.taken, ← Option.or_assoc]
    cases ((env.valueOf? σ.sec σ.name).map Environment.item).or
      ((membersAt path cwd t).valueOf? σ.sec σ.name) with
    | none => exact (Kind.read_write σ.kind (σ.value s)).symm
    | some v => rfl
  · cases hover

theorem take_or {α : Type} {read : Item → Option α} {unset a b : α} {upper lower : Option Item}
    (hlower : take read unset lower = some a) (hupper : take read a upper = some b) :
    take read unset (upper.or lower) = some b := by
  cases upper with
  | none =>
    obtain rfl := Option.some.inj hupper
    exact hlower
  | some v => exact hupper

end Settings

namespace Setting

/-- What the first of the sources that say anything of a setting gives it: the option of the run, the
variable that is named after it, the file that the run names, the file that `CONFIG_PATH` names. If none
of them does, it is the default. -/
def chosen (σ : Setting) (flags : Cli.RunFlags) (env : Environment) (cwd : Files.Place) (t : Files.Tree) :
    Option σ.kind.Value :=
  match σ.flag flags with
  | some v => some v
  | none => σ.taken
      (((env.valueOf? σ.sec σ.name).map Environment.item).or
      (((membersAt flags.config cwd t).valueOf? σ.sec σ.name).or
      ((membersAt (env.get? "CONFIG_PATH") cwd t).valueOf? σ.sec σ.name)))

end Setting

/-- Each setting of a run has the value that the first of its sources gives it. -/
theorem Setting.chosen_of_settings {flags : Cli.RunFlags} {env : Environment} {cwd : Files.Place}
    {t : Files.Tree} {s : Settings} (h : flags.settings env cwd t = .ok s)
    (hbase : (membersAt (env.get? "CONFIG_PATH") cwd t).OnlySet)
    (hconfig : (membersAt flags.config cwd t).OnlySet) (henv : env.members.OnlySet)
    {σ : Setting} (hσ : σ ∈ Setting.all) : σ.chosen flags env cwd t = some (σ.value s) := by
  obtain ⟨s₁, s₂, hload, hover, rfl⟩ : ∃ s₁ s₂, load env cwd t = .ok s₁ ∧
      (flags.config.elim (.ok s₁) fun path => s₁.override path env cwd t) = .ok s₂ ∧
      flags.apply s₂ = s := by
    unfold Cli.RunFlags.settings at h
    cases hpath : flags.config <;> simpa [hpath, -bind_pure_comp] using h
  rw [value_apply flags s₂ hσ, chosen]
  cases σ.flag flags with
  | some v => rfl
  | none =>
    have hbelow := value_of_withSources hload hbase henv hσ
    cases hpath : flags.config with
    | none =>
      rw [hpath] at hover
      obtain rfl := Except.ok.inj hover
      exact hbelow
    | some path =>
      rw [hpath] at hover hconfig
      replace hover : withSources s₁ env (some path) cwd t = .ok s₂ := hover
      have hboth := take_or hbelow (value_of_withSources hover hconfig henv hσ)
      -- the environment was asked twice, and the second time adds nothing
      cases hvar : (env.valueOf? σ.sec σ.name).map Environment.item with
      | none =>
        rw [hvar, Option.none_or, Option.none_or] at hboth
        rw [Option.none_or]
        exact hboth
      | some v =>
        rw [hvar] at hboth
        exact hboth

/-- If the files and the variables of a run only set settings and reading them gives settings, each of
these has the value that the first of its sources gives it, and no other settings have these values. A
setting that no source mentions has its default, whatever else is set in its section. -/
theorem Cli.RunFlags.settings_follow_sources {flags : Cli.RunFlags} {env : Environment}
    {cwd : Files.Place} {t : Files.Tree} {s : Settings} (h : flags.settings env cwd t = .ok s)
    (hbase : (membersAt (env.get? "CONFIG_PATH") cwd t).OnlySet)
    (hconfig : (membersAt flags.config cwd t).OnlySet) (henv : env.members.OnlySet) :
    (∀ s', (∀ σ ∈ Setting.all, σ.chosen flags env cwd t = some (σ.value s')) ↔ s' = s) ∧
      ∀ σ ∈ Setting.all, σ.flag flags = none → env.valueOf? σ.sec σ.name = none →
        (membersAt flags.config cwd t).valueOf? σ.sec σ.name = none →
        (membersAt (env.get? "CONFIG_PATH") cwd t).valueOf? σ.sec σ.name = none →
        σ.value s = σ.value {} := by
  have hchosen : ∀ σ ∈ Setting.all, σ.chosen flags env cwd t = some (σ.value s) :=
    fun σ hσ => Setting.chosen_of_settings h hbase hconfig henv hσ
  refine ⟨fun s' => ⟨fun h' => ?_, fun hs => hs ▸ hchosen⟩, fun σ hσ hflag hvar hover hfile => ?_⟩
  · exact Setting.eq_of_values fun σ hσ => Option.some.inj ((h' σ hσ).symm.trans (hchosen σ hσ))
  · have hnone := hchosen σ hσ
    rw [Setting.chosen, hflag, hvar, hover, hfile] at hnone
    exact (Option.some.inj hnone).symm

namespace Cli.RunFlags

/-- Two files, of which the run names the second one. -/
def specimenFiles : Files.Tree :=
  ⟨[(["base.toml"], .file (Text.bytes "[cluster]\nnode_count = 7\nnetwork_id = \"fuji\"\n") 0o644),
    (["over.toml"], .file (Text.bytes "[poll]\ncheck_interval_ms = 30\n") 0o644)]⟩

/-- A variable that is set, an empty one, and the path of the first file. -/
def specimenVariables : Environment :=
  [("CONFIG_PATH", "/base.toml"), ("RUNNER__CLUSTER__NODE_COUNT", "3"), ("RUNNER__SUBNET__VM_ID", "")]

def specimenFlags : RunFlags := { vmName := some "vm", config := some "/over.toml" }

set_option maxRecDepth 100000 in
theorem fileMembers_base : fileMembers [] "/base.toml" specimenFiles =
    .ok [("cluster", .table [("node_count", .int 7), ("network_id", .text "fuji")])] := by
  cbv

set_option maxRecDepth 100000 in
theorem fileMembers_over : fileMembers [] "/over.toml" specimenFiles =
    .ok [("poll", .table [("check_interval_ms", .int 30)])] := by
  cbv

theorem members_specimenVariables : specimenVariables.members = [("cluster.node_count", .int 3)] := by
  cbv

theorem settings_specimen : specimenFlags.settings specimenVariables [] specimenFiles = .ok
    { cluster := { nodeCount := 3, networkId := "fuji" }, poll := { checkIntervalMs := 30 },
      subnet := { vmName := "vm" } } := by
  have hload : load specimenVariables [] specimenFiles =
      .ok { cluster := { nodeCount := 3, networkId := "fuji" } } :=
    withSources_some_eq_ok_iff.mpr ⟨_, fileMembers_base, by rw [members_specimenVariables]; cbv⟩
  have hoverride : override { cluster := { nodeCount := 3, networkId := "fuji" } } "/over.toml"
      specimenVariables [] specimenFiles = .ok
        { cluster := { nodeCount := 3, networkId := "fuji" }, poll := { checkIntervalMs := 30 } } :=
    withSources_some_eq_ok_iff.mpr ⟨_, fileMembers_over, by rw [members_specimenVariables]; cbv⟩
  rw [settings, hload]
  change ((override _ "/over.toml" specimenVariables [] specimenFiles).bind _) = _
  rw [hoverride]
  rfl

theorem settings_follow_sources_specimen :
    ∃ s, specimenFlags.settings specimenVariables [] specimenFiles = .ok s ∧
      s.cluster.nodeCount = 3 ∧
      ∀ σ ∈ Setting.all, σ.chosen specimenFlags specimenVariables [] specimenFiles = some (σ.value s) := by
  have hmembers {path : String} {ms : Members} (h : fileMembers [] path specimenFiles = .ok ms) :
      membersAt (some path) [] specimenFiles = ms := by rw [membersAt, Option.bind_some, h]; rfl
  have hbase : (membersAt (specimenVariables.get? "CONFIG_PATH") [] specimenFiles).OnlySet := by
    rw [show specimenVariables.get? "CONFIG_PATH" = some "/base.toml" by cbv, hmembers fileMembers_base,
      Members.onlySet_singleton, show pathOf (lower "cluster") = ["cluster"] by cbv]
    exact keepsTo_singleton (by simp [Item.IsLeaf])
  have hover : (membersAt specimenFlags.config [] specimenFiles).OnlySet := by
    rw [show specimenFlags.config = some "/over.toml" from rfl, hmembers fileMembers_over,
      Members.onlySet_singleton, show pathOf (lower "poll") = ["poll"] by cbv]
    exact keepsTo_singleton (by simp [Item.IsLeaf])
  have hvariables : specimenVariables.members.OnlySet := by
    rw [members_specimenVariables, Members.onlySet_singleton,
      show pathOf (lower "cluster.node_count") = ["cluster", "node_count"] by cbv]
    exact fun _ => ⟨rfl, nofun⟩
  have hall := ((settings_follow_sources settings_specimen hbase hover hvariables).1 _).mpr rfl
  exact ⟨_, settings_specimen, rfl, hall⟩

end Cli.RunFlags

end LocalFleet
