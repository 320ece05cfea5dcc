import LocalFleet.Ledger.SecretKey
import LocalFleet.Node.HandRun
import LocalFleet.Proofs.Result

/-! The shape of a fleet. One loop starts the nodes under supervision, another writes the script that starts
them by hand; each carries from its first node on where the fleet is found. Both come to the commands of one
blueprint, and fail for nothing but the files that they make and the program that they look for. -/

namespace LocalFleet

/-- What all commands of a fleet are made from; the files of a node and its identity are its own. -/
structure Blueprint where
  nodeCount : Nat
  binary : String
  networkId : String
  logLevel : String
  portBase : UInt16
  dbDir : Nat → String
  cert : Nat → StakingCert

namespace Blueprint

variable {a b : Blueprint} {i : Nat}

/-- Whether every port of the fleet is in range. -/
def Fits (b : Blueprint) : Prop := b.portBase.toNat + 2 * b.nodeCount ≤ 2 ^ 16

def httpPort (b : Blueprint) (i : Nat) : UInt16 := .ofNat (b.portBase.toNat + 2 * i)

def stakingPort (b : Blueprint) (i : Nat) : UInt16 := .ofNat (b.portBase.toNat + 2 * i + 1)

def meetingPoint (b : Blueprint) : Bootstrap := ⟨s!"127.0.0.1:{b.stakingPort 0}", (b.cert 0).nodeId⟩

def bootstrap (b : Blueprint) (i : Nat) : Option Bootstrap := if i = 0 then none else some b.meetingPoint

def command (b : Blueprint) (i : Nat) : NodeCommand :=
  .new (Launch.nodeName i) b.binary b.networkId b.logLevel (b.httpPort i) (b.stakingPort i) b.nodeCount
    (b.dbDir i) (b.cert i) (b.bootstrap i)

@[simp] theorem bootstrap_zero (b : Blueprint) : b.bootstrap 0 = none := rfl

@[simp] theorem bootstrap_succ (b : Blueprint) (i : Nat) : b.bootstrap (i + 1) = some b.meetingPoint := rfl

theorem bootstrap_getD (b : Blueprint) (i : Nat) :
    (b.bootstrap i).getD (Launch.meetingPoint (b.command i)) = b.meetingPoint := by
  cases i with
  | zero => rfl
  | succ i => rfl

theorem toNat_port {n : Nat} (h : n < 2 ^ 16) : (UInt16.ofNat n).toNat = n := UInt16.toNat_ofNat_of_lt' h

theorem port?_of_lt {n : Nat} (h : n < 2 ^ 16) : ClusterSettings.port? n = some (.ofNat n) := if_pos h

theorem toNat_httpPort (h : b.Fits) (hi : i < b.nodeCount) :
    (b.httpPort i).toNat = b.portBase.toNat + 2 * i := by
  rw [Fits] at h
  exact toNat_port (by omega)

theorem toNat_stakingPort (h : b.Fits) (hi : i < b.nodeCount) :
    (b.stakingPort i).toNat = b.portBase.toNat + 2 * i + 1 := by
  rw [Fits] at h
  exact toNat_port (by omega)

theorem ports?_of_lt {base : UInt16} (h : base.toNat + 2 * i + 1 < 2 ^ 16) :
    Launch.ports? base i = some (.ofNat (base.toNat + 2 * i), .ofNat (base.toNat + 2 * i + 1)) := by
  have hindex : i % 0x10000 = i := Nat.mod_eq_of_lt (by omega)
  have hoffset : (UInt16.ofNat (i * 2)).toNat = i * 2 := toNat_port (by omega)
  have hhttp : (UInt16.ofNat (base.toNat + 2 * i)).toNat = base.toNat + 2 * i := toNat_port (by omega)
  rw [Launch.ports?, hindex, port?_of_lt (by omega), Option.bind_eq_bind, Option.bind_some, hoffset,
    Nat.mul_comm, port?_of_lt (by omega), Option.bind_some, hhttp, port?_of_lt (by omega)]
  rfl

theorem ports?_eq (h : b.Fits) (hi : i < b.nodeCount) :
    Launch.ports? b.portBase i = some (b.httpPort i, b.stakingPort i) := by
  rw [Fits] at h
  exact ports?_of_lt (by omega)

end Blueprint

namespace Identity

open Files

variable {cwd : Place} {dir : String} {identity : Nat → Identity}

theorem cert_of_write {i : Identity} {keyPath certPath : String} {t t' : Tree} {cert : StakingCert}
    (h : i.write cwd keyPath certPath t = (t', .ok cert)) : cert = ⟨keyPath, certPath, i.nodeId⟩ := by
  rw [write] at h
  split at h
  · cases h
  · split at h
    · cases h
    · cases h
      rfl

def certAt (dir : String) (identity : Nat → Identity) (i : Nat) : StakingCert :=
  let path (ending : String) : String := Path.join dir s!"staker{i + 1}.{ending}"
  ⟨path "key", path "crt", (identity i).nodeId⟩

theorem certs_of_writeAllFrom {k i : Nat} {t t' : Tree} {certs : List StakingCert}
    (h : writeAllFrom cwd dir (i + 1) ((List.range' i k).map identity) t = (t', .ok certs)) :
    certs = (List.range' i k).map (certAt dir identity) := by
  induction k generalizing i t certs with
  | zero =>
    cases h
    rfl
  | succ k ih =>
    rw [List.range'_succ, List.map_cons, writeAllFrom] at h
    dsimp only at h
    split at h
    · cases h
    · rename_i t cert hcert
      split at h
      · cases h
      · rename_i t certs hrest
        cases h
        rw [cert_of_write hcert, ih hrest]
        rfl

end Identity

namespace HandRun

open Files

def blueprint (spec : Spec) (identity : Nat → Identity) : Blueprint where
  nodeCount := spec.nodeCount.toNat
  binary := spec.binary
  networkId := "local"
  logLevel := "INFO"
  portBase := portBase
  dbDir i := Path.join spec.dbDir (Launch.nodeName i)
  cert := Identity.certAt spec.certsDir identity

/-- What is done to files: directories are emptied, and the identities and a script are written. -/
def lay (spec : Spec) (cwd : Place) (identity : Nat → Identity) (script : String) (t : Tree) :
    Tree × Result Unit :=
  match reset cwd spec.dbDir t with
  | (t, .error e) => (t, .error e)
  | (t, .ok ()) =>
    match writeIdentities cwd spec.certsDir ((List.range spec.nodeCount.toNat).map identity) t with
    | (t, .error e) => (t, .error e)
    | (t, .ok _) => writeScript spec cwd script t

def printed (spec : Spec) (commands : List NodeCommand) : String :=
  s!"cat {spec.scriptPath}\n{Script.render commands}\n"

variable {spec : Spec} {identity : Nat → Identity} {cwd : Place}

theorem commandsFrom_eq (hfits : (blueprint spec identity).Fits) (k i : Nat)
    (h : i + k ≤ spec.nodeCount.toNat) :
    commandsFrom spec i ((blueprint spec identity).bootstrap i)
      ((List.range' i k).map (Identity.certAt spec.certsDir identity)) =
        some ((List.range' i k).map (blueprint spec identity).command) := by
  induction k generalizing i with
  | zero => rfl
  | succ k ih =>
    have hports : Launch.ports? portBase i = _ :=
      Blueprint.ports?_eq hfits (show i < spec.nodeCount.toNat by omega)
    rw [List.range'_succ, List.map_cons, List.map_cons, commandsFrom, hports]
    show (commandsFrom spec (i + 1) (some (((blueprint spec identity).bootstrap i).getD
      (Launch.meetingPoint ((blueprint spec identity).command i)))) _).bind _ = _
    rw [Blueprint.bootstrap_getD, ← Blueprint.bootstrap_succ _ i, ih (i + 1) (by omega)]
    rfl

theorem certs_of_writeIdentities {n : Nat} {t t' : Tree} {certs : List StakingCert}
    (h : writeIdentities cwd spec.certsDir ((List.range n).map identity) t = (t', .ok certs)) :
    certs = (List.range n).map (Identity.certAt spec.certsDir identity) := by
  rw [writeIdentities] at h
  split at h
  · cases h
  · rw [List.range_eq_range'] at h ⊢
    exact Identity.certs_of_writeAllFrom h

/-- A script is made just if the directories can be emptied and the files written, and it is that of the
commands of the blueprint. -/
theorem create_shaped (hfits : (blueprint spec identity).Fits) (t : Tree) :
    let commands := (List.range spec.nodeCount.toNat).map (blueprint spec identity).command
    (create spec cwd identity t).2.isOk = (lay spec cwd identity (Script.render commands) t).2.isOk ∧
      ∀ text, (create spec cwd identity t).2 = .ok text → text = printed spec commands := by
  intro commands
  have hcommands : commands? spec ((List.range spec.nodeCount.toNat).map
      (Identity.certAt spec.certsDir identity)) = some commands := by
    rw [commands?]
    simp only [commands, List.range_eq_range']
    exact commandsFrom_eq hfits _ 0 (by omega)
  rw [create, lay]
  rcases reset cwd spec.dbDir t with ⟨t, e | u⟩
  · exact ⟨rfl, nofun⟩
  dsimp only
  rcases hwrote : writeIdentities cwd spec.certsDir ((List.range spec.nodeCount.toNat).map identity) t
    with ⟨t, e | certs⟩
  · exact ⟨rfl, nofun⟩
  dsimp only
  rw [certs_of_writeIdentities hwrote, hcommands]
  dsimp only
  rcases writeScript spec cwd (Script.render commands) t with ⟨t, e | u⟩
  · exact ⟨rfl, nofun⟩
  · exact ⟨rfl, fun text htext => (Except.ok.inj htext).symm⟩

end HandRun

namespace Launch

open Files

def blueprint (spec : LaunchSpec) (identity : Nat → Identity) : Blueprint where
  nodeCount := spec.nodeCount.toNat
  binary := spec.binary
  networkId := spec.networkId
  logLevel := spec.logLevel
  portBase := spec.portBase
  dbDir i := Path.join (nodeDir spec i) "db"
  cert i :=
    let staking := Path.join (nodeDir spec i) "staking"
    ⟨Path.join staking "staker.key", Path.join staking "staker.crt", (identity i).nodeId⟩

/-- The command of a node under supervision: that of the blueprint with one more flag. -/
def supervisedCommand (spec : LaunchSpec) (identity : Nat → Identity) (i : Nat) : NodeCommand :=
  ((blueprint spec identity).command i).arg "config-file" (Path.join (nodeDir spec i) "config.json")

/-- What is done to files, from a node on: its own are made, and the program is looked for. -/
def stageFrom (spec : LaunchSpec) (cwd : Place) (index : Nat) :
    List Identity → Tree → Tree × Result (List Bytes)
  | [], t => (t, .ok [])
  | identity :: identities, t =>
    match prepare spec cwd index identity t with
    | (t, .error e) => (t, .error e)
    | (t, .ok _) =>
      match Program.find cwd spec.binary t with
      | .error fault => (t, .error (.cluster (.launch (nodeName index) (.system fault))))
      | .ok content =>
        match stageFrom spec cwd (index + 1) identities t with
        | (t, .error e) => (t, .error e)
        | (t, .ok rest) => (t, .ok (content :: rest))

def stage (spec : LaunchSpec) (cwd : Place) (identity : Nat → Identity) (t : Tree) :
    Tree × Result (List Bytes) :=
  stageFrom spec cwd 0 ((List.range spec.nodeCount.toNat).map identity) t

variable {spec : LaunchSpec} {identity : Nat → Identity} {cwd : Place} {program : Bytes → Lifetime}

theorem cert_of_prepare {i : Nat} {t t' : Tree} {cert : StakingCert}
    (h : prepare spec cwd i (identity i) t = (t', .ok cert)) : cert = (blueprint spec identity).cert i := by
  rw [prepare] at h
  dsimp only at h
  split at h
  · cases h
  · split at h
    · cases h
    · rename_i t cert' hwrote
      have hcert := Identity.cert_of_write hwrote
      simp only [Prod.mk.injEq, mapError_eq_ok, map_eq_ok] at h
      obtain ⟨_, _, _, rfl⟩ := h
      exact hcert

theorem command?_eq (hfits : (blueprint spec identity).Fits) {i : Nat} (h : i < spec.nodeCount.toNat) :
    command? spec i ((blueprint spec identity).cert i) ((blueprint spec identity).bootstrap i) =
      some (supervisedCommand spec identity i) := by
  have hports : ports? spec.portBase i = _ := Blueprint.ports?_eq hfits h
  rw [command?, hports]
  rfl

def supervise (spec : LaunchSpec) (identity : Nat → Identity) (program : Bytes → Lifetime) (i : Nat)
    (content : Bytes) : Supervised :=
  ⟨supervisedCommand spec identity i, program content⟩

theorem map_command_zipWith {indices : List Nat} {contents : List Bytes}
    (h : contents.length = indices.length) :
    (indices.zipWith (supervise spec identity program) contents).map Supervised.command =
      indices.map (supervisedCommand spec identity) := by
  induction indices generalizing contents with
  | nil => rfl
  | cons i indices ih =>
    cases contents with
    | nil => cases h
    | cons content contents =>
      rw [List.zipWith_cons_cons, List.map_cons, ih (Nat.succ.inj h)]
      rfl

/-- From any node on, the commands are those of the blueprint, and nothing fails but what is done to
files. -/
theorem startFrom_eq (hfits : (blueprint spec identity).Fits) (k i : Nat)
    (h : i + k ≤ spec.nodeCount.toNat) (t : Tree) :
    startFrom spec cwd program i ((blueprint spec identity).bootstrap i) ((List.range' i k).map identity) t =
      (stageFrom spec cwd i ((List.range' i k).map identity) t).map id fun staged =>
        Result.checked (staged.map ((List.range' i k).zipWith (supervise spec identity program))) := by
  induction k generalizing i t with
  | zero => rfl
  | succ k ih =>
    have hpoint : ((blueprint spec identity).bootstrap i).getD
        (meetingPoint (supervisedCommand spec identity i)) = (blueprint spec identity).meetingPoint :=
      Blueprint.bootstrap_getD _ i
    rw [List.range'_succ, List.map_cons, startFrom, stageFrom]
    rcases hprepared : prepare spec cwd i (identity i) t with ⟨t, e | cert⟩
    · rfl
    · dsimp only
      rw [cert_of_prepare hprepared, command?_eq hfits (by omega)]
      dsimp only
      rw [show (supervisedCommand spec identity i).binary = spec.binary from rfl]
      cases Program.find cwd spec.binary t with
      | error fault => rfl
      | ok content =>
        dsimp only
        rw [hpoint, ← Blueprint.bootstrap_succ _ i, ih (i + 1) (by omega)]
        rcases stageFrom spec cwd (i + 1) ((List.range' (i + 1) k).map identity) t with ⟨t, e | contents⟩ <;>
          rfl

theorem length_of_stageFrom {i : Nat} {identities : List Identity} {t t' : Tree} {contents : List Bytes}
    (h : stageFrom spec cwd i identities t = (t', .ok contents)) : contents.length = identities.length := by
  induction identities generalizing i t contents with
  | nil =>
    cases h
    rfl
  | cons identity identities ih =>
    rw [stageFrom] at h
    split at h
    · cases h
    · split at h
      · cases h
      · split at h
        · cases h
        · rename_i hrest
          cases h
          rw [List.length_cons, List.length_cons, ih hrest]

theorem start_eq (hfits : (blueprint spec identity).Fits) (t : Tree) :
    start spec cwd program identity t = (stage spec cwd identity t).map id fun staged =>
      Result.checked (staged.map
        ((List.range spec.nodeCount.toNat).zipWith (supervise spec identity program))) := by
  rw [start, stage, List.range_eq_range']
  exact startFrom_eq hfits _ 0 (by omega) t

/-- A start succeeds just if the files can be made and the program is there, and gives then every node its
command of the blueprint. -/
theorem start_shaped (hfits : (blueprint spec identity).Fits) (t : Tree) :
    (start spec cwd program identity t).2.isOk = (stage spec cwd identity t).2.isOk ∧
      ∀ nodes, (start spec cwd program identity t).2 = .ok nodes → nodes.map Supervised.command =
        (List.range spec.nodeCount.toNat).map (supervisedCommand spec identity) := by
  rw [start_eq hfits]
  rcases hstaged : stage spec cwd identity t with ⟨t, e | contents⟩
  · exact ⟨rfl, nofun⟩
  · refine ⟨rfl, fun nodes hnodes => ?_⟩
    have hlength : contents.length = (List.range spec.nodeCount.toNat).length := by
      simpa using length_of_stageFrom hstaged
    cases hnodes
    exact map_command_zipWith hlength

end Launch

/-! ### What the commands of a fleet say -/

namespace NodeCommand

variable {c : NodeCommand} {base n i : Nat} {first : String}

def value? (c : NodeCommand) (flag : String) : Option String := c.args.lookup flag

theorem value?_arg {flag value : String} (h : c.value? flag = some value) (more moreValue : String) :
    (c.arg more moreValue).value? flag = some value := by
  rw [value?] at h
  simp [value?, arg, List.lookup_append, h]

/-- The command of the `i`-th of `n` nodes with ports from `base` on, where `first` is the id of the first
node. All others are told where that is; it alone is told nothing. -/
structure Placed (base n : Nat) (first : String) (i : Nat) (c : NodeCommand) : Prop where
  httpPort : c.httpPort.toNat = base + 2 * i
  stakingPort : c.stakingPort.toNat = base + 2 * i + 1
  http : c.value? "http-port" = some (toString (base + 2 * i))
  staking : c.value? "staking-port" = some (toString (base + 2 * i + 1))
  sample : c.value? "snow-sample-size" = some (toString (max 1 (n / 2)))
  quorum : c.value? "snow-quorum-size" = some (toString (max 1 (n / 2)))
  ip : c.value? "bootstrap-ips" = some (if i = 0 then "" else s!"127.0.0.1:{base + 1}")
  id : c.value? "bootstrap-ids" = some (if i = 0 then "" else first)

theorem Placed.arg (h : c.Placed base n first i) (more moreValue : String) :
    (c.arg more moreValue).Placed base n first i where
  httpPort := h.httpPort
  stakingPort := h.stakingPort
  http := value?_arg h.http more moreValue
  staking := value?_arg h.staking more moreValue
  sample := value?_arg h.sample more moreValue
  quorum := value?_arg h.quorum more moreValue
  ip := value?_arg h.ip more moreValue
  id := value?_arg h.id more moreValue

theorem Placed.alone_iff (h : c.Placed base n first i) (hfirst : first ≠ "") :
    (c.value? "bootstrap-ips" = some "" ↔ i = 0) ∧ (c.value? "bootstrap-ids" = some "" ↔ i = 0) := by
  rw [h.ip, h.id]
  by_cases hi : i = 0 <;> simp [hi, hfirst]

/-- Flags whose values say where the files of a node lie. -/
def fileFlags : List String := ["db-dir", "staking-tls-key-file", "staking-tls-cert-file"]

/-- The same flag with the same value, unless that says where files lie. Fleets with first nodes of different
ids have different values where the id is told. -/
def SameFlag (first first' : String) (x y : String × String) : Prop :=
  x.1 = y.1 ∧ (x.1 ∉ fileFlags → x.2 = y.2 ∨ x.1 = "bootstrap-ids" ∧ first ≠ first')

end NodeCommand

namespace Blueprint

variable {a b : Blueprint} {i : Nat}

theorem command_placed (h : b.Fits) (hi : i < b.nodeCount) :
    (b.command i).Placed b.portBase.toNat b.nodeCount (b.cert 0).nodeId i where
  httpPort := toNat_httpPort h hi
  stakingPort := toNat_stakingPort h hi
  http := by
    rw [← toNat_httpPort h hi]
    rfl
  staking := by
    rw [← toNat_stakingPort h hi]
    rfl
  sample := by
    rw [Nat.max_comm]
    rfl
  quorum := by
    rw [Nat.max_comm]
    rfl
  ip := by
    have hfirst := toNat_stakingPort h (Nat.zero_lt_of_lt hi)
    rw [Nat.mul_zero, Nat.add_zero] at hfirst
    rw [← hfirst]
    cases i <;> rfl
  id := by
    cases i <;> rfl

/-- Two blueprints for as many nodes on the same ports of the same network give commands with the same
flags in the same order. -/
theorem command_alike (hcount : a.nodeCount = b.nodeCount) (hbase : a.portBase = b.portBase)
    (hnetwork : a.networkId = b.networkId) (hlevel : a.logLevel = b.logLevel) (i : Nat) :
    List.Forall₂ (NodeCommand.SameFlag (a.cert 0).nodeId (b.cert 0).nodeId) (a.command i).args
      (b.command i).args := by
  have hip : (a.bootstrap i).map Bootstrap.ip = (b.bootstrap i).map Bootstrap.ip := by
    cases i <;> simp [meetingPoint, stakingPort, hbase]
  have hid : (a.cert 0).nodeId = (b.cert 0).nodeId →
      (a.bootstrap i).map Bootstrap.nodeId = (b.bootstrap i).map Bootstrap.nodeId := by
    intro hsame
    cases i <;> simp [meetingPoint, hsame]
  by_cases hsame : (a.cert 0).nodeId = (b.cert 0).nodeId <;>
    simp [command, NodeCommand.new, NodeCommand.SameFlag, NodeCommand.fileFlags, httpPort, stakingPort,
      hcount, hbase, hnetwork, hlevel, hip, hid, hsame]

end Blueprint

theorem nodeId_ne_empty (certificate : Bytes) : nodeId certificate ≠ "" := by
  simp [nodeId, Cb58.encodeAfter]

/-- A fleet under supervision and a fleet that is run by hand have the same shape, as long as their ports are
in range. A start succeeds just if its files can be made and the program is there, and a script is made just
if it and the identities can be written; each has then a command for every node. In either fleet the ports
go up by two from node to node, half of the nodes are sampled, and exactly the first node is not told where
the fleet is found. On the same ports of the same network the commands have the same flags in the same
order, but for the configuration file that only a supervised node is given. Their values differ only in
where the files of a node lie, and in the id of the first node when two fleets have drawn different ones. -/
theorem fleets_same_shape {launch : LaunchSpec} {hand : HandRun.Spec} {supply supply' : Nat → Identity}
    (hcount : hand.nodeCount = launch.nodeCount)
    (hfits : launch.portBase.toNat + 2 * launch.nodeCount.toNat ≤ 2 ^ 16)
    (hfits' : HandRun.portBase.toNat + 2 * launch.nodeCount.toNat ≤ 2 ^ 16)
    (hid : ∃ certificate, (supply 0).nodeId = nodeId certificate)
    (hid' : ∃ certificate, (supply' 0).nodeId = nodeId certificate)
    (cwd cwd' : Files.Place) (program : Bytes → Lifetime) (t t' : Files.Tree) :
    let n := launch.nodeCount.toNat
    let started := (Launch.start launch cwd program supply t).2
    let created := (HandRun.create hand cwd' supply' t').2
    ∃ supervised byHand : Nat → NodeCommand,
      let commands := (List.range n).map byHand
      started.isOk = (Launch.stage launch cwd supply t).2.isOk ∧
      (∀ nodes, started = .ok nodes → nodes.map Supervised.command = (List.range n).map supervised) ∧
      created.isOk = (HandRun.lay hand cwd' supply' (Script.render commands) t').2.isOk ∧
      (∀ text, created = .ok text → text = HandRun.printed hand commands) ∧
      ∀ i < n, (supervised i).Placed launch.portBase.toNat n (supply 0).nodeId i ∧
        (byHand i).Placed HandRun.portBase.toNat n (supply' 0).nodeId i ∧
        (∀ c ∈ [supervised i, byHand i], (c.value? "bootstrap-ips" = some "" ↔ i = 0) ∧
          (c.value? "bootstrap-ids" = some "" ↔ i = 0)) ∧
        (launch.portBase = HandRun.portBase → launch.networkId = "local" → launch.logLevel = "INFO" →
          ∃ shared config, (supervised i).args = shared ++ [("config-file", config)] ∧
            List.Forall₂ (NodeCommand.SameFlag (supply 0).nodeId (supply' 0).nodeId) shared
              (byHand i).args) := by
  intro n started created
  have hlaunch : (Launch.blueprint launch supply).Fits := hfits
  have hhand : (HandRun.blueprint hand supply').Fits := by
    rw [← hcount] at hfits'
    exact hfits'
  have hstarted := @Launch.start_shaped launch supply cwd program hlaunch t
  have hcreated := @HandRun.create_shaped hand supply' cwd' hhand t'
  have hfirst : (supply 0).nodeId ≠ "" := by
    obtain ⟨certificate, h⟩ := hid
    exact h ▸ nodeId_ne_empty certificate
  have hfirst' : (supply' 0).nodeId ≠ "" := by
    obtain ⟨certificate, h⟩ := hid'
    exact h ▸ nodeId_ne_empty certificate
  rw [hcount] at hcreated
  refine ⟨Launch.supervisedCommand launch supply, (HandRun.blueprint hand supply').command, hstarted.1,
    hstarted.2, hcreated.1, hcreated.2, fun i hi => ?_⟩
  have hsupervised : (Launch.supervisedCommand launch supply i).Placed launch.portBase.toNat n
      (supply 0).nodeId i := (Blueprint.command_placed hlaunch hi).arg _ _
  have hi' : i < hand.nodeCount.toNat := by rwa [hcount]
  have hbyHand : ((HandRun.blueprint hand supply').command i).Placed HandRun.portBase.toNat
      hand.nodeCount.toNat (supply' 0).nodeId i := Blueprint.command_placed hhand hi'
  rw [hcount] at hbyHand
  refine ⟨hsupervised, hbyHand, ?_, fun hbase hnetwork hlevel => ?_⟩
  · rw [List.forall_mem_cons, List.forall_mem_singleton]
    exact ⟨hsupervised.alone_iff hfirst, hbyHand.alone_iff hfirst'⟩
  · have hnodes : (Launch.blueprint launch supply).nodeCount = (HandRun.blueprint hand supply').nodeCount :=
      congrArg UInt64.toNat hcount.symm
    exact ⟨_, _, rfl, Blueprint.command_alike hnodes hbase hnetwork hlevel i⟩

/-- Two nodes of a program that lies at the root of a machine without other files. -/
def Launch.specimen : LaunchSpec := ⟨2, "/node", "/logs", 9650, "local", "INFO", [], 1000⟩

def HandRun.specimen : HandRun.Spec := ⟨2, "/node", "/db", "/certs", "/run.sh"⟩

def Identity.specimen (i : Nat) : Identity := ⟨[], [], LocalFleet.nodeId [.ofNat i]⟩

def Files.specimen : Files.Tree := ⟨[(["node"], .file (Text.bytes "#!") 0o755)]⟩

/-- Both fleets of two nodes are made, and both second nodes find the fleet at the first. -/
theorem fleets_same_shape_specimen : ∃ nodes text, ∃ supervised byHand : Nat → NodeCommand,
    (Launch.start Launch.specimen [] (fun _ => ⟨none, .code 0⟩) Identity.specimen Files.specimen).2 =
      .ok nodes ∧
    (HandRun.create HandRun.specimen [] Identity.specimen Files.specimen).2 = .ok text ∧
    nodes.map Supervised.command = [supervised 0, supervised 1] ∧
    text = HandRun.printed HandRun.specimen [byHand 0, byHand 1] ∧
    ∀ c ∈ [supervised 1, byHand 1], c.Placed 9650 2 (nodeId [0]) 1 ∧ c.value? "bootstrap-ids" ≠ some "" := by
  obtain ⟨supervised, byHand, _, hstarted, _, hcreated, hshape⟩ := @fleets_same_shape Launch.specimen
    HandRun.specimen Identity.specimen Identity.specimen rfl (by decide) (by decide) ⟨_, rfl⟩ ⟨_, rfl⟩ [] []
    (fun _ => ⟨none, .code 0⟩) Files.specimen Files.specimen
  obtain ⟨nodes, hnodes⟩ := exists_of_isOk (show (Launch.start Launch.specimen []
    (fun _ => ⟨none, .code 0⟩) Identity.specimen Files.specimen).2.isOk = true by decide +kernel)
  obtain ⟨text, htext⟩ := exists_of_isOk (show (HandRun.create HandRun.specimen [] Identity.specimen
    Files.specimen).2.isOk = true by decide +kernel)
  obtain ⟨hsupervised, hbyHand, halone, _⟩ := hshape 1 (by decide)
  refine ⟨nodes, text, supervised, byHand, hnodes, htext, hstarted nodes hnodes, hcreated text htext, ?_⟩
  intro c hc
  have hids := (halone c hc).2.1.mt Nat.one_ne_zero
  rw [List.mem_pair] at hc
  rcases hc with rfl | rfl
  · exact ⟨hsupervised, hids⟩
  · exact ⟨hbyHand, hids⟩

/-- Two fleets on the same ports of the same network that have drawn different certificates: their second
nodes are given different ids of a first node. -/
theorem bootstrapIds_differ : ∃ nodes commands c d,
    (Launch.start Launch.specimen [] (fun _ => ⟨none, .code 0⟩) Identity.specimen Files.specimen).2 =
      .ok nodes ∧
    (HandRun.create HandRun.specimen [] (fun i => Identity.specimen (i + 2)) Files.specimen).2 =
      .ok (HandRun.printed HandRun.specimen commands) ∧
    Launch.specimen.portBase = HandRun.portBase ∧ Launch.specimen.networkId = "local" ∧
    Launch.specimen.logLevel = "INFO" ∧ (nodes.map Supervised.command)[1]? = some c ∧
    commands[1]? = some d ∧ c.value? "bootstrap-ids" ≠ d.value? "bootstrap-ids" := by
  have hne : nodeId [0] ≠ nodeId [2] := by decide +kernel
  have hlaunch : (Launch.blueprint Launch.specimen Identity.specimen).Fits :=
    show 9650 + 2 * 2 ≤ 2 ^ 16 by decide
  have hhand : (HandRun.blueprint HandRun.specimen fun i => Identity.specimen (i + 2)).Fits :=
    show 9650 + 2 * 2 ≤ 2 ^ 16 by decide
  obtain ⟨nodes, hnodes⟩ := exists_of_isOk (show (Launch.start Launch.specimen []
    (fun _ => ⟨none, .code 0⟩) Identity.specimen Files.specimen).2.isOk = true by decide +kernel)
  obtain ⟨text, htext⟩ := exists_of_isOk (show (HandRun.create HandRun.specimen []
    (fun i => Identity.specimen (i + 2)) Files.specimen).2.isOk = true by decide +kernel)
  have hstarted := (Launch.start_shaped hlaunch Files.specimen).2 nodes hnodes
  rw [(HandRun.create_shaped hhand Files.specimen).2 text htext] at htext
  refine ⟨nodes, _, _, _, hnodes, htext, rfl, rfl, rfl, by rw [hstarted]; rfl, rfl, ?_⟩
  have hc := ((Blueprint.command_placed (i := 1) hlaunch (by decide)).arg "config-file"
    (Path.join (Launch.nodeDir Launch.specimen 1) "config.json")).id
  have hd := (Blueprint.command_placed (i := 1) hhand (by decide)).id
  intro hsame
  exact hne (Option.some.inj (hc.symm.trans (hsame.trans hd)))

end LocalFleet
