import LocalFleet.Proofs.Provision.Routine
import LocalFleet.Proofs.Settings.Validity
import LocalFleet.Proofs.Transcript

/-! When the nodes validate the subnet. The seconds are added in words that are checked, whereas the settings
are accepted with any delay and any duration: what the sum is allowed to be is decided by the clock, long
after the settings were accepted. -/

namespace LocalFleet

theorem Provisioner.secondsAfter_eq_some_iff {a b c : UInt64} :
    secondsAfter a b = some c ↔ c.toNat = a.toNat + b.toNat := by
  have hc := c.toNat_lt
  unfold secondsAfter
  split
  · rename_i hfit
    have hsum : (a + b).toNat = a.toNat + b.toNat := by
      rw [UInt64.toNat_add]
      omega
    rw [Option.some.injEq, ← UInt64.toNat_inj, hsum, eq_comm]
  · refine iff_of_false nofun ?_
    omega

theorem SubnetSettings.validate_of_times {s : SubnetSettings} (h : s.validate = .ok ()) (delay : UInt64)
    {duration : UInt64} (hduration : duration ≠ 0) :
    { s with startDelay := delay, duration }.validate = .ok () := by
  have haccepted := s.judges.passes.1 h
  exact (judges _).passes.2 ⟨haccepted.vmName, haccepted.weight, fun _ => hduration⟩

namespace SubnetSettings

variable (s : SubnetSettings)

def Uncountable (now : UInt64) : Prop := 2 ^ 64 ≤ now.toNat + s.startDelay.toNat + s.duration.toNat

/-- A validator starts at a time after the delay, and validates for the duration, in exact numbers. -/
def Schedules (now : UInt64) (r : AddValidatorRequest) : Prop :=
  r.startTime.toNat = now.toNat + s.startDelay.toNat ∧
    r.endTime.toNat = r.startTime.toNat + s.duration.toNat

/-- What may be asked after some replies: a validator is added only right after the clock was read, and as
it is scheduled from then on. -/
def Dates (replies : List Reply) (q : Question) : Prop :=
  ∀ what node r, q = .call what node (.addSubnetValidator r) →
    ∃ now, replies.getLast? = some ⟨.clock, now⟩ ∧ s.Schedules now r

/-- The clock has just been read, and the validator that is to be added would end too late. -/
def Exhausts (replies : List Reply) : Prop :=
  ∃ now, replies.getLast? = some ⟨.clock, now⟩ ∧ s.Uncountable now

end SubnetSettings

namespace Stage

variable {σ τ α β : Type} {Halt : List Reply → Prop}

/-- Whatever was answered before, the stage makes a number leave its range only after replies of which
`Halt` holds. -/
def HaltsOn (Halt : List Reply → Prop) (stage : Stage σ α) : Prop :=
  ∀ replies s, Keeps (Law.recalling (fun _ _ => True) Halt) (fun _ _ _ => True) (fun _ _ _ => True)
    replies s stage

theorem HaltsOn.bind {x : Stage σ α} {f : α → Stage σ β} (hx : HaltsOn Halt x)
    (hf : ∀ a, HaltsOn Halt (f a)) : HaltsOn Halt (x >>= f) :=
  fun replies s => Keeps.bind (hx replies s) fun replies a s _ => hf a replies s

theorem Asks.haltsOn {P : Question → Prop} {stage : Stage σ α} (h : Asks P False stage) :
    HaltsOn Halt stage :=
  fun _ s => h.keeps (I := fun _ => True) (fun _ _ _ _ => trivial) (fun _ _ _ _ _ _ _ => trivial)
    (fun _ _ => False.elim) trivial s

theorem haltsOn_ite {condition : Prop} [Decidable condition] {x y : Stage σ α} (hx : HaltsOn Halt x)
    (hy : HaltsOn Halt y) : HaltsOn Halt (if condition then x else y) := by
  split
  · exact hx
  · exact hy

theorem haltsOn_on {own : τ} {inner : Stage τ α} (h : HaltsOn Halt inner) :
    HaltsOn Halt (Stage.on own inner : Stage σ _) := fun replies _ => keeps_on (h replies own)

end Stage

namespace Provisioner

open Stage

variable (p : Provisioner)

theorem validationTimes_eq_some {now start stop : UInt64} (h : p.validationTimes now = some (start, stop)) :
    start.toNat = now.toNat + p.settings.subnet.startDelay.toNat ∧
      stop.toNat = start.toNat + p.settings.subnet.duration.toNat := by
  simp only [validationTimes, Option.bind_eq_bind, Option.bind_eq_some_iff, Option.pure_def,
    Option.some.injEq, Prod.mk.injEq] at h
  obtain ⟨_, hstart, _, hstop, rfl, rfl⟩ := h
  exact ⟨secondsAfter_eq_some_iff.1 hstart, secondsAfter_eq_some_iff.1 hstop⟩

theorem uncountable_of_validationTimes {now : UInt64} (h : p.validationTimes now = none) :
    p.settings.subnet.Uncountable now := by
  simp only [validationTimes, secondsAfter] at h
  by_contra hcount
  rw [SubnetSettings.Uncountable, not_le] at hcount
  rw [if_pos (by omega)] at h
  simp [UInt64.toNat_add] at h
  omega

theorem validationTimes_eq_none_iff {now : UInt64} :
    p.validationTimes now = none ↔ p.settings.subnet.Uncountable now := by
  refine ⟨p.uncountable_of_validationTimes, fun hover => ?_⟩
  cases htimes : p.validationTimes now with
  | none => rfl
  | some times =>
    obtain ⟨hstart, hstop⟩ := p.validationTimes_eq_some htimes
    have hword := times.2.toNat_lt
    rw [SubnetSettings.Uncountable] at hover
    omega

/-- Whatever was answered before, a node is added by a reading of the clock and a request that goes by it. -/
theorem addSubnetValidators_keeps_dates (replies : List Reply) (s : Provisioned) :
    Keeps (Law.recalling p.settings.subnet.Dates p.settings.subnet.Exhausts) (fun _ _ _ => True)
      (fun _ _ _ => True) replies s p.addSubnetValidators := by
  have hlift : ∀ {α : Type} (r : Result α) (replies : List Reply) (s : Provisioned),
      Keeps (Law.recalling p.settings.subnet.Dates p.settings.subnet.Exhausts) (fun _ _ _ => True)
        (fun _ _ _ => True) replies s (Stage.lift r) :=
    fun r replies s => keeps_lift (fun _ _ => trivial) fun _ _ => trivial
  refine Keeps.bind (Q := fun _ _ _ => True) (keeps_get trivial) fun _ _ t _ => ?_
  refine Keeps.bind (hlift _ _ _) fun _ subnetId t _ => ?_
  refine Keeps.bind (Q := fun _ _ _ => True) ?_ fun _ control t _ => ?_
  · exact Keeps.bind (Q := fun _ _ _ => True) (keeps_get trivial) fun _ _ t _ =>
      Keeps.bind (hlift _ _ _) fun _ _ t _ => hlift _ _ _
  refine keeps_forM (fun _ _ _ => True) (fun _ node _ replies t _ _ => ?_) trivial
  refine Keeps.bind (Q := fun replies now _ => replies.getLast? = some ⟨.clock, now⟩)
    (keeps_ask (q := .clock) nofun ?_) fun replies now t hnow => ?_
  · rintro now _ rfl
    exact List.getLast?_concat
  cases htimes : p.validationTimes now with
  | none => exact keeps_overflow ⟨now, hnow, p.uncountable_of_validationTimes htimes⟩
  | some times =>
    refine Keeps.bind (Q := fun _ _ _ => True) (keeps_call ?_ (fun _ _ _ => trivial) fun _ _ _ => trivial)
      fun _ txId t _ => ?_
    · rintro _ _ _ ⟨⟩
      exact ⟨now, hnow, p.validationTimes_eq_some htimes⟩
    · exact Keeps.bind (Q := fun _ _ _ => True)
        (keeps_await nofun (fun _ _ _ => trivial) fun _ _ _ => trivial) fun _ _ _ _ => keeps_pure trivial

theorem addSubnetValidators_haltsOn : HaltsOn p.settings.subnet.Exhausts p.addSubnetValidators :=
  fun replies s => Plan.Keeps.mono (p.addSubnetValidators_keeps_dates replies s)
    (fun _ _ _ _ h => h) (fun _ _ _ => trivial) (fun _ h => h) fun _ _ h => h

/-- Of all provisioning, nothing but the validators makes a number leave its range. -/
theorem all_haltsOn : HaltsOn p.settings.subnet.Exhausts p.all := by
  refine (funding_asks p).haltsOn.bind fun _ => haltsOn_ite ?_ (asks_pure (P := fun _ => True) ()).haltsOn
  refine (routine_checkpoint_asks (by decide)).haltsOn.bind fun _ =>
    (createSubnet_asks p).haltsOn.bind fun _ =>
    (routine_checkpoint_asks (by decide)).haltsOn.bind fun _ => p.addSubnetValidators_haltsOn.bind fun _ => ?_
  exact ((routine_checkpoint_asks (by decide)).bind fun _ => (createBlockchain_asks p).bind fun _ =>
    (routine_checkpoint_asks (by decide)).bind fun _ => awaitBootstrap_asks p).haltsOn

section

variable {p} {s : Provisioned} {subnetId control : String} {genesis : Wallet}

theorem addSubnetValidators_reaches_overflow {now : UInt64} (hsubnet : s.subnet = .ok subnetId)
    (hgenesis : s.genesisWallet = .ok genesis) (hcontrol : genesis.address .p = .ok control)
    (hover : p.settings.subnet.Uncountable now) :
    (p.addSubnetValidators s).Reaches [⟨.clock, now⟩] .overflow := by
  have hnone := p.validationTimes_eq_none_iff.2 hover
  refine reaches_get_bind (reaches_lift_bind hsubnet ?_)
  rw [← List.nil_append [_]]
  refine reaches_bind_ok (t := s) (reaches_get_bind (reaches_lift_bind hgenesis ?_)) ?_ (a := control)
  · rw [hcontrol]
    exact .here _
  obtain ⟨node, rest, hnodes⟩ := List.exists_cons_of_ne_nil p.view.nonempty
  rw [hnodes]
  -- Of the loop only the round for the first node is entered, and of that only the reading of the clock.
  show (((Stage.ask .clock >>= _) >>= fun _ => _ : Provisioning Unit) s).Reaches _ _
  rw [bind_assoc]
  refine reaches_ask_bind ?_
  simp only [hnone]
  exact .here _

theorem addSubnetValidators_exhausts_iff (hsubnet : s.subnet = .ok subnetId)
    (hgenesis : s.genesisWallet = .ok genesis) (hcontrol : genesis.address .p = .ok control) :
    (∃ since, (∀ now : UInt64, ⟨.clock, now⟩ ∈ since → now.toNat < 2 ^ 63) ∧
        (p.addSubnetValidators s).Reaches since .overflow) ↔
      2 ^ 63 < p.settings.subnet.startDelay.toNat + p.settings.subnet.duration.toNat := by
  constructor
  · rintro ⟨since, hclock, hreaches⟩
    obtain ⟨now, hlast, hover⟩ := (Plan.Keeps.of_reaches_recalling (p.addSubnetValidators_keeps_dates [] s)
      hreaches).2
    have hnow := hclock now (List.mem_of_getLast? hlast)
    rw [SubnetSettings.Uncountable] at hover
    omega
  · intro hlong
    refine ⟨[⟨.clock, 0x7fffffffffffffff⟩], fun now hmem => ?_,
      addSubnetValidators_reaches_overflow hsubnet hgenesis hcontrol ?_⟩
    · cases List.mem_singleton.1 hmem
      decide
    · have hlatest : (0x7fffffffffffffff : UInt64).toNat = 2 ^ 63 - 1 := rfl
      rw [SubnetSettings.Uncountable, hlatest]
      omega

end

/-- Settings of a subnet that is created are accepted with any delay and any duration but none. Whatever is
answered, every request to add a validator has the exact times that follow from the reading of the clock
just before it, and the seconds leave their range only after a reading from which they cannot be counted.
Readings below `2 ^ 63` can be such just if delay and duration exceed `2 ^ 63` together. -/
theorem addSubnetValidators_schedules (p : Provisioner) (henabled : p.settings.subnet.enabled = true)
    (hvalid : p.settings.subnet.validate = .ok ()) :
    (∀ delay duration : UInt64,
      { p.settings.subnet with startDelay := delay, duration }.validate = .ok () ↔ duration ≠ 0) ∧
    (∀ s since rest, (p.addSubnetValidators s).Reaches since rest →
      (∀ before reply after, since = before ++ reply :: after →
        p.settings.subnet.Dates before reply.question) ∧
      (rest = .overflow → p.settings.subnet.Exhausts since)) ∧
    ∀ s subnetId genesis control, s.subnet = .ok subnetId → s.genesisWallet = .ok genesis →
      genesis.address .p = .ok control →
      (∀ now : UInt64, (p.addSubnetValidators s).Reaches [⟨.clock, now⟩] .overflow ↔
        p.settings.subnet.Uncountable now) ∧
      ((∃ since, (∀ now : UInt64, ⟨.clock, now⟩ ∈ since → now.toNat < 2 ^ 63) ∧
          (p.addSubnetValidators s).Reaches since .overflow) ↔
        2 ^ 63 < p.settings.subnet.startDelay.toNat + p.settings.subnet.duration.toNat) := by
  refine ⟨fun delay duration => ⟨fun h => ?_, SubnetSettings.validate_of_times hvalid delay⟩,
    fun s since rest hreaches => ?_, fun s subnetId genesis control hsubnet hgenesis hcontrol => ?_⟩
  · exact ((SubnetSettings.judges _).passes.1 h).duration henabled
  · obtain ⟨hdates, hrest⟩ := Plan.Keeps.of_reaches_recalling (p.addSubnetValidators_keeps_dates [] s) hreaches
    refine ⟨hdates, ?_⟩
    rintro rfl
    exact hrest
  · refine ⟨fun now => ⟨fun hreaches => ?_, addSubnetValidators_reaches_overflow hsubnet hgenesis hcontrol⟩,
      addSubnetValidators_exhausts_iff hsubnet hgenesis hcontrol⟩
    obtain ⟨_, hlast, hover⟩ := (Plan.Keeps.of_reaches_recalling (p.addSubnetValidators_keeps_dates [] s)
      hreaches).2
    cases Option.some.inj hlast
    exact hover

/-- With the longest duration no clock is early enough. -/
theorem addSubnetValidators_schedules_specimen :
    let subnet : SubnetSettings := { genesisPath := some "/genesis.json", duration := 0xffffffffffffffff }
    let p : Provisioner := ⟨{ subnet }, ⟨[⟨"node1", "NodeID-1", "http://127.0.0.1:9650"⟩], ⟨"", "", ""⟩,
      by decide⟩⟩
    let genesis := (Wallet.new "genesis" ⟨Octets.replicate 32 1⟩).setAddress .p "P-local1"
    (subnet.enabled = true ∧ subnet.validate = .ok ()) ∧
      (p.addSubnetValidators { genesis := some genesis, subnetId := some "subnet" }).Reaches
        [⟨.clock, 1700000000⟩] .overflow := by
  intro subnet p genesis
  have hvalid : subnet.enabled = true ∧ subnet.validate = .ok () := ⟨rfl, rfl⟩
  refine ⟨hvalid, ?_⟩
  obtain ⟨-, -, htimes⟩ := addSubnetValidators_schedules p hvalid.1 hvalid.2
  refine ((htimes _ "subnet" genesis "P-local1" rfl rfl rfl).1 1700000000).2 ?_
  show 2 ^ 64 ≤ _
  decide

end Provisioner

end LocalFleet
