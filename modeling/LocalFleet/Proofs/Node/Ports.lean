import LocalFleet.Proofs.Node.Shape
import LocalFleet.Proofs.Settings.Validity
import LocalFleet.Run.Course

/-! The ports of a fleet. They are worked out in arithmetic of sixteen bits, once for a node's settings and
once more where the node is started. The single bound that settings are checked against keeps all of it in
range and gives every node two ports of its own. -/

namespace LocalFleet

namespace ClusterSettings

variable {s : ClusterSettings} {i : Nat}

def httpPort (s : ClusterSettings) (i : Nat) : UInt16 := .ofNat (s.portBase.toNat + 2 * i)

def stakingPort (s : ClusterSettings) (i : Nat) : UInt16 := .ofNat (s.portBase.toNat + 2 * i + 1)

def ports (s : ClusterSettings) : List UInt16 :=
  (List.range s.nodeCount.toNat).flatMap fun i => [s.httpPort i, s.stakingPort i]

theorem httpPort?_of_lt (h : s.portBase.toNat + 2 * i < 2 ^ 16) : s.httpPort? i = some (s.httpPort i) := by
  have hindex : i % 0x10000 = i := Nat.mod_eq_of_lt (by omega)
  have hoffset : (UInt16.ofNat (i * 2)).toNat = i * 2 := Blueprint.toNat_port (by omega)
  rw [httpPort?, hindex, Blueprint.port?_of_lt (by omega), Option.bind_eq_bind, Option.bind_some, hoffset,
    Nat.mul_comm, Blueprint.port?_of_lt (by omega), httpPort]

theorem stakingPort?_of_lt (h : s.portBase.toNat + 2 * i + 1 < 2 ^ 16) :
    s.stakingPort? i = some (s.stakingPort i) := by
  have hhttp : (s.httpPort i).toNat = s.portBase.toNat + 2 * i := Blueprint.toNat_port (by omega)
  rw [stakingPort?, httpPort?_of_lt (by omega), Option.bind_eq_bind, Option.bind_some, hhttp,
    Blueprint.port?_of_lt h, stakingPort]

theorem flatMap_pair_eq_range' (base n : Nat) :
    (List.range n).flatMap (fun i => [base + 2 * i, base + 2 * i + 1]) = List.range' base (2 * n) := by
  induction n with
  | zero => rfl
  | succ n ih =>
    rw [List.range_succ, List.flatMap_append, ih, List.flatMap_singleton, Nat.mul_succ,
      ← List.range'_append_1]
    rfl

theorem map_toNat_ports (h : s.portBase.toNat + 2 * s.nodeCount.toNat ≤ 2 ^ 16) :
    s.ports.map UInt16.toNat = List.range' s.portBase.toNat (2 * s.nodeCount.toNat) := by
  rw [← flatMap_pair_eq_range', ports, List.map_flatMap]
  refine List.flatMap_congr fun i hi => ?_
  have hlt := List.mem_range.1 hi
  have hhttp : (s.httpPort i).toNat = s.portBase.toNat + 2 * i := Blueprint.toNat_port (by omega)
  have hstaking : (s.stakingPort i).toNat = s.portBase.toNat + 2 * i + 1 := Blueprint.toNat_port (by omega)
  rw [List.map_cons, List.map_singleton, hhttp, hstaking]

/-- There is room for all nodes: two ports for each, no two of them the same. -/
theorem Accepted.ports (h : s.Accepted) : s.ports.length = 2 * s.nodeCount.toNat ∧ s.ports.Nodup ∧
    ∀ p ∈ s.ports, 1 ≤ p.toNat ∧ p.toNat ≤ 65534 := by
  have hfirst := h.first
  have hroom := h.room
  have hnumbers := map_toNat_ports (s := s) (by omega)
  refine ⟨?_, ?_, fun p hp => ?_⟩
  · rw [← List.length_map UInt16.toNat, hnumbers, List.length_range']
  · refine List.Nodup.of_map UInt16.toNat ?_
    rw [hnumbers]
    exact List.nodup_range'
  · have hmem : p.toNat ∈ s.ports.map UInt16.toNat := List.mem_map_of_mem hp
    rw [hnumbers, List.mem_range'_1] at hmem
    omega

end ClusterSettings

/-- Settings that are accepted leave every port of their fleet in range. For each of its nodes the port for
requests and the port for the other nodes are there, and they are those that a start works out for itself; so
no start fails for a port, and the nodes of one that succeeds are given these ports in turn. No two ports of
the fleet are the same, and all of them lie between the first and the last but one that there are. -/
theorem ports_apart {j : Job} (hv : j.settings.cluster.validate = .ok ()) :
    let s := j.settings.cluster
    let n := s.nodeCount.toNat
    (∀ i < n, s.httpPort? i = some (s.httpPort i) ∧ s.stakingPort? i = some (s.stakingPort i) ∧
      Launch.ports? s.portBase i = some (s.httpPort i, s.stakingPort i)) ∧
    (∀ cwd program identity t,
      (Launch.start j.launchSpec cwd program identity t).2 ≠ .error .overflow ∧
      ∀ nodes, (Launch.start j.launchSpec cwd program identity t).2 = .ok nodes →
        nodes.map (fun node => (node.command.httpPort, node.command.stakingPort)) =
          (List.range n).map fun i => (s.httpPort i, s.stakingPort i)) ∧
    s.ports.length = 2 * n ∧ s.ports.Nodup ∧ ∀ p ∈ s.ports, 1 ≤ p.toNat ∧ p.toNat ≤ 65534 := by
  have hs := ClusterSettings.accepted_of_validate hv
  have hroom := hs.room
  have hfits (identity : Nat → Identity) : (Launch.blueprint j.launchSpec identity).Fits := by
    show j.settings.cluster.portBase.toNat + 2 * j.settings.cluster.nodeCount.toNat ≤ 2 ^ 16
    omega
  refine ⟨fun i hi => ?_, fun cwd program identity t => ⟨?_, fun nodes hnodes => ?_⟩, hs.ports⟩
  · have hi' : j.settings.cluster.portBase.toNat + 2 * i + 1 < 2 ^ 16 := by omega
    exact ⟨ClusterSettings.httpPort?_of_lt (by omega), ClusterSettings.stakingPort?_of_lt hi',
      Blueprint.ports?_of_lt hi'⟩
  · rw [Launch.start_eq (hfits identity)]
    rcases Launch.stage j.launchSpec cwd identity t with ⟨t, e | contents⟩ <;> exact nofun
  · have hcommands := (Launch.start_shaped (hfits identity) t).2 nodes hnodes
    have hports := congrArg (List.map fun c : NodeCommand => (c.httpPort, c.stakingPort)) hcommands
    simp only [List.map_map] at hports
    exact hports

/-- The five nodes of a run without settings. -/
theorem ports_apart_specimen :
    let j : Job := ⟨{}, "/logs", 1⟩
    j.settings.cluster.httpPort? 4 = some 9658 ∧ j.settings.cluster.ports.length = 10 := by
  have hv : ({} : ClusterSettings).validate = .ok () := by decide +kernel
  have h := @ports_apart ⟨{}, "/logs", 1⟩ hv
  exact ⟨(h.1 4 (by decide)).1, h.2.2.1⟩

end LocalFleet
