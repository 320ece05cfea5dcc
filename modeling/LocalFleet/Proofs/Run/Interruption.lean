import LocalFleet.Proofs.Run.Schedule

/-! What a cancellation makes of a wait: up to its instant it goes as if nobody cancelled it, and there it
ends, if it has not ended before. -/

namespace LocalFleet.Poll.Schedule

variable {α : Type}

/-- When a wait that ended so came to its end; if it could not count its attempts, when it would have begun
one more. -/
def finish (w : Schedule α) : Option (Ending (List Nat) α) → Nat
  | some e => e.time
  | none => w.begins attemptLimit

def made (w : Schedule α) : Option (Ending (List Nat) α) → List Nat
  | some e => e.state
  | none => w.begun attemptLimit

/-- A wait cut off at an instant. -/
def cut (w : Schedule α) (c : Nat) (whole : Option (Ending (List Nat) α)) : Option (Ending (List Nat) α) :=
  if c ≤ w.finish whole then some ⟨.cancelled, max c w.start, (w.made whole).filter (· < c)⟩ else whole

variable {w : Schedule α} {more k m c : Nat}

theorem begins_lt_of_lt (hc : w.start + w.elapsed k < c) {j : Nat} (h : j < k) : w.begins j < c :=
  calc w.begins j ≤ w.start + w.elapsed (j + 1) := w.begins_le_elapsed_succ j
    _ ≤ w.start + w.elapsed k := Nat.add_le_add_left (w.elapsed_mono h) _
    _ < c := hc

theorem filter_begun (hlow : ∀ j < k, w.begins j < c) (hkm : k ≤ m) (hhigh : k < m → c ≤ w.begins k) :
    (w.begun m).filter (· < c) = w.begun k := by
  induction m, hkm using Nat.le_induction with
  | base =>
    refine List.filter_eq_self.mpr fun t ht => ?_
    obtain ⟨j, hj, rfl⟩ := List.mem_map.mp ht
    exact decide_eq_true (hlow j (List.mem_range.mp hj))
  | succ m hkm ih =>
    have hlate : c ≤ w.begins m := (hhigh (Nat.lt_succ_of_le hkm)).trans (w.begins_mono hkm)
    rw [begun_succ, List.filter_append, ih fun hlt => hhigh (Nat.lt_succ_of_lt hlt)]
    simp [hlate.not_gt]

theorem finish_after (hk : w.Fruitless k) (hmore : k + more = attemptLimit) :
    w.start + w.elapsed k ≤ w.finish (w.after none more k) ∧
      (w.elapsed k < w.pace.limit → w.begins k ≤ w.finish (w.after none more k)) ∧
      ∃ m, k ≤ m ∧ w.made (w.after none more k) = w.begun m := by
  rcases settles_or_uncounted more hk with ⟨j, e, hkj, _, hsettles, hafter⟩ | ⟨_, _, hafter⟩
  · have hmono := w.elapsed_mono hkj
    have hbegins := w.begins_mono hkj
    have hnow : w.start + w.elapsed k ≤ w.begins k := Nat.le_add_right _ _
    rw [hafter, finish, made]
    cases hsettles with
    | lapsed hpast =>
      refine ⟨Nat.add_le_add_left hmono _, fun hbefore => ?_, j, hkj, rfl⟩
      -- the limit passed after a further attempt
      have hlt : k < j := by
        rcases Nat.lt_or_eq_of_le hkj with hlt | rfl
        · exact hlt
        · exact absurd hbefore hpast.not_gt
      exact (w.begins_le_elapsed_succ k).trans (Nat.add_le_add_left (w.elapsed_mono hlt) _)
    | late stopped _ _ _ hstopped =>
      have hfinish : w.begins k ≤ stopped := hbegins.trans (hstopped ▸ Nat.le_max_left _ _)
      exact ⟨hnow.trans hfinish, fun _ => hfinish, j + 1, Nat.le_succ_of_le hkj, rfl⟩
    | found _ _ _ =>
      have hfinish := hbegins.trans (w.begins_le_elapsed_succ j)
      exact ⟨hnow.trans hfinish, fun _ => hfinish, j + 1, Nat.le_succ_of_le hkj, rfl⟩
  · rw [hafter, finish, made, ← hmore]
    have hbegins := w.begins_mono (Nat.le_add_right k more)
    exact ⟨(Nat.le_add_right _ _).trans hbegins, fun _ => hbegins, _, Nat.le_add_right k more, rfl⟩

theorem cut_of_lt {whole : Option (Ending (List Nat) α)} (h : w.finish whole < c) :
    w.cut c whole = whole := if_neg h.not_ge

/-- A wait cut off once it has begun as many attempts, and before it begins another one. -/
theorem cut_eq {whole : Option (Ending (List Nat) α)} (hstart : w.start ≤ c) (hlow : ∀ j < k, w.begins j < c)
    (hfinish : c ≤ w.finish whole) (hmade : w.made whole = w.begun m) (hkm : k ≤ m)
    (hhigh : k < m → c ≤ w.begins k) : w.cut c whole = some ⟨.cancelled, c, w.begun k⟩ := by
  rw [cut, if_pos hfinish, hmade, filter_begun hlow hkm hhigh, Nat.max_eq_left hstart]

theorem after_some_of_le (hk : w.Fruitless k) (hmore : k + more = attemptLimit)
    (hnow : w.start + w.elapsed k < c) (h : w.pace.limit ≤ w.elapsed k ∨ c ≤ w.begins k) :
    w.after (some c) more k = w.cut c (w.after none more k) := by
  by_cases hpast : w.pace.limit ≤ w.elapsed k
  · rw [after_of_lapsed (reached_of_lt hnow) hpast, after_of_lapsed rfl hpast, cut_of_lt hnow]
  · have hbefore := not_le.mp hpast
    have hwake := h.resolve_left hpast
    obtain ⟨_, hfinish, m, hkm, hmade⟩ := finish_after hk hmore
    rw [after_of_cancelled_before hnow hbefore hwake]
    exact (cut_eq (by omega) (fun _ => begins_lt_of_lt hnow) (hwake.trans (hfinish hbefore)) hmade hkm
      fun _ => hwake).symm

theorem after_some_of_within (hk : w.Fruitless k) (hmore : k + (more + 1) = attemptLimit)
    (hwake : w.begins k < c) (hbefore : w.elapsed k < w.pace.limit) (hlatency : (w.attempts k).latency ≠ 0)
    (hc : c ≤ min (w.start + w.elapsed (k + 1)) (max (w.begins k) (w.start + w.pace.limit))) :
    w.after (some c) (more + 1) k = w.cut c (w.after none (more + 1) k) := by
  have hnow : w.start + w.elapsed k < c := (Nat.le_add_right _ _).trans_lt hwake
  have hlow : ∀ j < k + 1, w.begins j < c :=
    Nat.forall_lt_succ_right.mpr ⟨fun _ => begins_lt_of_lt hnow, hwake⟩
  have hcut {whole : Option (Ending (List Nat) α)} (hfinish : c ≤ w.finish whole)
      (hmade : ∃ m, k + 1 ≤ m ∧ w.made whole = w.begun m) :
      w.cut c whole = some ⟨.cancelled, c, w.begun (k + 1)⟩ := by
    obtain ⟨m, hkm, hmade⟩ := hmade
    have hnext : c ≤ w.begins (k + 1) := by
      simp only [begins] at hc ⊢
      omega
    exact cut_eq (by omega) hlow hfinish hmade hkm fun _ => hnext
  rw [after_of_cancelled_within hwake hbefore hlatency hc]
  by_cases hlate : w.pace.limit < w.elapsed (k + 1)
  · rw [after_of_late hbefore hlate hlatency rfl]
    exact (hcut (hc.trans (Nat.min_le_right _ _)) ⟨k + 1, Nat.le_refl _, rfl⟩).symm
  · have htime : w.InTime k := ⟨hbefore, .inl (not_lt.mp hlate)⟩
    have hended := hc.trans (Nat.min_le_left _ _)
    rw [after_of_inTime htime rfl]
    cases hfound : (w.attempts k).found with
    | some v =>
      have hfinish : c ≤ w.finish (some ⟨.ready v, w.start + w.elapsed (k + 1), w.begun (k + 1)⟩) := hended
      exact (hcut hfinish ⟨k + 1, Nat.le_refl _, rfl⟩).symm
    | none =>
      have hnext : k + 1 + more = attemptLimit := by omega
      obtain ⟨hfinish, _, hmade⟩ := finish_after (fruitless_succ_iff.mpr ⟨hk, htime, hfound⟩) hnext
      exact (hcut (hended.trans hfinish) hmade).symm

/-- A wait that goes on after some attempts goes on as if nobody cancelled it, until somebody does. -/
theorem after_some (hk : w.Fruitless k) (hmore : k + more = attemptLimit)
    (hnow : w.start + w.elapsed k < c) : w.after (some c) more k = w.cut c (w.after none more k) := by
  induction more generalizing k with
  | zero =>
    by_cases h : w.pace.limit ≤ w.elapsed k ∨ c ≤ w.begins k
    · exact after_some_of_le hk hmore hnow h
    · obtain ⟨hbefore, hwake⟩ := not_or.mp h
      have hfinish : w.finish none < c := by
        rw [finish, ← hmore]
        exact not_le.mp hwake
      rw [after_zero (reached_of_lt (not_le.mp hwake)) (not_le.mp hbefore),
        after_zero rfl (not_le.mp hbefore), cut_of_lt hfinish]
  | succ more ih =>
    by_cases h : w.pace.limit ≤ w.elapsed k ∨ c ≤ w.begins k
    · exact after_some_of_le hk hmore hnow h
    · obtain ⟨hpast, hnotwake⟩ := not_or.mp h
      have hbefore := not_le.mp hpast
      have hwake := not_le.mp hnotwake
      by_cases hwithin : (w.attempts k).latency ≠ 0 ∧
          c ≤ min (w.start + w.elapsed (k + 1)) (max (w.begins k) (w.start + w.pace.limit))
      · exact after_some_of_within hk hmore hwake hbefore hwithin.1 hwithin.2
      · by_cases hlate : w.pace.limit < w.elapsed (k + 1) ∧ (w.attempts k).latency ≠ 0
        · have hstopped : max (w.begins k) (w.start + w.pace.limit) < c := by
            have := w.begins_le_elapsed_succ k
            omega
          rw [after_of_late hbefore hlate.1 hlate.2 (reached_of_lt hstopped),
            after_of_late hbefore hlate.1 hlate.2 rfl, cut_of_lt hstopped]
        · have htime : w.InTime k := ⟨hbefore, by omega⟩
          have hended : w.start + w.elapsed (k + 1) < c := by
            rw [elapsed_succ]
            simp only [begins, elapsed_succ] at hwake hwithin hlate ⊢
            omega
          rw [after_of_inTime htime (reached_of_lt hended), after_of_inTime htime rfl]
          cases hfound : (w.attempts k).found with
          | some v => exact (cut_of_lt hended).symm
          | none => exact ih (fruitless_succ_iff.mpr ⟨hk, htime, hfound⟩) (by omega) hended

theorem run_some (w : Schedule α) (c : Nat) : w.run (some c) = w.cut c (w.run none) := by
  rw [run_eq_after, run_eq_after]
  rcases Nat.lt_or_ge w.start c with hlater | hstart
  · exact after_some w.fruitless_zero (Nat.zero_add _) hlater
  · -- it is cancelled before it begins
    obtain ⟨hfinish, _, m, _, hmade⟩ := finish_after w.fruitless_zero (Nat.zero_add attemptLimit)
    have hbegins : c ≤ w.begins 0 := hstart.trans (Nat.le_add_right_of_le (Nat.le_add_right _ _))
    have hnone : (w.begun m).filter (· < c) = w.begun 0 :=
      filter_begun (fun j hj => absurd hj (Nat.not_lt_zero j)) (Nat.zero_le m) fun _ => hbegins
    have hfirst : reached (some c) (w.start + w.elapsed 0) = true := decide_eq_true hstart
    rw [after_of_cancelled hfirst, cut, if_pos (hstart.trans hfinish), hmade, hnone,
      Nat.max_eq_right hstart]
    rfl

/-- A wait that is cancelled goes as if nobody cancelled it, if it would have ended before, and otherwise
ends then. Whatever ends no earlier than it is cancelled has been cancelled. -/
theorem run_cancelled (w : Schedule α) (c : Nat) :
    (w.run (some c) = if c ≤ w.finish (w.run none) then
        some ⟨.cancelled, max c w.start, (w.made (w.run none)).filter (· < c)⟩
      else w.run none) ∧
      ∀ e, w.run (some c) = some e → c ≤ e.time → e.outcome = .cancelled := by
  refine ⟨w.run_some c, fun e he hc => ?_⟩
  rw [run_some, cut] at he
  split at he
  · cases he
    rfl
  · rename_i hlater
    rw [he] at hlater
    exact absurd hc hlater

/-- At the very instant of a finding. -/
theorem run_cancelled_specimen : specimen.run none = some ⟨.ready 1, 28, [13, 28]⟩ ∧
    specimen.run (some 28) = some ⟨.cancelled, 28, [13]⟩ ∧
    specimen.run (some 29) = specimen.run none := by
  have hwhole : specimen.run none = some ⟨.ready 1, 28, [13, 28]⟩ := rfl
  refine ⟨hwhole, ?_, ?_⟩
  · rw [(run_cancelled specimen 28).1, hwhole]
    rfl
  · rw [(run_cancelled specimen 29).1, hwhole]
    rfl

end LocalFleet.Poll.Schedule
