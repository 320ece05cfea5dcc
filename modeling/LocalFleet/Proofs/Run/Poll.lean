import LocalFleet.Run.Poll
import Mathlib

/-! How a wait goes: checks that find nothing, and then an end, at which the wait was cancelled or the
cancellation has not come yet. -/

namespace LocalFleet

theorem reached_mono {instant : Option Nat} {earlier later : Nat} (h : earlier ≤ later)
    (hl : reached instant later = false) : reached instant earlier = false := by
  cases instant with
  | none => rfl
  | some c =>
    simp only [reached, Option.any_some, decide_eq_false_iff_not] at hl ⊢
    omega

theorem exists_of_reached {instant : Option Nat} {now time : Nat} (h : reached instant now = false)
    (ht : reached instant time = true) : ∃ c, instant = some c ∧ now < c ∧ c ≤ time := by
  cases instant with
  | none => simp [reached] at ht
  | some c =>
    simp only [reached, Option.any_some, decide_eq_false_iff_not, decide_eq_true_eq] at h ht
    exact ⟨c, rfl, by omega, ht⟩

theorem reached_some (c time : Nat) : reached (some c) time = decide (c ≤ time) := rfl

theorem reached_of_lt {c time : Nat} (h : time < c) : reached (some c) time = false :=
  decide_eq_false h.not_ge

namespace Poll

variable {σ α : Type}

/-- A wait from an instant on, and its end. -/
inductive Waits (interval : Nat) (cancelAt : Option Nat) (check : Nat → σ → Attempt α × σ) :
    Nat → σ → Ending σ α → Prop where
  | cancelled {now : Nat} {s : σ} (time : Nat) : now ≤ time → reached cancelAt time = true →
      Waits interval cancelAt check now s ⟨.cancelled, time, s⟩
  | timedOut {now : Nat} {s : σ} (attempts waited : Nat) : reached cancelAt now = false →
      Waits interval cancelAt check now s ⟨.timedOut attempts waited, now, s⟩
  /-- a check was made that is given up -/
  | cancelledLate {now : Nat} {s : σ} (time : Nat) : reached cancelAt (now + interval) = false →
      now + interval ≤ time → reached cancelAt time = true →
      Waits interval cancelAt check now s ⟨.cancelled, time, (check (now + interval) s).2⟩
  | timedOutLate {now : Nat} {s : σ} (attempts waited time : Nat) : now + interval ≤ time →
      reached cancelAt time = false →
      Waits interval cancelAt check now s ⟨.timedOut attempts waited, time, (check (now + interval) s).2⟩
  | ready {now : Nat} {s : σ} (v : α) (time : Nat) : (check (now + interval) s).1.found = some v →
      now + interval ≤ time → reached cancelAt time = false →
      Waits interval cancelAt check now s ⟨.ready v, time, (check (now + interval) s).2⟩
  | again {now : Nat} {s : σ} {ending : Ending σ α} (time : Nat) :
      (check (now + interval) s).1.found = none → now + interval ≤ time →
      reached cancelAt time = false →
      Waits interval cancelAt check time (check (now + interval) s).2 ending →
      Waits interval cancelAt check now s ending

variable {pace : Pace} {started : Nat} {cancelAt : Option Nat} {check : Nat → σ → Attempt α × σ}

/-- What is looked at before a check: either the wait ends here, or the check is made. -/
theorem waits_or_checks {attempts now : Nat} {s : σ} {ending : Ending σ α} {checked : Option (Ending σ α)}
    (h : (if reached cancelAt now then some ⟨.cancelled, now, s⟩
      else if started + pace.limit ≤ now then some ⟨.timedOut attempts (now - started), now, s⟩
      else if reached cancelAt (now + pace.interval) then some ⟨.cancelled, cancelAt.getD now, s⟩
      else checked) = some ending) :
    Waits pace.interval cancelAt check now s ending ∨
      reached cancelAt (now + pace.interval) = false ∧ checked = some ending := by
  by_cases hnow : reached cancelAt now = true
  · rw [if_pos hnow] at h
    obtain rfl := Option.some.inj h
    exact .inl (.cancelled now (Nat.le_refl now) hnow)
  · rw [if_neg hnow] at h
    rw [Bool.not_eq_true] at hnow
    by_cases hpast : started + pace.limit ≤ now
    · rw [if_pos hpast] at h
      obtain rfl := Option.some.inj h
      exact .inl (.timedOut _ _ hnow)
    · rw [if_neg hpast] at h
      by_cases hwake : reached cancelAt (now + pace.interval) = true
      · rw [if_pos hwake] at h
        obtain ⟨c, rfl, hlt, _⟩ := exists_of_reached hnow hwake
        obtain rfl := Option.some.inj h
        exact .inl (.cancelled c (Nat.le_of_lt hlt) (by simp [reached]))
      · rw [if_neg hwake] at h
        rw [Bool.not_eq_true] at hwake
        exact .inr ⟨hwake, h⟩

theorem waits_of_loop {more attempts now : Nat} {s : σ} {ending : Ending σ α}
    (h : loop pace started cancelAt check more attempts now s = some ending) :
    Waits pace.interval cancelAt check now s ending := by
  induction more generalizing attempts now s with
  | zero =>
    rw [loop] at h
    rcases waits_or_checks h with hwaits | ⟨_, hnone⟩
    · exact hwaits
    · cases hnone
  | succ more ih =>
    rw [loop] at h
    rcases waits_or_checks h with hwaits | ⟨hwake, hcheck⟩
    · exact hwaits
    · let wake := now + pace.interval
      let latency := (check wake s).1.latency
      let stopped := max wake (started + pace.limit)
      change (if latency ≠ 0 ∧ reached cancelAt (min (wake + latency) stopped) = true then _
        else if latency ≠ 0 ∧ started + pace.limit < wake + latency then _ else _) = _ at hcheck
      by_cases hlate : latency ≠ 0 ∧ reached cancelAt (min (wake + latency) stopped) = true
      · rw [if_pos hlate] at hcheck
        obtain ⟨c, rfl, hlt, _⟩ := exists_of_reached hwake hlate.2
        obtain rfl := Option.some.inj hcheck
        exact .cancelledLate c hwake (Nat.le_of_lt hlt) (by simp [reached])
      · rw [if_neg hlate] at hcheck
        have hmin : latency = 0 ∨ reached cancelAt (min (wake + latency) stopped) = false := by
          by_cases hzero : latency = 0
          · exact .inl hzero
          · exact .inr (by simpa [hzero] using hlate)
        by_cases hpast : latency ≠ 0 ∧ started + pace.limit < wake + latency
        · rw [if_pos hpast] at hcheck
          obtain rfl := Option.some.inj hcheck
          refine .timedOutLate _ _ stopped (Nat.le_max_left _ _) ?_
          rcases hmin with hzero | hmin
          · exact absurd hzero hpast.1
          · rwa [Nat.min_eq_right (by omega)] at hmin
        · rw [if_neg hpast] at hcheck
          have hended : reached cancelAt (wake + latency) = false := by
            rcases hmin with hzero | hmin
            · rwa [hzero]
            · exact reached_mono (by omega) hmin
          cases hfound : (check wake s).1.found with
          | some v =>
            rw [hfound] at hcheck
            obtain rfl := Option.some.inj hcheck
            exact .ready v (wake + latency) hfound (Nat.le_add_right _ _) hended
          | none =>
            rw [hfound] at hcheck
            exact .again (wake + latency) hfound (Nat.le_add_right _ _) hended (ih hcheck)

end Poll

end LocalFleet
