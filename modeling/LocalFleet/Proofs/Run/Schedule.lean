import LocalFleet.Proofs.Run.Poll

/-! When a wait makes its checks and how it ends, from the sequence of its attempts: some that find
nothing, and then one that finds something, one that is given up, or the limit. -/

namespace LocalFleet.Poll

variable {α : Type}

def making (attempts : Nat → Attempt α) (now : Nat) (begun : List Nat) : Attempt α × List Nat :=
  (attempts begun.length, begun ++ [now])

/-- A wait with the attempts that it makes, if it comes to that. -/
structure Schedule (α : Type) where
  pace : Pace
  attempts : Nat → Attempt α
  start : Nat

namespace Schedule

/-- How the wait ends if it is cancelled at an instant, if at all. -/
def run (w : Schedule α) (cancelAt : Option Nat) : Option (Ending (List Nat) α) :=
  Poll.run w.pace cancelAt (making w.attempts) w.start []

def elapsed (w : Schedule α) : Nat → Nat
  | 0 => 0
  | k + 1 => w.elapsed k + w.pace.interval + (w.attempts k).latency

def begins (w : Schedule α) (k : Nat) : Nat := w.start + w.elapsed k + w.pace.interval

def begun (w : Schedule α) (k : Nat) : List Nat := (List.range k).map w.begins

/-- Whether an attempt is begun before the limit and not given up: it ends at once, or by the limit. -/
structure InTime (w : Schedule α) (k : Nat) : Prop where
  begins_lt : w.elapsed k < w.pace.limit
  ends_le : w.elapsed (k + 1) ≤ w.pace.limit ∨ (w.attempts k).latency = 0

/-- Whether the first attempts are all in time and find nothing. -/
def Fruitless (w : Schedule α) (k : Nat) : Prop := ∀ j < k, w.InTime j ∧ (w.attempts j).found = none

/-- Whether an attempt is the first that finds something. -/
structure FirstFinds (w : Schedule α) (k : Nat) (v : α) : Prop where
  found : (w.attempts k).found = some v
  before : ∀ j < k, (w.attempts j).found = none

/-- The wait after some attempts. -/
def after (w : Schedule α) (cancelAt : Option Nat) (more k : Nat) : Option (Ending (List Nat) α) :=
  loop w.pace w.start cancelAt (making w.attempts) more k (w.start + w.elapsed k) (w.begun k)

variable {w : Schedule α} {more k : Nat} {e : Ending (List Nat) α}

theorem elapsed_succ (w : Schedule α) (k : Nat) :
    w.elapsed (k + 1) = w.elapsed k + w.pace.interval + (w.attempts k).latency := rfl

theorem elapsed_mono (w : Schedule α) {j k : Nat} (h : j ≤ k) : w.elapsed j ≤ w.elapsed k := by
  induction h with
  | refl => exact Nat.le_refl _
  | step _ ih =>
    rw [elapsed_succ]
    omega

theorem mul_le_elapsed (w : Schedule α) (k : Nat) : k * w.pace.interval ≤ w.elapsed k := by
  induction k with
  | zero => simp [elapsed]
  | succ k ih =>
    rw [elapsed_succ, Nat.succ_mul]
    omega

theorem elapsed_of_instant (h : ∀ k, (w.attempts k).latency = 0) (k : Nat) :
    w.elapsed k = k * w.pace.interval := by
  induction k with
  | zero => simp [elapsed]
  | succ k ih => rw [elapsed_succ, ih, h k, Nat.succ_mul, Nat.add_zero]

theorem begins_mono (w : Schedule α) {j k : Nat} (h : j ≤ k) : w.begins j ≤ w.begins k := by
  have := w.elapsed_mono h
  simp only [begins]
  omega

theorem begins_le_elapsed_succ (w : Schedule α) (k : Nat) : w.begins k ≤ w.start + w.elapsed (k + 1) := by
  rw [begins, elapsed_succ]
  omega

@[simp] theorem length_begun (w : Schedule α) (k : Nat) : (w.begun k).length = k := by simp [begun]

theorem begun_succ (w : Schedule α) (k : Nat) : w.begun (k + 1) = w.begun k ++ [w.begins k] := by
  simp [begun, List.range_succ]

theorem run_eq_after (w : Schedule α) (cancelAt : Option Nat) :
    w.run cancelAt = w.after cancelAt attemptLimit 0 := rfl

theorem fruitless_zero (w : Schedule α) : w.Fruitless 0 := fun _ h => absurd h (Nat.not_lt_zero _)

theorem fruitless_succ_iff :
    w.Fruitless (k + 1) ↔ w.Fruitless k ∧ w.InTime k ∧ (w.attempts k).found = none :=
  Nat.forall_lt_succ_right

/-! The ways in which a wait goes on. A cancellation counts once its instant is reached. -/

section Ways

variable {cancelAt : Option Nat} {c : Nat}

theorem after_of_cancelled (h : reached cancelAt (w.start + w.elapsed k) = true) :
    w.after cancelAt more k = some ⟨.cancelled, w.start + w.elapsed k, w.begun k⟩ := by
  rw [after, loop.eq_def]
  simp [h]

theorem after_of_lapsed (hcancel : reached cancelAt (w.start + w.elapsed k) = false)
    (h : w.pace.limit ≤ w.elapsed k) : w.after cancelAt more k =
      some ⟨.timedOut k (w.elapsed k), w.start + w.elapsed k, w.begun k⟩ := by
  rw [after, loop.eq_def]
  simp [hcancel, h]

theorem after_of_cancelled_before (hnow : w.start + w.elapsed k < c) (h : w.elapsed k < w.pace.limit)
    (hc : c ≤ w.begins k) : w.after (some c) more k = some ⟨.cancelled, c, w.begun k⟩ := by
  rw [begins] at hc
  rw [after, loop.eq_def]
  simp [reached_some, hnow.not_ge, h.not_ge, hc]

theorem after_zero (hcancel : reached cancelAt (w.begins k) = false)
    (h : w.elapsed k < w.pace.limit) : w.after cancelAt 0 k = none := by
  have hnow := reached_mono (Nat.le_add_right _ _) hcancel
  rw [begins] at hcancel
  rw [after, loop]
  simp [hnow, hcancel, h.not_ge]

theorem after_succ (hcancel : reached cancelAt (w.begins k) = false)
    (h : w.elapsed k < w.pace.limit) : w.after cancelAt (more + 1) k =
      if (w.attempts k).latency ≠ 0 ∧
          reached cancelAt (min (w.start + w.elapsed (k + 1)) (max (w.begins k) (w.start + w.pace.limit))) then
        some ⟨.cancelled, cancelAt.getD (w.start + w.elapsed k), w.begun (k + 1)⟩
      else if (w.attempts k).latency ≠ 0 ∧ w.pace.limit < w.elapsed (k + 1) then
        some ⟨.timedOut (k + 1) (max (w.begins k) (w.start + w.pace.limit) - w.start),
          max (w.begins k) (w.start + w.pace.limit), w.begun (k + 1)⟩
      else match (w.attempts k).found with
        | some v => some ⟨.ready v, w.start + w.elapsed (k + 1), w.begun (k + 1)⟩
        | none => w.after cancelAt more (k + 1) := by
  have hnow := reached_mono (Nat.le_add_right _ _) hcancel
  have hends : w.start + w.elapsed k + w.pace.interval + (w.attempts k).latency =
      w.start + w.elapsed (k + 1) := by
    rw [elapsed_succ]
    omega
  rw [begins] at hcancel
  rw [after, loop]
  cases hfound : (w.attempts k).found <;>
    simp only [making, length_begun, hends, begun_succ, after, begins, hnow, hcancel, hfound, h.not_ge,
      if_false, Bool.false_eq_true, Nat.add_le_add_iff_left, Nat.add_lt_add_iff_left]

theorem after_of_cancelled_within (hwake : w.begins k < c) (h : w.elapsed k < w.pace.limit)
    (hlatency : (w.attempts k).latency ≠ 0)
    (hc : c ≤ min (w.start + w.elapsed (k + 1)) (max (w.begins k) (w.start + w.pace.limit))) :
    w.after (some c) (more + 1) k = some ⟨.cancelled, c, w.begun (k + 1)⟩ := by
  rw [after_succ (reached_of_lt hwake) h, if_pos ⟨hlatency, decide_eq_true hc⟩]
  rfl

theorem after_of_late (h : w.elapsed k < w.pace.limit) (hlate : w.pace.limit < w.elapsed (k + 1))
    (hlatency : (w.attempts k).latency ≠ 0)
    (hcancel : reached cancelAt (max (w.begins k) (w.start + w.pace.limit)) = false) :
    w.after cancelAt (more + 1) k =
      some ⟨.timedOut (k + 1) (max (w.begins k) (w.start + w.pace.limit) - w.start),
        max (w.begins k) (w.start + w.pace.limit), w.begun (k + 1)⟩ := by
  have hnot : ¬ ((w.attempts k).latency ≠ 0 ∧ reached cancelAt (min (w.start + w.elapsed (k + 1))
      (max (w.begins k) (w.start + w.pace.limit))) = true) := by
    simp [reached_mono (Nat.min_le_right _ _) hcancel]
  rw [after_succ (reached_mono (Nat.le_max_left _ _) hcancel) h, if_neg hnot, if_pos ⟨hlatency, hlate⟩]

theorem after_of_inTime (h : w.InTime k)
    (hcancel : reached cancelAt (w.start + w.elapsed (k + 1)) = false) :
    w.after cancelAt (more + 1) k = match (w.attempts k).found with
      | some v => some ⟨.ready v, w.start + w.elapsed (k + 1), w.begun (k + 1)⟩
      | none => w.after cancelAt more (k + 1) := by
  have hlate : ¬ ((w.attempts k).latency ≠ 0 ∧ w.pace.limit < w.elapsed (k + 1)) := by
    have := h.ends_le
    omega
  have hnot : ¬ ((w.attempts k).latency ≠ 0 ∧ reached cancelAt (min (w.start + w.elapsed (k + 1))
      (max (w.begins k) (w.start + w.pace.limit))) = true) := by
    simp [reached_mono (Nat.min_le_left _ _) hcancel]
  rw [after_succ (reached_mono (w.begins_le_elapsed_succ k) hcancel) h.begins_lt, if_neg hnot,
    if_neg hlate]

end Ways

/-- How a wait that nobody cancels ends, its first `k` attempts being fruitless. -/
inductive Settles (w : Schedule α) (k : Nat) : Ending (List Nat) α → Prop where
  | lapsed : w.pace.limit ≤ w.elapsed k →
      Settles w k ⟨.timedOut k (w.elapsed k), w.start + w.elapsed k, w.begun k⟩
  | late (stopped : Nat) : w.elapsed k < w.pace.limit → w.pace.limit < w.elapsed (k + 1) →
      (w.attempts k).latency ≠ 0 → stopped = max (w.begins k) (w.start + w.pace.limit) →
      Settles w k ⟨.timedOut (k + 1) (stopped - w.start), stopped, w.begun (k + 1)⟩
  | found (v : α) : w.InTime k → (w.attempts k).found = some v →
      Settles w k ⟨.ready v, w.start + w.elapsed (k + 1), w.begun (k + 1)⟩

/-- A wait that has made some attempts in vain makes more of them in vain, until it ends or cannot count
them any more. -/
theorem settles_or_uncounted (more : Nat) (hk : w.Fruitless k) :
    (∃ j e, k ≤ j ∧ w.Fruitless j ∧ w.Settles j e ∧ w.after none more k = some e) ∨
      w.Fruitless (k + more) ∧ w.elapsed (k + more) < w.pace.limit ∧ w.after none more k = none := by
  induction more generalizing k with
  | zero =>
    by_cases hpast : w.pace.limit ≤ w.elapsed k
    · exact .inl ⟨k, _, Nat.le_refl k, hk, .lapsed hpast, after_of_lapsed rfl hpast⟩
    · exact .inr ⟨hk, not_le.mp hpast, after_zero rfl (not_le.mp hpast)⟩
  | succ more ih =>
    by_cases hpast : w.pace.limit ≤ w.elapsed k
    · exact .inl ⟨k, _, Nat.le_refl k, hk, .lapsed hpast, after_of_lapsed rfl hpast⟩
    · have hbefore := not_le.mp hpast
      by_cases hlate : w.pace.limit < w.elapsed (k + 1) ∧ (w.attempts k).latency ≠ 0
      · exact .inl ⟨k, _, Nat.le_refl k, hk, .late _ hbefore hlate.1 hlate.2 rfl,
          after_of_late hbefore hlate.1 hlate.2 rfl⟩
      · have htime : w.InTime k := ⟨hbefore, by omega⟩
        rw [after_of_inTime htime rfl]
        cases hfound : (w.attempts k).found with
        | some v => exact .inl ⟨k, _, Nat.le_refl k, hk, .found v htime hfound, rfl⟩
        | none =>
          rcases ih (fruitless_succ_iff.mpr ⟨hk, htime, hfound⟩) with ⟨j, e, hj, h⟩ | h
          · exact .inl ⟨j, e, Nat.le_of_succ_le hj, h⟩
          · rw [Nat.succ_add] at h
            exact .inr h

theorem after_of_fruitless (more : Nat) (hk : w.Fruitless k) :
    w.after none (more + k) 0 = w.after none more k := by
  induction k generalizing more with
  | zero => rfl
  | succ k ih =>
    obtain ⟨hk, htime, hfound⟩ := fruitless_succ_iff.mp hk
    calc w.after none (more + (k + 1)) 0
        = w.after none (more + 1 + k) 0 := by rw [Nat.add_right_comm, Nat.add_assoc]
      _ = w.after none (more + 1) k := ih (more + 1) hk
      _ = w.after none more (k + 1) := by
        rw [after_of_inTime htime rfl, hfound]

theorem run_eq_none_iff : w.run none = none ↔
    w.Fruitless attemptLimit ∧ w.elapsed attemptLimit < w.pace.limit := by
  constructor
  · intro hrun
    rcases settles_or_uncounted attemptLimit w.fruitless_zero with ⟨_, e, _, _, _, h⟩ | h
    · exact absurd (h.symm.trans hrun) (by simp)
    · rw [Nat.zero_add] at h
      exact ⟨h.1, h.2.1⟩
  · rintro ⟨hk, hbefore⟩
    have hmore := after_of_fruitless 0 hk
    rw [Nat.zero_add, after_zero rfl hbefore] at hmore
    exact hmore

theorem exists_settles (h : w.run none = some e) : ∃ k, w.Fruitless k ∧ w.Settles k e := by
  rcases settles_or_uncounted attemptLimit w.fruitless_zero with ⟨k, e', _, hk, hsettles, hrun⟩ | hnone
  · obtain rfl := Option.some.inj (hrun.symm.trans h)
    exact ⟨k, hk, hsettles⟩
  · exact absurd (hnone.2.2.symm.trans h) (by simp)

theorem InTime.ends_lt (h : w.InTime k) (hinterval : 0 < w.pace.interval) :
    w.elapsed (k + 1) < w.pace.limit + w.pace.interval := by
  have hbefore := h.begins_lt
  rcases h.ends_le with hle | hinstant
  · omega
  · rw [elapsed_succ, hinstant]
    omega

theorem Fruitless.elapsed_lt (h : w.Fruitless k) (hinterval : 0 < w.pace.interval) :
    w.elapsed k < w.pace.limit + w.pace.interval := by
  cases k with
  | zero =>
    rw [elapsed]
    omega
  | succ k => exact (fruitless_succ_iff.mp h).2.1.ends_lt hinterval

namespace Settles

variable {v : α}

theorem time_le (h : w.Settles k e) (hk : w.Fruitless k) (hinterval : 0 < w.pace.interval) :
    e.time ≤ w.start + w.pace.limit + w.pace.interval := by
  cases h with
  | lapsed _ =>
    have := hk.elapsed_lt hinterval
    show w.start + w.elapsed k ≤ _
    omega
  | late stopped hbefore _ _ hstopped =>
    show stopped ≤ _
    rw [hstopped, begins]
    omega
  | found v htime _ =>
    have := htime.ends_lt hinterval
    show w.start + w.elapsed (k + 1) ≤ _
    omega

theorem state_eq (h : w.Settles k e) : e.state = w.begun e.state.length := by
  cases h <;> simp

/-- An attempt that is in time and the first to find something is the one that the wait ends with. -/
theorem of_firstFinds (h : w.Settles k e) (hk : w.Fruitless k) {j : Nat} (hfirst : w.FirstFinds j v)
    (htime : w.InTime j) : e = ⟨.ready v, w.start + w.elapsed (j + 1), w.begun (j + 1)⟩ := by
  rcases Nat.lt_trichotomy j k with hlt | rfl | hgt
  · exact absurd hfirst.found (by simp [(hk j hlt).2])
  · cases h with
    | lapsed hpast => exact absurd htime.begins_lt hpast.not_gt
    | late _ _ hlate hlatency _ =>
      have := htime.ends_le
      omega
    | found v' _ hfound =>
      obtain rfl := Option.some.inj (hfound.symm.trans hfirst.found)
      rfl
  · have hnext : w.elapsed (k + 1) ≤ w.elapsed j := w.elapsed_mono hgt
    have hbefore := htime.begins_lt
    cases h with
    | lapsed hpast =>
      have := w.elapsed_mono (Nat.le_of_lt hgt)
      omega
    | late _ _ hlate _ _ => omega
    | found v' _ hfound => exact absurd hfound (by simp [hfirst.before k hgt])

theorem firstFinds_of_ready (h : w.Settles k e) (hk : w.Fruitless k) (hready : e.outcome = .ready v) :
    w.FirstFinds k v ∧ w.InTime k := by
  cases h with
  | lapsed _ => cases hready
  | late _ _ _ _ _ => cases hready
  | found v' htime hfound =>
    cases hready
    exact ⟨⟨hfound, fun j hj => (hk j hj).2⟩, htime⟩

theorem of_not_ready (h : w.Settles k e) (hready : e.outcome.isReady = false) :
    ∃ waited, e.outcome = .timedOut e.state.length waited ∧ e.time = w.start + waited ∧
      w.pace.limit ≤ waited := by
  cases h with
  | lapsed hpast => exact ⟨w.elapsed k, by simp, rfl, hpast⟩
  | late stopped _ _ _ hstopped => exact ⟨stopped - w.start, by simp, by simp; omega, by omega⟩
  | found _ _ _ => cases hready

/-- Attempts that take no time and find nothing are made as long as the limit has not passed. -/
theorem length_of_instant (h : w.Settles k e) (hk : w.Fruitless k) (hinterval : 0 < w.pace.interval)
    (hinstant : ∀ j, (w.attempts j).latency = 0) (hnone : ∀ j, (w.attempts j).found = none) :
    e.state.length = w.pace.limit ⌈/⌉ w.pace.interval := by
  cases h with
  | lapsed hpast =>
    rw [length_begun]
    rw [elapsed_of_instant hinstant] at hpast
    refine le_antisymm ?_ (ceilDiv_le_iff_le_mul hinterval |>.mpr ?_)
    · cases k with
      | zero => exact Nat.zero_le _
      | succ j =>
        have hbefore := (fruitless_succ_iff.mp hk).2.1.begins_lt
        rw [elapsed_of_instant hinstant] at hbefore
        by_contra hlt
        have hle := (ceilDiv_le_iff_le_mul hinterval).mp (Nat.lt_succ_iff.mp (not_le.mp hlt))
        rw [Nat.mul_comm] at hbefore
        omega
    · rwa [Nat.mul_comm]
  | late _ _ _ hlatency _ => exact absurd (hinstant k) hlatency
  | found v _ hfound => exact absurd hfound (by simp [hnone k])

end Settles

/-- How a wait ends whose attempts can be counted. -/
structure Punctual (w : Schedule α) (e : Ending (List Nat) α) : Prop where
  time_le : e.time ≤ w.start + w.pace.limit + w.pace.interval
  state_eq : e.state = w.begun e.state.length
  /-- without any time it made none -/
  of_limit_eq_zero : w.pace.limit = 0 → e = ⟨.timedOut 0 0, w.start, []⟩
  one_le_length : 0 < w.pace.limit → 1 ≤ e.state.length
  ready_iff : ∀ v, e.outcome = .ready v ↔ ∃ k, w.FirstFinds k v ∧ w.InTime k
  of_firstFinds : ∀ k v, w.FirstFinds k v → w.InTime k →
    e = ⟨.ready v, w.start + w.elapsed (k + 1), w.begun (k + 1)⟩
  /-- else it ran out of time, and not before the limit -/
  of_not_ready : e.outcome.isReady = false → ∃ waited, e.outcome = .timedOut e.state.length waited ∧
    e.time = w.start + waited ∧ w.pace.limit ≤ waited ∧ waited ≤ w.pace.limit + w.pace.interval
  length_of_instant : (∀ k, (w.attempts k).latency = 0) → (∀ k, (w.attempts k).found = none) →
    e.state.length = w.pace.limit ⌈/⌉ w.pace.interval

theorem Settles.of_limit_eq_zero (h : w.Settles k e) (hk : w.Fruitless k) (hlimit : w.pace.limit = 0) :
    e = ⟨.timedOut 0 0, w.start, []⟩ := by
  have hzero : k = 0 := by
    cases k with
    | zero => rfl
    | succ j =>
      have := (fruitless_succ_iff.mp hk).2.1.begins_lt
      omega
  subst hzero
  cases h with
  | lapsed _ => rfl
  | late _ hbefore _ _ _ => omega
  | found _ htime _ =>
    have := htime.begins_lt
    omega

theorem Settles.one_le_length (h : w.Settles k e) (hlimit : 0 < w.pace.limit) : 1 ≤ e.state.length := by
  cases h with
  | lapsed hpast =>
    cases k with
    | zero => exact absurd hpast hlimit.not_ge
    | succ j => simp
  | late _ _ _ _ _ => simp
  | found _ _ _ => simp

theorem Settles.punctual (h : w.Settles k e) (hk : w.Fruitless k) (hinterval : 0 < w.pace.interval) :
    w.Punctual e where
  time_le := h.time_le hk hinterval
  state_eq := h.state_eq
  of_limit_eq_zero := h.of_limit_eq_zero hk
  one_le_length := h.one_le_length
  ready_iff v := by
    constructor
    · exact fun hready => ⟨k, h.firstFinds_of_ready hk hready⟩
    · rintro ⟨j, hfirst, htime⟩
      rw [h.of_firstFinds hk hfirst htime]
  of_firstFinds _ _ hfirst htime := h.of_firstFinds hk hfirst htime
  of_not_ready hready := by
    obtain ⟨waited, houtcome, htime, hlimit⟩ := h.of_not_ready hready
    have hle := h.time_le hk hinterval
    exact ⟨waited, houtcome, htime, hlimit, by omega⟩
  length_of_instant := h.length_of_instant hk hinterval

/-- A wait ends, if its limit is no more intervals than attempts can be counted, and it is punctual. -/
theorem run_punctual (w : Schedule α) (hinterval : 0 < w.pace.interval)
    (hlimit : w.pace.limit ≤ attemptLimit * w.pace.interval) :
    ∃ e, w.run none = some e ∧ w.Punctual e := by
  have hcounted : w.run none ≠ none := by
    intro hnone
    have hbefore := (run_eq_none_iff.mp hnone).2
    have hmul := w.mul_le_elapsed attemptLimit
    omega
  obtain ⟨e, hrun⟩ := Option.ne_none_iff_exists'.mp hcounted
  obtain ⟨k, hk, hsettles⟩ := exists_settles hrun
  exact ⟨e, hrun, hsettles.punctual hk hinterval⟩

/-- A first attempt that takes some time, and a second one that finds something at once. -/
def specimen : Schedule Nat := ⟨⟨10, 35⟩, fun k => if k = 0 then ⟨5, none⟩ else ⟨0, some k⟩, 3⟩

theorem run_punctual_specimen : specimen.run none = some ⟨.ready 1, 28, [13, 28]⟩ ∧
    specimen.Punctual ⟨.ready 1, 28, [13, 28]⟩ := by
  obtain ⟨e, hrun, h⟩ := run_punctual specimen (by decide) (by decide)
  have he : e = ⟨.ready 1, 28, [13, 28]⟩ :=
    h.of_firstFinds 1 1 ⟨rfl, by decide⟩ ⟨by decide, .inr rfl⟩
  exact he ▸ ⟨hrun, h⟩

/-- A limit of less than `2 ^ 32` intervals, though of more than `2 ^ 32 - 1`. -/
def overlong : Schedule Unit := ⟨⟨20000000, 85899345919999999⟩, fun _ => ⟨0, none⟩, 0⟩

theorem elapsed_overlong (k : Nat) : overlong.elapsed k = k * 20000000 :=
  elapsed_of_instant (fun _ => rfl) k

theorem run_overlong : 0 < overlong.pace.interval ∧
    overlong.pace.limit < 2 ^ 32 * overlong.pace.interval ∧ overlong.run none = none := by
  refine ⟨by decide, by decide, run_eq_none_iff.mpr ⟨fun j hj => ⟨⟨?_, .inr rfl⟩, rfl⟩, ?_⟩⟩
  · rw [elapsed_overlong]
    simp only [attemptLimit, overlong] at hj ⊢
    omega
  · rw [elapsed_overlong]
    decide

end Schedule

end LocalFleet.Poll
