import LocalFleet.Proofs.Moves
import LocalFleet.Run.Shutdown
import Mathlib

/-! Runs that are stopped by any number of callers at once. The fleet is told to stop at most once, and a
caller that has returned leaves behind a run that was told to stop and has ended, with no fleet waiting
to be stopped. It does not leave behind a fleet that has stopped, nor even one that was told to: the one
caller that took it may still have to tell it, or wait. -/

namespace LocalFleet.Shutdown

/-- What a step of a caller makes of what is shared, and where the caller stands then. -/
inductive Steps (s : Shared) : Place → Shared → Place → Prop where
  | tell : Steps s .called { s with cancelled := true } .looking
  | take : s.fleet = true → Steps s .looking { s with fleet := false } .holding
  | stop : Steps s .holding { s with stops := s.stops + 1 } (.stopping false)
  | pass : s.fleet = false → Steps s .looking s .queued
  | stopped : Steps s (.stopping true) s .queued
  | lock : s.locked = false → s.handle = true →
      Steps s .queued { s with handle := false, locked := true } .joining
  | skip : s.locked = false → s.handle = false → Steps s .queued s .lookingAgain
  | join : s.exited = true → Steps s .joining { s with locked := false } .lookingAgain
  | takeLate : s.fleet = true → Steps s .lookingAgain { s with fleet := false } .holdingLate
  | stopLate : Steps s .holdingLate { s with stops := s.stops + 1 } (.stoppingLate false)
  | passLate : s.fleet = false → Steps s .lookingAgain s .returned
  | stoppedLate : Steps s (.stoppingLate true) s .returned

theorem steps_of_advance {s t : Shared} {p q : Place} (h : advance s p = some (t, q)) :
    Steps s p t q := by
  cases p with
  | called =>
    cases h
    exact .tell
  | looking =>
    simp only [advance] at h
    split at h
    · next hfleet =>
      cases h
      exact .take hfleet
    · next hfleet =>
      cases h
      exact .pass (by simpa using hfleet)
  | holding =>
    cases h
    exact .stop
  | stopping ended =>
    cases ended <;> cases h
    exact .stopped
  | queued =>
    simp only [advance] at h
    split at h
    · cases h
    · next hlocked =>
      split at h
      · next hhandle =>
        cases h
        exact .lock (by simpa using hlocked) hhandle
      · next hhandle =>
        cases h
        exact .skip (by simpa using hlocked) (by simpa using hhandle)
  | joining =>
    simp only [advance] at h
    split at h
    · next hexited =>
      cases h
      exact .join hexited
    · cases h
  | lookingAgain =>
    simp only [advance] at h
    split at h
    · next hfleet =>
      cases h
      exact .takeLate hfleet
    · next hfleet =>
      cases h
      exact .passLate (by simpa using hfleet)
  | holdingLate =>
    cases h
    exact .stopLate
  | stoppingLate ended =>
    cases ended <;> cases h
    exact .stoppedLate
  | returned => cases h

def Place.holdsLock : Place → Bool
  | joining => true
  | _ => false

/-- Whether the caller has taken the fleet and has yet to tell it to stop. -/
def Place.holdsFleet : Place → Bool
  | holding | holdingLate => true
  | _ => false

/-- What a caller has made sure of by the time it stands somewhere. -/
structure Place.Sure (p : Place) (s : Shared) : Prop where
  told : p ≠ .called → s.cancelled = true
  waited : p.rank ≤ 3 → s.exited = true
  lookedAgain : p.rank ≤ 2 → s.fleet = false

/-- Whoever has not begun to wait for the task can do so, or has to wait for another, or need not. -/
def Shared.Joinable (s : Shared) : Prop := s.handle = true ∨ s.locked = true ∨ s.exited = true

section

variable {s t : Shared} {p q : Place}

/-- What a caller has made sure of stays so while others move, since no fleet appears once the task has
ended. -/
theorem Place.Sure.mono (h : p.Sure s) (hcancelled : s.cancelled = true → t.cancelled = true)
    (hexited : s.exited = true → t.exited = true)
    (hfleet : s.exited = true → s.fleet = false → t.fleet = false) : p.Sure t where
  told hp := hcancelled (h.told hp)
  waited hp := hexited (h.waited hp)
  lookedAgain hp := hfleet (h.waited (by omega)) (h.lookedAgain hp)

theorem Steps.exited (h : Steps s p t q) : t.exited = s.exited := by cases h <;> rfl

theorem Steps.launched (h : Steps s p t q) : t.launched = s.launched := by cases h <;> rfl

theorem Steps.cancelled (h : Steps s p t q) (hs : s.cancelled = true) : t.cancelled = true := by
  cases h with
  | tell => rfl
  | _ => exact hs

theorem Steps.fleet (h : Steps s p t q) (hs : s.fleet = false) : t.fleet = false := by
  cases h with
  | take | takeLate => rfl
  | _ => exact hs

theorem Steps.not_returned (h : Steps s p t q) : p ≠ .returned := by cases h <;> nofun

/-- A fleet waits for someone to stop it until a caller takes it, who tells it to. -/
theorem Steps.stops (h : Steps s p t q) : t.stops + t.fleet.toNat + q.holdsFleet.toNat =
    s.stops + s.fleet.toNat + p.holdsFleet.toNat := by
  cases h with
  | take hfleet | takeLate hfleet => simp [hfleet, Place.holdsFleet]
  | stop | stopLate =>
    simp only [Place.holdsFleet, Bool.toNat_true, Bool.toNat_false]
    omega
  | _ => rfl

theorem Steps.awaitsStop (h : Steps s p t q) :
    t.stops + p.awaitsStop.toNat = s.stops + q.awaitsStop.toNat := by
  cases h <;> rfl

theorem Steps.locked (h : Steps s p t q) (hp : p.holdsLock = true → s.locked = true) :
    t.locked.toNat + p.holdsLock.toNat = s.locked.toNat + q.holdsLock.toNat := by
  cases h with
  | lock hlocked hhandle => simp [hlocked, Place.holdsLock]
  | join hexited => simp [hp rfl, Place.holdsLock]
  | _ => rfl

theorem Steps.joinable (h : Steps s p t q) (hs : s.Joinable) : t.Joinable := by
  cases h with
  | lock hlocked hhandle => exact .inr (.inl rfl)
  | join hexited => exact .inr (.inr hexited)
  | _ => exact hs

/-- A caller goes on to where it has to have made sure of more only when it has. -/
theorem Steps.sure (h : Steps s p t q) (hp : p.Sure s) (hs : s.Joinable) : q.Sure t := by
  cases h with
  | tell => exact ⟨fun _ => rfl, by simp [Place.rank], by simp [Place.rank]⟩
  | take hfleet | stop | pass hfleet | stopped | lock hlocked hhandle =>
    exact ⟨fun _ => hp.told (by decide), by simp [Place.rank], by simp [Place.rank]⟩
  | skip hlocked hhandle =>
    refine ⟨fun _ => hp.told (by decide), fun _ => ?_, by simp [Place.rank]⟩
    simpa [Shared.Joinable, hlocked, hhandle] using hs
  | join hexited => exact ⟨fun _ => hp.told (by decide), fun _ => hexited, by simp [Place.rank]⟩
  | takeLate hfleet =>
    exact ⟨fun _ => hp.told (by decide), fun _ => hp.waited (Nat.le_refl 3), fun _ => rfl⟩
  | passLate hfleet =>
    exact ⟨fun _ => hp.told (by decide), fun _ => hp.waited (Nat.le_refl 3), fun _ => hfleet⟩
  | stopLate | stoppedLate =>
    exact ⟨fun _ => hp.told (by decide), fun _ => hp.waited (by decide),
      fun _ => hp.lookedAgain (by decide)⟩

end

namespace System

inductive Moves : System → System → Prop where
  | call (s : Shared) (callers : List Place) : Moves ⟨s, callers⟩ ⟨s, callers ++ [.called]⟩
  | step {s t : Shared} {p q : Place} (before after : List Place) : Steps s p t q →
      Moves ⟨s, before ++ p :: after⟩ ⟨t, before ++ q :: after⟩
  | stopEnds {p : Place} (s : Shared) (before after : List Place) : p.awaitsStop = true →
      Moves ⟨s, before ++ p :: after⟩ ⟨s, before ++ p.stopEnded :: after⟩
  | install (s : Shared) (callers : List Place) : s.exited = false → s.launched = false →
      Moves ⟨s, callers⟩ ⟨{ s with fleet := true, launched := true }, callers⟩
  | exit (s : Shared) (callers : List Place) : Moves ⟨s, callers⟩ ⟨{ s with exited := true }, callers⟩

theorem exists_of_getElem? {callers : List Place} {i : Nat} {p : Place} (h : callers[i]? = some p)
    (q : Place) : ∃ before after, callers = before ++ p :: after ∧
      callers.set i q = before ++ q :: after := by
  obtain ⟨hi, rfl⟩ := List.getElem?_eq_some_iff.1 h
  obtain ⟨before, after, hcallers, _, hset⟩ := @List.exists_of_set _ i q callers hi
  exact ⟨before, after, hcallers, hset⟩

theorem moves_of_move {s t : System} {m : Move} (h : s.move m = some t) : Moves s t := by
  obtain ⟨s, callers⟩ := s
  cases m with
  | call =>
    cases h
    exact .call s callers
  | step i =>
    simp only [move, Option.bind_eq_bind, Option.bind_eq_some_iff] at h
    obtain ⟨p, hp, ⟨u, q⟩, hadvance, h⟩ := h
    cases h
    obtain ⟨before, after, hcallers, hset⟩ := exists_of_getElem? hp q
    rw [hset, hcallers]
    exact .step before after (steps_of_advance hadvance)
  | stopEnds i =>
    simp only [move, Option.bind_eq_bind, Option.bind_eq_some_iff] at h
    obtain ⟨p, hp, h⟩ := h
    split at h
    · next hawaits =>
      cases h
      obtain ⟨before, after, hcallers, hset⟩ := exists_of_getElem? hp p.stopEnded
      rw [hset, hcallers]
      exact .stopEnds s before after hawaits
    · cases h
  | install =>
    simp only [move] at h
    split at h
    · cases h
    · next hnot =>
      cases h
      rw [not_or, Bool.not_eq_true, Bool.not_eq_true] at hnot
      exact .install s callers hnot.1 hnot.2
  | exit =>
    simp only [move] at h
    split at h
    · cases h
    · cases h
      exact .exit s callers

theorem countP_middle (f : Place → Bool) (before : List Place) (p : Place) (after : List Place) :
    (before ++ p :: after).countP f = (before ++ after).countP f + (f p).toNat := by
  cases h : f p <;> simp [h, Nat.add_assoc]

/-- What holds of every system that a run can come to. -/
structure Sound (s : System) : Prop where
  sure : ∀ p ∈ s.callers, p.Sure s.shared
  /-- a started fleet waits for someone to stop it, or a caller has taken it, or it was told to stop -/
  stops : s.shared.stops + s.shared.fleet.toNat + s.callers.countP Place.holdsFleet =
    s.shared.launched.toNat
  /-- every stop that is waited for was begun -/
  awaited : s.callers.countP Place.awaitsStop ≤ s.shared.stops
  locked : s.callers.countP Place.holdsLock = s.shared.locked.toNat
  joinable : s.shared.Joinable

theorem start_sound : start.Sound := ⟨by simp [start], rfl, Nat.le_refl 0, rfl, .inl rfl⟩

section

variable {s t : Shared} {p q : Place} {before after : List Place}

theorem sure_middle (h : ∀ r ∈ before ++ p :: after, r.Sure s) (hq : q.Sure t)
    (hmono : ∀ r : Place, r.Sure s → r.Sure t) : ∀ r ∈ before ++ q :: after, r.Sure t := by
  intro r hr
  rcases List.mem_append.1 hr with hr | hr
  · exact hmono r (h r (List.mem_append_left _ hr))
  · rcases List.mem_cons.1 hr with rfl | hr
    · exact hq
    · exact hmono r (h r (List.mem_append_right _ (List.mem_cons_of_mem _ hr)))

theorem sound_step (h : Sound ⟨s, before ++ p :: after⟩) (hsteps : Steps s p t q) :
    Sound ⟨t, before ++ q :: after⟩ := by
  obtain ⟨hsure, hstops, hawaited, hlocked, hjoinable⟩ := h
  simp only [countP_middle] at hsure hstops hawaited hlocked hjoinable
  -- the lock is held exactly while somebody joins, so a caller that joins finds it held
  have hheld : p.holdsLock = true → s.locked = true := by
    intro hp
    rw [hp, Bool.toNat_true] at hlocked
    cases hs : s.locked with
    | true => rfl
    | false =>
      rw [hs, Bool.toNat_false] at hlocked
      omega
  have htold := hsteps.stops
  have hawaits := hsteps.awaitsStop
  have hholds := hsteps.locked hheld
  refine ⟨sure_middle hsure (hsteps.sure (hsure p (by simp)) hjoinable) fun r hr => ?_, ?_, ?_, ?_,
    hsteps.joinable hjoinable⟩
  · exact hr.mono hsteps.cancelled (fun he => hsteps.exited.trans he) fun _ => hsteps.fleet
  · simp only [countP_middle, hsteps.launched]
    omega
  · simp only [countP_middle]
    omega
  · simp only [countP_middle]
    omega

theorem stopEnded_of_awaitsStop (h : p.awaitsStop = true) : p.stopEnded.awaitsStop = false ∧
    p.stopEnded.holdsFleet = p.holdsFleet ∧ p.stopEnded.holdsLock = p.holdsLock ∧
      (p.Sure s → p.stopEnded.Sure s) := by
  cases p with
  | stopping ended | stoppingLate ended =>
    exact ⟨rfl, rfl, rfl, fun h => ⟨fun _ => h.told nofun, h.waited, h.lookedAgain⟩⟩
  | _ => cases h

theorem sound_stopEnds (h : Sound ⟨s, before ++ p :: after⟩) (hp : p.awaitsStop = true) :
    Sound ⟨s, before ++ p.stopEnded :: after⟩ := by
  obtain ⟨hsure, hstops, hawaited, hlocked, hjoinable⟩ := h
  obtain ⟨hawaits, hholdsFleet, hholds, hsure'⟩ := stopEnded_of_awaitsStop (s := s) hp
  simp only [countP_middle] at hstops hawaited hlocked
  refine ⟨sure_middle hsure (hsure' (hsure p (by simp))) fun _ hr => hr, ?_, ?_, ?_, hjoinable⟩
  · simp only [countP_middle, hholdsFleet]
    exact hstops
  · simp only [countP_middle, hawaits, Bool.toNat_false]
    omega
  · simp only [countP_middle, hholds]
    exact hlocked

end

theorem Sound.moves {s t : System} (h : s.Sound) (hm : Moves s t) : t.Sound := by
  cases hm with
  | call s callers =>
    obtain ⟨hsure, hstops, hawaited, hlocked, hjoinable⟩ := h
    refine ⟨fun p hp => ?_, ?_, ?_, ?_, hjoinable⟩
    · rcases List.mem_append.1 hp with hp | hp
      · exact hsure p hp
      · obtain rfl := List.mem_singleton.1 hp
        exact ⟨nofun, by simp [Place.rank], by simp [Place.rank]⟩
    · simpa [Place.holdsFleet] using hstops
    · simpa [Place.awaitsStop] using hawaited
    · simpa [Place.holdsLock] using hlocked
  | step before after hsteps => exact sound_step h hsteps
  | stopEnds s before after hawaits => exact sound_stopEnds h hawaits
  | install s callers hexited hlaunched =>
    obtain ⟨hsure, hstops, hawaited, hlocked, hjoinable⟩ := h
    simp only [hlaunched, Bool.toNat_false] at hstops
    refine ⟨fun p hp => ?_, ?_, hawaited, hlocked, hjoinable⟩
    rotate_left
    · simp only [Bool.toNat_true]
      omega
    exact (hsure p hp).mono id id fun he => by simp [hexited] at he
  | exit s callers =>
    obtain ⟨hsure, hstops, hawaited, hlocked, hjoinable⟩ := h
    refine ⟨fun p hp => ?_, hstops, hawaited, hlocked, .inr (.inr rfl)⟩
    exact (hsure p hp).mono id (fun _ => rfl) fun _ => id

theorem Sound.of_move {s t : System} {m : Move} (h : s.Sound) (hm : s.move m = some t) : t.Sound :=
  h.moves (moves_of_move hm)

theorem sound_of_becomes {s : System} (h : Becomes move start s) : s.Sound :=
  h.keeps Sound.of_move start_sound

section

variable {s t : System}

theorem Moves.returned (h : Moves s t) (hr : .returned ∈ s.callers) : .returned ∈ t.callers := by
  cases h with
  | call s callers => exact List.mem_append_left _ hr
  | step before after hsteps =>
    have hne := hsteps.not_returned
    simp only [List.mem_append, List.mem_cons, hne.symm, false_or] at hr ⊢
    exact hr.imp_right .inr
  | @stopEnds p s before after hawaits =>
    have hne : p ≠ .returned := by
      rintro rfl
      cases hawaits
    simp only [List.mem_append, List.mem_cons, hne.symm, false_or] at hr ⊢
    exact hr.imp_right .inr
  | install s callers => exact hr
  | exit s callers => exact hr

theorem returned_of_becomes (h : Becomes move s t) (hr : .returned ∈ s.callers) :
    .returned ∈ t.callers :=
  h.keeps (fun hr hm => (moves_of_move hm).returned hr) hr

theorem Sound.stops_le_one (h : s.Sound) : s.shared.stops ≤ 1 := by
  have hle := Bool.toNat_le s.shared.launched
  have hstops := h.stops
  omega

/-- What whoever has returned leaves behind. -/
theorem Sound.of_returned (h : s.Sound) (hr : .returned ∈ s.callers) : s.shared.cancelled = true ∧
    s.shared.exited = true ∧ s.shared.fleet = false ∧
      s.shared.stops + s.callers.countP Place.holdsFleet = if s.shared.launched then 1 else 0 := by
  have hsure := h.sure _ hr
  have hfleet := hsure.lookedAgain (Nat.zero_le 2)
  have hstops := h.stops
  rw [hfleet, Bool.toNat_false, Nat.add_zero] at hstops
  refine ⟨hsure.told nofun, hsure.waited (Nat.zero_le 3), hfleet, ?_⟩
  rw [hstops]
  cases s.shared.launched <;> rfl

/-- With the task ended and nobody at the lock, only those wait for whom the fleet has yet to stop. -/
theorem exists_advance {s : Shared} {p : Place} (hexited : s.exited = true) (hlocked : s.locked = false)
    (hp : p.awaitsStop = false) (hne : p ≠ .returned) : ∃ t q, advance s p = some (t, q) := by
  cases p with
  | called | holding | holdingLate => exact ⟨_, _, rfl⟩
  | looking | lookingAgain =>
    simp only [advance]
    split <;> exact ⟨_, _, rfl⟩
  | stopping ended | stoppingLate ended =>
    cases ended with
    | true => exact ⟨_, _, rfl⟩
    | false => cases hp
  | queued =>
    rw [advance, if_neg (by simp [hlocked])]
    split <;> exact ⟨_, _, rfl⟩
  | joining => exact ⟨_, _, by rw [advance, if_pos hexited]⟩
  | returned => exact absurd rfl hne

theorem exists_move_of_mem {p : Place} (hp : p ∈ s.callers)
    (h : ∃ t q, advance s.shared p = some (t, q)) : ∃ i t, s.move (.step i) = some t := by
  obtain ⟨i, hi, rfl⟩ := List.mem_iff_getElem.1 hp
  obtain ⟨t, q, hadvance⟩ := h
  exact ⟨i, ⟨t, s.callers.set i q⟩, by simp [System.move, hi, hadvance]⟩

theorem Sound.exists_step (h : s.Sound) (hexited : s.shared.exited = true)
    (hawaits : ∀ p ∈ s.callers, p.awaitsStop = false) (hpending : ∃ p ∈ s.callers, p ≠ .returned) :
    ∃ i t, s.move (.step i) = some t := by
  cases hlocked : s.shared.locked with
  | true =>
    -- whoever holds the lock gives it back
    have hholder : 0 < s.callers.countP Place.holdsLock := by simp [h.locked, hlocked]
    obtain ⟨p, hp, hholds⟩ := List.countP_pos_iff.1 hholder
    cases p with
    | joining => exact exists_move_of_mem hp ⟨_, _, by rw [advance, if_pos hexited]⟩
    | _ => cases hholds
  | false =>
    obtain ⟨p, hp, hne⟩ := hpending
    exact exists_move_of_mem hp (exists_advance hexited hlocked (hawaits p hp) hne)

end

/-- How often a stop of the fleet has ended. -/
def stopsEnded (s : System) : Nat := s.shared.stops - s.callers.countP Place.awaitsStop

inductive Advances : Shared → Place → Shared → Place → Prop where
  | refl (s : Shared) (p : Place) : Advances s p s p
  | step {s t u : Shared} {p q r : Place} : advance s p = some (t, q) → Advances t q u r →
      Advances s p u r

theorem Advances.becomes {s t : Shared} {p q : Place} (h : Advances s p t q) (callers : List Place) :
    Becomes move ⟨s, callers ++ [p]⟩ ⟨t, callers ++ [q]⟩ := by
  induction h with
  | refl s p => exact .refl
  | step hadvance _ ih =>
    refine (Becomes.single (.step callers.length) ?_).trans ih
    simp [System.move, hadvance]

/-- A caller that finds no fleet returns as soon as the task has ended, if nobody is at the lock. -/
theorem exists_advances_returned {s : Shared} (hfleet : s.fleet = false) (hexited : s.exited = true)
    (hlocked : s.locked = false) : ∃ t, Advances s .called t .returned ∧ t.stops = s.stops ∧
      t.launched = s.launched := by
  obtain ⟨cancelled, fleet, handle, locked, launched, exited, stops⟩ := s
  obtain rfl : fleet = false := hfleet
  obtain rfl : exited = true := hexited
  obtain rfl : locked = false := hlocked
  cases handle with
  | true => exact ⟨_, .step rfl (.step rfl (.step rfl (.step rfl (.step rfl (.refl _ _))))), rfl, rfl⟩
  | false => exact ⟨_, .step rfl (.step rfl (.step rfl (.step rfl (.refl _ _)))), rfl, rfl⟩

section

variable {s : System}

theorem exists_returned (hfleet : s.shared.fleet = false) (hexited : s.shared.exited = true)
    (hlocked : s.shared.locked = false) : ∃ t, Becomes move s t ∧
      t.callers = s.callers ++ [.returned] ∧ t.shared.stops = s.shared.stops ∧
      t.shared.launched = s.shared.launched ∧ t.stopsEnded = s.stopsEnded := by
  obtain ⟨t, hadvances, hstops, hlaunched⟩ := exists_advances_returned hfleet hexited hlocked
  refine ⟨⟨t, s.callers ++ [.returned]⟩, (Becomes.single .call rfl).trans (hadvances.becomes _), rfl,
    hstops, hlaunched, ?_⟩
  simp [stopsEnded, hstops, Place.awaitsStop]

/-- While a caller has the fleet, no other finds it, and it was not told to stop. -/
theorem Sound.of_holdsFleet (h : s.Sound) (hholds : ∃ p ∈ s.callers, p.holdsFleet = true) :
    s.shared.stops = 0 ∧ s.shared.fleet = false ∧ s.shared.launched = true := by
  have hpos : 0 < s.callers.countP Place.holdsFleet := List.countP_pos_iff.2 hholds
  have hstops := h.stops
  have hlaunched := Bool.toNat_le s.shared.launched
  refine ⟨by omega, Bool.toNat_eq_zero.1 (by omega), Bool.toNat_eq_one.1 (by omega)⟩

theorem Sound.of_awaitsStop (h : s.Sound) (hawaits : ∃ p ∈ s.callers, p.awaitsStop = true) :
    s.shared.fleet = false ∧ s.stopsEnded = 0 := by
  have hpos : 0 < s.callers.countP Place.awaitsStop := List.countP_pos_iff.2 hawaits
  have hle := h.stops_le_one
  have hawaited := h.awaited
  have hstops := h.stops
  have hlaunched := Bool.toNat_le s.shared.launched
  refine ⟨Bool.toNat_eq_zero.1 (by omega), ?_⟩
  rw [stopsEnded]
  omega

end

/-- However many callers stop a run, and in whatever order they and the task take their steps: the fleet
is told to stop at most once; once a caller has returned, the run was told to stop and has ended, no fleet
waits to be stopped any more, and a started fleet was told to stop, once, unless the caller that took it
has yet to; and when the task has ended, callers wait for nothing but for the fleet to stop. But a caller
does not wait for another to tell the fleet: called after that one took it and the task has ended, with
nobody at the lock, it can return before a started fleet was told anything. -/
theorem stops_at_most_once {s : System} (h : Becomes move start s) :
    s.shared.stops ≤ 1 ∧
    (.returned ∈ s.callers → ∀ t, Becomes move s t → t.shared.cancelled = true ∧
      t.shared.exited = true ∧ t.shared.fleet = false ∧
        t.shared.stops + t.callers.countP Place.holdsFleet = if t.shared.launched then 1 else 0) ∧
    (s.shared.exited = true → (∀ p ∈ s.callers, p.awaitsStop = false) →
      (∃ p ∈ s.callers, p ≠ .returned) → ∃ i t, s.move (.step i) = some t) ∧
    ((∃ p ∈ s.callers, p.holdsFleet = true) → s.shared.exited = true → s.shared.locked = false →
      ∃ t, Becomes move s t ∧ t.callers = s.callers ++ [.returned] ∧ t.shared.launched = true ∧
        t.shared.stops = 0) := by
  have hsound := sound_of_becomes h
  refine ⟨hsound.stops_le_one,
    fun hr _ ht => (sound_of_becomes (h.trans ht)).of_returned (returned_of_becomes ht hr),
    hsound.exists_step, fun hholds hexited hlocked => ?_⟩
  obtain ⟨hstops, hfleet, hlaunched⟩ := hsound.of_holdsFleet hholds
  obtain ⟨t, ht, hcallers, hstops', hlaunched', _⟩ := exists_returned hfleet hexited hlocked
  exact ⟨t, ht, hcallers, hlaunched'.trans hlaunched, hstops'.trans hstops⟩

/-- One caller has taken the fleet and has not told it to stop when the task ends. A second is called and
returns: the fleet was not told to stop, and will be only by a step of the first. -/
theorem stops_at_most_once_specimen : ∃ s t,
    follow move start [.install, .call, .step 0, .step 0, .exit] = some s ∧ s.callers = [.holding] ∧
    (∃ u, Becomes move s u ∧ u.callers = [.holding, .returned] ∧ u.shared.launched = true ∧
      u.shared.stops = 0) ∧
    follow move s [.call, .step 1, .step 1, .step 1, .step 1, .step 1] = some t ∧
    t.callers = [.holding, .returned] ∧
    t.shared.stops + t.callers.countP Place.holdsFleet = 1 ∧ t.shared.stops = 0 ∧
    (∃ i u, t.move (.step i) = some u) ∧
    ∀ u, follow move t [.step 0] = some u → u.shared.stops + u.callers.countP Place.holdsFleet = 1 := by
  let s : System := ⟨⟨true, false, true, false, true, true, 0⟩, [.holding]⟩
  let t : System := ⟨⟨true, false, false, false, true, true, 0⟩, [.holding, .returned]⟩
  have hs : follow move start [.install, .call, .step 0, .step 0, .exit] = some s := by decide
  have ht : follow move s [.call, .step 1, .step 1, .step 1, .step 1, .step 1] = some t := by decide
  have hreach := becomes_of_follow hs
  obtain ⟨_, _, _, hovertakes⟩ := stops_at_most_once hreach
  obtain ⟨_, hreturned, hstep, _⟩ := stops_at_most_once (hreach.trans (becomes_of_follow ht))
  refine ⟨s, t, hs, rfl, hovertakes ⟨.holding, by decide, rfl⟩ rfl rfl, ht, rfl, rfl, rfl,
    hstep rfl (by decide) ⟨.holding, by decide, by decide⟩, fun u hu => ?_⟩
  obtain ⟨_, _, _, hstops⟩ := hreturned (by decide) u (becomes_of_follow hu)
  have hlaunched : u.shared.launched = true := by
    cases hu
    rfl
  rwa [hlaunched, if_pos rfl] at hstops

section

variable {s : System}

theorem Sound.stopsEnded_eq_one_iff (h : s.Sound)
    (hstops : s.shared.stops + s.callers.countP Place.holdsFleet = 1) :
    s.stopsEnded = 1 ↔ ∀ p ∈ s.callers, p.holdsFleet = false ∧ p.awaitsStop = false := by
  have hholds : s.callers.countP Place.holdsFleet = 0 ↔ ∀ p ∈ s.callers, p.holdsFleet = false := by
    simp [List.countP_eq_zero]
  have hawaits : s.callers.countP Place.awaitsStop = 0 ↔ ∀ p ∈ s.callers, p.awaitsStop = false := by
    simp [List.countP_eq_zero]
  have hawaited := h.awaited
  rw [forall₂_and, ← hholds, ← hawaits, stopsEnded]
  omega

/-- While one caller has the fleet or waits for it to stop, and the task has ended, another does not. -/
theorem Sound.exists_returned_first (h : s.Sound)
    (howes : ∃ p ∈ s.callers, p.holdsFleet = true ∨ p.awaitsStop = true)
    (hexited : s.shared.exited = true) (hlocked : s.shared.locked = false) :
    ∃ t, Becomes move s t ∧ t.callers = s.callers ++ [.returned] ∧ t.stopsEnded = 0 := by
  have hstate : s.shared.fleet = false ∧ s.stopsEnded = 0 := by
    obtain ⟨p, hp, hholds | hawaits⟩ := howes
    · obtain ⟨hstops, hfleet, _⟩ := h.of_holdsFleet ⟨p, hp, hholds⟩
      exact ⟨hfleet, by rw [stopsEnded, hstops, Nat.zero_sub]⟩
    · exact h.of_awaitsStop ⟨p, hp, hawaits⟩
  obtain ⟨t, ht, hcallers, _, _, hended⟩ := exists_returned hstate.1 hexited hlocked
  exact ⟨t, ht, hcallers, hended.trans hstate.2⟩

end

/-- Once a caller of a started fleet has returned, the fleet has stopped unless another caller has yet to
tell it to or still waits for that; so it has when all callers have returned. But a caller does not wait
for the fleet to stop when another does: called meanwhile, after the task has ended and with nobody at the
lock, it can return before. -/
theorem stop_ended_unless_awaited {s : System} (h : Becomes move start s)
    (hlaunched : s.shared.launched = true) :
    (.returned ∈ s.callers → s.shared.stops + s.callers.countP Place.holdsFleet = 1 ∧
      (s.stopsEnded = 1 ↔ ∀ p ∈ s.callers, p.holdsFleet = false ∧ p.awaitsStop = false)) ∧
    (s.callers ≠ [] → (∀ p ∈ s.callers, p = .returned) → s.stopsEnded = 1) ∧
    ((∃ p ∈ s.callers, p.holdsFleet = true ∨ p.awaitsStop = true) → s.shared.exited = true →
      s.shared.locked = false →
      ∃ t, Becomes move s t ∧ t.callers = s.callers ++ [.returned] ∧ t.stopsEnded = 0) := by
  have hsound := sound_of_becomes h
  have hended : .returned ∈ s.callers → s.shared.stops + s.callers.countP Place.holdsFleet = 1 ∧
      (s.stopsEnded = 1 ↔ ∀ p ∈ s.callers, p.holdsFleet = false ∧ p.awaitsStop = false) := by
    intro hr
    obtain ⟨_, _, _, hstops⟩ := hsound.of_returned hr
    rw [hlaunched, if_pos rfl] at hstops
    exact ⟨hstops, hsound.stopsEnded_eq_one_iff hstops⟩
  refine ⟨hended, fun hne hall => ?_, hsound.exists_returned_first⟩
  obtain ⟨p, hp⟩ := List.exists_mem_of_ne_nil _ hne
  refine ((hended (hall p hp ▸ hp)).2).2 fun q hq => ?_
  rw [hall q hq]
  exact ⟨rfl, rfl⟩

/-- A caller tells a started fleet to stop, which takes its time; another, called meanwhile, returns
first. -/
theorem returned_while_stopping : ∃ s t,
    follow move start [.install, .call, .step 0, .step 0, .step 0, .exit] = some s ∧
    s.shared.launched = true ∧ s.callers = [.stopping false] ∧ s.shared.stops = 1 ∧ Becomes move s t ∧
    t.callers = [.stopping false, .returned] ∧ t.stopsEnded = 0 := by
  let s : System := ⟨⟨true, false, true, false, true, true, 1⟩, [.stopping false]⟩
  have hs : follow move start [.install, .call, .step 0, .step 0, .step 0, .exit] = some s := by decide
  obtain ⟨_, _, hreturns⟩ := stop_ended_unless_awaited (becomes_of_follow hs) rfl
  obtain ⟨t, hst, ht, hended⟩ := hreturns ⟨.stopping false, by decide, .inr rfl⟩ rfl rfl
  exact ⟨s, t, hs, rfl, rfl, rfl, hst, ht, hended⟩

end System

end LocalFleet.Shutdown
