import LocalFleet.Proofs.Run.Shutdown
import LocalFleet.Run.Drive

/-! A driven run, with whoever interrupts it and others who stop it. The driver looks for one thing after
another while they all move, and returns only with a cause, having stopped the run once. An error that has
arrived when it begins to look is what it returns, whatever it could find besides. -/

namespace LocalFleet.Drive

def Turn.seen? : Turn → Option (Option Error)
  | seekInterrupt error | seekReady error _ => some error
  | _ => none

def Turn.interrupted : Turn → Bool
  | seekReady _ interrupted => interrupted
  | _ => false

def Turn.calls : Turn → Nat
  | awaitStop _ | returned => 1
  | _ => 0

/-- Whether the driver has made up its mind to stop the run. -/
def Turn.stops : Turn → Bool
  | stop | awaitStop _ | returned => true
  | _ => false

theorem verdict?_look (s : Sight) {stand : Stand} (h : stand.verdict? = none) :
    (look s stand).verdict? = Drive.verdict? s := by
  cases stand with
  | ended verdict => cases h
  | awaitingReady =>
    rw [look]
    split
    · next hverdict => exact hverdict.symm
    · next hverdict =>
      rw [hverdict]
      split <;> rfl
  | watching =>
    rw [look]
    split <;> next hverdict => exact hverdict.symm

theorem verdict?_of_error {s : Sight} {e : Error} (h : s.error = some e) :
    Drive.verdict? s = some (.failed e) := by
  rw [Drive.verdict?, h]

namespace System

/-- What has led to a verdict. -/
def Caused (s : System) : Verdict → Prop
  | .failed e => s.recorded = some e
  | .interrupted => s.interrupted = true

/-- What holds of every system that a driven run can come to. -/
structure Sound (s : System) : Prop where
  run : Becomes Shutdown.System.move .start s.run
  /-- whatever was found is there -/
  error : ∀ e, s.turn.seen? = some (some e) → s.recorded = some e
  interruption : s.turn.interrupted = true → s.interrupted = true
  caused : ∀ verdict, s.stand.verdict? = some verdict → s.Caused verdict
  stops : s.stand.verdict?.isSome = s.turn.stops
  calls : s.calls = s.turn.calls
  returned : s.turn = .returned → .returned ∈ s.run.callers

theorem start_sound (hears : Bool) : (start hears).Sound :=
  ⟨.refl, nofun, nofun, nofun, rfl, rfl, nofun⟩

section

variable {s t : System} {m : Move}

theorem Caused.mono {verdict : Verdict} (h : s.Caused verdict)
    (hrecorded : ∀ e, s.recorded = some e → t.recorded = some e)
    (hinterrupted : s.interrupted = true → t.interrupted = true) : t.Caused verdict := by
  cases verdict with
  | failed e => exact hrecorded e h
  | interrupted => exact hinterrupted h

/-- What the others do leaves the driver where it is, and takes nothing back. -/
structure Apart (s t : System) : Prop where
  hears : t.hears = s.hears
  stand : t.stand = s.stand
  turn : t.turn = s.turn
  calls : t.calls = s.calls
  recorded : ∀ e, s.recorded = some e → t.recorded = some e
  interrupted : s.interrupted = true → t.interrupted = true
  run : Becomes Shutdown.System.move s.run t.run

theorem apart_of_move (hm : s.move m = some t) (hdrive : m ≠ .drive) : Apart s t := by
  cases m with
  | becomeReady =>
    simp only [move] at hm
    split at hm <;> cases hm
    exact ⟨rfl, rfl, rfl, rfl, fun _ => id, id, .refl⟩
  | record f =>
    simp only [move] at hm
    split at hm <;> cases hm
    unfold record
    split
    · exact ⟨rfl, rfl, rfl, rfl, fun _ => id, id, .refl⟩
    · next hfirst =>
      exact ⟨rfl, rfl, rfl, rfl, fun e he => absurd (.inr (.inr (by simp [he]))) hfirst, id, .refl⟩
  | interrupt =>
    cases hm
    exact ⟨rfl, rfl, rfl, rfl, fun _ => id, fun _ => rfl, .refl⟩
  | drive => exact absurd rfl hdrive
  | stopping m =>
    simp only [move, Option.bind_eq_bind, Option.bind_eq_some_iff] at hm
    obtain ⟨run, hrun, hm⟩ := hm
    cases hm
    exact ⟨rfl, rfl, rfl, rfl, fun _ => id, id, .single m hrun⟩

theorem Sound.apart (h : s.Sound) (ha : Apart s t) : t.Sound where
  run := h.run.trans ha.run
  error e he := ha.recorded e (h.error e (ha.turn ▸ he))
  interruption hi := ha.interrupted (h.interruption (ha.turn ▸ hi))
  caused verdict hv := (h.caused verdict (ha.stand ▸ hv)).mono ha.recorded ha.interrupted
  stops := by rw [ha.stand, ha.turn, h.stops]
  calls := by rw [ha.calls, ha.turn, h.calls]
  returned hr := Shutdown.System.returned_of_becomes ha.run (h.returned (ha.turn ▸ hr))

/-- What is seen of a sound system causes the verdict on it. -/
theorem caused_of_verdict? {error : Option Error} {interrupted ready : Bool} {verdict : Verdict}
    (herror : ∀ e, error = some e → s.recorded = some e)
    (hinterrupted : interrupted = true → s.interrupted = true)
    (h : Drive.verdict? ⟨error, interrupted, ready⟩ = some verdict) : s.Caused verdict := by
  cases error with
  | some e =>
    cases h
    exact herror e rfl
  | none =>
    cases interrupted with
    | true =>
      cases h
      exact hinterrupted rfl
    | false => cases h

/-- The driver goes on from what it has found, and never stops the run twice. -/
theorem Sound.advance (h : s.Sound) (hm : s.advance = some t) : t.Sound := by
  obtain ⟨run, hears, ready, recorded, interrupted, stand, turn, calls⟩ := s
  obtain ⟨hrun, herror, hinterruption, hcaused, hstops, hcalls, hreturned⟩ := h
  cases turn with
  | seekError =>
    cases hm
    refine ⟨hrun, fun e he => ?_, nofun, hcaused, hstops, hcalls, nofun⟩
    cases hears with
    | true => exact Option.some.inj he
    | false => cases he
  | seekInterrupt error =>
    cases hm
    exact ⟨hrun, herror, id, hcaused, hstops, hcalls, nofun⟩
  | seekReady error found =>
    cases hm
    -- what was found at earlier instants is still there when the driver makes up its mind
    have hnone : stand.verdict? = none := by simpa [Turn.stops] using hstops
    have hlook := verdict?_look ⟨error, found, ready⟩ hnone
    cases hverdict : (look ⟨error, found, ready⟩ stand).verdict? with
    | none => exact ⟨hrun, nofun, nofun, by simp [hverdict], by simp [hverdict, Turn.stops], hcalls, nofun⟩
    | some verdict =>
      refine ⟨hrun, nofun, nofun, ?_, by simp [hverdict, Turn.stops], hcalls, nofun⟩
      rintro _ hv
      refine caused_of_verdict? (fun e he => herror e (by rw [he]; rfl)) hinterruption (hlook.symm.trans hv)
  | stop =>
    cases hm
    exact ⟨.move .call hrun rfl, nofun, nofun, hcaused, hstops, by rw [hcalls]; rfl, nofun⟩
  | awaitStop caller =>
    simp only [System.advance] at hm
    split at hm
    · next hplace =>
      cases hm
      exact ⟨hrun, nofun, nofun, hcaused, hstops, hcalls, fun _ => List.mem_of_getElem? hplace⟩
    · cases hm
  | returned => cases hm

theorem Sound.of_move (h : s.Sound) (hm : s.move m = some t) : t.Sound := by
  by_cases hdrive : m = .drive
  · subst hdrive
    exact h.advance hm
  · exact h.apart (apart_of_move hm hdrive)

theorem sound_of_becomes {hears : Bool} (h : Becomes move (start hears) s) : s.Sound :=
  h.keeps Sound.of_move (start_sound hears)

/-- The driver has to return an error: it has arrived, is what has been found if anything has, and is the
reason if there is one. -/
structure Heeds (s : System) (e : Error) : Prop where
  hears : s.hears = true
  recorded : s.recorded = some e
  seen : ∀ error, s.turn.seen? = some error → error = some e
  verdict : ∀ verdict, s.stand.verdict? = some verdict → verdict = .failed e

theorem Heeds.advance {e : Error} (h : s.Heeds e) (hs : s.Sound) (hm : s.advance = some t) :
    t.Heeds e := by
  obtain ⟨run, hears, ready, recorded, interrupted, stand, turn, calls⟩ := s
  obtain ⟨hhears, hrecorded, hseen, hverdict⟩ := h
  cases turn with
  | seekError =>
    cases hm
    refine ⟨hhears, hrecorded, fun error he => ?_, hverdict⟩
    rw [← Option.some.inj he]
    exact (if_pos hhears).trans hrecorded
  | seekInterrupt error =>
    cases hm
    exact ⟨hhears, hrecorded, hseen, hverdict⟩
  | seekReady error found =>
    cases hm
    obtain rfl := hseen error rfl
    have hnone : stand.verdict? = none := by simpa [Turn.stops] using hs.stops
    have hlook := (verdict?_look ⟨some e, found, ready⟩ hnone).trans (verdict?_of_error rfl)
    have hturn : (if (look ⟨some e, found, ready⟩ stand).verdict?.isSome = true then Turn.stop
        else .seekError) = .stop := by simp [hlook]
    refine ⟨hhears, hrecorded, by rw [hturn]; nofun, fun verdict hv => ?_⟩
    exact Option.some.inj (hv.symm.trans hlook)
  | stop =>
    cases hm
    exact ⟨hhears, hrecorded, nofun, hverdict⟩
  | awaitStop caller =>
    simp only [System.advance] at hm
    split at hm <;> cases hm
    exact ⟨hhears, hrecorded, nofun, hverdict⟩
  | returned => cases hm

theorem Heeds.of_move {e : Error} (h : s.Heeds e) (hs : s.Sound) (hm : s.move m = some t) :
    t.Heeds e := by
  by_cases hdrive : m = .drive
  · subst hdrive
    exact h.advance hs hm
  · obtain ⟨hhears, hstand, hturn, _, hrecorded, _, _⟩ := apart_of_move hm hdrive
    exact ⟨hhears.trans h.hears, hrecorded e h.recorded, hturn ▸ h.seen, hstand ▸ h.verdict⟩

theorem Heeds.of_becomes {e : Error} (h : s.Heeds e) (hs : s.Sound) (hst : Becomes move s t) :
    t.Heeds e :=
  (hst.keeps (P := fun s => s.Sound ∧ s.Heeds e) (fun h hm => ⟨h.1.of_move hm, h.2.of_move h.1 hm⟩)
    ⟨hs, h⟩).2

theorem Sound.heeds {e : Error} (h : s.Sound) (hhears : s.hears = true) (hrecorded : s.recorded = some e)
    (hturn : s.turn = .seekError) : s.Heeds e := by
  have hnone : s.stand.verdict? = none := by simpa [hturn, Turn.stops] using h.stops
  exact ⟨hhears, hrecorded, by simp [hturn, Turn.seen?], by simp [hnone]⟩

theorem exists_verdict {r : Result Unit} (h : s.result? = some r) :
    s.turn = .returned ∧ ∃ verdict, s.stand.verdict? = some verdict ∧ r = verdict.result := by
  unfold result? at h
  split at h
  · next hturn =>
    obtain ⟨verdict, hverdict, rfl⟩ := Option.map_eq_some_iff.1 h
    exact ⟨hturn, verdict, hverdict, rfl⟩
  · cases h

theorem Heeds.result {e : Error} (h : s.Heeds e) {r : Result Unit} (hr : s.result? = some r) :
    r = .error e := by
  obtain ⟨_, verdict, hverdict, rfl⟩ := exists_verdict hr
  rw [h.verdict verdict hverdict]
  rfl

/-- A driver that is about to look when an error has arrived makes up its mind with this look. -/
theorem Sound.follow_look {e : Error} (h : s.Sound) (hhears : s.hears = true)
    (hrecorded : s.recorded = some e) (hturn : s.turn = .seekError) :
    ∃ t, follow move s [.drive, .drive, .drive] = some t ∧ t.stand.verdict? = some (.failed e) := by
  have hnone : s.stand.verdict? = none := by simpa [hturn, Turn.stops] using h.stops
  obtain ⟨run, hears, ready, recorded, interrupted, stand, turn, calls⟩ := s
  obtain rfl : hears = true := hhears
  obtain rfl : recorded = some e := hrecorded
  obtain rfl : turn = .seekError := hturn
  exact ⟨_, rfl, (verdict?_look ⟨some e, interrupted, ready⟩ hnone).trans (verdict?_of_error rfl)⟩

theorem Sound.result_caused {r : Result Unit} (h : s.Sound) (hr : s.result? = some r) :
    (∃ e, r = .error e ∧ s.recorded = some e) ∨ r = .ok () ∧ s.interrupted = true := by
  obtain ⟨_, verdict, hverdict, rfl⟩ := exists_verdict hr
  have hcaused := h.caused verdict hverdict
  cases verdict with
  | failed e => exact .inl ⟨e, rfl, hcaused⟩
  | interrupted => exact .inr ⟨rfl, hcaused⟩

theorem Sound.of_result {r : Result Unit} (h : s.Sound) (hr : s.result? = some r) : s.calls = 1 ∧
    s.run.shared.cancelled = true ∧ s.run.shared.exited = true ∧ s.run.shared.fleet = false ∧
    s.run.shared.stops + s.run.callers.countP Shutdown.Place.holdsFleet =
      (if s.run.shared.launched then 1 else 0) ∧
    (s.run.callers.length = 1 → s.run.shared.stops = if s.run.shared.launched then 1 else 0) := by
  obtain ⟨hturn, _⟩ := exists_verdict hr
  have hreturned := h.returned hturn
  obtain ⟨hcancelled, hexited, hfleet, hstops⟩ :=
    (Shutdown.System.sound_of_becomes h.run).of_returned hreturned
  refine ⟨by rw [h.calls, hturn]; rfl, hcancelled, hexited, hfleet, hstops, fun halone => ?_⟩
  -- the only caller is the driver, and it has returned
  obtain ⟨p, hp⟩ := List.length_eq_one_iff.1 halone
  rw [hp] at hreturned
  obtain rfl := List.mem_singleton.1 hreturned
  simpa [hp, Shutdown.Place.holdsFleet] using hstops

/-- Nothing but an error or an interruption makes a driver stop the run or return. -/
theorem Sound.of_no_cause (h : s.Sound) (hrecorded : s.recorded = none)
    (hinterrupted : s.interrupted = false) : s.calls = 0 ∧ s.result? = none := by
  have hnone : s.stand.verdict? = none := by
    cases hverdict : s.stand.verdict? with
    | none => rfl
    | some verdict =>
      have hcaused := h.caused verdict hverdict
      cases verdict with
      | failed e => simp [Caused, hrecorded] at hcaused
      | interrupted => simp [Caused, hinterrupted] at hcaused
  have hstops : s.turn.stops = false := by simpa [hnone] using h.stops.symm
  rw [h.calls]
  unfold result?
  cases hturn : s.turn <;> simp_all [Turn.stops, Turn.calls]

end

/-- In whatever order a run becomes ready, fails, ends, and is interrupted or stopped by others while it
is driven: the driver returns the error that the run recorded, or else returns well because it was
interrupted, and it has then stopped the run, once, and with it a started fleet, unless that is left to
another who took it; without an error and an interruption it neither stops the run nor returns; and an
error that has arrived when the driver begins to look is what it returns, interrupted or not, ready or
not. -/
theorem returns_for_cause {hears : Bool} {s : System} (h : Becomes move (start hears) s) :
    (∀ r, s.result? = some r →
      ((∃ e, r = .error e ∧ s.recorded = some e) ∨ r = .ok () ∧ s.interrupted = true) ∧ s.calls = 1 ∧
      s.run.shared.cancelled = true ∧ s.run.shared.exited = true ∧ s.run.shared.fleet = false ∧
      s.run.shared.stops + s.run.callers.countP Shutdown.Place.holdsFleet =
        (if s.run.shared.launched then 1 else 0) ∧
      (s.run.callers.length = 1 → s.run.shared.stops = if s.run.shared.launched then 1 else 0)) ∧
    (s.recorded = none → s.interrupted = false → s.calls = 0 ∧ s.result? = none) ∧
    (∀ e, s.hears = true → s.recorded = some e → s.turn = .seekError →
      (∃ t, follow move s [.drive, .drive, .drive] = some t ∧ t.stand.verdict? = some (.failed e)) ∧
      ∀ t, Becomes move s t → ∀ r, t.result? = some r → r = .error e) := by
  have hsound := sound_of_becomes h
  refine ⟨fun r hr => ⟨hsound.result_caused hr, hsound.of_result hr⟩, hsound.of_no_cause, fun e hhears hrecorded hturn => ?_⟩
  refine ⟨hsound.follow_look hhears hrecorded hturn, fun t ht r hr => ?_⟩
  exact ((hsound.heeds hhears hrecorded hturn).of_becomes hsound ht).result hr

/-- A run that has become ready fails and is interrupted before its driver looks again. -/
theorem returns_for_cause_specimen : ∃ s t e,
    follow move (start true) [.stopping .install, .becomeReady, .drive, .drive, .drive,
      .record (.fatal "no funds"), .interrupt] = some s ∧ s.interrupted = true ∧
    (∀ u, Becomes move s u → ∀ r, u.result? = some r → r = .error e) ∧
    follow move s [.drive, .drive, .drive, .drive, .stopping (.step 0), .stopping (.step 0),
      .stopping (.step 0), .stopping (.stopEnds 0), .stopping (.step 0), .stopping (.step 0),
      .stopping .exit, .stopping (.step 0), .stopping (.step 0), .drive] = some t ∧
    t.result? = some (.error e) ∧ t.calls = 1 ∧ t.run.shared.stops = 1 := by
  let e : Error := .fatal "no funds"
  let s : System := ⟨⟨{ fleet := true, launched := true }, []⟩, true, true, some e, true, .watching,
    .seekError, 0⟩
  let t : System := ⟨⟨⟨true, false, false, false, true, true, 1⟩, [.returned]⟩, true, true, some e, true,
    .ended (.failed e), .returned, 1⟩
  have hs : follow move (start true) [.stopping .install, .becomeReady, .drive, .drive, .drive,
      .record (.fatal "no funds"), .interrupt] = some s := by decide
  have ht : follow move s [.drive, .drive, .drive, .drive, .stopping (.step 0), .stopping (.step 0),
      .stopping (.step 0), .stopping (.stopEnds 0), .stopping (.step 0), .stopping (.step 0),
      .stopping .exit, .stopping (.step 0), .stopping (.step 0), .drive] = some t := by decide
  obtain ⟨_, _, hwins⟩ := returns_for_cause (becomes_of_follow hs)
  obtain ⟨_, herror⟩ := hwins e rfl rfl rfl
  obtain ⟨hreturned, _, _⟩ := returns_for_cause ((becomes_of_follow hs).trans (becomes_of_follow ht))
  obtain ⟨_, hcalls, _, _, _, _, halone⟩ := hreturned (.error e) rfl
  exact ⟨s, t, e, hs, rfl, herror, ht, rfl, hcalls, halone rfl⟩

end System

end LocalFleet.Drive
