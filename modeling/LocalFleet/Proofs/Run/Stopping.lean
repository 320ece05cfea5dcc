import LocalFleet.Proofs.Provision.Validators
import LocalFleet.Proofs.Run.Stance
import LocalFleet.Proofs.Run.Timed
import LocalFleet.Rehearsal.Fleet

/-! Stopping a run. A run goes on unstopped up to any of its questions and is stopped at an instant from
there on. No call is begun at that instant or later. If provisioning had not ended, the run is aborted
with nothing written and no error delivered; if it had, the run ends as if it had not been stopped. -/

namespace LocalFleet

variable {σ α : Type}

def Event.failure? : Event → Option Error
  | failed e => some e
  | _ => none

def Event.phase? : Event → Option Phase
  | entered phase => some phase
  | _ => none

namespace World

def failures (w : World σ) : List Error := w.log.filterMap fun d => d.event.failure?

def phase (w : World σ) : Option Phase := w.log.findSome? fun d => d.event.phase?

/-- Nothing has been written or printed and no error delivered since. -/
structure Untouched (w w' : World σ) : Prop where
  files : w'.files = w.files
  printed : w'.printed = w.printed
  failures : w'.failures = w.failures

variable {w w' w'' : World σ}

theorem Untouched.refl (w : World σ) : Untouched w w := ⟨rfl, rfl, rfl⟩

theorem Untouched.trans (h : Untouched w w') (h' : Untouched w' w'') : Untouched w w'' where
  files := h'.files.trans h.files
  printed := h'.printed.trans h.printed
  failures := h'.failures.trans h.failures

end World

namespace Surroundings

open World

variable {env : Surroundings σ} {stopAt : Option Nat} {w w' : World σ}

theorem GivesUp.untouched {what : String} {inquiry : Inquiry} {r : Result inquiry.Answer × World σ}
    (h : GivesUp env stopAt what inquiry w r) : Untouched w r.2 := by
  cases h with
  | notBegun hnow => exact .refl w
  | givenUp c hstop hlt => exact ⟨rfl, rfl, rfl⟩
  | ended time answer hle htime hanswer => exact ⟨rfl, rfl, rfl⟩

theorem GivesUp.heard {what : String} {inquiry : Inquiry} {r : Result inquiry.Answer × World σ}
    {a : inquiry.Answer} (h : GivesUp env stopAt what inquiry w r) (ha : r.1 = .ok a) :
    reached stopAt r.2.now = false := by
  cases h with
  | notBegun hnow => cases ha
  | givenUp c hstop hlt => cases ha
  | ended time answer hle htime hanswer => exact htime

theorem Polled.untouched {node : NodeSpec} {c : Call} {enough : c.Answer → Bool} {since : List Dated}
    {ending : Poll.Ending (World σ) c.Answer} (h : env.Polled stopAt node c enough w since ending) :
    Untouched w { ending.state with now := ending.time } where
  files := h.files
  printed := h.printed
  failures := by
    have hnone : since.reverse.filterMap (fun d => d.event.failure?) = [] := by
      rw [List.filterMap_eq_nil_iff]
      intro d hd
      rw [(h.asked d (List.mem_reverse.1 hd)).1]
      rfl
    show ending.state.log.filterMap _ = w.log.filterMap _
    rw [h.passes.log, List.filterMap_append, hnone, List.nil_append]

theorem not_reached_of_run_eq_none {pace : Pace} {node : NodeSpec} {c : Call} {enough : c.Answer → Bool}
    (h : Poll.run pace stopAt (env.attempt node c enough) w.now w = none) :
    reached stopAt w.now = false := by
  by_contra hnow
  rw [Bool.not_eq_false] at hnow
  simp [Poll.run, Poll.attemptLimit, Poll.loop, hnow] at h

theorem answer_untouched {q : Question} (hpublish : ∀ path record, q ≠ .publish path record)
    (hreport : ∀ e, q ≠ .report e) : Untouched w (env.answer stopAt q w).2 := by
  cases q with
  | awaitHealth what limit => exact (givesUp_awaitHealth env stopAt what limit w).untouched
  | listNodes what => exact (givesUp_guarded env stopAt what .listNodes w).untouched
  | call what node c => exact (givesUp_guarded env stopAt what (.call node c) w).untouched
  | await what pace node c enough =>
    simp only [answer]
    cases hrun : Poll.run pace stopAt (env.attempt node c enough) w.now w with
    | none => exact .refl w
    | some ending =>
      obtain ⟨since, hpolled⟩ := polled_of_waits (Poll.waits_of_loop hrun)
      exact hpolled.untouched
  | publish path record => exact absurd rfl (hpublish path record)
  | report e => exact absurd rfl (hreport e)
  | _ => exact ⟨rfl, rfl, rfl⟩

theorem of_answer_eq_none {q : Question} (h : (env.answer stopAt q w).1 = none) :
    (env.answer stopAt q w).2 = w ∧ reached stopAt w.now = false := by
  cases q with
  | await what pace node c enough =>
    simp only [answer] at h ⊢
    cases hrun : Poll.run pace stopAt (env.attempt node c enough) w.now w with
    | none => exact ⟨rfl, not_reached_of_run_eq_none hrun⟩
    | some ending => simp [hrun] at h
  | publish path record =>
    simp only [answer] at h
    split at h <;> cases h
  | _ => cases h

theorem run_ask_of_some {q : Question} {next : q.Answer → Plan α} {a : q.Answer}
    (ha : (env.answer stopAt q w).1 = some a) : env.run stopAt (.ask q next) w =
      env.run stopAt (next a) (env.answer stopAt q w).2 := by
  rw [run]
  generalize env.answer stopAt q w = r at ha ⊢
  obtain ⟨o, w'⟩ := r
  cases ha
  rfl

theorem run_ask_of_none {q : Question} {next : q.Answer → Plan α}
    (ha : (env.answer stopAt q w).1 = none) :
    env.run stopAt (.ask q next) w = (none, (env.answer stopAt q w).2) := by
  rw [run]
  generalize env.answer stopAt q w = r at ha ⊢
  obtain ⟨o, w'⟩ := r
  cases ha
  rfl

/-- A run that is not stopped comes to what is left of its plan, after some replies. -/
inductive Comes (env : Surroundings σ) : Plan α → World σ → List Reply → Plan α → World σ → Prop where
  | here (p : Plan α) (w : World σ) : Comes env p w [] p w
  | answered {q : Question} {next : q.Answer → Plan α} {w w' : World σ} {a : q.Answer}
      {replies : List Reply} {p : Plan α} : (env.answer none q w).1 = some a →
      Comes env (next a) (env.answer none q w).2 replies p w' →
      Comes env (.ask q next) w (⟨q, a⟩ :: replies) p w'

variable {p p' : Plan α} {replies : List Reply}

theorem Comes.run_eq (h : env.Comes p w replies p' w') : env.run none p w = env.run none p' w' := by
  induction h with
  | here p w => rfl
  | answered ha _ ih => rw [run_ask_of_some ha, ih]

theorem exists_comes {a : α} (h : (env.run none p w).1 = some a) :
    ∃ replies, env.Comes p w replies (.done a) (env.run none p w).2 := by
  induction p generalizing w with
  | done b =>
    obtain rfl := Option.some.inj h
    exact ⟨[], .here _ w⟩
  | overflow => cases h
  | ask q next ih =>
    cases hanswer : (env.answer none q w).1 with
    | none =>
      rw [run_ask_of_none hanswer] at h
      cases h
    | some b =>
      rw [run_ask_of_some hanswer] at h ⊢
      obtain ⟨replies, hcomes⟩ := ih b h
      exact ⟨_, .answered hanswer hcomes⟩

theorem Comes.reaches (h : env.Comes p w replies p' w') : p.Reaches replies p' := by
  induction h with
  | here p w => exact .here p
  | answered _ _ ih => exact .answered ih

/-- The world tells what was last heard of the time, if nothing else was heard since. -/
def Punctual (env : Surroundings σ) (replies : List Reply) (w : World σ) : Prop :=
  ∀ now, replies.getLast? = some ⟨.clock, now⟩ → now = env.clock w.now

theorem punctual_concat {q : Question} {a : q.Answer} (ha : (env.answer stopAt q w).1 = some a) :
    env.Punctual (replies ++ [⟨q, a⟩]) (env.answer stopAt q w).2 := by
  intro now hlast
  rw [List.getLast?_concat] at hlast
  cases hlast
  exact (Option.some.inj ha).symm

theorem Comes.punctual (h : env.Comes p w replies p' w') (earlier : List Reply)
    (hearlier : env.Punctual earlier w) : env.Punctual (earlier ++ replies) w' := by
  induction h generalizing earlier with
  | here p w => simpa using hearlier
  | @answered q next w w' a replies p ha _ ih => simpa using ih _ (punctual_concat ha)

/-- A run that was stopped and makes a number leave its range all the same has just read the clock. -/
theorem uncountable_of_run {s : SubnetSettings} {ends : List Reply → α → Prop}
    (hp : p.Keeps (Law.recalling (fun _ _ => True) s.Exhausts) ends replies) (hw : env.Punctual replies w)
    (hnone : (env.run stopAt p w).1 = none) (hstopped : reached stopAt (env.run stopAt p w).2.now = true) :
    s.Uncountable (env.clock (env.run stopAt p w).2.now) := by
  induction p generalizing replies w with
  | done a => cases hnone
  | overflow =>
    obtain ⟨now, hlast, hover⟩ := hp
    rwa [hw now hlast] at hover
  | ask q next ih =>
    cases ha : (env.answer stopAt q w).1 with
    | none =>
      obtain ⟨hsame, hnow⟩ := of_answer_eq_none ha
      rw [run_ask_of_none ha, hsame, hnow] at hstopped
      cases hstopped
    | some a =>
      rw [run_ask_of_some ha] at hnone hstopped ⊢
      exact ih a (hp.2 a _ rfl) (punctual_concat ha) hnone hstopped

/-- Where a run that is not stopped stands after so many answers. -/
def proceed (env : Surroundings σ) : Nat → Plan α → World σ → Plan α × World σ
  | n + 1, .ask q next, w =>
    match env.answer none q w with
    | (some a, w') => env.proceed n (next a) w'
    | (none, _) => (.ask q next, w)
  | _, p, w => (p, w)

theorem exists_comes_proceed (env : Surroundings σ) (n : Nat) (p : Plan α) (w : World σ) :
    ∃ replies, env.Comes p w replies (env.proceed n p w).1 (env.proceed n p w).2 := by
  induction n generalizing p w with
  | zero => cases p <;> exact ⟨[], .here _ _⟩
  | succ n ih =>
    cases p with
    | done a | overflow => exact ⟨[], .here _ _⟩
    | ask q next =>
      cases hanswer : env.answer none q w with
      | mk o w' =>
        simp only [proceed, hanswer]
        cases o with
        | none => exact ⟨[], .here _ _⟩
        | some a =>
          obtain ⟨replies, h⟩ := ih (next a) w'
          refine ⟨⟨q, a⟩ :: replies, .answered (by rw [hanswer]) ?_⟩
          rw [hanswer]
          exact h

theorem Comes.cut (h : env.Comes p w replies p' w') {reply : Reply} (hreply : reply ∈ replies) :
    ∃ earlier rest v, env.Comes p w (earlier ++ [reply]) rest v := by
  induction h with
  | here p w => cases hreply
  | @answered q next w w' a replies p ha _ ih =>
    rcases List.mem_cons.1 hreply with rfl | hreply
    · exact ⟨[], next a, _, .answered ha (.here _ _)⟩
    · obtain ⟨earlier, rest, v, hcomes⟩ := ih hreply
      exact ⟨⟨q, a⟩ :: earlier, rest, v, .answered ha hcomes⟩

end Surroundings

namespace Stance

open World Surroundings

variable {env : Surroundings σ} {stopAt : Option Nat} {start w : World σ} {g : Stance}

/-- What a stance says of a world, given the world in which the run was started. -/
def Fits (stopAt : Option Nat) (start : World σ) : Stance → World σ → Prop
  | unsure, w => Untouched start w
  | clear, w => Untouched start w ∧ reached stopAt w.now = false
  | aborting, w => Untouched start w ∧ w.phase = some .aborting
  | reported, w => w.phase = some .aborting ∧ (reached stopAt w.now = true → Untouched start w)
  | passed, w => reached stopAt w.now = false

theorem Fits.untouched (h : g.Fits stopAt start w) (hg : g.Early) : Untouched start w := by
  rcases hg with rfl | rfl
  · exact h
  · exact h.1

theorem fits_heard {r : Result α} (h : Untouched start w)
    (hr : ∀ a, r = .ok a → reached stopAt w.now = false) : (heard r).Fits stopAt start w := by
  cases r with
  | ok a => exact ⟨h, hr a rfl⟩
  | error e => exact h

theorem Fits.of_now_eq {w' : World σ} (h : g.Fits stopAt start w) (hg : g.Early)
    (hu : Untouched start w') (hnow : w'.now = w.now) : g.Fits stopAt start w' := by
  rcases hg with rfl | rfl
  · exact hu
  · exact ⟨hu, hnow ▸ h.2⟩

theorem fits_checkpoint {after : String} {a : Result Unit} (h : Untouched start w)
    (ha : (env.answer stopAt (.checkpoint after) w).1 = some a) :
    (g.told (.checkpoint after) a).Fits stopAt start w := by
  by_cases hstopped : reached stopAt w.now = true
  · simp only [answer, if_pos hstopped, Option.some.injEq] at ha
    subst ha
    rw [told, if_neg (by simp)]
    exact h
  · simp only [answer, if_neg hstopped, Option.some.injEq] at ha
    subst ha
    rw [Bool.not_eq_true] at hstopped
    by_cases hafter : after = "provisioning"
    · rw [told, if_pos ⟨hafter, rfl⟩]
      exact hstopped
    · rw [told, if_neg fun hh => hafter hh.1]
      exact ⟨h, hstopped⟩

theorem not_reached_of_await {what : String} {pace : Pace} {node : NodeSpec} {c : Call}
    {enough : c.Answer → Bool} {a : c.Answer}
    (ha : (env.answer stopAt (.await what pace node c enough) w).1 = some (.ok a)) :
    reached stopAt (env.answer stopAt (.await what pace node c enough) w).2.now = false := by
  simp only [answer] at ha ⊢
  cases hrun : Poll.run pace stopAt (env.attempt node c enough) w.now w with
  | none => simp [hrun] at ha
  | some ending =>
    obtain ⟨since, hpolled⟩ := polled_of_waits (Poll.waits_of_loop hrun)
    rcases hpolled.stopped with hcancelled | hnot
    · simp [hrun, hcancelled, PollOutcome.toResult] at ha
    · exact hnot

theorem fits_told {q : Question} {a : q.Answer} (h : g.Fits stopAt start w) (hg : g.Early)
    (hq : g.May q) (ha : (env.answer stopAt q w).1 = some a) :
    (g.told q a).Fits stopAt start (env.answer stopAt q w).2 := by
  have hpublish : ∀ path record, q ≠ .publish path record := by
    rintro path record rfl
    rcases hg with rfl | rfl <;> exact hq
  have hreport : ∀ e, q ≠ .report e := by
    rintro e rfl
    rcases hg with rfl | rfl <;> exact hq
  have hnext : Untouched start (env.answer stopAt q w).2 :=
    (h.untouched hg).trans (answer_untouched hpublish hreport)
  cases q with
  | launch spec => exact hnext
  | checkpoint after => exact fits_checkpoint hnext ha
  | awaitHealth what limit =>
    have hanswer := Option.some.inj ha
    exact fits_heard hnext fun u hu =>
      (givesUp_awaitHealth env stopAt what limit w).heard (hanswer.trans hu)
  | listNodes what =>
    have hanswer := Option.some.inj ha
    exact fits_heard hnext fun nodes hn =>
      (givesUp_guarded env stopAt what .listNodes w).heard (hanswer.trans hn)
  | call what node c =>
    have hanswer := Option.some.inj ha
    exact fits_heard hnext fun b hb =>
      (givesUp_guarded env stopAt what (.call node c) w).heard (hanswer.trans hb)
  | await what pace node c enough =>
    refine fits_heard hnext fun b hb => not_reached_of_await (a := b) ?_
    rw [← hb]
    exact ha
  | enter phase =>
    cases phase with
    | aborting => exact ⟨hnext, rfl⟩
    | _ => exact h.of_now_eq hg hnext rfl
  | publish path record => exact absurd rfl (hpublish path record)
  | report e => exact absurd rfl (hreport e)
  | _ => exact h.of_now_eq hg hnext rfl

/-- Every answer leads from a stance that fits to one that fits. -/
theorem fits_after {q : Question} {a : q.Answer} (h : g.Fits stopAt start w) (hq : g.May q)
    (ha : (env.answer stopAt q w).1 = some a) :
    (g.after q a).Fits stopAt start (env.answer stopAt q w).2 := by
  cases g with
  | unsure => exact fits_told h (.inl rfl) hq ha
  | clear => exact fits_told h (.inr rfl) hq ha
  | aborting =>
    obtain ⟨e, rfl⟩ := hq
    show (reported.Fits stopAt start (if e.isCancelled ∨ reached stopAt w.now = true then w
      else w.note (.failed e)))
    by_cases hsilent : e.isCancelled ∨ reached stopAt w.now = true
    · rw [if_pos hsilent]
      exact ⟨h.2, fun _ => h.1⟩
    · rw [if_neg hsilent]
      exact ⟨h.2, fun hh => absurd (.inr hh) hsilent⟩
  | reported => exact hq.elim
  | passed =>
    cases q with
    | enter phase => exact h
    | publish path record =>
      show reached stopAt _ = false
      simp only [answer]
      split <;> exact h
    | report e =>
      show reached stopAt _ = false
      simp only [answer]
      split <;> exact h
    | _ => exact hq.elim

section

variable {Q : Prop} {ends : Stance → α → Prop} {p p' : Plan α} {w' : World σ} {replies : List Reply}

/-- A run ends in a stance that fits, or a number leaves its range. -/
theorem run_fits (hp : p.Keeps (Law.stopping Q) ends g) (h : g.Fits stopAt start w) :
    (∀ a, (env.run stopAt p w).1 = some a →
      ∃ g', ends g' a ∧ g'.Fits stopAt start (env.run stopAt p w).2) ∧
    ((env.run stopAt p w).1 = none → reached stopAt (env.run stopAt p w).2.now = false ∨
      Untouched start (env.run stopAt p w).2 ∧ Q) := by
  induction p generalizing g w with
  | done a =>
    refine ⟨fun b hb => ?_, nofun⟩
    obtain rfl := Option.some.inj hb
    exact ⟨g, hp, h⟩
  | overflow =>
    refine ⟨nofun, fun _ => ?_⟩
    obtain rfl | ⟨rfl, hQ⟩ := hp
    · exact .inl h.2
    · exact .inr ⟨h, hQ⟩
  | ask q next ih =>
    cases ha : (env.answer stopAt q w).1 with
    | none =>
      obtain ⟨hw, hnow⟩ := of_answer_eq_none ha
      rw [run_ask_of_none ha, hw]
      exact ⟨nofun, fun _ => .inl hnow⟩
    | some a =>
      rw [run_ask_of_some ha]
      exact ih a (hp.2 a _ rfl) (fits_after h hp.1 ha)

/-- A run that ends after its provisioning or with a report, and not before it is stopped, has left
everything untouched. -/
theorem untouched_of_run {ends : Stance → Unit → Prop} {p : Plan Unit} {c : Nat}
    (hends : ∀ g a, ends g a → g = passed ∨ g = reported)
    (hp : p.Keeps (Law.stopping Q) ends g)
    (h : g.Fits (some c) start w) (hc : c ≤ (env.run (some c) p w).2.now) :
    Untouched start (env.run (some c) p w).2 ∧
      ((env.run (some c) p w).1 = some () ∧ (env.run (some c) p w).2.phase = some .aborting ∨
        (env.run (some c) p w).1 = none ∧ Q) := by
  have hstopped : reached (some c) (env.run (some c) p w).2.now = true := by
    simpa [reached_some] using hc
  obtain ⟨hsome, hnone⟩ := run_fits hp h
  cases hr : (env.run (some c) p w).1 with
  | some u =>
    obtain ⟨g', hg', hfits⟩ := hsome u hr
    rcases hends g' u hg' with rfl | rfl
    · exact absurd hstopped (by simp [show reached _ _ = false from hfits])
    · exact ⟨hfits.2 hstopped, .inl ⟨rfl, hfits.1⟩⟩
  | none =>
    rcases hnone hr with hnot | ⟨huntouched, hQ⟩
    · exact absurd hstopped (by simp [hnot])
    · exact ⟨huntouched, .inr ⟨rfl, hQ⟩⟩

/-- A run that stands before the end of its provisioning is stopped from a question on. Where it waits
there, or looks whether it is stopped, no number leaves its range any more. -/
theorem untouched_of_ask {ends : Stance → Unit → Prop} {q : Question} {next : q.Answer → Plan Unit} {c : Nat}
    (hends : ∀ g a, ends g a → g = passed ∨ g = reported)
    (hp : (Plan.ask q next).Keeps (Law.stopping False) ends g) (hg : g.Fits none start w)
    (hpassed : g ≠ passed) (hc : c ≤ (env.run (some c) (.ask q next) w).2.now) :
    Untouched start (env.run (some c) (.ask q next) w).2 ∧
      ((env.run (some c) (.ask q next) w).1 = some () ∧
          (env.run (some c) (.ask q next) w).2.phase = some .aborting ∨
        (env.run (some c) (.ask q next) w).1 = none ∧ ¬ q.Awaited) := by
  by_cases hearly : g.Early
  · have hfits : unsure.Fits (some c) start w := hg.untouched hearly
    by_cases hq : q.Awaited
    · obtain ⟨huntouched, hend | ⟨_, hh⟩⟩ :=
        untouched_of_run hends (keeps_unsure_of_awaited hearly hq hp) hfits hc
      · exact ⟨huntouched, .inl hend⟩
      · exact hh.elim
    · have hlate : ∀ g a, ends g a → ¬ g.Early := by
        rintro g a ha (rfl | rfl) <;> rcases hends _ a ha with hh | hh <;> cases hh
      obtain ⟨huntouched, hend | ⟨hnone, _⟩⟩ :=
        untouched_of_run hends (keeps_unsure hlate hearly hp) hfits hc
      · exact ⟨huntouched, .inl hend⟩
      · exact ⟨huntouched, .inr ⟨hnone, hq⟩⟩
  · cases g with
    | unsure => exact absurd (.inl rfl) hearly
    | clear => exact absurd (.inr rfl) hearly
    | aborting =>
      have hfits : aborting.Fits (some c) start w := hg
      obtain ⟨huntouched, hend | ⟨_, hh⟩⟩ := untouched_of_run hends hp hfits hc
      · exact ⟨huntouched, .inl hend⟩
      · exact hh.elim
    | reported => exact hp.1.elim
    | passed => exact absurd rfl hpassed

theorem exists_of_comes (h : env.Comes p w replies p' w')
    (hp : p.Keeps (Law.stopping Q) ends g) (hg : g.Fits none start w) :
    ∃ g', p'.Keeps (Law.stopping Q) ends g' ∧ g'.Fits none start w' ∧
      (g' = passed ↔ g = passed ∨ ⟨.checkpoint "provisioning", .ok ()⟩ ∈ replies) := by
  induction h generalizing g with
  | here p w => exact ⟨g, hp, hg, by simp⟩
  | @answered q next w w' a replies p ha _ ih =>
    obtain ⟨g', hp', hg', hpassed⟩ := ih (hp.2 a _ rfl) (fits_after hg hp.1 ha)
    refine ⟨g', hp', hg', ?_⟩
    rw [hpassed, after_eq_passed_iff hp.1, List.mem_cons, or_assoc, eq_comm (a := Reply.mk q a)]

end

end Stance

namespace World

/-- What the owner of a run can tell of its end but for the errors delivered. -/
structure Alike (w w' : World σ) : Prop where
  now : w.now = w'.now
  files : w.files = w'.files
  printed : w.printed = w'.printed
  phase : w.phase = w'.phase

theorem Alike.refl (w : World σ) : Alike w w := ⟨rfl, rfl, rfl, rfl⟩

end World

namespace Surroundings

open World

variable {env : Surroundings σ} {stopAt : Option Nat} {w w' : World σ}

/-- After provisioning it makes no difference whether a run is stopped, but for the errors delivered. -/
theorem answer_alike {q : Question} (hq : Stance.passed.May q) (h : Alike w w') :
    (env.answer stopAt q w).1 = (env.answer none q w').1 ∧
      Alike (env.answer stopAt q w).2 (env.answer none q w').2 := by
  cases q with
  | enter phase => exact ⟨rfl, h.now, h.files, h.printed, rfl⟩
  | publish path record =>
    simp only [answer, h.files]
    rcases record.writeAndEcho env.cwd path w'.files with ⟨files, e | ⟨_, text⟩⟩
    · exact ⟨rfl, h.now, rfl, h.printed, h.phase⟩
    · exact ⟨rfl, h.now, rfl, congrArg (· ++ [text]) h.printed, h.phase⟩
  | report e =>
    simp only [answer]
    split <;> split <;> exact ⟨trivial, h.now, h.files, h.printed, h.phase⟩
  | _ => exact hq.elim

variable {Q : Prop} {ends : Stance → α → Prop} {p : Plan α}

theorem run_alike (hp : p.Keeps (Law.stopping Q) ends .passed) (h : Alike w w') :
    (env.run stopAt p w).1 = (env.run none p w').1 ∧
      Alike (env.run stopAt p w).2 (env.run none p w').2 := by
  induction p generalizing w w' with
  | done a => exact ⟨rfl, h⟩
  | overflow => exact ⟨rfl, h⟩
  | ask q next ih =>
    have hboth : (env.answer stopAt q w).1 = (env.answer none q w').1 ∧
        Alike (env.answer stopAt q w).2 (env.answer none q w').2 := answer_alike hp.1 h
    obtain ⟨hanswer, hnext⟩ := hboth
    cases ha : (env.answer none q w').1 with
    | none =>
      rw [ha] at hanswer
      rw [run_ask_of_none ha, run_ask_of_none hanswer]
      exact ⟨rfl, hnext⟩
    | some a =>
      rw [ha] at hanswer
      rw [run_ask_of_some ha, run_ask_of_some hanswer]
      exact ih a (hp.2 a _ rfl) hnext

end Surroundings

namespace Job

open World

variable {env : Surroundings σ} {j : Job} {w w' : World σ} {replies : List Reply} {p : Plan Unit}

section

open Stage

theorem provision_haltsOn (j : Job) (view : ClusterView) :
    HaltsOn j.settings.subnet.Exhausts (j.provision view) := by
  refine (asks_ask (P := fun _ => True) (q := .enter .provisioning) trivial).haltsOn.bind fun _ =>
    (haltsOn_on (Provisioner.all_haltsOn ⟨j.settings, view⟩)).bind fun _ => ?_
  exact ((asks_lift (P := fun _ => True) _).bind fun _ => (asks_checkpoint trivial).bind fun _ =>
    (asks_ask (q := .enter .writingOutput) trivial).bind fun _ => asks_lift _).haltsOn

theorem publish_haltsOn (j : Job) (record : ClusterRecord) :
    HaltsOn j.settings.subnet.Exhausts (j.publish record) := by
  unfold publish
  cases j.settings.output.path with
  | none => exact (asks_pure (P := fun _ => True) ()).haltsOn
  | some path =>
    exact (asks_ofResult (P := fun _ => True) (p := .question (.publish path record))
      ⟨trivial, fun _ _ _ => trivial⟩).haltsOn

theorem course_haltsOn (j : Job) : j.course.Keeps
    (Law.recalling (fun _ _ => True) j.settings.subnet.Exhausts) (fun _ _ => True) [] := by
  have hstages : HaltsOn j.settings.subnet.Exhausts j.stages :=
    (launch_asks j).haltsOn.bind fun _ =>
    (asks_ask (P := fun _ => True) (q := .enter .waitingHealthy) trivial).haltsOn.bind fun _ =>
    (Health.wait_asks _).haltsOn.bind fun view => (provision_haltsOn j view).bind fun record =>
    (publish_haltsOn j record).bind fun _ =>
    (asks_ask (P := fun _ => True) (q := .enter .done) trivial).haltsOn
  refine Plan.keeps_bind.2 (Plan.Keeps.ends_mono (hstages [] ()) ?_)
  rintro replies ⟨r, s⟩ _
  cases r with
  | ok u => trivial
  | error e => exact ⟨trivial, fun _ _ _ => ⟨trivial, fun _ _ _ => trivial⟩⟩

end

theorem passed_of_phase_ne {u : Unit} (h : env.Comes j.course w replies (.done u) w')
    (hphase : w'.phase ≠ some .aborting) : ⟨.checkpoint "provisioning", .ok ()⟩ ∈ replies := by
  obtain ⟨g, hends, hg, hpassed⟩ := Stance.exists_of_comes h (course_keeps j) (Untouched.refl w)
  rcases hends with rfl | rfl
  · rcases hpassed.1 rfl with hh | hmem
    · cases hh
    · exact hmem
  · exact absurd hg.1 hphase

/-- A run is stopped at an instant, having come to any of its questions before. No call is begun from
there on at that instant or later. If the run has not passed the checkpoint after provisioning, and does
not end before the instant, nothing is written or printed and no error delivered, and the run is aborted,
unless it is stopped where it neither waits nor looks for it and counts seconds that do not fit their
word. If it has passed that checkpoint, it ends as if it had not been stopped. -/
theorem stopped_course (h : env.Comes j.course w replies p w') (c : Nat) :
    (∃ since, env.Passes w' since (env.run (some c) p w').2 ∧
      ∀ d ∈ since, d.event.IsCall → d.time < c) ∧
    (⟨.checkpoint "provisioning", .ok ()⟩ ∉ replies → ∀ q next, p = .ask q next →
      c ≤ (env.run (some c) p w').2.now → Untouched w (env.run (some c) p w').2 ∧
        ((env.run (some c) p w').1 = some () ∧ (env.run (some c) p w').2.phase = some .aborting ∨
          (env.run (some c) p w').1 = none ∧ ¬ q.Awaited ∧
            j.settings.subnet.Uncountable (env.clock (env.run (some c) p w').2.now))) ∧
    (⟨.checkpoint "provisioning", .ok ()⟩ ∈ replies →
      (env.run (some c) p w').1 = (env.run none j.course w).1 ∧
        Alike (env.run (some c) p w').2 (env.run none j.course w).2) := by
  obtain ⟨g, hp, hg, hpassed⟩ := Stance.exists_of_comes h (course_keeps j) (Untouched.refl w)
  refine ⟨?_, ?_, ?_⟩
  · obtain ⟨since, hpasses, hbefore, _⟩ := Surroundings.run_traces env (some c) p w'
    refine ⟨since, hpasses, fun d hd hcall => ?_⟩
    simpa [reached_some] using hbefore d hd hcall
  · rintro hnot q next rfl hc
    have hearly : g ≠ .passed := by
      rintro rfl
      rcases hpassed.1 rfl with hh | hmem
      · cases hh
      · exact hnot hmem
    obtain ⟨huntouched, hend | ⟨hnone, hq⟩⟩ := Stance.untouched_of_ask (fun _ _ h => h) hp hg hearly hc
    · exact ⟨huntouched, .inl hend⟩
    · -- a number leaves its range only right after the clock was read, and nothing was waited for since
      obtain ⟨_, hhalts⟩ := Plan.Keeps.of_reaches_recalling (course_haltsOn j) h.reaches
      refine ⟨huntouched, .inr ⟨hnone, hq, ?_⟩⟩
      exact Surroundings.uncountable_of_run hhalts (h.punctual [] nofun) hnone (by simpa [reached_some] using hc)
  · intro hmem
    obtain rfl := hpassed.2 (.inr hmem)
    rw [h.run_eq]
    exact Surroundings.run_alike hp (Alike.refl w')

/-- A fleet that cannot be started, which shows after ten milliseconds. -/
def unstartable : Surroundings Unit where
  fleet _ _ := ⟨10, .error (.fatal "no binary"), ()⟩
  cwd := []
  clock _ := 0
  wallet _ _ := Wallet.new "" ⟨Octets.replicate 32 0⟩

/-- A rehearsed fleet of one node with which nothing is wrong. -/
def agreeable (settings : Settings) : Surroundings Rehearsal.Memory where
  fleet := Rehearsal.fleet ⟨[Rehearsal.node 0], settings⟩
  cwd := []
  clock _ := 0
  wallet := Rehearsal.wallet

/-- One run is stopped half-way through a start that fails, and another just after its provisioning. -/
theorem stopped_course_specimen :
    let j : Job := ⟨{ provision := { walletCount := 1 } }, "logs", 1⟩
    let w : World Unit := ⟨0, (), .empty, [], 0, []⟩
    let v : World Rehearsal.Memory := ⟨0, { rules := [] }, .empty, [], 0, []⟩
    (∃ next w', unstartable.Comes j.course w [⟨.enter .starting, ()⟩] (.ask (.launch j.launchSpec) next) w' ∧
      (unstartable.run none (.ask (.launch j.launchSpec) next) w').2.failures = [.fatal "no binary"] ∧
      Untouched w (unstartable.run (some 5) (.ask (.launch j.launchSpec) next) w').2 ∧
      (unstartable.run (some 5) (.ask (.launch j.launchSpec) next) w').2.phase = some .aborting) ∧
    ∃ replies p v', (agreeable j.settings).Comes j.course v
        (replies ++ [⟨.checkpoint "provisioning", .ok ()⟩]) p v' ∧
      ((agreeable j.settings).run (some v'.now) p v').2.phase = some .done := by
  intro j w v
  constructor
  · have hcomes : ∃ next w', unstartable.Comes j.course w [⟨.enter .starting, ()⟩]
          (.ask (.launch j.launchSpec) next) w' ∧
        (unstartable.run none (.ask (.launch j.launchSpec) next) w').2.failures = [.fatal "no binary"] ∧
        5 ≤ (unstartable.run (some 5) (.ask (.launch j.launchSpec) next) w').2.now :=
      ⟨_, _, .answered rfl (.here _ _), rfl, by decide⟩
    obtain ⟨next, w', h, hfailures, hlate⟩ := hcomes
    obtain ⟨_, hearly, _⟩ := stopped_course h 5
    obtain ⟨huntouched, ⟨_, hphase⟩ | ⟨_, hh, _⟩⟩ := hearly (by simp) (.launch j.launchSpec) next rfl hlate
    · exact ⟨next, w', h, hfailures, huntouched, hphase⟩
    · exact absurd trivial hh
  · have hdone : ((agreeable j.settings).run none j.course v).1 = some () ∧
        ((agreeable j.settings).run none j.course v).2.phase = some .done := by decide +kernel
    obtain ⟨hend, hphase⟩ := hdone
    obtain ⟨replies, hcomes⟩ := Surroundings.exists_comes hend
    have hmem := passed_of_phase_ne hcomes (by simp [hphase])
    obtain ⟨earlier, p, v', h⟩ := hcomes.cut hmem
    obtain ⟨_, _, hpassed⟩ := stopped_course h v'.now
    obtain ⟨_, halike⟩ := hpassed (by simp)
    exact ⟨earlier, p, v', h, halike.phase.trans hphase⟩

/-- Whether the time is asked for next. -/
def asksTime : Plan α → Bool
  | .ask .clock _ => true
  | _ => false

theorem exists_of_asksTime (h : asksTime p = true) : ∃ next, p = .ask .clock next := by
  cases p with
  | ask q next =>
    cases q with
    | clock => exact ⟨next, rfl⟩
    | _ => cases h
  | _ => cases h

/-- A run that still provisions asks for the time, and is stopped at this instant. It is not aborted: it
counts seconds that do not fit their word before it looks whether it is stopped. -/
theorem not_aborted_of_uncounted :
    let j : Job := ⟨{ provision := { walletCount := 1 }, subnet :=
      { genesisPath := some "/genesis.json", duration := 0xffffffffffffffff } }, "logs", 1⟩
    let w : World Rehearsal.Memory := ⟨0, { rules := [] }, .empty, [], 0, []⟩
    ∃ replies next w', (agreeable j.settings).Comes j.course w replies (.ask .clock next) w' ∧
      ⟨.checkpoint "provisioning", .ok ()⟩ ∉ replies ∧
      w'.now ≤ ((agreeable j.settings).run (some w'.now) (.ask .clock next) w').2.now ∧
      ((agreeable j.settings).run (some w'.now) (.ask .clock next) w').1 = none ∧
      ((agreeable j.settings).run (some w'.now) (.ask .clock next) w').2.phase = some .provisioning := by
  intro j w
  obtain ⟨replies, h⟩ := (agreeable j.settings).exists_comes_proceed 60 j.course w
  generalize hstand : (agreeable j.settings).proceed 60 j.course w = stand at h
  obtain ⟨p, w'⟩ := stand
  have hstops : asksTime p = true ∧ ((agreeable j.settings).run (some w'.now) p w').1.isNone = true ∧
      w'.now ≤ ((agreeable j.settings).run (some w'.now) p w').2.now ∧
      ((agreeable j.settings).run (some w'.now) p w').2.phase = some .provisioning := by
    have hall : let stand := (agreeable j.settings).proceed 60 j.course w
        let stopped := (agreeable j.settings).run (some stand.2.now) stand.1 stand.2
        asksTime stand.1 = true ∧ stopped.1.isNone = true ∧ stand.2.now ≤ stopped.2.now ∧
          stopped.2.phase = some .provisioning := by decide +kernel
    rwa [hstand] at hall
  obtain ⟨htime, hnone, hnow, hphase⟩ := hstops
  obtain ⟨next, rfl⟩ := exists_of_asksTime htime
  refine ⟨replies, next, w', h, fun hmem => ?_, hnow, by simpa using hnone, hphase⟩
  -- a run that has passed that checkpoint does not ask for the time any more
  obtain ⟨g, hp, _, hpassed⟩ := Stance.exists_of_comes h (course_keeps j) (Untouched.refl w)
  obtain rfl := hpassed.2 (.inr hmem)
  exact hp.1

end Job

end LocalFleet
