import LocalFleet.Proofs.Provision.Routine
import LocalFleet.Run.Course

/-! Where a run stands as to being stopped. It is certain not to have been stopped when something that it
waited for has just gone well, and may have been stopped when that has failed, or when nothing has been
heard since. No time passes while a run does not wait. -/

namespace LocalFleet

inductive Stance where
  | unsure
  | clear
  | aborting
  | reported
  | passed
  deriving DecidableEq

namespace Stance

/-- What is known once something was waited for. -/
def heard {α : Type} : Result α → Stance
  | .ok _ => clear
  | .error _ => unsure

/-- What an answer makes of a stance before provisioning has ended. -/
def told (g : Stance) : (q : Question) → q.Answer → Stance
  | .launch _, _ => unsure
  | .checkpoint after, r => if after = "provisioning" ∧ r = .ok () then passed else heard r
  | .awaitHealth .., r => heard r
  | .listNodes _, r => heard r
  | .call .., r => heard r
  | .await .., r => heard r
  | .enter .aborting, _ => aborting
  | _, _ => g

def after (g : Stance) (q : Question) (answer : q.Answer) : Stance :=
  match g with
  | unsure | clear => g.told q answer
  | aborting | reported => reported
  | passed => passed

/-- Provisioning has not ended, and the run has not failed. -/
def Early (g : Stance) : Prop := g = unsure ∨ g = clear

/-- What may be asked. -/
def May : Stance → Question → Prop
  | unsure, q | clear, q => match q with
    | .report _ | .publish .. | .enter .writingOutput | .enter .done => False
    | _ => True
  | aborting, q => ∃ e, q = .report e
  | reported, _ => False
  | passed, q => match q with
    | .enter _ | .publish .. | .report _ => True
    | _ => False

end Stance

/-- How a run stands after its questions. A number leaves its range only when the run has just been seen
not to be stopped, or, if `Q` holds, when it may have been stopped. -/
def Law.stopping (Q : Prop) : Law Stance where
  step g q answer g' := g' = g.after q answer
  may := Stance.May
  halt g := g = .clear ∨ g = .unsure ∧ Q

/-- Questions that may be asked early and leave the run there. -/
def Question.Tame : Question → Prop
  | .report _ | .publish .. | .enter .writingOutput | .enter .done | .enter .aborting => False
  | .checkpoint after => after ≠ "provisioning"
  | _ => True

theorem Question.Routine.tame {q : Question} (h : q.Routine) : q.Tame := by
  cases q <;> first | exact h | exact h.elim

/-- Questions at which a run waits, or looks whether it was stopped. -/
def Question.Awaited : Question → Prop
  | .launch _ | .checkpoint _ | .awaitHealth .. | .listNodes _ | .call .. | .await .. => True
  | _ => False

namespace Stance

variable {g : Stance} {q : Question}

theorem early_heard {α : Type} (r : Result α) : (heard r).Early := by
  cases r with
  | ok a => exact .inr rfl
  | error e => exact .inl rfl

theorem Early.after_eq (hg : g.Early) (answer : q.Answer) : g.after q answer = g.told q answer := by
  rcases hg with rfl | rfl <;> rfl

theorem Early.may (hg : g.Early) (hq : q.Tame) : g.May q := by
  rcases hg with rfl | rfl <;> cases q with
  | enter phase => cases phase <;> trivial
  | report e => exact hq.elim
  | publish path record => exact hq.elim
  | _ => trivial

theorem Early.after (hg : g.Early) (hq : q.Tame) (answer : q.Answer) : (g.after q answer).Early := by
  rw [hg.after_eq]
  cases q with
  | launch spec => exact .inl rfl
  | checkpoint what =>
    rw [told, if_neg fun h => hq h.1]
    exact early_heard answer
  | awaitHealth what limit => exact early_heard answer
  | listNodes what => exact early_heard answer
  | call what node c => exact early_heard answer
  | await what pace node c enough => exact early_heard answer
  | enter phase => cases phase <;> first | exact hg | exact hq.elim
  | report e => exact hq.elim
  | publish path record => exact hq.elim
  | _ => exact hg

theorem told_eq_of_awaited (hq : q.Awaited) (answer : q.Answer) :
    g.told q answer = unsure.told q answer := by
  cases q <;> first | rfl | exact hq.elim

theorem told_eq_or (g : Stance) (answer : q.Answer) : g.told q answer = unsure.told q answer ∨
    g.told q answer = g ∧ unsure.told q answer = unsure := by
  cases q with
  | enter phase => cases phase <;> first | exact .inr ⟨rfl, rfl⟩ | exact .inl rfl
  | launch | checkpoint | awaitHealth | listNodes | call | await => exact .inl rfl
  | _ => exact .inr ⟨rfl, rfl⟩

theorem Early.may_iff (hg : g.Early) : g.May q ↔ unsure.May q := by
  rcases hg with rfl | rfl <;> rfl

theorem Early.told_ne_passed (hg : g.Early) {answer : q.Answer}
    (h : (⟨q, answer⟩ : Reply) ≠ ⟨.checkpoint "provisioning", .ok ()⟩) : g.told q answer ≠ passed := by
  have hheard : ∀ {α : Type} (r : Result α), heard r ≠ passed := by
    intro α r
    cases r <;> nofun
  have hsame : g ≠ passed := by
    rcases hg with rfl | rfl <;> nofun
  cases q with
  | launch spec => nofun
  | checkpoint what =>
    rw [told, if_neg]
    · exact hheard answer
    · rintro ⟨rfl, rfl⟩
      exact h rfl
  | awaitHealth what limit => exact hheard answer
  | listNodes what => exact hheard answer
  | call what node c => exact hheard answer
  | await what pace node c enough => exact hheard answer
  | enter phase => cases phase <;> first | exact hsame | nofun
  | _ => exact hsame

theorem after_eq_passed_iff {answer : q.Answer} (hq : g.May q) : g.after q answer = passed ↔
    g = passed ∨ (⟨q, answer⟩ : Reply) = ⟨.checkpoint "provisioning", .ok ()⟩ := by
  have hearly : g.Early → (g.after q answer = passed ↔
      g = passed ∨ (⟨q, answer⟩ : Reply) = ⟨.checkpoint "provisioning", .ok ()⟩) := by
    intro hg
    rw [hg.after_eq]
    constructor
    · intro h
      by_contra hne
      exact hg.told_ne_passed (fun hh => hne (.inr hh)) h
    · rintro (rfl | h)
      · rcases hg with hh | hh <;> cases hh
      · cases h
        rfl
  cases g with
  | unsure => exact hearly (.inl rfl)
  | clear => exact hearly (.inr rfl)
  | aborting =>
    obtain ⟨e, rfl⟩ := hq
    exact ⟨nofun, fun h => by rcases h with hh | hh <;> cases hh⟩
  | reported => exact hq.elim
  | passed => exact ⟨fun _ => .inl rfl, fun _ => rfl⟩

section

variable {α : Type} {ends : Stance → α → Prop} {Q : Prop}

/-- Not to be sure costs a run nothing but that numbers may leave their range. -/
theorem keeps_unsure (hends : ∀ g a, ends g a → ¬ g.Early) (hg : g.Early) {p : Plan α}
    (hp : p.Keeps (Law.stopping False) ends g) :
    p.Keeps (Law.stopping True) ends .unsure := by
  induction p generalizing g with
  | done a => exact absurd hg (hends g a hp)
  | overflow => exact .inr ⟨rfl, trivial⟩
  | ask q next ih =>
    refine ⟨hg.may_iff.1 hp.1, ?_⟩
    rintro answer _ rfl
    have hnext := hp.2 answer _ rfl
    rw [hg.after_eq] at hnext
    show ((next answer).Keeps _ _ (unsure.told q answer))
    rcases told_eq_or g answer with htold | ⟨htold, hunsure⟩
    · rw [← htold]
      exact hnext.mono (fun _ _ _ _ h => h) (fun _ _ h => h)
        (fun _ h => h.imp id fun hh => hh.2.elim) fun _ _ h => h
    · rw [htold] at hnext
      rw [hunsure]
      exact ih answer hg hnext

theorem keeps_unsure_of_awaited (hg : g.Early) {next : q.Answer → Plan α}
    (hq : q.Awaited) (hp : (Plan.ask q next).Keeps (Law.stopping Q) ends g) :
    (Plan.ask q next).Keeps (Law.stopping Q) ends .unsure := by
  refine ⟨hg.may_iff.1 hp.1, ?_⟩
  rintro answer _ rfl
  have hnext := hp.2 answer _ rfl
  rw [hg.after_eq, told_eq_of_awaited hq] at hnext
  exact hnext

end

end Stance

namespace Stage

variable {σ τ α β : Type}

/-- Started early, the stage asks what may be asked then and ends early. -/
def Calm (stage : Stage σ α) : Prop :=
  ∀ (g : Stance) (s : σ), g.Early →
    Keeps (Law.stopping False) (fun g _ _ => g.Early) (fun g _ _ => g.Early) g s stage

variable {x stage : Stage σ α} {f : α → Stage σ β}

theorem Calm.bind (hx : Calm x) (hf : ∀ a, Calm (f a)) : Calm (x >>= f) :=
  fun g s hg => Keeps.bind (hx g s hg) fun g a t hg => hf a g t hg

theorem Calm.keeps_bind {Q : Stance → β → σ → Prop} {E : Stance → Error → σ → Prop} {g : Stance} {s : σ}
    (hx : Calm x) (hg : g.Early) (hE : ∀ g e s, g.Early → E g e s)
    (hf : ∀ g a s, g.Early → Keeps (Law.stopping False) Q E g s (f a)) :
    Keeps (Law.stopping False) Q E g s (x >>= f) :=
  Keeps.bind ((hx g s hg).mono (fun _ _ _ h => h) hE) hf

theorem calm_pure (a : α) : Calm (pure a : Stage σ α) := fun _ _ hg => keeps_pure hg

theorem Asks.calm (h : Asks Question.Tame False stage) : Calm stage := by
  refine fun g s hg => h.keeps (fun g q hg hq => hg.may hq) ?_ (fun _ _ => False.elim) hg s
  rintro g q a _ hg hq rfl
  exact hg.after hq a

theorem Asks.calm_of_routine (h : Asks Question.Routine False stage) : Calm stage :=
  (h.mono (fun _ hq => hq.tame) id).calm

theorem calm_ite {condition : Prop} [Decidable condition] {y : Stage σ α} (hx : Calm x)
    (hy : Calm y) : Calm (if condition then x else y) := by
  split
  · exact hx
  · exact hy

theorem calm_on {own : τ} {inner : Stage τ α} (h : Calm inner) :
    Calm (Stage.on own inner : Stage σ _) :=
  fun g _ hg => keeps_on (h g own hg)

theorem keeps_ask_passed {q : Question} (hq : Stance.passed.May q)
    {E : Stance → Error → σ → Prop} {s : σ} :
    Keeps (Law.stopping False) (fun g _ _ => g = .passed) E .passed s (Stage.ask q) :=
  keeps_ask hq fun _ _ h => h

/-- A checkpoint that is passed tells that the run was not stopped, until something is waited for. -/
theorem calm_checkpoint_bind {after : String} {f : Unit → Stage σ β} (h : after ≠ "provisioning")
    (hf : ∀ s, Keeps (Law.stopping False) (fun g _ _ => g.Early) (fun g _ _ => g.Early) .clear s
      (f ())) :
    Calm (Stage.checkpoint after >>= f) := by
  intro g s hg
  refine Keeps.bind (Q := fun g _ _ => g = .clear) (keeps_checkpoint (hg.may h) ?_ ?_) ?_
  · rintro _ rfl
    rw [hg.after_eq, Stance.told, if_neg fun hh => h hh.1]
    rfl
  · rintro e _ rfl
    exact hg.after (q := .checkpoint after) h (.error e)
  · rintro _ _ t rfl
    exact hf t

end Stage

namespace Provisioner

open Stage

variable (p : Provisioner)

/-- What goes well ends with the run just seen not to be stopped, so that seconds are only ever counted
then. -/
theorem addSubnetValidators_keeps (s : Provisioned) :
    Keeps (Law.stopping False) (fun g _ _ => g = .clear) (fun g _ _ => g.Early) .clear s
      p.addSubnetValidators := by
  have hlift : ∀ {α : Type} (r : Result α) (s : Provisioned), Keeps (Law.stopping False)
      (fun g _ _ => g = .clear) (fun g _ _ => g.Early) .clear s (Stage.lift r) :=
    fun r s => keeps_lift (fun _ _ => rfl) fun _ _ => .inr rfl
  refine Keeps.bind (Q := fun g _ _ => g = .clear) (keeps_get rfl) ?_
  rintro _ t _ rfl
  refine Keeps.bind (hlift _ _) ?_
  rintro _ subnetId t rfl
  refine Keeps.bind (Q := fun g _ _ => g = .clear) (Keeps.bind (Q := fun g _ _ => g = .clear)
    (keeps_get rfl) ?_) ?_
  · rintro _ t _ rfl
    refine Keeps.bind (hlift _ _) ?_
    rintro _ genesis t rfl
    exact hlift _ _
  rintro _ control t rfl
  refine keeps_forM (fun _ g _ => g = Stance.clear) ?_ rfl
  rintro _ node _ _ t _ rfl
  refine Keeps.bind (Q := fun g _ _ => g = .clear) (keeps_ask (q := .clock) trivial ?_) ?_
  · rintro now _ rfl
    rfl
  rintro _ now t rfl
  cases p.validationTimes now with
  | none => exact keeps_overflow (.inl rfl)
  | some times =>
    refine Keeps.bind (Q := fun g _ _ => g = .clear) (keeps_call trivial ?_ ?_) ?_
    · rintro _ _ rfl
      rfl
    · rintro _ _ rfl
      exact .inl rfl
    rintro _ txId t rfl
    refine Keeps.bind (Q := fun g _ _ => g = .clear) (keeps_await trivial ?_ ?_) ?_
    · rintro _ _ rfl
      rfl
    · rintro _ _ rfl
      exact .inl rfl
    rintro _ _ t rfl
    exact keeps_pure rfl

theorem subnetwork_calm : Calm p.subnetwork := by
  refine (routine_checkpoint_asks (by decide)).calm_of_routine.bind fun _ => ?_
  refine (createSubnet_asks p).calm_of_routine.bind fun _ => ?_
  refine calm_checkpoint_bind (by decide) fun s => Keeps.bind (addSubnetValidators_keeps p s) ?_
  rintro _ _ s rfl
  refine Asks.calm_of_routine ?_ .clear s (.inr rfl)
  exact (routine_checkpoint_asks (by decide)).bind fun _ => (createBlockchain_asks p).bind fun _ =>
    (routine_checkpoint_asks (by decide)).bind fun _ => awaitBootstrap_asks p

theorem all_calm : Calm p.all :=
  (funding_asks p).calm_of_routine.bind fun _ => calm_ite (subnetwork_calm p) (calm_pure ())

end Provisioner

theorem Health.askIds_asks {σ : Type} {R : Prop} (node : NodeSpec) :
    Stage.Asks Question.Tame R (askIds node : Stage σ ChainIds) :=
  (Stage.asks_call trivial).bind fun _ => (Stage.asks_call trivial).bind fun _ =>
    (Stage.asks_call trivial).bind fun _ => Stage.asks_pure _

theorem Health.wait_asks {σ : Type} {R : Prop} (limit : UInt64) :
    Stage.Asks Question.Tame R (Health.wait limit : Stage σ ClusterView) := by
  refine Stage.Asks.bind (Stage.asks_ofResult ⟨trivial, fun _ _ _ => trivial⟩) fun _ => ?_
  refine Stage.Asks.bind (Stage.asks_ofResult ⟨trivial, fun _ _ _ => trivial⟩) fun nodes => ?_
  cases leastNamed nodes with
  | none => exact Stage.asks_throw _
  | some node =>
    exact (askIds_asks node).bind fun _ => (Stage.asks_lift _).bind fun _ =>
      (Stage.asks_ask (q := .announceReady) trivial).bind fun _ => Stage.asks_pure _

namespace Job

open Stage

variable (j : Job)

theorem launch_asks {R : Prop} : Asks Question.Tame R j.launch := by
  refine (asks_ask (q := .enter .starting) trivial).bind fun _ => ?_
  refine Asks.bind (asks_ofResult ⟨trivial, fun _ _ _ => trivial⟩) fun _ => ?_
  refine (asks_ask (q := .install) trivial).bind fun _ => asks_checkpoint ?_
  show "launch" ≠ "provisioning"
  decide

/-- After provisioning a run goes on only if it was not stopped before that. -/
theorem provision_keeps (view : ClusterView) {g : Stance} (hg : g.Early) (s : Unit) :
    Keeps (Law.stopping False) (fun g _ _ => g = .passed)
      (fun g _ _ => g.Early ∨ g = .passed) g s (j.provision view) := by
  refine (asks_ask (q := .enter .provisioning) trivial).calm.keeps_bind hg (fun _ _ _ h => .inl h)
    fun g _ s hg => ?_
  refine (calm_on (Provisioner.all_calm _)).keeps_bind hg (fun _ _ _ h => .inl h)
    fun g r s hg => ?_
  refine (asks_lift _).calm.keeps_bind hg (fun _ _ _ h => .inl h) fun g _ s hg => ?_
  refine Keeps.bind (Q := fun g _ _ => g = .passed) (keeps_checkpoint ?_ ?_ ?_) ?_
  · rcases hg with rfl | rfl <;> trivial
  · rintro _ rfl
    rw [hg.after_eq]
    rfl
  · rintro e _ rfl
    rw [hg.after_eq]
    exact .inl (.inl rfl)
  rintro _ _ s rfl
  refine Keeps.bind (keeps_ask_passed (q := .enter .writingOutput) trivial) ?_
  rintro _ _ s rfl
  exact keeps_lift (fun _ _ => rfl) fun _ _ => .inr rfl

theorem publish_keeps (record : ClusterRecord) (s : Unit) :
    Keeps (Law.stopping False) (fun g _ _ => g = .passed)
      (fun g _ _ => g.Early ∨ g = .passed) .passed s (j.publish record) := by
  unfold publish
  cases j.settings.output.path with
  | none => exact keeps_pure rfl
  | some path =>
    refine keeps_ofResult ⟨trivial, ?_⟩
    rintro r _ rfl
    cases r with
    | ok a => rfl
    | error e => exact .inr rfl

theorem stages_keeps (s : Unit) :
    Keeps (Law.stopping False) (fun g _ _ => g = .passed)
      (fun g _ _ => g.Early ∨ g = .passed) .unsure s j.stages := by
  refine (launch_asks j).calm.keeps_bind (.inl rfl) (fun _ _ _ h => .inl h) fun g _ s hg => ?_
  refine (asks_ask (q := .enter .waitingHealthy) trivial).calm.keeps_bind hg (fun _ _ _ h => .inl h)
    fun g _ s hg => ?_
  refine (Health.wait_asks _).calm.keeps_bind hg (fun _ _ _ h => .inl h) fun g view s hg => ?_
  refine Keeps.bind (provision_keeps j view hg s) ?_
  rintro _ record s rfl
  refine Keeps.bind (publish_keeps j record s) ?_
  rintro _ _ s rfl
  exact keeps_ask_passed (q := .enter .done) trivial

/-- A run that starts, perhaps stopped already, ends after its provisioning or with a report. -/
theorem course_keeps :
    Plan.Keeps (Law.stopping False) (fun g _ => g = .passed ∨ g = .reported) .unsure
      j.course := by
  refine Plan.keeps_bind.2 (Plan.Keeps.ends_mono (stages_keeps j ()) ?_)
  rintro g ⟨r, s⟩ hg
  cases r with
  | ok u => exact .inl hg
  | error e =>
    rcases hg with hg | rfl
    · have hafter : g.after (.enter .aborting) () = .aborting := hg.after_eq (q := .enter .aborting) ()
      refine ⟨?_, ?_⟩
      · rcases hg with rfl | rfl <;> trivial
      · rintro _ _ rfl
        rw [hafter]
        refine ⟨⟨e, rfl⟩, ?_⟩
        rintro _ _ rfl
        exact .inr rfl
    · refine ⟨trivial, ?_⟩
      rintro _ _ rfl
      refine ⟨trivial, ?_⟩
      rintro _ _ rfl
      exact .inl rfl

end Job

end LocalFleet
