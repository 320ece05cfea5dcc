import LocalFleet.Proofs.Run.Stopping
import LocalFleet.Proofs.Transcript

/-! What can be seen of a run that is told to stop at any time, or never: the phases it enters, whether
it is ready, the errors it delivers and the files it writes. Each of them is changed by questions of one
kind only. -/

namespace LocalFleet

variable {σ α : Type}

def Event.isReady : Event → Bool
  | ready => true
  | _ => false

namespace Question

/-- The phase that a question enters, if it enters one. -/
def entered : Question → List Phase
  | enter phase => [phase]
  | _ => []

def announces : Question → Bool
  | announceReady => true
  | _ => false

def reported? : Question → Option Error
  | report e => some e
  | _ => none

/-- Questions of which nothing can be seen but what the fleet is asked. -/
def Silent : Question → Prop
  | enter _ | announceReady | publish .. | report _ => False
  | _ => True

variable {q : Question}

theorem entered_of_silent (h : q.Silent) : q.entered = [] := by
  cases q <;> first | rfl | exact h.elim

theorem announces_of_silent (h : q.Silent) : q.announces = false := by
  cases q <;> first | rfl | exact h.elim

theorem reported?_of_silent (h : q.Silent) : q.reported? = none := by
  cases q <;> first | rfl | exact h.elim

theorem eq_report_of_reported? {e : Error} (h : q.reported? = some e) : q = .report e := by
  cases q with
  | report f => rw [Option.some.inj h]
  | _ => cases h

theorem Routine.silent (h : q.Routine) : q.Silent := by
  cases q <;> trivial

end Question

/-- The phases that were entered by some replies. -/
def entered (replies : List Reply) : List Phase := replies.flatMap fun r => r.question.entered

@[simp] theorem entered_nil : entered [] = [] := rfl

@[simp] theorem entered_append_singleton (replies : List Reply) (r : Reply) :
    entered (replies ++ [r]) = entered replies ++ r.question.entered := by
  simp [entered]

namespace World

def phases (w : World σ) : List Phase := (w.log.filterMap fun d => d.event.phase?).reverse

def isReady (w : World σ) : Bool := w.log.any fun d => d.event.isReady

theorem phase_eq_getLast? (w : World σ) : w.phase = w.phases.getLast? := by
  rw [phases, List.getLast?_reverse, phase, List.head?_filterMap]

/-- Nothing can be seen to have happened since. -/
structure Still (w w' : World σ) : Prop where
  phases : w'.phases = w.phases
  isReady : w'.isReady = w.isReady

theorem Still.refl (w : World σ) : Still w w := ⟨rfl, rfl⟩

theorem still_of_log {w w' : World σ} {since : List Dated} (hlog : w'.log = since ++ w.log)
    (hsince : ∀ d ∈ since, ∃ inquiry, d.event = .asked inquiry) : Still w w' := by
  have hphases : since.filterMap (fun d => d.event.phase?) = [] := by
    rw [List.filterMap_eq_nil_iff]
    intro d hd
    obtain ⟨inquiry, hasked⟩ := hsince d hd
    rw [hasked]
    rfl
  have hready : since.any (fun d => d.event.isReady) = false := by
    rw [List.any_eq_false]
    intro d hd
    obtain ⟨inquiry, hasked⟩ := hsince d hd
    rw [hasked]
    exact Bool.false_ne_true
  constructor
  · rw [World.phases, hlog, List.filterMap_append, hphases, List.nil_append]
    rfl
  · rw [World.isReady, hlog, List.any_append, hready, Bool.false_or]
    rfl

end World

namespace Surroundings

open World

variable {env : Surroundings σ} {stopAt : Option Nat} {w : World σ} {q : Question}

theorem GivesUp.still {what : String} {inquiry : Inquiry} {r : Result inquiry.Answer × World σ}
    (h : GivesUp env stopAt what inquiry w r) : Still w r.2 := by
  cases h with
  | notBegun hnow => exact .refl w
  | givenUp c hstop hlt => exact ⟨rfl, rfl⟩
  | ended time answer hle htime hanswer => exact ⟨rfl, rfl⟩

theorem answer_still (hq : q.Silent) : Still w (env.answer stopAt q w).2 := by
  cases q with
  | awaitHealth what limit => exact (givesUp_awaitHealth env stopAt what limit w).still
  | listNodes what => exact (givesUp_guarded env stopAt what .listNodes w).still
  | call what node c => exact (givesUp_guarded env stopAt what (.call node c) w).still
  | await what pace node c enough =>
    simp only [answer]
    cases hrun : Poll.run pace stopAt (env.attempt node c enough) w.now w with
    | none => exact .refl w
    | some ending =>
      obtain ⟨since, hpolled⟩ := polled_of_waits (Poll.waits_of_loop hrun)
      exact still_of_log hpolled.passes.log fun d hd =>
        ⟨_, (hpolled.asked d (List.mem_reverse.1 hd)).1⟩
  | enter | announceReady | publish | report => exact hq.elim
  | _ => exact ⟨rfl, rfl⟩

theorem answer_publish (path : String) (record : ClusterRecord) :
    (env.answer stopAt (.publish path record) w).2.failures = w.failures ∧
      Still w (env.answer stopAt (.publish path record) w).2 := by
  simp only [answer]
  split <;> exact ⟨rfl, rfl, rfl⟩

theorem phases_answer : (env.answer stopAt q w).2.phases = w.phases ++ q.entered := by
  by_cases hq : q.Silent
  · rw [(answer_still hq).phases, Question.entered_of_silent hq, List.append_nil]
  · cases q with
    | enter phase => exact List.reverse_cons
    | announceReady => exact (List.append_nil _).symm
    | publish path record => exact (answer_publish path record).2.phases.trans (List.append_nil _).symm
    | report e =>
      simp only [answer, Question.entered, List.append_nil]
      split <;> rfl
    | _ => exact absurd trivial hq

theorem phase_answer (hq : q.entered = []) : (env.answer stopAt q w).2.phase = w.phase := by
  rw [phase_eq_getLast?, phases_answer, hq, List.append_nil, phase_eq_getLast?]

theorem isReady_answer : (env.answer stopAt q w).2.isReady = (w.isReady || q.announces) := by
  by_cases hq : q.Silent
  · rw [(answer_still hq).isReady, Question.announces_of_silent hq, Bool.or_false]
  · cases q with
    | enter phase => exact (Bool.or_false _).symm
    | announceReady => exact (Bool.or_true _).symm
    | publish path record => exact (answer_publish path record).2.isReady.trans (Bool.or_false _).symm
    | report e =>
      simp only [answer, Question.announces, Bool.or_false]
      split <;> rfl
    | _ => exact absurd trivial hq

theorem failures_answer (hq : q.reported? = none) : (env.answer stopAt q w).2.failures = w.failures := by
  by_cases hpublish : ∃ path record, q = .publish path record
  · obtain ⟨path, record, rfl⟩ := hpublish
    exact (answer_publish path record).1
  · refine (answer_untouched (fun path record h => hpublish ⟨path, record, h⟩) ?_).failures
    rintro e rfl
    cases hq

/-- A reported error is delivered unless it tells that the run was stopped, or the run was stopped. -/
theorem failures_report (e : Error) : (env.answer stopAt (.report e) w).2.failures = w.failures ∨
    (env.answer stopAt (.report e) w).2.failures = e :: w.failures ∧ e.isCancelled = false ∧
      reached stopAt w.now = false := by
  simp only [answer]
  split
  · exact .inl rfl
  · next hsilent =>
    rw [not_or, Bool.not_eq_true, Bool.not_eq_true] at hsilent
    exact .inr ⟨rfl, hsilent⟩

theorem files_answer (hq : ∀ path record, q ≠ .publish path record) :
    (env.answer stopAt q w).2.files = w.files := by
  by_cases hreport : ∃ e, q = .report e
  · obtain ⟨e, rfl⟩ := hreport
    simp only [answer]
    split <;> rfl
  · exact (answer_untouched hq fun e h => hreport ⟨e, h⟩).files

theorem healthy_of_awaitHealth {what : String} {limit : UInt64}
    (h : (env.answer stopAt (.awaitHealth what limit) w).1 = some (.ok ())) :
    (env.fleet .waitHealthy w.fleet).answer = .ok () ∧
      (env.fleet .waitHealthy w.fleet).latency ≤ limit.toNat := by
  have hok : (env.awaitHealth stopAt what limit w).1 = .ok () := Option.some.inj h
  unfold awaitHealth at hok
  by_cases hnow : reached stopAt w.now = true
  · rw [if_pos hnow] at hok
    cases hok
  · rw [if_neg hnow] at hok
    let latency := (env.fleet .waitHealthy w.fleet).latency
    let deadline := w.now + limit.toNat
    change Prod.fst (if latency ≠ 0 ∧ reached stopAt (min (w.now + latency) deadline) = true then _
      else if latency ≠ 0 ∧ deadline < w.now + latency then _ else _) = _ at hok
    by_cases hlate : latency ≠ 0 ∧ reached stopAt (min (w.now + latency) deadline) = true
    · rw [if_pos hlate] at hok
      cases hok
    · rw [if_neg hlate] at hok
      by_cases hpast : latency ≠ 0 ∧ deadline < w.now + latency
      · rw [if_pos hpast] at hok
        cases hok
      · rw [if_neg hpast] at hok
        exact ⟨hok, not_lt.1 fun hover => hpast (by omega)⟩

/-- A run that may have been told to stop at any time comes to what is left of its plan, after some
replies; with the instant at which it is stopped, if it was told to. -/
inductive Goes (env : Surroundings σ) (start : Plan α) (w : World σ) :
    Option Nat → List Reply → Plan α → World σ → Prop where
  | start : Goes env start w none [] start w
  | told {replies : List Reply} {p : Plan α} {w' : World σ} (c : Nat) :
      Goes env start w none replies p w' → Goes env start w (some c) replies p w'
  | answered {stopAt : Option Nat} {replies : List Reply} {q : Question} {next : q.Answer → Plan α}
      {w' : World σ} {a : q.Answer} : Goes env start w stopAt replies (.ask q next) w' →
      (env.answer stopAt q w').1 = some a →
      Goes env start w stopAt (replies ++ [⟨q, a⟩]) (next a) (env.answer stopAt q w').2

section

variable {start p : Plan α} {w' : World σ} {replies : List Reply}

theorem Goes.phases (h : env.Goes start w stopAt replies p w') :
    w'.phases = w.phases ++ entered replies := by
  induction h with
  | start => simp
  | told c _ ih => exact ih
  | answered _ _ ih => rw [phases_answer, ih, entered_append_singleton, List.append_assoc]

theorem Goes.isReady (h : env.Goes start w stopAt replies p w') (hready : w'.isReady = true) :
    w.isReady = true ∨ ∃ r ∈ replies, r.question = .announceReady := by
  induction h with
  | start => exact .inl hready
  | told c _ ih => exact ih hready
  | @answered stopAt replies q next w' a _ _ ih =>
    rw [isReady_answer, Bool.or_eq_true] at hready
    rcases hready with hready | hannounces
    · refine (ih hready).imp_right ?_
      rintro ⟨r, hr, hq⟩
      exact ⟨r, List.mem_append_left _ hr, hq⟩
    · refine .inr ⟨⟨q, a⟩, by simp, ?_⟩
      cases q <;> first | rfl | cases hannounces

/-- A run that has had a reply was just before it at some time. -/
theorem Goes.asked (h : env.Goes start w stopAt replies p w') {r : Reply} (hr : r ∈ replies) :
    ∃ stopAt earlier next v, earlier <+: replies ∧
      env.Goes start w stopAt earlier (.ask r.question next) v ∧
      (env.answer stopAt r.question v).1 = some r.answer := by
  induction h with
  | start => cases hr
  | told c _ ih => exact ih hr
  | @answered stopAt replies q next w' a hgoes ha ih =>
    rcases List.mem_append.1 hr with hr | hr
    · obtain ⟨stopAt, earlier, next, v, hle, hv⟩ := ih hr
      exact ⟨stopAt, earlier, next, v, hle.trans (List.prefix_append _ _), hv⟩
    · obtain rfl := List.mem_singleton.1 hr
      exact ⟨stopAt, replies, next, w', List.prefix_append _ _, hgoes, ha⟩

theorem Goes.keeps {May : List Reply → Question → Prop} {ends : List Reply → α → Prop}
    (h : env.Goes start w stopAt replies p w') (hstart : start.Keeps (Law.remembering May) ends []) :
    p.Keeps (Law.remembering May) ends replies := by
  induction h with
  | start => exact hstart
  | told c _ ih => exact ih
  | answered _ _ ih => exact ih.2 _ _ rfl

/-- What holds of a run at its start, and after every question that it may ask, holds wherever the run
comes. -/
theorem Goes.induct {May : List Reply → Question → Prop} {ends : List Reply → α → Prop}
    {P : List Reply → World σ → Prop} (h : env.Goes start w stopAt replies p w')
    (hstart : start.Keeps (Law.remembering May) ends []) (hzero : P [] w)
    (hanswer : ∀ {stopAt replies q next v} {a : q.Answer}, env.Goes start w stopAt replies (.ask q next) v →
      May replies q → (env.answer stopAt q v).1 = some a → P replies v →
      P (replies ++ [⟨q, a⟩]) (env.answer stopAt q v).2) : P replies w' := by
  induction h with
  | start => exact hzero
  | told c _ ih => exact ih
  | answered hgoes ha ih => exact hanswer hgoes (hgoes.keeps hstart).1 ha ih

theorem Goes.run {a : α} (h : env.Goes start w stopAt replies p w')
    (hrun : (env.run stopAt p w').1 = some a) :
    ∃ replies, env.Goes start w stopAt replies (.done a) (env.run stopAt p w').2 := by
  induction p generalizing w' replies with
  | done b =>
    obtain rfl := Option.some.inj hrun
    exact ⟨replies, h⟩
  | overflow => cases hrun
  | ask q next ih =>
    cases hanswer : (env.answer stopAt q w').1 with
    | none =>
      rw [run_ask_of_none hanswer] at hrun
      cases hrun
    | some b =>
      rw [run_ask_of_some hanswer] at hrun ⊢
      exact ih b (.answered h hanswer) hrun

end

end Surroundings

end LocalFleet
