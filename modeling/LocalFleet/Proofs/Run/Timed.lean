import LocalFleet.Proofs.Run.Exchange
import LocalFleet.Proofs.Run.Poll
import LocalFleet.Run.Timed

/-! What a run on the clock asks its nodes: the exchanges are read off the log by asking the fleet the
logged inquiries again, from the state in which it was. -/

namespace LocalFleet

variable {σ α : Type}

def Event.IsCall : Event → Prop
  | asked .listNodes | asked (.call ..) => True
  | _ => False

namespace Fleet

variable (fleet : Fleet σ)

def after : σ → List Dated → σ
  | s, [] => s
  | s, ⟨_, .asked inquiry⟩ :: since => after (fleet inquiry s).state since
  | s, _ :: since => after s since

/-- The exchanges with nodes among some events, when the fleet is in a state before them. -/
def exchanges : σ → List Dated → List Exchange
  | _, [] => []
  | s, ⟨_, .asked (.call node c)⟩ :: since =>
    ⟨node, c, (fleet (.call node c) s).answer⟩ :: exchanges (fleet (.call node c) s).state since
  | s, ⟨_, .asked inquiry⟩ :: since => exchanges (fleet inquiry s).state since
  | s, _ :: since => exchanges s since

theorem after_append (s : σ) (since rest : List Dated) :
    fleet.after s (since ++ rest) = fleet.after (fleet.after s since) rest := by
  induction since generalizing s with
  | nil => rfl
  | cons d since ih =>
    obtain ⟨time, event⟩ := d
    cases event <;> exact ih _

theorem exchanges_append (s : σ) (since rest : List Dated) : fleet.exchanges s (since ++ rest) =
    fleet.exchanges s since ++ fleet.exchanges (fleet.after s since) rest := by
  induction since generalizing s with
  | nil => rfl
  | cons d since ih =>
    obtain ⟨time, event⟩ := d
    cases event with
    | asked inquiry =>
      cases inquiry with
      | call node c => exact congrArg (_ :: ·) (ih _)
      | launch spec => exact ih _
      | waitHealthy => exact ih _
      | listNodes => exact ih _
      | stop => exact ih _
    | installed => exact ih _
    | entered phase => exact ih _
    | ready => exact ih _
    | failed e => exact ih _
    | published path => exact ih _

end Fleet

namespace Surroundings

variable (env : Surroundings σ) (stopAt : Option Nat)

/-- One world becomes another by some events. -/
structure Passes (w : World σ) (since : List Dated) (w' : World σ) : Prop where
  log : w'.log = since.reverse ++ w.log
  fleet : w'.fleet = env.fleet.after w.fleet since

variable {env stopAt} {w w' w'' : World σ} {since rest : List Dated}

theorem passes_of_same (hlog : w'.log = w.log) (hfleet : w'.fleet = w.fleet) : env.Passes w [] w' :=
  ⟨hlog, hfleet⟩

theorem Passes.trans (h : env.Passes w since w') (h' : env.Passes w' rest w'') :
    env.Passes w (since ++ rest) w'' := by
  constructor
  · rw [h'.log, h.log, List.reverse_append, List.append_assoc]
  · rw [h'.fleet, h.fleet, Fleet.after_append]

theorem passes_note {event : Event} (h : ∀ inquiry, event ≠ .asked inquiry) :
    env.Passes w [⟨w.now, event⟩] (w.note event) := by
  refine ⟨rfl, ?_⟩
  cases event with
  | asked inquiry => exact absurd rfl (h inquiry)
  | _ => rfl

theorem Passes.of_eq (h : env.Passes w since w') (hlog : w''.log = w'.log)
    (hfleet : w''.fleet = w'.fleet) : env.Passes w since w'' :=
  ⟨hlog.trans h.log, hfleet.trans h.fleet⟩

variable (env)

def asking (inquiry : Inquiry) (w : World σ) (ended : Nat) : World σ :=
  { (env.inquire inquiry w).2 with now := ended }

variable {env}

theorem passes_asking (inquiry : Inquiry) (w : World σ) (ended : Nat) :
    env.Passes w [⟨w.now, .asked inquiry⟩] (env.asking inquiry w ended) := ⟨rfl, rfl⟩

/-- How an inquiry that can be given up ends: it is not begun, it is given up when the run is stopped, or
it ends before that, with the answer of the fleet unless that is no longer waited for. -/
inductive GivesUp (env : Surroundings σ) (stopAt : Option Nat) (what : String) (inquiry : Inquiry)
    (w : World σ) : Result inquiry.Answer × World σ → Prop where
  | notBegun : reached stopAt w.now = true → GivesUp env stopAt what inquiry w (.error (.abandoned what), w)
  | givenUp (c : Nat) : stopAt = some c → w.now < c →
      GivesUp env stopAt what inquiry w (.error (.abandoned what), env.asking inquiry w c)
  | ended (time : Nat) (answer : Result inquiry.Answer) : w.now ≤ time → reached stopAt time = false →
      inquiry = .waitHealthy ∨ answer = (env.fleet inquiry w.fleet).answer →
      GivesUp env stopAt what inquiry w (answer, env.asking inquiry w time)

variable (env stopAt)

theorem givesUp_guarded (what : String) (inquiry : Inquiry) (w : World σ) :
    GivesUp env stopAt what inquiry w (env.guarded stopAt what inquiry w) := by
  unfold guarded
  by_cases hnow : reached stopAt w.now = true
  · rw [if_pos hnow]
    exact .notBegun hnow
  · rw [if_neg hnow]
    rw [Bool.not_eq_true] at hnow
    show GivesUp env stopAt what inquiry w (if (env.fleet inquiry w.fleet).latency ≠ 0 ∧
      reached stopAt (w.now + (env.fleet inquiry w.fleet).latency) = true then _ else _)
    by_cases hlate : (env.fleet inquiry w.fleet).latency ≠ 0 ∧
        reached stopAt (w.now + (env.fleet inquiry w.fleet).latency) = true
    · rw [if_pos hlate]
      obtain ⟨c, rfl, hlt, _⟩ := exists_of_reached hnow hlate.2
      exact .givenUp c rfl hlt
    · rw [if_neg hlate]
      refine .ended (w.now + (env.fleet inquiry w.fleet).latency) _ (Nat.le_add_right _ _) ?_ (.inr rfl)
      by_cases hzero : (env.fleet inquiry w.fleet).latency = 0
      · rw [hzero]
        exact hnow
      · simpa [hzero] using hlate

theorem givesUp_awaitHealth (what : String) (limit : UInt64) (w : World σ) :
    GivesUp env stopAt what .waitHealthy w (env.awaitHealth stopAt what limit w) := by
  unfold awaitHealth
  by_cases hnow : reached stopAt w.now = true
  · rw [if_pos hnow]
    exact .notBegun hnow
  · rw [if_neg hnow]
    rw [Bool.not_eq_true] at hnow
    let latency := (env.fleet .waitHealthy w.fleet).latency
    let deadline := w.now + limit.toNat
    show GivesUp env stopAt what .waitHealthy w
      (if latency ≠ 0 ∧ reached stopAt (min (w.now + latency) deadline) = true then _
        else if latency ≠ 0 ∧ deadline < w.now + latency then _ else _)
    by_cases hlate : latency ≠ 0 ∧ reached stopAt (min (w.now + latency) deadline) = true
    · rw [if_pos hlate]
      obtain ⟨c, rfl, hlt, _⟩ := exists_of_reached hnow hlate.2
      exact .givenUp c rfl hlt
    · rw [if_neg hlate]
      have hmin : reached stopAt (min (w.now + latency) deadline) = false := by
        by_cases hzero : latency = 0
        · exact reached_mono (by omega) hnow
        · simpa [hzero] using hlate
      by_cases hpast : latency ≠ 0 ∧ deadline < w.now + latency
      · rw [if_pos hpast]
        rw [Nat.min_eq_right (Nat.le_of_lt hpast.2)] at hmin
        exact .ended deadline _ (Nat.le_add_right _ _) hmin (.inl rfl)
      · rw [if_neg hpast]
        refine .ended (w.now + latency) _ (Nat.le_add_right _ _) ?_ (.inl rfl)
        by_cases hzero : latency = 0
        · rw [hzero]
          exact hnow
        · rwa [Nat.min_eq_left (by omega)] at hmin

variable {env stopAt}

variable {node : NodeSpec} {c : Call} {enough : c.Answer → Bool}

theorem attempt_snd (time : Nat) (w : World σ) : (env.attempt node c enough time w).2 =
    env.asking (.call node c) { w with now := time } time := by
  unfold attempt
  dsimp only [inquire]
  cases (env.fleet (.call node c) w.fleet).answer <;> rfl

theorem attempt_found (time : Nat) (w : World σ) : (env.attempt node c enough time w).1.found =
    match (env.fleet (.call node c) w.fleet).answer with
    | .ok a => if enough a then some a else none
    | .error _ => none := by
  unfold attempt
  dsimp only [inquire]
  cases (env.fleet (.call node c) w.fleet).answer <;> rfl

theorem passes_attempt (time : Nat) (w : World σ) :
    env.Passes w [⟨time, .asked (.call node c)⟩] (env.attempt node c enough time w).2 := by
  rw [attempt_snd]
  exact ⟨rfl, rfl⟩

theorem fruitless_of_found_none {time : Nat} {w : World σ}
    (h : (env.attempt node c enough time w).1.found = none) :
    Exchange.Fruitless node c enough ⟨node, c, (env.fleet (.call node c) w.fleet).answer⟩ := by
  refine ⟨_, rfl, fun a ha => ?_⟩
  rw [attempt_found, ha] at h
  simpa using h

theorem of_found_some {time : Nat} {w : World σ} {a : c.Answer}
    (h : (env.attempt node c enough time w).1.found = some a) :
    (env.fleet (.call node c) w.fleet).answer = .ok a ∧ enough a = true := by
  rw [attempt_found] at h
  cases hanswer : (env.fleet (.call node c) w.fleet).answer with
  | error e => simp [hanswer] at h
  | ok b =>
    simp only [hanswer] at h
    by_cases hb : enough b = true
    · rw [if_pos hb] at h
      obtain rfl := Option.some.inj h
      exact ⟨rfl, hb⟩
    · simp [hb] at h

variable (env stopAt)

/-- What a wait has done to a world when it ends. -/
structure Polled (node : NodeSpec) (c : Call) (enough : c.Answer → Bool) (w : World σ)
    (since : List Dated) (ending : Poll.Ending (World σ) c.Answer) : Prop where
  passes : env.Passes w since ending.state
  asked : ∀ d ∈ since, d.event = .asked (.call node c) ∧ reached stopAt d.time = false
  files : ending.state.files = w.files
  printed : ending.state.printed = w.printed
  /-- the wait is cancelled, or the cancellation has not come yet -/
  stopped : ending.outcome = .cancelled ∨ reached stopAt ending.time = false
  leads : (∃ a, ending.outcome = .ready a ∧
      (Position.poll node c enough (· = a)).Done (env.fleet.exchanges w.fleet since)) ∨
    (∀ a, ending.outcome ≠ .ready a) ∧
      (Position.poll node c enough fun _ => True).Begun (env.fleet.exchanges w.fleet since)

variable {env stopAt}

theorem polled_of_waits {interval now : Nat} {w : World σ} {ending : Poll.Ending (World σ) c.Answer}
    (h : Poll.Waits interval stopAt (env.attempt node c enough) now w ending) :
    ∃ since, env.Polled stopAt node c enough w since ending := by
  induction h with
  | @cancelled now w time hle hstop =>
    exact ⟨[], passes_of_same rfl rfl, by simp, rfl, rfl, .inl rfl, .inr ⟨nofun, Position.begun_nil _⟩⟩
  | @timedOut now w attempts waited hnow =>
    exact ⟨[], passes_of_same rfl rfl, by simp, rfl, rfl, .inr hnow, .inr ⟨nofun, Position.begun_nil _⟩⟩
  | @cancelledLate now w time hwake hle hstop =>
    refine ⟨_, passes_attempt _ w, by simpa using hwake, by rw [attempt_snd]; rfl,
      by rw [attempt_snd]; rfl, .inl rfl, .inr ⟨nofun, [], by simp, .inr ⟨_, rfl⟩⟩⟩
  | @timedOutLate now w attempts waited time hle htime =>
    have hwake := reached_mono hle htime
    refine ⟨_, passes_attempt _ w, by simpa using hwake, by rw [attempt_snd]; rfl,
      by rw [attempt_snd]; rfl, .inr htime, .inr ⟨nofun, [], by simp, .inr ⟨_, rfl⟩⟩⟩
  | @ready now w a time hfound hle htime =>
    have hwake := reached_mono hle htime
    obtain ⟨hanswer, henough⟩ := of_found_some hfound
    refine ⟨_, passes_attempt _ w, by simpa using hwake, by rw [attempt_snd]; rfl,
      by rw [attempt_snd]; rfl, .inr htime, .inl ⟨a, rfl, [], a, ?_, by simp, henough, rfl⟩⟩
    simp [Fleet.exchanges, hanswer]
  | @again now w ending time hfound hle htime hwaits ih =>
    have hwake := reached_mono hle htime
    have hfruitless := fruitless_of_found_none hfound
    obtain ⟨since, hpasses, hasked, hfiles, hprinted, hstopped, hleads⟩ := ih
    refine ⟨_, (passes_attempt _ w).trans hpasses, ?_, hfiles.trans (by rw [attempt_snd]; rfl),
      hprinted.trans (by rw [attempt_snd]; rfl), hstopped, ?_⟩
    · intro d hd
      rcases List.mem_append.1 hd with hd | hd
      · obtain rfl := List.mem_singleton.1 hd
        exact ⟨rfl, hwake⟩
      · exact hasked d hd
    · rw [Fleet.exchanges_append, ← (passes_attempt (now + interval) w).fleet]
      rcases hleads with ⟨a, hready, hdone⟩ | ⟨hready, hbegun⟩
      · exact .inl ⟨a, hready, hdone.fruitless hfruitless⟩
      · exact .inr ⟨hready, hbegun.fruitless hfruitless⟩

theorem GivesUp.passes {what : String} {inquiry : Inquiry} {r : Result inquiry.Answer × World σ}
    (h : GivesUp env stopAt what inquiry w r) : env.Passes w [] r.2 ∨
      env.Passes w [⟨w.now, .asked inquiry⟩] r.2 ∧ reached stopAt w.now = false := by
  cases h with
  | notBegun hnow => exact .inl (passes_of_same rfl rfl)
  | givenUp c hstop hlt =>
    refine .inr ⟨passes_asking inquiry w c, ?_⟩
    rw [hstop, reached_some, decide_eq_false_iff_not]
    omega
  | ended time answer hle htime hanswer =>
    exact .inr ⟨passes_asking inquiry w time, reached_mono hle htime⟩

theorem call_leads (what : String) (node : NodeSpec) (c : Call) (w : World σ) : ∃ since,
    env.Passes w since (env.guarded stopAt what (.call node c) w).2 ∧
      (∀ d ∈ since, reached stopAt d.time = false) ∧
      (Question.call what node c).Leads (env.fleet.exchanges w.fleet since)
        (some (env.guarded stopAt what (.call node c) w).1) := by
  have hguarded := givesUp_guarded env stopAt what (.call node c) w
  generalize env.guarded stopAt what (.call node c) w = r at hguarded ⊢
  cases hguarded with
  | notBegun hnow => exact ⟨[], passes_of_same rfl rfl, by simp, .inr ⟨_, rfl, .inl rfl⟩⟩
  | givenUp t hstop hlt =>
    refine ⟨_, passes_asking _ w t, ?_, .inr ⟨_, rfl, .inr ⟨_, rfl⟩⟩⟩
    simpa [hstop, reached_some] using hlt
  | ended t answer hle ht hanswer =>
    have hanswer : answer = (env.fleet (.call node c) w.fleet).answer := by
      rcases hanswer with hh | hanswer
      · cases hh
      · exact hanswer
    refine ⟨_, passes_asking _ w t, by simpa using reached_mono hle ht, ?_⟩
    cases answer with
    | ok a => exact .inl ⟨a, rfl, a, by simp [Fleet.exchanges, ← hanswer], rfl⟩
    | error e => exact .inr ⟨e, rfl, .inr ⟨_, rfl⟩⟩

theorem await_leads (what : String) (pace : Pace) (node : NodeSpec) (c : Call)
    (enough : c.Answer → Bool) (w : World σ) : ∃ since,
    env.Passes w since (env.answer stopAt (.await what pace node c enough) w).2 ∧
      (∀ d ∈ since, reached stopAt d.time = false) ∧
      (Question.await what pace node c enough).Leads (env.fleet.exchanges w.fleet since)
        (env.answer stopAt (.await what pace node c enough) w).1 := by
  simp only [answer]
  cases hrun : Poll.run pace stopAt (env.attempt node c enough) w.now w with
  | none => exact ⟨[], passes_of_same rfl rfl, by simp, .inr ⟨nofun, Position.begun_nil _⟩⟩
  | some ending =>
    obtain ⟨since, hpolled⟩ := polled_of_waits (Poll.waits_of_loop hrun)
    refine ⟨since, hpolled.passes.of_eq rfl rfl, fun d hd => (hpolled.asked d hd).2, ?_⟩
    rcases hpolled.leads with ⟨a, hready, hdone⟩ | ⟨hready, hbegun⟩
    · have hok : ending.outcome.toResult what = .ok a := by rw [hready]; rfl
      exact .inl ⟨a, congrArg some hok, hdone⟩
    · refine .inr ⟨fun a ha => ?_, hbegun⟩
      have hok : ending.outcome.toResult what = .ok a := Option.some.inj ha
      cases houtcome : ending.outcome with
      | ready b => exact hready b houtcome
      | timedOut attempts waited => simp [houtcome, PollOutcome.toResult] at hok
      | cancelled => simp [houtcome, PollOutcome.toResult] at hok

variable (env stopAt)

/-- Whatever a question is answered, the exchanges made for it are among those that it can lead to, and
no call is begun once the run is stopped. -/
theorem answer_leads (q : Question) (w : World σ) : ∃ since,
    env.Passes w since (env.answer stopAt q w).2 ∧
      (∀ d ∈ since, d.event.IsCall → reached stopAt d.time = false) ∧
      q.Leads (env.fleet.exchanges w.fleet since) (env.answer stopAt q w).1 := by
  have hnothing : ∀ d ∈ ([] : List Dated), d.event.IsCall → reached stopAt d.time = false := by simp
  have hnoted : ∀ {time : Nat} {event : Event}, ¬ event.IsCall →
      ∀ d ∈ [Dated.mk time event], d.event.IsCall → reached stopAt d.time = false := by
    intro time event h d hd hcall
    rw [List.mem_singleton.1 hd] at hcall
    exact absurd hcall h
  cases q with
  | launch spec => exact ⟨[⟨w.now, .asked (.launch spec)⟩], ⟨rfl, rfl⟩, hnoted nofun, rfl, rfl⟩
  | install => exact ⟨_, passes_note nofun, hnoted nofun, rfl, rfl⟩
  | checkpoint after => exact ⟨[], passes_of_same rfl rfl, hnothing, rfl, rfl⟩
  | awaitHealth what limit =>
    rcases (givesUp_awaitHealth env stopAt what limit w).passes with h | ⟨h, _⟩
    · exact ⟨_, h, hnothing, rfl, rfl⟩
    · exact ⟨_, h, hnoted nofun, rfl, rfl⟩
  | listNodes what =>
    rcases (givesUp_guarded env stopAt what .listNodes w).passes with h | ⟨h, hnow⟩
    · exact ⟨_, h, hnothing, rfl, rfl⟩
    · exact ⟨_, h, by simp [hnow], rfl, rfl⟩
  | call what node c =>
    obtain ⟨since, hpasses, hbefore, hleads⟩ := call_leads what node c w
    exact ⟨since, hpasses, fun d hd _ => hbefore d hd, hleads⟩
  | await what pace node c enough =>
    obtain ⟨since, hpasses, hbefore, hleads⟩ := await_leads what pace node c enough w
    exact ⟨since, hpasses, fun d hd _ => hbefore d hd, hleads⟩
  | clock => exact ⟨[], passes_of_same rfl rfl, hnothing, rfl, rfl⟩
  | readFile path => exact ⟨[], passes_of_same rfl rfl, hnothing, rfl, rfl⟩
  | newWallets count nameLength =>
    exact ⟨[], passes_of_same rfl rfl, hnothing, rfl, _, rfl, by simp⟩
  | enter phase => exact ⟨_, passes_note nofun, hnoted nofun, rfl, rfl⟩
  | announceReady => exact ⟨_, passes_note nofun, hnoted nofun, rfl, rfl⟩
  | publish path record =>
    simp only [answer]
    rcases record.writeAndEcho env.cwd path w.files with ⟨files, e | ⟨_, text⟩⟩
    · exact ⟨[], passes_of_same rfl rfl, hnothing, rfl, rfl⟩
    · exact ⟨[⟨w.now, .published path⟩], ⟨rfl, rfl⟩, hnoted nofun, rfl, rfl⟩
  | report e =>
    simp only [answer]
    split
    · exact ⟨[], passes_of_same rfl rfl, hnothing, rfl, rfl⟩
    · exact ⟨_, passes_note nofun, hnoted nofun, rfl, rfl⟩

/-- The exchanges of a run are among those that its plan can lead to, and no call is begun once the run
is stopped. -/
theorem run_traces (p : Plan α) (w : World σ) : ∃ since, env.Passes w since (env.run stopAt p w).2 ∧
    (∀ d ∈ since, d.event.IsCall → reached stopAt d.time = false) ∧
    p.Traces (env.fleet.exchanges w.fleet since) (env.run stopAt p w).1 := by
  induction p generalizing w with
  | done a => exact ⟨[], passes_of_same rfl rfl, by simp, rfl, rfl⟩
  | overflow => exact ⟨[], passes_of_same rfl rfl, by simp, rfl, rfl⟩
  | ask q next ih =>
    obtain ⟨since, hpasses, hbefore, hleads⟩ := answer_leads env stopAt q w
    rw [run]
    cases hanswer : env.answer stopAt q w with
    | mk o w' =>
      rw [hanswer] at hpasses hleads
      cases o with
      | none => exact ⟨since, hpasses, hbefore, .inl ⟨hleads, rfl⟩⟩
      | some a =>
        obtain ⟨rest, hrest, hbefore', htraces⟩ := ih a w'
        refine ⟨since ++ rest, hpasses.trans hrest, fun d hd => ?_, .inr ⟨_, _, a, ?_, hleads, htraces⟩⟩
        · rcases List.mem_append.1 hd with hd | hd
          · exact hbefore d hd
          · exact hbefore' d hd
        · rw [Fleet.exchanges_append, ← hpasses.fleet]

end Surroundings

end LocalFleet
