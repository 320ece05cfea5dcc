import LocalFleet.Proofs.Run.Visible

/-! What a run does when. Its phases come in order, it is announced as ready when it knows enough of its
fleet, it writes when it has provisioned, and reports when it has failed. All of this is said of what the
run may ask after the replies that it has had, and then of what can be seen of it. -/

namespace LocalFleet

namespace Phase

/-- Phases that follow the path, which a run that is not done may leave to be aborted. -/
def InOrder (phases : List Phase) : Prop :=
  phases <+: path ∨
    ∃ before, phases = before ++ [aborting] ∧ before <+: path ∧ before ≠ [] ∧ before ≠ path

theorem inOrder_take (n : Nat) : InOrder (path.take n) := .inl (List.take_prefix n path)

theorem inOrder_take_aborting {n : Nat} (hpos : 0 < n) (hlt : n < path.length) :
    InOrder (path.take n ++ [aborting]) := by
  refine .inr ⟨_, rfl, List.take_prefix n path, ?_, ?_⟩
  · intro h
    have hlength := congrArg List.length h
    simp only [List.length_take, List.length_nil] at hlength
    omega
  · intro h
    have hlength := congrArg List.length h
    simp only [List.length_take] at hlength
    omega

end Phase

namespace Job

variable {j : Job}

def idReplies (node : NodeSpec) (ids : ChainIds) : List Reply :=
  [⟨.call "C-chain id" node (.getBlockchainId "C"), .ok ids.contract⟩,
    ⟨.call "X-chain id" node (.getBlockchainId "X"), .ok ids.exchange⟩,
    ⟨.call "AVAX asset id" node (.getAssetId "AVAX"), .ok ids.asset⟩]

/-- The fleet has been found healthy, has listed some nodes, and the first of them in the table has told
all ids. -/
def Healthy (j : Job) (replies : List Reply) : Prop :=
  ∃ nodes node ids, nodes ≠ [] ∧ leastNamed nodes = some node ∧
    idReplies node ids ++ [⟨.listNodes "node list", .ok nodes⟩,
      ⟨.awaitHealth "cluster health" j.settings.poll.healthTimeoutMs, .ok ()⟩] ⊆ replies

def Ran (j : Job) (view : ClusterView) (replies : List Reply) (provisioned : Provisioned) : Prop :=
  ∃ before during after, replies = before ++ during ++ after ∧
    ((Provisioner.mk j.settings view).all {}).Reaches during (.done (.ok (), provisioned))

/-- The run has been provisioned, which made a record. -/
def Provisions (j : Job) (replies : List Reply) (record : ClusterRecord) : Prop :=
  ∃ view provisioned, j.Ran view replies provisioned ∧
    provisioned.record view j.pid j.logsDir = .ok record

/-- The run has ended with an error, and then been aborted. -/
def Fails (j : Job) (replies : List Reply) (e : Error) : Prop :=
  ∃ earlier, replies = earlier ++ [⟨.enter .aborting, ()⟩] ∧
    (j.stages ()).Reaches earlier (.done (.error e, ()))

/-- What a run may ask after some replies. It asks nothing after its report. -/
def Due (j : Job) (replies : List Reply) (q : Question) : Prop :=
  (∀ r ∈ replies, r.question.reported? = none) ∧
    match q with
    | .enter phase => Phase.InOrder (entered replies ++ [phase])
    | .announceReady => j.Healthy replies
    | .publish path record =>
      j.settings.output.path = some path ∧ entered replies = Phase.path.take 4 ∧
        j.Provisions replies record
    | .report e => j.Fails replies e
    | _ => True

/-- A run has entered so many phases, and reported nothing. -/
structure Stands (n : Nat) (replies : List Reply) : Prop where
  entered : entered replies = Phase.path.take n
  unreported : ∀ r ∈ replies, r.question.reported? = none

/-- A run has begun and is not done. -/
def Underway (replies : List Reply) : Prop := ∃ n, 0 < n ∧ n < 5 ∧ Stands n replies

section

variable {n : Nat} {replies : List Reply} {q : Question} {phase : Phase}

theorem unreported_append (h : ∀ r ∈ replies, r.question.reported? = none) (hq : q.reported? = none)
    (answer : q.Answer) : ∀ r ∈ replies ++ [⟨q, answer⟩], r.question.reported? = none := by
  intro r hr
  rcases List.mem_append.1 hr with hr | hr
  · exact h r hr
  · obtain rfl := List.mem_singleton.1 hr
    exact hq

theorem stands_nil : Stands 0 [] := ⟨rfl, by simp⟩

theorem Stands.snoc (h : Stands n replies) (hentered : q.entered = []) (hreported : q.reported? = none)
    (answer : q.Answer) : Stands n (replies ++ [⟨q, answer⟩]) :=
  ⟨by simp [h.entered, hentered], unreported_append h.unreported hreported answer⟩

theorem Stands.silent (h : Stands n replies) (hq : q.Silent) (answer : q.Answer) :
    Stands n (replies ++ [⟨q, answer⟩]) :=
  h.snoc (Question.entered_of_silent hq) (Question.reported?_of_silent hq) answer

theorem Stands.enter (h : Stands n replies) (hphase : Phase.path[n]? = some phase) :
    Stands (n + 1) (replies ++ [⟨.enter phase, ()⟩]) := by
  refine ⟨?_, unreported_append (q := .enter phase) h.unreported rfl ()⟩
  rw [entered_append_singleton, h.entered, List.take_add_one, hphase]
  rfl

theorem Stands.due_silent (j : Job) (h : Stands n replies) (hq : q.Silent) : j.Due replies q := by
  refine ⟨h.unreported, ?_⟩
  cases q <;> trivial

theorem Stands.due_enter (j : Job) (h : Stands n replies) (hphase : Phase.path[n]? = some phase) :
    j.Due replies (.enter phase) := by
  refine ⟨h.unreported, ?_⟩
  show Phase.InOrder (LocalFleet.entered replies ++ [phase])
  have hnext := (h.enter hphase).entered
  rw [entered_append_singleton] at hnext
  exact hnext ▸ Phase.inOrder_take (n + 1)

theorem Stands.due_aborting (j : Job) (h : Stands n replies) (hpos : 0 < n) (hlt : n < 5) :
    j.Due replies (.enter .aborting) :=
  ⟨h.unreported, h.entered ▸ Phase.inOrder_take_aborting hpos hlt⟩

theorem Ran.snoc {view : ClusterView} {provisioned : Provisioned} (h : j.Ran view replies provisioned)
    (r : Reply) : j.Ran view (replies ++ [r]) provisioned := by
  obtain ⟨before, during, after, rfl, hreaches⟩ := h
  exact ⟨before, during, after ++ [r], by simp, hreaches⟩

end

section

open Stage

variable {σ α : Type} {n : Nat} {replies : List Reply} {s : σ}

theorem keeps_enter {phase : Phase} {E : List Reply → Error → σ → Prop} (h : Stands n replies)
    (hphase : Phase.path[n]? = some phase) :
    Keeps (Law.remembering j.Due) (fun all _ _ => Stands (n + 1) all) E replies s
      (Stage.ask (.enter phase)) := by
  refine keeps_ask (h.due_enter j hphase) ?_
  rintro _ _ rfl
  exact h.enter hphase

theorem keeps_silent {stage : Stage σ α} (hstage : Asks Question.Silent True stage)
    (h : Stands n replies) :
    Keeps (Law.remembering j.Due) (fun all _ _ => Stands n all) (fun all _ _ => Stands n all) replies s
      stage :=
  hstage.keeps_remembering (fun _ _ h hq => h.due_silent j hq) (fun _ _ answer h hq => h.silent hq answer)
    h s

theorem keeps_heard (heard : α → Reply) (known : List Reply) {p : Plan (Result α)}
    (hp : p.Keeps (Law.remembering j.Due)
      (fun all r => Stands n all ∧ known ⊆ all ∧ ∀ a, r = .ok a → heard a ∈ all) replies) :
    Keeps (Law.remembering j.Due) (fun all a _ => Stands n all ∧ heard a :: known ⊆ all)
      (fun all _ _ => Stands n all) replies s (Stage.ofResult p) := by
  refine keeps_ofResult (hp.ends_mono ?_)
  rintro all r ⟨hstands, hknown, hheard⟩
  cases r with
  | ok a => exact ⟨hstands, List.cons_subset.2 ⟨hheard a rfl, hknown⟩⟩
  | error e => exact hstands

theorem keeps_call_heard {what : String} {node : NodeSpec} {c : Call} {known : List Reply}
    (h : Stands n replies) (hknown : known ⊆ replies) :
    Keeps (Law.remembering j.Due)
      (fun all a _ => Stands n all ∧ ⟨.call what node c, .ok a⟩ :: known ⊆ all)
      (fun all _ _ => Stands n all) replies s (Stage.call what node c) := by
  have hq : (Question.call what node c).Silent := trivial
  refine keeps_heard (fun a => ⟨.call what node c, .ok a⟩) known ⟨h.due_silent j hq, ?_⟩
  rintro r _ rfl
  exact ⟨h.silent hq r, List.subset_append_of_subset_left _ hknown, by rintro a rfl; simp⟩

theorem launch_keeps_due :
    Keeps (Law.remembering j.Due) (fun all _ _ => Stands 1 all) (fun all _ _ => Underway all) [] ()
      j.launch := by
  refine Keeps.bind (keeps_enter (n := 0) stands_nil rfl) ?_
  intro all _ _ hstands
  have hlaunch : Asks Question.Silent True (do
      Stage.ofResult (.question (.launch j.launchSpec))
      Stage.ask .install
      Stage.checkpoint "launch" : Stage Unit Unit) :=
    Asks.bind (asks_ofResult ⟨trivial, fun _ _ _ => trivial⟩) fun _ =>
      (asks_ask (q := .install) trivial).bind fun _ => asks_checkpoint trivial
  exact (keeps_silent hlaunch hstands).mono (fun _ _ _ h => h) fun _ _ _ h => ⟨1, by decide, by decide, h⟩

theorem askIds_keeps_due {node : NodeSpec} {known : List Reply} (h : Stands n replies)
    (hknown : known ⊆ replies) :
    Keeps (Law.remembering j.Due) (fun all ids _ => Stands n all ∧ idReplies node ids ++ known ⊆ all)
      (fun all _ _ => Stands n all) replies s (Health.askIds node) := by
  refine Keeps.bind (keeps_call_heard h hknown) ?_
  rintro replies asset s ⟨h, hknown⟩
  refine Keeps.bind (keeps_call_heard h hknown) ?_
  rintro replies exchange s ⟨h, hknown⟩
  refine Keeps.bind (keeps_call_heard h hknown) ?_
  rintro replies contract s ⟨h, hknown⟩
  exact keeps_pure ⟨h, hknown⟩

/-- Waiting for the fleet: it is announced when all has been heard of it. -/
theorem wait_keeps_due (h : Stands n replies) :
    Keeps (Law.remembering j.Due) (fun all _ _ => Stands n all) (fun all _ _ => Stands n all) replies s
      (Health.wait j.settings.poll.healthTimeoutMs) := by
  let healthy : Reply := ⟨.awaitHealth "cluster health" j.settings.poll.healthTimeoutMs, .ok ()⟩
  have hhealth : healthy.question.Silent := trivial
  refine Keeps.bind (keeps_heard (fun _ => healthy) [] ⟨h.due_silent j hhealth, ?_⟩) ?_
  · rintro r _ rfl
    refine ⟨h.silent hhealth r, List.nil_subset _, ?_⟩
    rintro a rfl
    exact List.mem_append_right _ (List.mem_singleton_self healthy)
  rintro replies _ s ⟨h, hknown⟩
  have hlist : (Question.listNodes "node list").Silent := trivial
  refine Keeps.bind (keeps_heard (fun nodes => ⟨.listNodes "node list", .ok nodes⟩) [healthy]
    ⟨h.due_silent j hlist, ?_⟩) ?_
  · rintro r _ rfl
    exact ⟨h.silent hlist r, List.subset_append_of_subset_left _ hknown, by rintro a rfl; simp⟩
  rintro replies nodes s ⟨h, hknown⟩
  cases hnode : leastNamed nodes with
  | none => exact keeps_throw h
  | some node =>
    refine Keeps.bind (askIds_keeps_due h hknown) ?_
    rintro replies ids s ⟨h, hknown⟩
    have hne : nodes ≠ [] := by
      rintro rfl
      cases hnode
    have hhealthy : j.Healthy replies := ⟨nodes, node, ids, hne, hnode, hknown⟩
    refine Keeps.bind (keeps_lift (Q := fun all _ _ => Stands n all ∧ j.Healthy all)
      (fun _ _ => ⟨h, hhealthy⟩) fun _ _ => h) ?_
    rintro replies view s ⟨h, hhealthy⟩
    have hdue : j.Due replies .announceReady := ⟨h.unreported, hhealthy⟩
    refine Keeps.bind (keeps_ask (q := .announceReady) (Q := fun all _ _ => Stands n all) hdue ?_) ?_
    · rintro _ _ rfl
      exact h.snoc (q := .announceReady) rfl rfl ()
    · exact fun _ _ _ h => keeps_pure h

theorem provision_keeps_due (view : ClusterView) (h : Stands 2 replies) :
    Keeps (Law.remembering j.Due) (fun all record _ => Stands 4 all ∧ j.Provisions all record)
      (fun all _ _ => Underway all) replies () (j.provision view) := by
  refine Keeps.bind (keeps_enter h rfl) ?_
  rintro replies _ ⟨⟩ h
  -- what provisioning asks is silent, so the replies to it lie between what came before and comes after
  have hsilent : Asks Question.Silent True (Provisioner.mk j.settings view).all :=
    ((Provisioner.mk j.settings view).all_asks trivial).mono (fun _ hq => hq.silent) id
  have hall := (keeps_silent (j := j) (s := {}) hsilent h).reaches
  refine Keeps.bind (Q := fun all r _ => Stands 3 all ∧ (r.1 = .ok () → j.Ran view all r.2))
    (keeps_on (hall.mono ?_ ?_)) ?_
  · rintro all _ provisioned ⟨hstands, since, rfl, hreaches⟩
    exact ⟨hstands, fun _ => ⟨replies, since, [], by simp, hreaches⟩⟩
  · rintro all e provisioned ⟨hstands, _⟩
    exact ⟨hstands, nofun⟩
  rintro replies ⟨result, provisioned⟩ _ ⟨h, hran⟩
  refine Keeps.bind (Q := fun all _ _ => Stands 3 all ∧ j.Ran view all provisioned)
    (keeps_lift (fun _ hr => ⟨h, hran hr⟩) fun _ _ => ⟨3, by decide, by decide, h⟩) ?_
  rintro replies _ _ ⟨h, hran⟩
  have hq : (Question.checkpoint "provisioning").Silent := trivial
  refine Keeps.bind (Q := fun all _ _ => Stands 3 all ∧ j.Ran view all provisioned)
    (keeps_checkpoint (h.due_silent j hq) ?_ ?_) ?_
  · rintro _ rfl
    exact ⟨h.silent hq _, hran.snoc _⟩
  · rintro e _ rfl
    exact ⟨3, by decide, by decide, h.silent hq _⟩
  rintro replies _ _ ⟨h, hran⟩
  refine Keeps.bind (Q := fun all _ _ => Stands 4 all ∧ j.Ran view all provisioned)
    (keeps_ask (q := .enter .writingOutput) (h.due_enter j rfl) ?_) ?_
  · rintro _ _ rfl
    exact ⟨h.enter rfl, hran.snoc _⟩
  rintro replies _ _ ⟨h, hran⟩
  exact keeps_lift (fun record hrecord => ⟨h, view, provisioned, hran, hrecord⟩)
    fun _ _ => ⟨4, by decide, by decide, h⟩

theorem publish_keeps_due {record : ClusterRecord} (h : Stands 4 replies)
    (hrecord : j.Provisions replies record) :
    Keeps (Law.remembering j.Due) (fun all _ _ => Stands 4 all) (fun all _ _ => Underway all) replies ()
      (j.publish record) := by
  unfold publish
  cases hpath : j.settings.output.path with
  | none => exact keeps_pure h
  | some path =>
    refine keeps_ofResult ⟨⟨h.unreported, hpath, h.entered, hrecord⟩, ?_⟩
    rintro r _ rfl
    have hnext := h.snoc (q := .publish path record) rfl rfl r
    cases r with
    | ok a => exact hnext
    | error e => exact ⟨4, by decide, by decide, hnext⟩

theorem stages_keeps_due :
    Keeps (Law.remembering j.Due) (fun all _ _ => Stands 5 all) (fun all _ _ => Underway all) [] ()
      j.stages := by
  refine Keeps.bind launch_keeps_due ?_
  rintro replies _ _ h
  refine Keeps.bind (keeps_enter h rfl) ?_
  rintro replies _ _ h
  refine Keeps.bind ((wait_keeps_due h).mono (fun _ _ _ h => h)
    fun _ _ _ h => ⟨2, by decide, by decide, h⟩) ?_
  rintro replies view _ h
  refine Keeps.bind (provision_keeps_due view h) ?_
  rintro replies record _ ⟨h, hrecord⟩
  refine Keeps.bind (publish_keeps_due h hrecord) ?_
  rintro replies _ _ h
  exact keeps_enter h rfl

/-- A run asks nothing but what is due, and nothing after its report. -/
theorem course_keeps_due : Plan.Keeps (Law.remembering j.Due) (fun _ _ => True) [] j.course := by
  refine Plan.keeps_bind.2 (Plan.Keeps.ends_mono (Stage.Keeps.reaches stages_keeps_due) ?_)
  rintro all ⟨r, s⟩ hend
  cases r with
  | ok u => trivial
  | error e =>
    obtain ⟨⟨n, hpos, hlt, h⟩, since, rfl, hreaches⟩ := hend
    refine ⟨h.due_aborting j hpos hlt, ?_⟩
    rintro _ _ rfl
    refine ⟨⟨unreported_append (q := .enter .aborting) h.unreported rfl (), _, rfl, hreaches⟩, ?_⟩
    exact fun _ _ _ => trivial

end

section

open Surroundings

variable {σ : Type} {env : Surroundings σ} {stopAt : Option Nat} {replies : List Reply} {p : Plan Unit}
  {w w' : World σ}

theorem Healthy.mono {all : List Reply} (h : j.Healthy replies) (hall : replies ⊆ all) : j.Healthy all := by
  obtain ⟨nodes, node, ids, hne, hnode, hknown⟩ := h
  exact ⟨nodes, node, ids, hne, hnode, List.Subset.trans hknown hall⟩

theorem due_of_goes {q : Question} {next : q.Answer → Plan Unit}
    (h : env.Goes j.course w stopAt replies (.ask q next) w') : j.Due replies q :=
  (h.keeps course_keeps_due).1

theorem inOrder_of_goes (h : env.Goes j.course w stopAt replies p w') :
    Phase.InOrder (entered replies) := by
  refine h.induct course_keeps_due (P := fun replies _ => Phase.InOrder (entered replies))
    (Phase.inOrder_take 0) ?_
  intro stopAt replies q next v a _ hdue _ hinOrder
  rw [entered_append_singleton]
  cases q with
  | enter phase => exact hdue.2
  | _ => simpa [Question.entered] using hinOrder

theorem healthy_of_goes (h : env.Goes j.course w stopAt replies p w')
    (hready : ∃ r ∈ replies, r.question = .announceReady) : j.Healthy replies := by
  refine h.induct course_keeps_due
    (P := fun replies _ => (∃ r ∈ replies, r.question = .announceReady) → j.Healthy replies) (by simp) ?_
    hready
  rintro stopAt replies q next v a _ hdue _ hhealthy ⟨r, hr, hq⟩
  refine Healthy.mono ?_ (List.subset_append_left _ _)
  rcases List.mem_append.1 hr with hr | hr
  · exact hhealthy ⟨r, hr, hq⟩
  · obtain rfl := List.mem_singleton.1 hr
    obtain rfl : q = .announceReady := hq
    exact hdue.2

theorem Fails.phase {e : Error} (h : j.Fails replies e) (hgoes : env.Goes j.course w stopAt replies p w') :
    w'.phase = some .aborting := by
  obtain ⟨earlier, rfl, _⟩ := h
  rw [World.phase_eq_getLast?, hgoes.phases, entered_append_singleton, ← List.append_assoc]
  exact List.getLast?_concat

theorem failures_of_goes (h : env.Goes j.course w stopAt replies p w') :
    ((∀ r ∈ replies, r.question.reported? = none) → w'.failures = w.failures) ∧
      (w'.failures = w.failures ∨
        w'.phase = some .aborting ∧ ∃ e, w'.failures = e :: w.failures) := by
  refine h.induct course_keeps_due (P := fun replies v =>
    ((∀ r ∈ replies, r.question.reported? = none) → v.failures = w.failures) ∧
      (v.failures = w.failures ∨ v.phase = some .aborting ∧ ∃ e, v.failures = e :: w.failures))
    ⟨fun _ => rfl, .inl rfl⟩ ?_
  intro stopAt replies q next v a hgoes hdue _ hfailures
  -- nothing is asked after a report, so none has been made when this is asked
  have hbefore : v.failures = w.failures := hfailures.1 hdue.1
  cases hq : q.reported? with
  | none =>
    have hafter : (env.answer stopAt q v).2.failures = w.failures := (failures_answer hq).trans hbefore
    exact ⟨fun _ => hafter, .inl hafter⟩
  | some e =>
    obtain rfl := Question.eq_report_of_reported? hq
    refine ⟨fun hnone => ?_, ?_⟩
    · have hlast := hnone ⟨.report e, a⟩ (by simp)
      cases hlast
    · refine (failures_report e).imp (fun hsame => hsame.trans hbefore) ?_
      rintro ⟨hnew, _⟩
      exact ⟨(phase_answer rfl).trans (Fails.phase hdue.2 hgoes), e, hnew.trans (congrArg _ hbefore)⟩

variable (env w) in
/-- When the run waited for its fleet, the fleet was healthy within the time that it was given. -/
def InTime (j : Job) (replies : List Reply) : Prop :=
  ∃ stopAt earlier next v, earlier <+: replies ∧
    env.Goes j.course w stopAt earlier
      (.ask (.awaitHealth "cluster health" j.settings.poll.healthTimeoutMs) next) v ∧
    (env.fleet .waitHealthy v.fleet).answer = .ok () ∧
      (env.fleet .waitHealthy v.fleet).latency ≤ j.settings.poll.healthTimeoutMs.toNat

theorem inTime_of_goes (h : env.Goes j.course w stopAt replies p w') (hhealthy : j.Healthy replies) :
    j.InTime env w replies := by
  obtain ⟨nodes, node, ids, _, _, hknown⟩ := hhealthy
  obtain ⟨stopAt, earlier, next, v, hprefix, hgoes, hanswer⟩ :=
    h.asked (r := ⟨.awaitHealth "cluster health" j.settings.poll.healthTimeoutMs, .ok ()⟩)
      (hknown (by simp))
  exact ⟨stopAt, earlier, next, v, hprefix, hgoes, healthy_of_awaitHealth hanswer⟩

/-- Whatever its surroundings do, and whenever a run is told to stop, if ever: its phases come in order,
and once aborted or done it enters no other. It is announced as ready only when its fleet was healthy in
time, has listed some nodes and told all ids, and stays so. It delivers at most one error, when it is being
aborted: the one with which it ended, unless that tells of a cancellation or the run was told to stop; and
none when it is done. It writes only where the settings say, when it is writing, after all of its
provisioning went well. -/
theorem orderly_course (h : env.Goes j.course w stopAt replies p w') :
    (∃ phases, Phase.InOrder phases ∧ w'.phases = w.phases ++ phases) ∧
    (w'.isReady = true → w.isReady = true ∨ j.Healthy replies ∧ j.InTime env w replies) ∧
    (w'.failures = w.failures ∨ w'.phase = some .aborting ∧ ∃ e, w'.failures = e :: w.failures) ∧
    (w'.phase = some .done → w'.failures = w.failures) ∧
    ∀ q next, p = .ask q next →
      (w'.isReady = true → (env.answer stopAt q w').2.isReady = true) ∧
      ((∃ path record, q = .publish path record) ∨ (env.answer stopAt q w').2.files ≠ w'.files →
        w'.phase = some .writingOutput ∧ ∃ path record, q = .publish path record ∧
          j.settings.output.path = some path ∧ j.Provisions replies record) ∧
      ((env.answer stopAt q w').2.failures ≠ w'.failures →
        w'.phase = some .aborting ∧ ∃ e, (env.answer stopAt q w').2.failures = e :: w'.failures ∧
          j.Fails replies e ∧ e.isCancelled = false ∧ reached stopAt w'.now = false) := by
  refine ⟨⟨_, inOrder_of_goes h, h.phases⟩, fun hready => ?_, (failures_of_goes h).2, fun hdone => ?_,
    ?_⟩
  · refine (h.isReady hready).imp_right fun hannounced => ?_
    have hhealthy := healthy_of_goes h hannounced
    exact ⟨hhealthy, inTime_of_goes h hhealthy⟩
  · rcases (failures_of_goes h).2 with hsame | ⟨haborting, _⟩
    · exact hsame
    · rw [hdone] at haborting
      cases haborting
  · rintro q next rfl
    have hdue := due_of_goes h
    refine ⟨fun hready => ?_, fun hwrites => ?_, fun hdelivers => ?_⟩
    · rw [isReady_answer, hready, Bool.true_or]
    · have hpublish : ∃ path record, q = .publish path record := by
        by_contra hnot
        rcases hwrites with hpublish | hfiles
        · exact hnot hpublish
        · exact hfiles (files_answer fun path record hq => hnot ⟨path, record, hq⟩)
      obtain ⟨path, record, rfl⟩ := hpublish
      obtain ⟨_, hpath, hentered, hrecord⟩ := hdue
      refine ⟨?_, path, record, rfl, hpath, hrecord⟩
      rw [World.phase_eq_getLast?, h.phases, hentered, List.getLast?_append_of_ne_nil _ (by decide)]
      rfl
    · have hreported : q.reported? ≠ none := fun hnone => hdelivers (failures_answer hnone)
      obtain ⟨e, he⟩ := Option.ne_none_iff_exists'.1 hreported
      obtain rfl := Question.eq_report_of_reported? he
      rcases failures_report e with hsame | ⟨hnew, hcause⟩
      · exact absurd hsame hdelivers
      · exact ⟨Fails.phase hdue.2 h, e, hnew, hdue.2, hcause⟩

end

/-- A fleet of one node that is healthy after a second and tells its ids, but has no key store. -/
def keyless : Surroundings Unit where
  fleet
    | .launch _, _ | .waitHealthy, _ | .stop, _ => ⟨1000, .ok (), ()⟩
    | .listNodes, _ => ⟨0, .ok [Rehearsal.node 0], ()⟩
    | .call _ (.getAssetId name), _ | .call _ (.getBlockchainId name), _ => ⟨0, .ok name, ()⟩
    | .call .., _ => ⟨0, .error (.fatal "no key store"), ()⟩
  cwd := []
  clock _ := 0
  wallet _ _ := Wallet.new "" ⟨Octets.replicate 32 0⟩

/-- A run becomes ready and fails in its provisioning. -/
theorem orderly_course_specimen :
    let j : Job := ⟨{}, "logs", 1⟩
    let w : World Unit := ⟨0, (), .empty, [], 0, []⟩
    ∃ replies w', keyless.Goes j.course w none replies (.done ()) w' ∧
      w'.phases = [.starting, .waitingHealthy, .provisioning, .aborting] ∧
      w'.failures = [.fatal "no key store"] ∧ j.Healthy replies ∧ j.InTime keyless w replies := by
  intro j w
  have hrun : (keyless.run none j.course w).1 = some () ∧ (keyless.run none j.course w).2.isReady = true ∧
      (keyless.run none j.course w).2.phases = [.starting, .waitingHealthy, .provisioning, .aborting] ∧
      (keyless.run none j.course w).2.failures = [.fatal "no key store"] := by decide +kernel
  obtain ⟨hend, hready, hphases, hfailures⟩ := hrun
  obtain ⟨replies, h⟩ := Surroundings.Goes.start.run hend
  obtain ⟨_, hknown, _⟩ := orderly_course h
  rcases hknown hready with hh | ⟨hhealthy, htime⟩
  · cases hh
  · exact ⟨replies, _, h, hphases, hfailures, hhealthy, htime⟩

end Job

end LocalFleet
