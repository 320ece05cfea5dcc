import LocalFleet.Proofs.Run.Exchange

/-! Stages that follow scripts. A script may speak of what is found on the way: answers, readings of the
clock, new wallets. A stage tracks a script if in every way of going through it there are findings with
which the script is followed, and done when the stage ends well. -/

namespace LocalFleet

/-- A script part for each member of a list, each with findings of its own. -/
def alongside {β Φ : Type} (part : β → Φ → List Position) : List β → (Nat → Φ) → List Position
  | [], _ => []
  | x :: xs, φ => part x (φ 0) ++ alongside part xs fun i => φ (i + 1)

namespace Stage

variable {σ τ α β Φ Φ' Ψ : Type}

def Refuses (s : σ) (stage : Stage σ α) : Prop :=
  ∀ es o, (stage s).Traces es o → es = [] ∧ ∀ a t, o ≠ some (.ok a, t)

/-- The stage follows the script, and has done all of it if it ends with a value, but for the values of
which `B` holds. -/
def TracksOr (S : Φ → List Position) (Q : Φ → α → σ → Prop) (B : α → σ → Prop) (s : σ)
    (stage : Stage σ α) : Prop :=
  ∀ es o, (stage s).Traces es o → ∃ φ, Follows (S φ) es ∧
    ∀ a t, o = some (.ok a, t) → (Performed (S φ) es ∧ Q φ a t) ∨ B a t

/-- The stage follows the script, and has done all of it if it ends well. -/
abbrev Tracks (S : Φ → List Position) (Q : Φ → α → σ → Prop) (s : σ) (stage : Stage σ α) : Prop :=
  TracksOr S Q (fun _ _ => False) s stage

abbrev PlaysOr (script : List Position) (Q : α → σ → Prop) (B : α → σ → Prop) (s : σ)
    (stage : Stage σ α) : Prop :=
  TracksOr (fun _ : Unit => script) (fun _ => Q) B s stage

/-- A stage that tracks a script that speaks of no findings. -/
abbrev Plays (script : List Position) (Q : α → σ → Prop) (s : σ) (stage : Stage σ α) : Prop :=
  PlaysOr script Q (fun _ _ => False) s stage

variable {s : σ} {x stage : Stage σ α} {f : α → Stage σ β}
variable {S : Φ → List Position} {Q : Φ → α → σ → Prop} {B : α → σ → Prop}
variable {script : List Position} {P : α → σ → Prop}

theorem refuses_of_eq {e : Error} {t : σ} (h : stage s = .done (.error e, t)) : Refuses s stage := by
  intro es o htraces
  rw [h] at htraces
  obtain ⟨rfl, rfl⟩ := htraces
  exact ⟨rfl, nofun⟩

theorem traces_bind {es : List Exchange} {o : Option (Result β × σ)} (h : ((x >>= f) s).Traces es o) :
    (∃ begun rest a t, es = begun ++ rest ∧ (x s).Traces begun (some (.ok a, t)) ∧
      (f a t).Traces rest o) ∨
    (∀ b t, o ≠ some (.ok b, t)) ∧ ∃ o', (x s).Traces es o' ∧ ∀ a t, o' ≠ some (.ok a, t) := by
  rw [bind_apply] at h
  rcases Plan.traces_bind h with ⟨hx, rfl⟩ | ⟨begun, rest, ⟨r, t⟩, rfl, hx, hf⟩
  · exact .inr ⟨nofun, none, hx, nofun⟩
  · cases r with
    | ok a => exact .inl ⟨begun, rest, a, t, rfl, hx, hf⟩
    | error e =>
      obtain ⟨rfl, rfl⟩ := hf
      rw [List.append_nil]
      exact .inr ⟨nofun, _, hx, nofun⟩

/-- What comes after a stage may have a script and findings that depend on those of the stage. -/
theorem TracksOr.bind [Nonempty Φ'] {T : Ψ → List Position} {S' : Φ → Φ' → List Position}
    {R : Ψ → β → σ → Prop} (g : Φ → Φ' → Ψ) (hx : TracksOr S Q B s x)
    (hT : ∀ φ φ', T (g φ φ') = S φ ++ S' φ φ')
    (hf : ∀ φ a t, Q φ a t → Tracks (S' φ) (fun φ' => R (g φ φ')) t (f a))
    (hB : ∀ a t, B a t → Refuses t (f a)) : Tracks T R s (x >>= f) := by
  intro es o h
  rcases traces_bind h with ⟨begun, rest, a, t, rfl, hbegun, hrest⟩ | ⟨ho, o', hes, ho'⟩
  · obtain ⟨φ, hfollows, hends⟩ := hx begun _ hbegun
    rcases hends a t rfl with ⟨hdone, hQ⟩ | hbad
    · obtain ⟨φ', hfollows', hends'⟩ := hf φ a t hQ rest o hrest
      refine ⟨g φ φ', ?_, fun b u ho => .inl ?_⟩
      · rw [hT]
        exact hdone.append_follows hfollows'
      · rcases hends' b u ho with ⟨hdone', hQ'⟩ | hh
        · rw [hT]
          exact ⟨hdone.append hdone', hQ'⟩
        · exact hh.elim
    · obtain ⟨rfl, hno⟩ := hB a t hbad rest o hrest
      refine ⟨g φ Classical.ofNonempty, ?_, fun b u ho => absurd ho (hno b u)⟩
      rw [hT, List.append_nil]
      exact hfollows.append_right _
  · obtain ⟨φ, hfollows, _⟩ := hx es o' hes
    refine ⟨g φ Classical.ofNonempty, ?_, fun b u hb => absurd hb (ho b u)⟩
    rw [hT]
    exact hfollows.append_right _

theorem Tracks.bind [Nonempty Φ'] {T : Ψ → List Position} {S' : Φ → Φ' → List Position}
    {R : Ψ → β → σ → Prop} (g : Φ → Φ' → Ψ) (hx : Tracks S Q s x)
    (hT : ∀ φ φ', T (g φ φ') = S φ ++ S' φ φ')
    (hf : ∀ φ a t, Q φ a t → Tracks (S' φ) (fun φ' => R (g φ φ')) t (f a)) : Tracks T R s (x >>= f) :=
  TracksOr.bind g hx hT hf fun _ _ h => h.elim

theorem TracksOr.map {S' : Φ' → List Position} {Q' : Φ' → α → σ → Prop} (g : Φ → Φ')
    (h : TracksOr S Q B s stage) (hS : ∀ φ, S' (g φ) = S φ) (hQ : ∀ φ a t, Q φ a t → Q' (g φ) a t) :
    TracksOr S' Q' B s stage := by
  intro es o htraces
  obtain ⟨φ, hfollows, hends⟩ := h es o htraces
  refine ⟨g φ, by rwa [hS], fun a t ho => ?_⟩
  rcases hends a t ho with ⟨hdone, hq⟩ | hbad
  · exact .inl ⟨by rwa [hS], hQ φ a t hq⟩
  · exact .inr hbad

theorem PlaysOr.bind [Nonempty Φ] {R : Φ → β → σ → Prop} (hx : PlaysOr script P B s x)
    (hf : ∀ a t, P a t → Tracks S R t (f a)) (hB : ∀ a t, B a t → Refuses t (f a)) :
    Tracks (fun φ => script ++ S φ) R s (x >>= f) :=
  TracksOr.bind (fun _ φ => φ) hx (fun _ _ => rfl) (fun _ => hf) hB

theorem Plays.bind [Nonempty Φ] {Q' : Φ → β → σ → Prop} (hx : Plays script P s x)
    (hf : ∀ a t, P a t → Tracks S Q' t (f a)) : Tracks (fun φ => script ++ S φ) Q' s (x >>= f) :=
  PlaysOr.bind hx hf fun _ _ h => h.elim

theorem Plays.mono {P' : α → σ → Prop} (h : Plays script P s stage) (hP : ∀ a t, P a t → P' a t) :
    Plays script P' s stage := TracksOr.map id h (fun _ => rfl) fun _ => hP

theorem plays_of_eq {a : α} {t : σ} (h : stage s = .done (.ok a, t)) (hP : P a t) :
    Plays [] P s stage := by
  intro es o htraces
  rw [h] at htraces
  obtain ⟨rfl, rfl⟩ := htraces
  refine ⟨(), .nothing [], fun b u ho => .inl ⟨.nil, ?_⟩⟩
  cases ho
  exact hP

theorem Refuses.tracks [Nonempty Φ] (h : Refuses s stage) : Tracks S Q s stage := by
  intro es o htraces
  obtain ⟨rfl, ho⟩ := h es o htraces
  exact ⟨Classical.ofNonempty, .nothing _, fun a t hat => absurd hat (ho a t)⟩

theorem plays_pure {a : α} (h : P a s) : Plays [] P s (pure a : Stage σ α) := plays_of_eq rfl h

theorem plays_modify {P : PUnit → σ → Prop} {f : σ → σ} (h : P () (f s)) :
    Plays [] P s (modify f : Stage σ PUnit) := plays_of_eq rfl h

/-- A stage that asks no node anything leaves the script to what comes after it. -/
theorem Plays.silent_bind [Nonempty Φ] {Q : Φ → β → σ → Prop} (hx : Plays [] P s x)
    (hf : ∀ a t, P a t → Tracks S Q t (f a)) : Tracks S Q s (x >>= f) := hx.bind hf

theorem TracksOr.bind_plays {S' : Φ → List Position} {Q' : Φ → β → σ → Prop} (hx : TracksOr S Q B s x)
    (hf : ∀ φ a t, Q φ a t → Plays (S' φ) (Q' φ) t (f a)) (hB : ∀ a t, B a t → Refuses t (f a)) :
    Tracks (fun φ => S φ ++ S' φ) Q' s (x >>= f) :=
  TracksOr.bind (fun φ _ => φ) hx (fun _ _ => rfl) hf hB

theorem Tracks.bind_plays {S' : Φ → List Position} {Q' : Φ → β → σ → Prop} (hx : Tracks S Q s x)
    (hf : ∀ φ a t, Q φ a t → Plays (S' φ) (Q' φ) t (f a)) :
    Tracks (fun φ => S φ ++ S' φ) Q' s (x >>= f) :=
  TracksOr.bind_plays hx hf fun _ _ h => h.elim

theorem TracksOr.bind_silent {Q' : Φ → β → σ → Prop} (hx : TracksOr S Q B s x)
    (hf : ∀ φ a t, Q φ a t → Plays [] (Q' φ) t (f a)) (hB : ∀ a t, B a t → Refuses t (f a)) :
    Tracks S Q' s (x >>= f) :=
  TracksOr.map id (TracksOr.bind_plays hx hf hB) (fun φ => (List.append_nil (S φ)).symm) fun _ _ _ h => h

theorem Tracks.bind_silent {Q' : Φ → β → σ → Prop} (hx : Tracks S Q s x)
    (hf : ∀ φ a t, Q φ a t → Plays [] (Q' φ) t (f a)) : Tracks S Q' s (x >>= f) :=
  TracksOr.bind_silent hx hf fun _ _ h => h.elim

theorem tracks_get_bind {f : σ → Stage σ β} {Q : Φ → β → σ → Prop} (h : Tracks S Q s (f s)) :
    Tracks S Q s (get >>= f) := h

theorem tracks_modify_bind {g : σ → σ} {f : PUnit → Stage σ β} {Q : Φ → β → σ → Prop}
    (h : Tracks S Q (g s) (f ())) : Tracks S Q s (modify g >>= f) := h

theorem tracks_lift_bind [Nonempty Φ] {r : Result α} {Q : Φ → β → σ → Prop}
    (h : ∀ a, r = .ok a → Tracks S Q s (f a)) : Tracks S Q s (Stage.lift r >>= f) := by
  cases r with
  | ok a => exact h a rfl
  | error e => exact Refuses.tracks (refuses_of_eq rfl)

theorem plays_lift {r : Result α} (h : ∀ a, r = .ok a → P a s) : Plays [] P s (Stage.lift r) := by
  cases r with
  | ok a => exact plays_of_eq rfl (h a rfl)
  | error e => exact Refuses.tracks (refuses_of_eq rfl)

theorem refuses_lift_bind {r : Result α} {f : α → Stage σ β} (h : ∀ a, r ≠ .ok a) :
    Refuses s (Stage.lift r >>= f) := by
  cases r with
  | ok a => exact absurd rfl (h a)
  | error e => exact refuses_of_eq rfl

theorem tracks_overflow [Nonempty Φ] : Tracks S Q s (Stage.overflow : Stage σ α) := by
  intro es o h
  obtain ⟨rfl, rfl⟩ := h
  exact ⟨Classical.ofNonempty, .nothing _, nofun⟩

theorem tracks_ask_bind {q : Question} {f : q.Answer → Stage σ β} {Q : Φ → β → σ → Prop}
    (hq : ∀ es o, q.Leads es o → es = [] ∧ o.isSome)
    (h : ∀ a, q.Leads [] (some a) → Tracks S Q s (f a)) : Tracks S Q s (Stage.ask q >>= f) := by
  intro es o htraces
  rcases htraces with ⟨hnone, rfl⟩ | ⟨begun, rest, a, rfl, ha, hrest⟩
  · obtain ⟨_, hsome⟩ := hq es none hnone
    cases hsome
  · obtain ⟨rfl, _⟩ := hq begun _ ha
    exact h a ha rest o hrest

theorem plays_checkpoint {after : String} : Plays [] (fun _ t => t = s) s (Stage.checkpoint after) := by
  intro es o htraces
  rcases htraces with ⟨⟨_, hq⟩, _⟩ | ⟨begun, rest, a, rfl, ⟨rfl, _⟩, rfl, rfl⟩
  · cases hq
  · refine ⟨(), .nothing [], fun b t hb => .inl ⟨.nil, ?_⟩⟩
    cases hb
    rfl

theorem traces_call {what : String} {node : NodeSpec} {c : Call} {es : List Exchange}
    {o : Option (Result c.Answer × σ)} (h : (Stage.call what node c s).Traces es o) :
    (∃ a, o = some (.ok a, s) ∧ es = [⟨node, c, .ok a⟩]) ∨
      (∀ a t, o ≠ some (.ok a, t)) ∧ (Position.call node c fun _ => True).Begun es := by
  rcases h with ⟨hq, _⟩ | ⟨begun, rest, r, rfl, hq, rfl, rfl⟩
  · rcases hq with ⟨_, hh, _⟩ | ⟨_, hh, _⟩ <;> cases hh
  · rw [List.append_nil]
    rcases hq with ⟨a, hr, b, rfl, rfl⟩ | ⟨e, hr, hbegun⟩
    · cases hr
      exact .inl ⟨b, rfl, rfl⟩
    · cases hr
      exact .inr ⟨nofun, hbegun⟩

theorem tracksOr_call {what : String} {node : NodeSpec} {c : Call} (good : c.Answer → Prop)
    [Nonempty c.Answer] :
    TracksOr (fun found => [.call node c fun a => a = found ∧ good a])
      (fun found a t => a = found ∧ good a ∧ t = s) (fun a _ => ¬ good a) s
      (Stage.call what node c) := by
  intro es o htraces
  rcases traces_call htraces with ⟨a, rfl, rfl⟩ | ⟨ho, hbegun⟩
  · refine ⟨a, .begun [] (.inr ⟨_, rfl⟩), fun b t hb => ?_⟩
    cases hb
    by_cases hgood : good a
    · exact .inl ⟨performed_singleton ⟨a, rfl, rfl, hgood⟩, rfl, hgood, rfl⟩
    · exact .inr hgood
  · exact ⟨Classical.ofNonempty, .begun [] hbegun, fun a t ha => absurd ha (ho a t)⟩

theorem tracks_call {what : String} {node : NodeSpec} {c : Call} [Nonempty c.Answer] :
    Tracks (fun found => [.call node c (· = found)]) (fun found a t => a = found ∧ t = s) s
      (Stage.call what node c) := by
  intro es o htraces
  rcases traces_call htraces with ⟨a, rfl, rfl⟩ | ⟨ho, hbegun⟩
  · refine ⟨a, .begun [] (.inr ⟨_, rfl⟩), fun b t hb => .inl ⟨performed_singleton ⟨a, rfl, rfl⟩, ?_⟩⟩
    cases hb
    exact ⟨rfl, rfl⟩
  · exact ⟨Classical.ofNonempty, .begun [] hbegun, fun a t ha => absurd ha (ho a t)⟩

theorem playsOr_call {what : String} {node : NodeSpec} {c : Call} (good : c.Answer → Prop) :
    PlaysOr [.call node c good] (fun a t => good a ∧ t = s) (fun a _ => ¬ good a) s
      (Stage.call what node c) := by
  intro es o htraces
  rcases traces_call htraces with ⟨a, rfl, rfl⟩ | ⟨ho, hbegun⟩
  · refine ⟨(), .begun [] (.inr ⟨_, rfl⟩), fun b t hb => ?_⟩
    cases hb
    by_cases hgood : good a
    · exact .inl ⟨performed_singleton ⟨a, rfl, hgood⟩, hgood, rfl⟩
    · exact .inr hgood
  · exact ⟨(), .begun [] hbegun, fun a t ha => absurd ha (ho a t)⟩

theorem plays_call {what : String} {node : NodeSpec} {c : Call} :
    Plays [.call node c fun _ => True] (fun _ t => t = s) s (Stage.call what node c) := by
  intro es o htraces
  obtain ⟨_, hfollows, hends⟩ := playsOr_call (fun _ => True) es o htraces
  refine ⟨(), hfollows, fun a t ho => .inl ?_⟩
  rcases hends a t ho with ⟨hdone, _, hs⟩ | hbad
  · exact ⟨hdone, hs⟩
  · exact absurd trivial hbad

theorem traces_await {what : String} {pace : Pace} {node : NodeSpec} {c : Call}
    {enough : c.Answer → Bool} {es : List Exchange} {o : Option (Result c.Answer × σ)}
    (h : (Stage.await what pace node c enough s).Traces es o) :
    (∃ a, o = some (.ok a, s) ∧ (Position.poll node c enough (· = a)).Done es) ∨
      (∀ a t, o ≠ some (.ok a, t)) ∧ (Position.poll node c enough fun _ => True).Begun es := by
  rcases h with ⟨hq, rfl⟩ | ⟨begun, rest, r, rfl, hq, rfl, rfl⟩
  · rcases hq with ⟨_, hh, _⟩ | ⟨_, hbegun⟩
    · cases hh
    · exact .inr ⟨nofun, hbegun⟩
  · rw [List.append_nil]
    rcases hq with ⟨a, hr, hdone⟩ | ⟨hr, hbegun⟩
    · cases hr
      exact .inl ⟨a, rfl, hdone⟩
    · refine .inr ⟨fun a t ht => ?_, hbegun⟩
      cases ht
      exact hr a rfl

theorem tracks_await {what : String} {pace : Pace} {node : NodeSpec} {c : Call}
    {enough : c.Answer → Bool} [Nonempty c.Answer] :
    Tracks (fun found => [.poll node c enough (· = found)]) (fun found a t => a = found ∧ t = s) s
      (Stage.await what pace node c enough) := by
  intro es o htraces
  rcases traces_await htraces with ⟨a, rfl, hdone⟩ | ⟨ho, hbegun⟩
  · refine ⟨a, .begun [] hdone.begun, fun b t hb => .inl ⟨performed_singleton hdone, ?_⟩⟩
    cases hb
    exact ⟨rfl, rfl⟩
  · exact ⟨Classical.ofNonempty, .begun [] hbegun, fun a t ha => absurd ha (ho a t)⟩

theorem plays_await {what : String} {pace : Pace} {node : NodeSpec} {c : Call}
    {enough : c.Answer → Bool} :
    Plays [.poll node c enough fun _ => True] (fun _ t => t = s) s
      (Stage.await what pace node c enough) := by
  intro es o htraces
  rcases traces_await htraces with ⟨a, rfl, fruitless, b, hes, hall, henough, _⟩ | ⟨ho, hbegun⟩
  · have hdone : (Position.poll node c enough fun _ => True).Done es :=
      ⟨fruitless, b, hes, hall, henough, trivial⟩
    refine ⟨(), .begun [] hdone.begun, fun b t hb => .inl ⟨performed_singleton hdone, ?_⟩⟩
    cases hb
    rfl
  · exact ⟨(), .begun [] hbegun, fun a t ha => absurd ha (ho a t)⟩

theorem traces_ofPlan {p : Plan α} {es : List Exchange} {o : Option (Result α × σ)}
    (h : ((Stage.ofPlan p : Stage σ α) s).Traces es o) :
    ∃ o', p.Traces es o' ∧ ∀ a t, o = some (.ok a, t) → o' = some a ∧ t = s := by
  rcases Plan.traces_bind h with ⟨hp, rfl⟩ | ⟨begun, rest, a, rfl, hp, rfl, rfl⟩
  · exact ⟨none, hp, nofun⟩
  · rw [List.append_nil]
    refine ⟨some a, hp, fun b t hb => ?_⟩
    cases hb
    exact ⟨rfl, rfl⟩

/-- A stage on a state of its own: what it leaves undone shows in the result that it gives. -/
theorem playsOr_on {own : τ} {inner : Stage τ α} {P : α → τ → Prop} (h : Plays script P own inner) :
    PlaysOr script (fun r t => ∃ a, r.1 = .ok a ∧ P a r.2 ∧ t = s) (fun r _ => ∃ e, r.1 = .error e) s
      (Stage.on own inner : Stage σ _) := by
  intro es o htraces
  obtain ⟨o', hinner, ho⟩ := traces_ofPlan htraces
  obtain ⟨_, hfollows, hends⟩ := h es o' hinner
  refine ⟨(), hfollows, fun r t hr => ?_⟩
  obtain ⟨rfl, rfl⟩ := ho r t hr
  obtain ⟨r, u⟩ := r
  cases r with
  | error e => exact .inr ⟨e, rfl⟩
  | ok a =>
    rcases hends a u rfl with ⟨hdone, hP⟩ | hh
    · exact .inl ⟨hdone, a, rfl, hP, rfl⟩
    · exact hh.elim

/-- A loop plays the script parts of its members one after another, with an invariant of the members
that were gone through. -/
theorem plays_forM {body : β → Stage σ Unit} {xs : List β} {part : β → List Position}
    (inv : List β → σ → Prop)
    (h : ∀ seen y rest s, xs = seen ++ y :: rest → inv seen s →
      Plays (part y) (fun _ t => inv (seen ++ [y]) t) s (body y))
    (hs : inv [] s) : Plays (xs.flatMap part) (fun _ t => inv xs t) s (xs.forM body) := by
  suffices ∀ seen rest s, xs = seen ++ rest → inv seen s →
      Plays (rest.flatMap part) (fun _ t => inv xs t) s (rest.forM body) from this [] xs s rfl hs
  intro seen rest
  induction rest generalizing seen with
  | nil =>
    intro s hxs hi
    obtain rfl : xs = seen := by simpa using hxs
    exact plays_pure hi
  | cons y rest ih =>
    intro s hxs hi
    exact (h seen y rest s hxs hi).bind fun _ t hi => ih (seen ++ [y]) t (by simp [hxs]) hi

theorem plays_forM_same {body : β → Stage σ Unit} {xs : List β} {part : β → List Position}
    (h : ∀ y, Plays (part y) (fun _ t => t = s) s (body y)) :
    Plays (xs.flatMap part) (fun _ t => t = s) s (xs.forM body) := by
  refine plays_forM (fun _ t => t = s) (fun _ y _ t _ ht => ?_) rfl
  subst ht
  exact h y

theorem tracks_forM [Nonempty Φ] {body : β → Stage σ Unit} {xs : List β}
    {part : β → Φ → List Position} (inv : σ → Prop)
    (h : ∀ y s, inv s → Tracks (part y) (fun _ _ t => inv t) s (body y)) (hs : inv s) :
    Tracks (alongside part xs) (fun _ _ t => inv t) s (xs.forM body) := by
  induction xs generalizing s with
  | nil =>
    exact TracksOr.map (fun _ _ => Classical.ofNonempty) (plays_pure hs) (fun _ => rfl) fun _ _ _ h => h
  | cons y xs ih =>
    exact Tracks.bind (fun found (φ : Nat → Φ) i => Nat.casesOn i found φ) (h y s hs) (fun _ _ => rfl)
      fun _ _ t ht => ih ht

/-- The stage follows the script with findings that fit its state, and every finding that fits the state
in which it ends well fitted before, with the script done. So what was asked under one finding is right
for all that are still possible. -/
def Settles (fits : Φ → σ → Prop) (part : Φ → List Position) (Q : σ → Prop) (s : σ)
    (stage : Stage σ Unit) : Prop :=
  ∀ es o, (stage s).Traces es o → (∃ φ, fits φ s ∧ Follows (part φ) es) ∧
    ∀ t, o = some (.ok (), t) → Q t ∧ ∀ φ, fits φ t → fits φ s ∧ Performed (part φ) es

theorem Settles.mono {fits : Φ → σ → Prop} {P R : σ → Prop} {stage : Stage σ Unit}
    (h : Settles fits S P s stage) (hPR : ∀ t, P t → R t) : Settles fits S R s stage := by
  intro es o htraces
  obtain ⟨hfollows, hends⟩ := h es o htraces
  exact ⟨hfollows, fun t ht => ⟨hPR t (hends t ht).1, (hends t ht).2⟩⟩

/-- A loop whose members share a finding, with an invariant of the members that were gone through. -/
theorem settles_forM {fits : Φ → σ → Prop} {body : β → Stage σ Unit} {xs : List β}
    {part : β → Φ → List Position} (inv : List β → σ → Prop) (hfits : ∀ s, ∃ φ, fits φ s)
    (h : ∀ seen y rest s, xs = seen ++ y :: rest → inv seen s →
      Settles fits (part y) (inv (seen ++ [y])) s (body y))
    (hs : inv [] s) : Settles fits (fun φ => xs.flatMap (part · φ)) (inv xs) s (xs.forM body) := by
  suffices ∀ seen rest s, xs = seen ++ rest → inv seen s →
      Settles fits (fun φ => rest.flatMap (part · φ)) (inv xs) s (rest.forM body) from
    this [] xs s rfl hs
  intro seen rest
  induction rest generalizing seen with
  | nil =>
    intro s hxs hi es o htraces
    obtain rfl : xs = seen := by simpa using hxs
    obtain ⟨rfl, rfl⟩ := htraces
    obtain ⟨φ, hφ⟩ := hfits s
    refine ⟨⟨φ, hφ, .nothing _⟩, fun t ht => ?_⟩
    cases ht
    exact ⟨hi, fun φ hφ => ⟨hφ, .nil⟩⟩
  | cons y rest ih =>
    intro s hxs hi es o htraces
    rcases traces_bind (f := fun _ => rest.forM body) htraces with
      ⟨begun, last, u, t, rfl, hbegun, hlast⟩ | ⟨ho, o', hes, _⟩
    · obtain ⟨_, hends⟩ := h seen y rest s hxs hi begun _ hbegun
      obtain ⟨hi', hdone⟩ := hends t rfl
      obtain ⟨⟨φ, hφ, hfollows⟩, hends'⟩ := ih (seen ++ [y]) t (by simp [hxs]) hi' last o hlast
      refine ⟨⟨φ, (hdone φ hφ).1, (hdone φ hφ).2.append_follows hfollows⟩, fun u hu => ?_⟩
      obtain ⟨hq, hdone'⟩ := hends' u hu
      refine ⟨hq, fun φ hφ => ?_⟩
      obtain ⟨hφ', hperformed⟩ := hdone' φ hφ
      exact ⟨(hdone φ hφ').1, (hdone φ hφ').2.append hperformed⟩
    · obtain ⟨⟨φ, hφ, hfollows⟩, _⟩ := h seen y rest s hxs hi es o' hes
      exact ⟨⟨φ, hφ, hfollows.append_right _⟩, fun t ht => absurd ht (ho () t)⟩

/-- A stage that settles a finding tracks its script. -/
theorem Settles.tracks {fits : Φ → σ → Prop} {part : Φ → List Position} {P : σ → Prop}
    {R : Φ → σ → Prop} {stage : Stage σ Unit} (h : Settles fits part P s stage)
    (hfits : ∀ t, P t → ∃ φ, fits φ t ∧ R φ t) :
    Tracks (fun φ : {φ // fits φ s} => part φ.1) (fun φ _ t => R φ.1 t) s stage := by
  intro es o htraces
  obtain ⟨⟨φ, hφ, hfollows⟩, hends⟩ := h es o htraces
  by_cases ho : ∃ t, o = some (.ok (), t)
  · obtain ⟨t, rfl⟩ := ho
    obtain ⟨hP, hdone⟩ := hends t rfl
    obtain ⟨ψ, hψ, hR⟩ := hfits t hP
    obtain ⟨hψ, hperformed⟩ := hdone ψ hψ
    refine ⟨⟨ψ, hψ⟩, hperformed.follows, fun u v hv => .inl ⟨hperformed, ?_⟩⟩
    cases hv
    exact hR
  · exact ⟨⟨φ, hφ⟩, hfollows, fun u t ht => absurd ⟨t, ht⟩ ho⟩

/-- Going through members, either the first does not end well, and nothing else is done, or it does, and
the others follow. -/
theorem traces_each_cons {inner : Stage τ Unit} {y : τ} {ys : List τ} {es : List Exchange}
    {o : Option (Result Unit × List τ)} (h : (each inner (y :: ys)).Traces es o) :
    (∃ o', (inner y).Traces es o' ∧ ∀ ts, o ≠ some (.ok (), ts)) ∨
    ∃ begun rest t o', es = begun ++ rest ∧ (inner y).Traces begun (some (.ok (), t)) ∧
      (each inner ys).Traces rest o' ∧
      ∀ ts, o = some (.ok (), ts) → ∃ us, ts = t :: us ∧ o' = some (.ok (), us) := by
  rcases Plan.traces_bind h with ⟨hy, rfl⟩ | ⟨begun, rest, ⟨r, t⟩, rfl, hy, hnext⟩
  · exact .inl ⟨none, hy, nofun⟩
  · cases r with
    | error e =>
      obtain ⟨rfl, rfl⟩ := hnext
      rw [List.append_nil]
      exact .inl ⟨_, hy, nofun⟩
    | ok u =>
      rcases Plan.traces_bind hnext with ⟨hys, rfl⟩ | ⟨mid, last, ⟨r, us⟩, rfl, hys, rfl, rfl⟩
      · exact .inr ⟨begun, rest, t, none, rfl, hy, hys, nofun⟩
      · rw [List.append_nil]
        refine .inr ⟨begun, mid, t, _, rfl, hy, hys, fun ts hts => ?_⟩
        cases hts
        exact ⟨us, rfl, rfl⟩

section

variable {H : Type} {inner : Stage τ Unit} {part : H → List Position} {before after : H → τ → Prop}

theorem exists_forall₂ {R : α → β → Prop} {xs : List α} (h : ∀ x ∈ xs, ∃ y, R x y) :
    ∃ ys, List.Forall₂ R xs ys := by
  induction xs with
  | nil => exact ⟨[], .nil⟩
  | cons x xs ih =>
    rw [List.forall_mem_cons] at h
    obtain ⟨y, hy⟩ := h.1
    obtain ⟨ys, hys⟩ := ih h.2
    exact ⟨y :: ys, .cons hy hys⟩

/-- Members that are gone through one after another, each with a finding of its own of which something
is known. -/
theorem tracksOr_each {known : List (H → Prop)} {ys : List τ}
    (h : List.Forall₂ (fun K y => Tracks (fun found : {found // K found} => part found.1)
      (fun found _ t => after found.1 t) y inner) known ys)
    (hne : ∀ K ∈ known, ∃ found, K found) :
    TracksOr (fun founds : {founds // List.Forall₂ (fun K found => K found) known founds} =>
        founds.1.flatMap part)
      (fun founds r t => ∃ ts, r = (.ok (), ts) ∧ List.Forall₂ after founds.1 ts ∧ t = s)
      (fun r _ => ∃ e, r.1 = .error e) s (Stage.ofPlan (each inner ys) : Stage σ _) := by
  have heach : ∀ es o, (each inner ys).Traces es o → ∃ founds,
      List.Forall₂ (fun K found => K found) known founds ∧ Follows (founds.flatMap part) es ∧
      ∀ ts, o = some (.ok (), ts) →
        Performed (founds.flatMap part) es ∧ List.Forall₂ after founds ts := by
    induction h with
    | nil =>
      rintro es o ⟨rfl, rfl⟩
      refine ⟨[], .nil, .nothing _, fun ts hts => ?_⟩
      cases hts
      exact ⟨.nil, .nil⟩
    | @cons K y known ys hy _ ih =>
      intro es o htraces
      rw [List.forall_mem_cons] at hne
      rcases traces_each_cons htraces with ⟨o', hfirst, ho⟩ | ⟨begun, rest, t, o', rfl, hfirst, hrest, ho⟩
      · obtain ⟨⟨found, hfound⟩, hfollows, _⟩ := hy es o' hfirst
        -- the members that are not reached have findings, too
        obtain ⟨founds, hfounds⟩ := exists_forall₂ hne.2
        exact ⟨found :: founds, .cons hfound hfounds, hfollows.append_right _,
          fun ts hts => absurd hts (ho ts)⟩
      · obtain ⟨⟨found, hfound⟩, _, hends⟩ := hy begun _ hfirst
        obtain ⟨founds, hfounds, hfollows, hends'⟩ := ih hne.2 rest o' hrest
        rcases hends () t rfl with ⟨hdone, hafter⟩ | hh
        · refine ⟨found :: founds, .cons hfound hfounds, hdone.append_follows hfollows, fun ts hts => ?_⟩
          obtain ⟨us, rfl, rfl⟩ := ho ts hts
          obtain ⟨hdone', hafters⟩ := hends' us rfl
          exact ⟨hdone.append hdone', .cons hafter hafters⟩
        · exact hh.elim
  intro es o htraces
  obtain ⟨o', hall, ho⟩ := traces_ofPlan htraces
  obtain ⟨founds, hfounds, hfollows, hends⟩ := heach es o' hall
  refine ⟨⟨founds, hfounds⟩, hfollows, fun r t hr => ?_⟩
  obtain ⟨rfl, rfl⟩ := ho r t hr
  obtain ⟨r, ts⟩ := r
  cases r with
  | error e => exact .inr ⟨e, rfl⟩
  | ok u =>
    obtain ⟨hdone, hafters⟩ := hends ts rfl
    exact .inl ⟨hdone, ts, rfl, hafters, rfl⟩

theorem tracksOr_each_of_before (h : ∀ y, Tracks (fun found : {found // before found y} => part found.1)
      (fun found _ t => after found.1 t) y inner)
    (hne : ∀ y, ∃ found, before found y) (ys : List τ) :
    TracksOr (fun founds : {founds // List.Forall₂ before founds ys} => founds.1.flatMap part)
      (fun founds r t => ∃ ts, r = (.ok (), ts) ∧ List.Forall₂ after founds.1 ts ∧ t = s)
      (fun r _ => ∃ e, r.1 = .error e) s (Stage.ofPlan (each inner ys) : Stage σ _) := by
  have hknown : List.Forall₂ (fun K y => Tracks (fun found : {found // K found} => part found.1)
      (fun found _ t => after found.1 t) y inner) (ys.map fun y found => before found y) ys := by
    rw [List.forall₂_map_left_iff, List.forall₂_same]
    exact fun y _ => h y
  have hsome : ∀ K ∈ ys.map fun y found => before found y, ∃ found, K found := by
    simpa using fun y _ => hne y
  have hbefore : ∀ founds, List.Forall₂ (fun K found => K found)
      (ys.map fun y found => before found y) founds → List.Forall₂ before founds ys := by
    intro founds hfounds
    rw [List.forall₂_map_left_iff] at hfounds
    exact hfounds.flip
  exact TracksOr.map (fun founds => ⟨founds.1, hbefore founds.1 founds.2⟩) (tracksOr_each hknown hsome)
    (fun _ => rfl) fun _ _ _ h => h

theorem playsOr_each
    (h : ∀ found y, before found y → Plays (part found) (fun _ t => after found t) y inner)
    {founds : List H} {ys : List τ} (hfounds : List.Forall₂ before founds ys) :
    PlaysOr (founds.flatMap part)
      (fun r t => ∃ ts, r = (.ok (), ts) ∧ List.Forall₂ after founds ts ∧ t = s)
      (fun r _ => ∃ e, r.1 = .error e) s (Stage.ofPlan (each inner ys) : Stage σ _) := by
  have hknown : List.Forall₂ (fun K y => Tracks (fun found : {found // K found} => part found.1)
      (fun found _ t => after found.1 t) y inner) (founds.map fun f found => f = found) ys := by
    rw [List.forall₂_map_left_iff]
    refine hfounds.imp fun found y hy => ?_
    exact TracksOr.map (fun _ => ⟨found, rfl⟩) (h found y hy) (fun _ => rfl) fun _ _ _ h => h
  have hsome : ∀ K ∈ founds.map fun f found => f = found, ∃ found, K found := by simp
  have hsame : ∀ others : {others // List.Forall₂ (fun K found => K found)
      (founds.map fun f found => f = found) others}, others.1 = founds := by
    rintro ⟨others, hothers⟩
    rw [List.forall₂_map_left_iff, List.forall₂_eq_eq_eq] at hothers
    exact hothers.symm
  refine TracksOr.map (fun _ => ()) (tracksOr_each hknown hsome) (fun others => ?_) fun others r t hr => ?_
  · rw [hsame others]
  · rw [hsame others] at hr
    exact hr

end

end Stage

end LocalFleet
