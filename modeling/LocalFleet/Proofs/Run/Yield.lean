import LocalFleet.Proofs.Run.Visible

/-! What a stage leaves when it ends well: its replies, its value and its state. Of a stage that fails
nothing is said, so that each rule follows a stage along its good end only. -/

namespace LocalFleet

variable {σ τ α β : Type}

/-- The answers that a question can have: a wait ends well only with an answer that is enough, and as many
wallets are made as were asked for. -/
def Question.Fair : (q : Question) → q.Answer → Prop
  | .await _ _ _ _ enough, answer => ∀ a, answer = .ok a → enough a = true
  | .newWallets count _, made => made.length = count
  | _, _ => True

theorem Question.fair_of_leads {q : Question} {answer : q.Answer} {es : List Exchange}
    (h : q.Leads es (some answer)) : q.Fair answer := by
  cases q with
  | await what pace node c enough =>
    rintro a rfl
    rcases h with ⟨b, hb, _, _, _, _, henough, hsame⟩ | ⟨hno, _⟩
    · obtain rfl : a = b := Except.ok.inj (Option.some.inj hb)
      exact hsame ▸ henough
    · exact absurd rfl (hno a)
  | newWallets count nameLength =>
    obtain ⟨_, made, hmade, hlength⟩ := h
    exact (Option.some.inj hmade) ▸ hlength
  | _ => trivial

namespace Plan

theorem reaches_done {a b : α} {replies : List Reply} (h : (done a).Reaches replies (done b)) :
    replies = [] ∧ a = b := by
  cases h
  exact ⟨rfl, rfl⟩

theorem reaches_question {q : Question} {a : q.Answer} {replies : List Reply}
    (h : (question q).Reaches replies (.done a)) : replies = [⟨q, a⟩] := by
  cases h with
  | answered h =>
    obtain ⟨rfl, rfl⟩ := reaches_done h
    rfl

theorem reaches_bind {p : Plan α} {f : α → Plan β} {replies : List Reply} {b : β}
    (h : (p.bind f).Reaches replies (.done b)) : ∃ since more a, replies = since ++ more ∧
      p.Reaches since (.done a) ∧ (f a).Reaches more (.done b) := by
  induction p generalizing replies with
  | done a => exact ⟨[], replies, a, rfl, .here _, h⟩
  | overflow => cases h
  | ask q next ih =>
    cases h with
    | answered h =>
      obtain ⟨since, more, a, rfl, hp, hf⟩ := ih _ h
      exact ⟨_ :: since, more, a, rfl, .answered hp, hf⟩

theorem Reaches.snoc {p rest : Plan α} {replies : List Reply} (h : p.Reaches replies rest) {q : Question}
    {next : q.Answer → Plan α} (hrest : rest = ask q next) (a : q.Answer) :
    p.Reaches (replies ++ [⟨q, a⟩]) (next a) := by
  subst hrest
  exact h.trans (.answered (.here _))

end Plan

namespace Stage

/-- If the stage ends well, after fair replies, then `R` holds of them, of its value and of the state that it
leaves. -/
def Yields (R : List Reply → α → σ → Prop) (s : σ) (stage : Stage σ α) : Prop :=
  ∀ replies a t, (stage s).Reaches replies (.done (.ok a, t)) →
    (∀ r ∈ replies, r.question.Fair r.answer) → R replies a t

section

variable {s : σ} {R : List Reply → α → σ → Prop} {R' : List Reply → β → σ → Prop} {x stage : Stage σ α}
  {f : α → Stage σ β}

theorem Yields.mono {R' : List Reply → α → σ → Prop} (h : Yields R s stage)
    (hR : ∀ since a t, R since a t → R' since a t) : Yields R' s stage :=
  fun replies a t hreaches hfair => hR _ _ _ (h replies a t hreaches hfair)

theorem Yields.bind (hx : Yields R s x)
    (hf : ∀ since a t, R since a t → Yields (fun more b u => R' (since ++ more) b u) t (f a)) :
    Yields R' s (x >>= f) := by
  intro replies b u h hfair
  rw [bind_apply] at h
  obtain ⟨since, more, ⟨r, t⟩, rfl, hsince, hmore⟩ := Plan.reaches_bind h
  rw [List.forall_mem_append] at hfair
  cases r with
  | error e => cases (Plan.reaches_done hmore).2
  | ok a => exact hf since a t (hx since a t hsince hfair.1) more b u hmore hfair.2

theorem yields_of_eq {a : α} {t : σ} (h : stage s = .done (.ok a, t)) (hR : R [] a t) :
    Yields R s stage := by
  intro replies b u hreaches _
  rw [h] at hreaches
  obtain ⟨rfl, hends⟩ := Plan.reaches_done hreaches
  cases hends
  exact hR

theorem yields_of_error {e : Error} {t : σ} (h : stage s = .done (.error e, t)) : Yields R s stage := by
  intro replies b u hreaches _
  rw [h] at hreaches
  cases (Plan.reaches_done hreaches).2

theorem yields_pure {a : α} (h : R [] a s) : Yields R s (pure a : Stage σ α) := yields_of_eq rfl h

theorem yields_throw {e : Error} : Yields R s (throw e : Stage σ α) := yields_of_error rfl

theorem yields_modify {R : List Reply → PUnit → σ → Prop} {g : σ → σ} (h : R [] () (g s)) :
    Yields R s (modify g : Stage σ PUnit) := yields_of_eq rfl h

theorem yields_overflow : Yields R s (Stage.overflow : Stage σ α) := by
  intro replies a t h _
  cases h

theorem yields_lift {r : Result α} (h : ∀ a, r = .ok a → R [] a s) : Yields R s (Stage.lift r) := by
  cases r with
  | ok a => exact yields_of_eq rfl (h a rfl)
  | error e => exact yields_of_error rfl

theorem yields_get_bind {f : σ → Stage σ β} (h : Yields R' s (f s)) : Yields R' s (get >>= f) := h

theorem yields_modify_bind {g : σ → σ} {f : PUnit → Stage σ β} (h : Yields R' (g s) (f ())) :
    Yields R' s (modify g >>= f) := h

theorem yields_lift_bind {r : Result α} (h : ∀ a, r = .ok a → Yields R' s (f a)) :
    Yields R' s (Stage.lift r >>= f) := by
  cases r with
  | ok a => exact h a rfl
  | error e => exact yields_of_error rfl

theorem yields_ofPlan {p : Plan α}
    (h : ∀ replies a, p.Reaches replies (.done a) → (∀ r ∈ replies, r.question.Fair r.answer) →
      R replies a s) : Yields R s (Stage.ofPlan p) := by
  intro replies a t hreaches hfair
  obtain ⟨since, more, b, rfl, hsince, hmore⟩ := Plan.reaches_bind hreaches
  obtain ⟨rfl, hends⟩ := Plan.reaches_done hmore
  cases hends
  rw [List.append_nil] at hfair ⊢
  exact h since a hsince hfair

theorem yields_ofResult {p : Plan (Result α)}
    (h : ∀ replies a, p.Reaches replies (.done (.ok a)) → (∀ r ∈ replies, r.question.Fair r.answer) →
      R replies a s) : Yields R s (Stage.ofResult p) := by
  intro replies a t hreaches hfair
  obtain ⟨since, more, b, rfl, hsince, hmore⟩ := Plan.reaches_bind hreaches
  obtain ⟨rfl, hends⟩ := Plan.reaches_done hmore
  cases hends
  rw [List.append_nil] at hfair ⊢
  exact h since a hsince hfair

theorem yields_ask {q : Question} {R : List Reply → q.Answer → σ → Prop}
    (h : ∀ a, q.Fair a → R [⟨q, a⟩] a s) : Yields R s (Stage.ask q) :=
  yields_ofPlan fun replies a hreaches hfair => by
    obtain rfl := Plan.reaches_question hreaches
    exact h a (hfair _ (List.mem_singleton.2 rfl))

theorem yields_ask_bind {q : Question} {f : q.Answer → Stage σ β}
    (h : ∀ a, q.Fair a → Yields (fun more b u => R' (⟨q, a⟩ :: more) b u) s (f a)) :
    Yields R' s (Stage.ask q >>= f) := by
  refine Yields.bind (R := fun since a t => q.Fair a ∧ t = s ∧ since = [⟨q, a⟩])
    (yields_ask fun _ ha => ⟨ha, rfl, rfl⟩) ?_
  rintro _ a _ ⟨ha, rfl, rfl⟩
  exact h a ha

theorem yields_call {what : String} {node : NodeSpec} {c : Call} {R : List Reply → c.Answer → σ → Prop}
    (h : ∀ a, R [⟨.call what node c, .ok a⟩] a s) : Yields R s (Stage.call what node c) :=
  yields_ofResult fun replies a hreaches _ => by
    obtain rfl := Plan.reaches_question (q := .call what node c) hreaches
    exact h a

theorem yields_call_bind {what : String} {node : NodeSpec} {c : Call} {f : c.Answer → Stage σ β}
    (h : ∀ a, Yields (fun more b u => R' (⟨.call what node c, .ok a⟩ :: more) b u) s (f a)) :
    Yields R' s (Stage.call what node c >>= f) := by
  refine Yields.bind (R := fun since a t => t = s ∧ since = [⟨.call what node c, .ok a⟩])
    (yields_call fun _ => ⟨rfl, rfl⟩) ?_
  rintro _ a _ ⟨rfl, rfl⟩
  exact h a

theorem yields_await {what : String} {pace : Pace} {node : NodeSpec} {c : Call}
    {enough : c.Answer → Bool} {R : List Reply → c.Answer → σ → Prop}
    (h : ∀ a, enough a = true → R [⟨.await what pace node c enough, .ok a⟩] a s) :
    Yields R s (Stage.await what pace node c enough) :=
  yields_ofResult fun replies a hreaches hfair => by
    obtain rfl := Plan.reaches_question (q := .await what pace node c enough) hreaches
    exact h a (hfair _ (List.mem_singleton.2 rfl) a rfl)

theorem yields_checkpoint {after : String} {R : List Reply → Unit → σ → Prop}
    (h : R [⟨.checkpoint after, .ok ()⟩] () s) : Yields R s (Stage.checkpoint after) :=
  yields_ofResult fun replies a hreaches _ => by
    obtain rfl := Plan.reaches_question (q := .checkpoint after) hreaches
    exact h

theorem yields_on {own : τ} {inner : Stage τ α} {R : List Reply → α → τ → Prop} (h : Yields R own inner) :
    Yields (fun since r t => t = s ∧ ∀ a, r.1 = .ok a → R since a r.2) s
      (Stage.on own inner : Stage σ _) :=
  yields_ofPlan fun replies r hreaches hfair => ⟨rfl, fun a ha => by
    obtain ⟨_, t⟩ := r
    subst ha
    exact h replies a t hreaches hfair⟩

end

theorem yields_forM {s : σ} {body : β → Stage σ Unit} {xs : List β} (inv : List β → List Reply → σ → Prop)
    (h : ∀ seen x rest since s, xs = seen ++ x :: rest → inv seen since s →
      Yields (fun more _ t => inv (seen ++ [x]) (since ++ more) t) s (body x))
    (hs : inv [] [] s) : Yields (fun since _ t => inv xs since t) s (xs.forM body) := by
  suffices ∀ seen rest since s, xs = seen ++ rest → inv seen since s →
      Yields (fun more _ t => inv xs (since ++ more) t) s (rest.forM body) from this [] xs [] s rfl hs
  intro seen rest
  induction rest generalizing seen with
  | nil =>
    intro since s hxs hi
    obtain rfl : xs = seen := by simpa using hxs
    exact yields_pure (by simpa using hi)
  | cons x rest ih =>
    intro since s hxs hi
    refine (h seen x rest since s hxs hi).bind fun more _ t ht => ?_
    refine (ih (seen ++ [x]) (since ++ more) t (by simp [hxs]) ht).mono fun last _ u hu => ?_
    rwa [List.append_assoc] at hu

/-- A loop of which each member makes something known and tells of it. What is known stays known, so that all
that the loop tells can be read off the state that it leaves. -/
theorem yields_forM_telling {s : σ} {body : β → Stage σ Unit} {xs : List β} (le : σ → σ → Prop)
    (known : β → σ → Prop) (tells : β → σ → List Reply) (hrefl : ∀ s, le s s)
    (htrans : ∀ s t u, le s t → le t u → le s u)
    (hmono : ∀ x s t, le s t → known x s → known x t ∧ tells x t = tells x s)
    (h : ∀ x s, Yields (fun since _ t => le s t ∧ known x t ∧ since = tells x t) s (body x)) :
    Yields (fun since _ t => le s t ∧ (∀ x ∈ xs, known x t) ∧ since = xs.flatMap (tells · t)) s
      (xs.forM body) := by
  induction xs generalizing s with
  | nil => exact yields_pure ⟨hrefl s, by simp, rfl⟩
  | cons x xs ih =>
    refine (h x s).bind ?_
    rintro _ _ t ⟨hle, hknown, rfl⟩
    refine (ih (s := t)).mono ?_
    rintro _ _ u ⟨hle', hall, rfl⟩
    obtain ⟨hknown', hsame⟩ := hmono x t u hle' hknown
    refine ⟨htrans s t u hle hle', List.forall_mem_cons.2 ⟨hknown', hall⟩, ?_⟩
    rw [List.flatMap_cons, hsame]

theorem yields_each {s : σ} {inner : Stage τ Unit} {R : τ → List Reply → τ → Prop}
    (h : ∀ y, Yields (fun since _ t => R y since t) y inner) (ys : List τ) :
    Yields (fun since r t => t = s ∧ (r.1 = .ok () → ∃ outs : List (List Reply × τ),
        List.Forall₂ (fun y out => R y out.1 out.2) ys outs ∧ since = outs.flatMap Prod.fst ∧
        r.2 = outs.map Prod.snd)) s (Stage.ofPlan (each inner ys) : Stage σ _) := by
  refine yields_ofPlan fun replies r hreaches hfair => ⟨rfl, ?_⟩
  induction ys generalizing replies r with
  | nil =>
    obtain ⟨rfl, rfl⟩ := Plan.reaches_done hreaches
    exact fun _ => ⟨[], .nil, rfl, rfl⟩
  | cons y ys ih =>
    obtain ⟨since, more, ⟨first, t⟩, rfl, hsince, hmore⟩ := Plan.reaches_bind hreaches
    rw [List.forall_mem_append] at hfair
    cases first with
    | error e =>
      obtain ⟨rfl, rfl⟩ := Plan.reaches_done hmore
      exact nofun
    | ok u =>
      obtain ⟨mid, last, ⟨r, us⟩, rfl, hmid, hlast⟩ := Plan.reaches_bind hmore
      obtain ⟨rfl, rfl⟩ := Plan.reaches_done hlast
      rw [List.append_nil] at hfair ⊢
      rintro rfl
      obtain ⟨outs, houts, rfl, rfl⟩ := ih mid _ hmid hfair.2 rfl
      exact ⟨(since, t) :: outs, .cons (h y since () t hsince hfair.1) houts, rfl, rfl⟩

/-- Members that each tell what can be read off the state in which they are left. -/
theorem yields_each_telling {s : σ} {inner : Stage τ Unit} {Q : τ → τ → Prop} {tells : τ → List Reply}
    (h : ∀ y, Yields (fun since _ t => Q y t ∧ since = tells t) y inner) (ys : List τ) :
    Yields (fun since r t => t = s ∧ (r.1 = .ok () →
        List.Forall₂ Q ys r.2 ∧ since = r.2.flatMap tells)) s (Stage.ofPlan (each inner ys) : Stage σ _) := by
  refine (yields_each h ys).mono ?_
  rintro _ ⟨r, ts⟩ t ⟨rfl, hr⟩
  refine ⟨rfl, fun hok => ?_⟩
  obtain ⟨outs, houts, rfl, rfl⟩ := hr hok
  clear hr hok
  induction houts with
  | nil => exact ⟨.nil, rfl⟩
  | cons hout _ ih => exact ⟨.cons hout.1 ih.1, by simp [hout.2, ih.2]⟩

end Stage

namespace Surroundings

variable {env : Surroundings σ} {stopAt : Option Nat} {w w' : World σ} {start p : Plan α}
  {replies : List Reply}

theorem Goes.fair (h : env.Goes start w stopAt replies p w') :
    ∀ r ∈ replies, r.question.Fair r.answer := by
  intro r hr
  obtain ⟨stopAt, _, _, v, _, _, hanswer⟩ := h.asked hr
  obtain ⟨_, _, _, hleads⟩ := answer_leads env stopAt r.question v
  rw [hanswer] at hleads
  exact Question.fair_of_leads hleads

theorem Goes.reaches (h : env.Goes start w stopAt replies p w') : start.Reaches replies p := by
  induction h with
  | start => exact .here _
  | told c _ ih => exact ih
  | answered _ _ ih => exact ih.snoc rfl _

theorem Goes.yields {stage : Stage τ α} {s t : τ} {a : α} {R : List Reply → α → τ → Prop}
    (h : env.Goes (stage s) w stopAt replies (.done (.ok a, t)) w') (hR : Stage.Yields R s stage) :
    R replies a t := hR replies a t h.reaches h.fair

end Surroundings

end LocalFleet
