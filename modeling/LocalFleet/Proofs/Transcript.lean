import LocalFleet.Proofs.Asking

/-! The replies that a plan has had so far. What a plan may ask can depend on all of them, and they tell
how it came to where it stands. -/

namespace LocalFleet

variable {α β σ : Type} {May : List Reply → Question → Prop} {replies : List Reply}

/-- The law that keeps all replies in mind, on which it depends what may be asked. -/
def Law.remembering (May : List Reply → Question → Prop) : Law (List Reply) where
  step replies q answer replies' := replies' = replies ++ [⟨q, answer⟩]
  may := May
  halt _ := True

/-- The law that keeps all replies in mind, on which it depends what may be asked and whether a number may
leave its range. -/
def Law.recalling (May : List Reply → Question → Prop) (Halt : List Reply → Prop) : Law (List Reply) :=
  { Law.remembering May with halt := Halt }

namespace Plan

/-- By some replies a plan comes to what is left of it. -/
inductive Reaches : Plan α → List Reply → Plan α → Prop where
  | here (p : Plan α) : Reaches p [] p
  | answered {q : Question} {next : q.Answer → Plan α} {answer : q.Answer} {replies : List Reply}
      {p : Plan α} : Reaches (next answer) replies p → Reaches (ask q next) (⟨q, answer⟩ :: replies) p

theorem Reaches.trans {p q r : Plan α} {since more : List Reply} (h : p.Reaches since q)
    (h' : q.Reaches more r) : p.Reaches (since ++ more) r := by
  induction h with
  | here p => exact h'
  | answered _ ih => exact .answered (ih h')

theorem Reaches.split {p r : Plan α} {since more : List Reply} (h : p.Reaches (since ++ more) r) :
    ∃ q, p.Reaches since q ∧ q.Reaches more r := by
  induction since generalizing p with
  | nil => exact ⟨p, .here p, h⟩
  | cons reply since ih =>
    cases h with
    | answered h =>
      obtain ⟨q, hsince, hmore⟩ := ih h
      exact ⟨q, .answered hsince, hmore⟩

theorem Reaches.eq_of_nil {p r : Plan α} (h : p.Reaches [] r) : r = p := by
  cases h
  rfl

theorem Reaches.eq_nil_of_done {a : α} {r : Plan α} {since : List Reply} (h : (done a).Reaches since r) :
    since = [] := by
  cases h
  rfl

/-- Replies leave no choice of what is left. -/
theorem Reaches.unique {p q r : Plan α} {since : List Reply} (h : p.Reaches since q)
    (h' : p.Reaches since r) : q = r := by
  induction h with
  | here p =>
    cases h'
    rfl
  | answered _ ih =>
    cases h' with
    | answered h' => exact ih h'

theorem reaches_of_play {answers : List Reply → (q : Question) → q.Answer} {replies : List Reply} {p : Plan α}
    {a : α} (h : (play answers replies p).1 = some a) : ∃ since, p.Reaches since (.done a) := by
  induction p generalizing replies with
  | done b =>
    obtain rfl : b = a := Option.some.inj h
    exact ⟨[], .here _⟩
  | overflow => cases h
  | ask q next ih =>
    obtain ⟨since, hsince⟩ := ih _ h
    exact ⟨_, .answered hsince⟩

theorem Reaches.bind {p q : Plan α} {since : List Reply} (h : p.Reaches since q) (f : α → Plan β) :
    (p.bind f).Reaches since (q.bind f) := by
  induction h with
  | here p => exact .here _
  | answered _ ih => exact .answered ih

theorem reaches_bind_cases {p : Plan α} {f : α → Plan β} {all : List Reply} {r : Plan β}
    (h : (p.bind f).Reaches all r) : (∃ q, p.Reaches all q) ∨
      ∃ since more a, all = since ++ more ∧ p.Reaches since (.done a) ∧ (f a).Reaches more r := by
  induction p generalizing all with
  | done a => exact .inr ⟨[], all, a, rfl, .here _, h⟩
  | overflow =>
    cases h
    exact .inl ⟨_, .here _⟩
  | ask q next ih =>
    cases h with
    | here => exact .inl ⟨_, .here _⟩
    | answered h =>
      rcases ih _ h with ⟨q, hq⟩ | ⟨since, more, a, rfl, hsince, hmore⟩
      · exact .inl ⟨q, .answered hq⟩
      · exact .inr ⟨_ :: since, more, a, rfl, .answered hsince, hmore⟩

theorem Keeps.of_reaches {P : Question → Prop} {ends : Unit → α → Prop} {p q : Plan α}
    {since : List Reply} (h : p.Keeps (Law.asking P) ends ()) (hq : p.Reaches since q) :
    (∀ reply ∈ since, P reply.question) ∧ q.Keeps (Law.asking P) ends () := by
  induction hq with
  | here p => exact ⟨by simp, h⟩
  | answered _ ih =>
    have hrest := ih (h.2 _ () trivial)
    exact ⟨List.forall_mem_cons.2 ⟨h.1, hrest.1⟩, hrest.2⟩

/-- Every question on the way may be asked after the replies before it, and what is left keeps to the law
after all of them. -/
theorem Keeps.of_reaches_recalling {Halt : List Reply → Prop} {ends : List Reply → α → Prop} {p q : Plan α}
    {since : List Reply} (h : p.Keeps (Law.recalling May Halt) ends replies) (hq : p.Reaches since q) :
    (∀ before reply after, since = before ++ reply :: after → May (replies ++ before) reply.question) ∧
      q.Keeps (Law.recalling May Halt) ends (replies ++ since) := by
  induction hq generalizing replies with
  | here p => exact ⟨by simp, by simpa using h⟩
  | answered _ ih =>
    have hrest := ih (h.2 _ _ rfl)
    rw [List.append_assoc, List.singleton_append] at hrest
    refine ⟨fun before reply after hsplit => ?_, hrest.2⟩
    cases before with
    | nil =>
      obtain ⟨rfl, -⟩ := List.cons.inj hsplit
      rw [List.append_nil]
      exact h.1
    | cons first before =>
      obtain ⟨rfl, hsince⟩ := List.cons.inj hsplit
      simpa using hrest.1 before reply after hsince

/-- A plan that ends has reached its end by the replies that it had since. -/
theorem Keeps.reaches {ends : List Reply → α → Prop} {p : Plan α}
    (h : p.Keeps (Law.remembering May) ends replies) :
    p.Keeps (Law.remembering May)
      (fun all a => ends all a ∧ ∃ since, all = replies ++ since ∧ p.Reaches since (.done a)) replies := by
  induction p generalizing replies with
  | done a => exact ⟨h, [], by simp, .here _⟩
  | overflow => trivial
  | ask q next ih =>
    refine ⟨h.1, ?_⟩
    rintro answer _ rfl
    refine (ih answer (h.2 answer _ rfl)).ends_mono ?_
    rintro all a ⟨hends, since, rfl, hreaches⟩
    exact ⟨hends, ⟨q, answer⟩ :: since, by simp, .answered hreaches⟩

end Plan

namespace Stage

section

variable {s t : σ} {f : α → Stage σ β} {a : α} {since more : List Reply} {rest : Plan (Result β × σ)}

theorem reaches_bind_ok {x : Stage σ α} (hx : (x s).Reaches since (.done (.ok a, t)))
    (hf : (f a t).Reaches more rest) : ((x >>= f) s).Reaches (since ++ more) rest := by
  rw [bind_apply]
  exact (hx.bind _).trans hf

theorem ofPlan_bind (q : Plan α) (f : α → Stage σ β) (s : σ) :
    (Stage.ofPlan q >>= f) s = q.bind fun a => f a s := by
  rw [bind_apply, ofPlan, Plan.bind_assoc]
  rfl

theorem reaches_lift_bind {r : Result α} (hr : r = .ok a) (hf : (f a s).Reaches more rest) :
    ((Stage.lift r >>= f) s).Reaches more rest := by
  rw [hr]
  exact hf

theorem reaches_get_bind {f : σ → Stage σ β} (hf : (f s s).Reaches more rest) :
    ((get >>= f) s).Reaches more rest := hf

theorem reaches_ask_bind {q : Question} {f : q.Answer → Stage σ β} {answer : q.Answer}
    (hf : (f answer s).Reaches more rest) : ((Stage.ask q >>= f) s).Reaches (⟨q, answer⟩ :: more) rest :=
  .answered hf

theorem reaches_call_bind {what : String} {node : NodeSpec} {c : Call} {f : c.Answer → Stage σ β}
    {answer : c.Answer} (hf : (f answer s).Reaches more rest) :
    ((Stage.call what node c >>= f) s).Reaches (⟨.call what node c, .ok answer⟩ :: more) rest :=
  .answered hf

theorem reaches_await_bind {what : String} {pace : Pace} {node : NodeSpec} {c : Call}
    {enough : c.Answer → Bool} {f : c.Answer → Stage σ β} {answer : c.Answer}
    (hf : (f answer s).Reaches more rest) : ((Stage.await what pace node c enough >>= f) s).Reaches
      (⟨.await what pace node c enough, .ok answer⟩ :: more) rest :=
  .answered hf

end

variable {Q : List Reply → α → σ → Prop} {E : List Reply → Error → σ → Prop} {s : σ} {stage : Stage σ α}

theorem Keeps.reaches (h : Keeps (Law.remembering May) Q E replies s stage) :
    Keeps (Law.remembering May)
      (fun all a t => Q all a t ∧ ∃ since, all = replies ++ since ∧
        (stage s).Reaches since (.done (.ok a, t)))
      (fun all e t => E all e t ∧ ∃ since, all = replies ++ since ∧
        (stage s).Reaches since (.done (.error e, t))) replies s stage := by
  refine Plan.Keeps.ends_mono (Plan.Keeps.reaches h) ?_
  rintro all ⟨r, t⟩ ⟨hends, hsince⟩
  cases r <;> exact ⟨hends, hsince⟩

theorem Asks.keeps_remembering {P : Question → Prop} {R : Prop} {I : List Reply → Prop}
    (h : Asks P R stage) (hmay : ∀ replies q, I replies → P q → May replies q)
    (hI : ∀ replies q (answer : q.Answer), I replies → P q → I (replies ++ [⟨q, answer⟩]))
    (hreplies : I replies) (s : σ) :
    Keeps (Law.remembering May) (fun all _ _ => I all) (fun all _ _ => I all) replies s stage := by
  refine h.keeps hmay ?_ (fun _ _ _ => trivial) hreplies s
  rintro replies q answer _ hreplies hq rfl
  exact hI replies q answer hreplies hq

end Stage

end LocalFleet
