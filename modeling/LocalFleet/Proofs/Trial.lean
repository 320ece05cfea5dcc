import LocalFleet.Proofs.Transcript

/-! Trials: a plan asks one question at each of many spots, one after another, and goes on as long as the
answers are good. Where all are, it has had all replies; otherwise it fails at the first spot whose answer is
not, and asks nothing behind it. One rule for each way to build such a plan. -/

namespace LocalFleet

variable {γ δ σ τ : Type}

/-- What a plan is told at a spot, whether that is good, and how a plan may fail there if it is not. -/
structure Trial (γ : Type) where
  told : γ → Reply
  Good : γ → Prop
  Fault : γ → Error → Prop

namespace Plan

def Failed (plan : Plan (Result Unit × σ)) : Prop := ∃ e t, plan = .done (.error e, t)

def Asking {α : Type} (plan : Plan α) : Prop := ∃ q next, plan = .ask q next

theorem Asking.bind {α β : Type} {plan : Plan α} (h : plan.Asking) (f : α → Plan β) :
    (plan.bind f).Asking := by
  obtain ⟨q, next, rfl⟩ := h
  exact ⟨q, _, rfl⟩

theorem Asking.not_failed {plan : Plan (Result Unit × σ)} (h : plan.Asking) : ¬ plan.Failed := by
  obtain ⟨q, next, rfl⟩ := h
  rintro ⟨e, t, hdone⟩
  cases hdone

/-- The plan goes through the spots in order, and ends well just if all of them are good. -/
structure Tries (T : Trial γ) (spots : List γ) (ends : σ → Prop) (plan : Plan (Result Unit × σ)) : Prop where
  passes : (∀ x ∈ spots, T.Good x) →
    ∃ t, plan.Reaches (spots.map T.told) (.done (.ok (), t)) ∧ ends t
  fails : ∀ before x after, spots = before ++ x :: after → (∀ y ∈ before, T.Good y) → ¬ T.Good x →
    ∃ e t, T.Fault x e ∧ plan.Reaches ((before ++ [x]).map T.told) (.done (.error e, t))

variable {T : Trial γ} {spots spots' : List γ} {ends : σ → Prop} {ends' : τ → Prop}
  {plan : Plan (Result Unit × σ)} {f : Result Unit × σ → Plan (Result Unit × τ)}

theorem Tries.mono {ends' : σ → Prop} (h : Tries T spots ends plan) (hends : ∀ t, ends t → ends' t) :
    Tries T spots ends' plan where
  passes hall :=
    have ⟨t, hreaches, ht⟩ := h.passes hall
    ⟨t, hreaches, hends t ht⟩
  fails := h.fails

theorem tries_nil {s : σ} (h : ends s) : Tries T [] ends (.done (.ok (), s)) where
  passes _ := ⟨s, .here _, h⟩
  fails before x after hsplit := by
    cases before <;> cases hsplit

theorem tries_singleton {x : γ}
    (hgood : T.Good x → ∃ t, plan.Reaches [T.told x] (.done (.ok (), t)) ∧ ends t)
    (hbad : ¬ T.Good x → ∃ e t, T.Fault x e ∧ plan.Reaches [T.told x] (.done (.error e, t))) :
    Tries T [x] ends plan where
  passes hall := hgood (hall x List.mem_cons_self)
  fails before y after hsplit _ hy := by
    cases before with
    | nil =>
      obtain ⟨rfl, -⟩ := List.cons.inj hsplit
      exact hbad hy
    | cons z before => cases before <;> cases hsplit

/-- One plan after another, where the second fails with the first. -/
theorem Tries.bind (h : Tries T spots ends plan)
    (hok : ∀ t, ends t → Tries T spots' ends' (f (.ok (), t)))
    (herror : ∀ e t, ∃ u, f (.error e, t) = .done (.error e, u)) :
    Tries T (spots ++ spots') ends' (plan.bind f) where
  passes hall := by
    rw [List.forall_mem_append] at hall
    obtain ⟨t, hfirst, ht⟩ := h.passes hall.1
    obtain ⟨u, hsecond, hu⟩ := (hok t ht).passes hall.2
    refine ⟨u, ?_, hu⟩
    rw [List.map_append]
    exact (hfirst.bind f).trans hsecond
  fails before x after hsplit hbefore hx := by
    -- the spot is one of the second plan, or of the first
    rcases List.append_eq_append_iff.1 hsplit with ⟨seen, rfl, hsecond⟩ | ⟨seen, hfirst, hrest⟩
    · rw [List.forall_mem_append] at hbefore
      obtain ⟨t, hreaches, ht⟩ := h.passes hbefore.1
      obtain ⟨e, u, he, hfault⟩ := (hok t ht).fails seen x after hsecond hbefore.2 hx
      refine ⟨e, u, he, ?_⟩
      rw [List.append_assoc, List.map_append]
      exact (hreaches.bind f).trans hfault
    · cases seen with
      | nil =>
        rw [List.append_nil] at hfirst
        obtain ⟨t, hreaches, ht⟩ := h.passes (hfirst ▸ hbefore)
        obtain ⟨e, u, he, hfault⟩ := (hok t ht).fails [] x after hrest.symm nofun hx
        refine ⟨e, u, he, ?_⟩
        rw [← hfirst, List.map_append]
        exact (hreaches.bind f).trans hfault
      | cons y seen =>
        obtain ⟨rfl, -⟩ := List.cons.inj hrest
        obtain ⟨e, t, he, hfault⟩ := h.fails before x seen hfirst hbefore hx
        obtain ⟨u, hu⟩ := herror e t
        refine ⟨e, u, he, ?_⟩
        rw [← hu]
        exact hfault.bind f

/-- What is left of a plan once a trial is over: it goes on past the trial just if all spots are good, and
stops otherwise at the first that is not, which leaves the state as it was. -/
structure Decides (T : Trial γ) (spots : List γ) (begun : List Reply) (s : σ)
    (plan : Plan (Result Unit × σ)) (all : Prop) : Prop where
  past : (∃ rest, plan.Reaches (begun ++ spots.map T.told) rest ∧ ¬ rest.Failed) ↔ all
  stops : ¬ all → ∃ before x after e, spots = before ++ x :: after ∧ (∀ y ∈ before, T.Good y) ∧
    ¬ T.Good x ∧ T.Fault x e ∧ plan.Reaches (begun ++ (before ++ [x]).map T.told) (.done (.error e, s))

theorem Decides.exists_asked {T : Trial γ} {spots : List γ} {begun : List Reply} {s : σ}
    {plan : Plan (Result Unit × σ)} {all : Prop} (h : Decides T spots begun s plan all) (hnot : ¬ all) :
    ∃ asked x e, asked <+: spots ∧ ¬ T.Good x ∧ T.Fault x e ∧
      plan.Reaches (begun ++ asked.map T.told) (.done (.error e, s)) := by
  obtain ⟨before, x, after, e, rfl, -, hx, he, hreaches⟩ := h.stops hnot
  exact ⟨before ++ [x], x, e, ⟨after, List.append_assoc before [x] after⟩, hx, he, hreaches⟩

theorem exists_first_of_not_forall {P : γ → Prop} {xs : List γ} (h : ¬ ∀ x ∈ xs, P x) :
    ∃ before x after, xs = before ++ x :: after ∧ (∀ y ∈ before, P y) ∧ ¬ P x := by
  induction xs with
  | nil => exact absurd (by simp) h
  | cons y xs ih =>
    by_cases hy : P y
    · rw [List.forall_mem_cons, not_and] at h
      obtain ⟨before, x, after, rfl, hbefore, hx⟩ := ih (h hy)
      exact ⟨y :: before, x, after, rfl, List.forall_mem_cons.2 ⟨hy, hbefore⟩, hx⟩
    · exact ⟨[], y, xs, rfl, nofun, hy⟩

theorem Tries.decides (h : Tries T spots ends plan) {begun : List Reply} {s : τ}
    {whole : Plan (Result Unit × τ)} (hwhole : whole.Reaches begun (plan.bind f))
    (hok : ∀ t, ends t → ¬ (f (.ok (), t)).Failed) (herror : ∀ e t, f (.error e, t) = .done (.error e, s))
    {all : Prop} (hall : (∀ x ∈ spots, T.Good x) ↔ all) : Decides T spots begun s whole all := by
  have hstops : ¬ (∀ x ∈ spots, T.Good x) → ∃ before x after e, spots = before ++ x :: after ∧
      (∀ y ∈ before, T.Good y) ∧ ¬ T.Good x ∧ T.Fault x e ∧
      whole.Reaches (begun ++ (before ++ [x]).map T.told) (.done (.error e, s)) := by
    intro hbad
    obtain ⟨before, x, after, hsplit, hbefore, hx⟩ := exists_first_of_not_forall hbad
    obtain ⟨e, t, he, hfault⟩ := h.fails before x after hsplit hbefore hx
    refine ⟨before, x, after, e, hsplit, hbefore, hx, he, hwhole.trans ?_⟩
    rw [← herror e t]
    exact hfault.bind f
  refine ⟨⟨?_, fun hgood => ?_⟩, fun hbad => hstops (hall.not.2 hbad)⟩
  · rintro ⟨rest, hrest, hgoes⟩
    refine hall.1 (by_contra fun hbad => ?_)
    obtain ⟨before, x, after, e, rfl, -, -, -, hfault⟩ := hstops hbad
    rw [List.append_cons, List.map_append, ← List.append_assoc] at hrest
    obtain ⟨q, hq, hmore⟩ := hrest.split
    rw [hq.unique hfault] at hmore
    have hnone := hmore.eq_nil_of_done
    rw [hnone] at hmore
    exact hgoes ⟨e, s, hmore.eq_of_nil⟩
  · obtain ⟨t, hreaches, ht⟩ := h.passes (hall.2 hgood)
    exact ⟨_, hwhole.trans (hreaches.bind f), hok t ht⟩

end Plan

namespace Stage

open Plan

variable {T : Trial γ}

/-- A loop, with an invariant of the members that were gone through. -/
theorem tries_forM {body : δ → Stage σ Unit} {spots : δ → List γ} {xs : List δ} (inv : List δ → σ → Prop)
    (h : ∀ seen x rest s, xs = seen ++ x :: rest → inv seen s →
      Tries T (spots x) (inv (seen ++ [x])) (body x s)) {s : σ} (hs : inv [] s) :
    Tries T (xs.flatMap spots) (inv xs) (xs.forM body s) := by
  suffices ∀ seen rest s, xs = seen ++ rest → inv seen s →
      Tries T (rest.flatMap spots) (inv xs) (rest.forM body s) from this [] xs s rfl hs
  intro seen rest
  induction rest generalizing seen with
  | nil =>
    intro s hxs hi
    obtain rfl : xs = seen := by simpa using hxs
    exact tries_nil hi
  | cons x rest ih =>
    intro s hxs hi
    show Tries T _ _ ((body x >>= fun _ => rest.forM body) s)
    rw [bind_apply]
    exact (h seen x rest s hxs hi).bind (fun t ht => ih (seen ++ [x]) t (by simp [hxs]) ht)
      fun e t => ⟨t, rfl⟩

theorem forM_zipIdx (body : δ → Stage σ Unit) (xs : List δ) (n : Nat) :
    xs.forM body = (xs.zipIdx n).forM fun x => body x.1 := by
  induction xs generalizing n with
  | nil => rfl
  | cons x xs ih =>
    show (body x >>= fun _ => xs.forM body) = body x >>= fun _ => (xs.zipIdx (n + 1)).forM fun x => body x.1
    rw [ih]

/-- A stage that is carried out for each member of a list. -/
theorem tries_each {stage : Stage τ Unit} {start : δ → τ} {spots : δ → List γ} {ends : τ → Prop} {ds : List δ}
    (h : ∀ d ∈ ds, Tries T (spots d) ends (stage (start d))) :
    Tries T (ds.flatMap spots) (fun ts => ∀ t ∈ ts, ends t) (each stage (ds.map start)) := by
  induction ds with
  | nil => exact tries_nil nofun
  | cons d ds ih =>
    rw [List.forall_mem_cons] at h
    refine h.1.bind (fun t ht => ?_) fun e t => ⟨t :: ds.map start, rfl⟩
    have hrest : Tries T (ds.flatMap spots ++ []) (fun ts => ∀ t ∈ ts, ends t)
        ((each stage (ds.map start)).bind fun r => .done (r.1, t :: r.2)) :=
      (ih h.2).bind (fun ts hts => tries_nil (List.forall_mem_cons.2 ⟨ht, hts⟩)) fun e ts => ⟨t :: ts, rfl⟩
    rwa [List.append_nil] at hrest

theorem tries_get_bind {f : σ → Stage σ Unit} {spots : List γ} {ends : σ → Prop} {s : σ}
    (h : Tries T spots ends (f s s)) : Tries T spots ends ((get >>= f) s) := h

/-- A call at a single spot. What is made of a good answer ends well, and what is made of any other fails. -/
theorem tries_call {what : String} {node : NodeSpec} {c : Call} {answer : Result c.Answer}
    {f : c.Answer → Stage σ Unit} {x : γ} {ends : σ → Prop} {s : σ}
    (htold : T.told x = ⟨.call what node c, answer⟩)
    (hgood : T.Good x → ∃ a t, answer = .ok a ∧ f a s = .done (.ok (), t) ∧ ends t)
    (hbad : ¬ T.Good x → ∀ a, answer = .ok a → ∃ e t, T.Fault x e ∧ f a s = .done (.error e, t))
    (herror : ∀ e, answer = .error e → T.Fault x e) :
    Tries T [x] ends ((Stage.call what node c >>= f) s) := by
  have hreaches (a : c.Answer) {rest : Plan (Result Unit × σ)} (ha : answer = .ok a) (hrest : f a s = rest) :
      ((Stage.call what node c >>= f) s).Reaches [T.told x] rest := by
    rw [htold, ha, ← hrest]
    exact reaches_call_bind (.here _)
  refine tries_singleton (fun hx => ?_) fun hx => ?_
  · obtain ⟨a, t, ha, hf, ht⟩ := hgood hx
    exact ⟨t, hreaches a ha hf, ht⟩
  · cases hanswer : answer with
    | ok a =>
      obtain ⟨e, t, he, hf⟩ := hbad hx a hanswer
      exact ⟨e, t, he, hreaches a hanswer hf⟩
    | error e =>
      refine ⟨e, s, herror e hanswer, ?_⟩
      rw [htold, hanswer]
      exact .answered (.here _)

end Stage

end LocalFleet
