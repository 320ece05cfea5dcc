import LocalFleet.Proofs.Run.Yield

/-! How stages end, well or not: by which replies, with which result and in which state. One rule for each way
to build a stage, exact in both directions, so that a stage that is put together from parts ends just as they
do. -/

namespace LocalFleet

variable {σ τ α β : Type}

namespace Plan

theorem reaches_bind_iff {p : Plan α} {f : α → Plan β} {since : List Reply} {b : β} :
    (p.bind f).Reaches since (.done b) ↔ ∃ first more a, since = first ++ more ∧
      p.Reaches first (.done a) ∧ (f a).Reaches more (.done b) := by
  constructor
  · exact reaches_bind
  · rintro ⟨first, more, a, rfl, hfirst, hmore⟩
    exact (hfirst.bind f).trans hmore

theorem reaches_done_iff {a b : α} {since : List Reply} :
    (done a).Reaches since (.done b) ↔ since = [] ∧ b = a := by
  constructor
  · intro h
    obtain ⟨rfl, rfl⟩ := reaches_done h
    exact ⟨rfl, rfl⟩
  · rintro ⟨rfl, rfl⟩
    exact .here _

end Plan

namespace Stage

open Plan

/-- By these replies a stage ends with a result, and leaves a state. -/
def Ends (stage : Stage σ α) (s : σ) (since : List Reply) (r : Result α) (t : σ) : Prop :=
  (stage s).Reaches since (.done (r, t))

variable {s t : σ} {since : List Reply} {x : Stage σ α} {f : α → Stage σ β} {r : Result β}

/-- A stage after another fails with the first, or ends as the second does. -/
theorem ends_bind_iff : Ends (x >>= f) s since r t ↔
    (∃ e, Ends x s since (.error e) t ∧ r = .error e) ∨
      ∃ first more a u, since = first ++ more ∧ Ends x s first (.ok a) u ∧ Ends (f a) u more r t := by
  simp only [Ends, bind_apply, reaches_bind_iff]
  constructor
  · rintro ⟨first, more, ⟨q, u⟩, rfl, hfirst, hmore⟩
    cases q with
    | error e =>
      obtain ⟨rfl, hends⟩ := reaches_done_iff.1 hmore
      obtain ⟨rfl, rfl⟩ := Prod.mk.inj hends
      exact .inl ⟨e, by simpa using hfirst, rfl⟩
    | ok a => exact .inr ⟨first, more, a, u, rfl, hfirst, hmore⟩
  · rintro (⟨e, hx, rfl⟩ | ⟨first, more, a, u, rfl, hx, hf⟩)
    · exact ⟨since, [], (.error e, t), (List.append_nil since).symm, hx, .here _⟩
    · exact ⟨first, more, (.ok a, u), rfl, hx, hf⟩

theorem ends_pure_iff {a : α} {r : Result α} :
    Ends (pure a : Stage σ α) s since r t ↔ since = [] ∧ r = .ok a ∧ t = s := by
  rw [← Prod.mk.injEq]
  exact reaches_done_iff

theorem ends_lift_iff {q r : Result α} :
    Ends (Stage.lift q : Stage σ α) s since r t ↔ since = [] ∧ r = q ∧ t = s := by
  rw [← Prod.mk.injEq]
  exact reaches_done_iff

theorem ends_modify_iff {g : σ → σ} {r : Result PUnit} :
    Ends (modify g : Stage σ PUnit) s since r t ↔ since = [] ∧ r = .ok () ∧ t = g s := by
  rw [← Prod.mk.injEq]
  exact reaches_done_iff

theorem ends_get_bind_iff {f : σ → Stage σ β} : Ends (get >>= f) s since r t ↔ Ends (f s) s since r t :=
  Iff.rfl

theorem ends_call_iff {what : String} {node : NodeSpec} {c : Call} {r : Result c.Answer} :
    Ends (Stage.call what node c : Stage σ c.Answer) s since r t ↔
      since = [⟨.call what node c, r⟩] ∧ t = s := by
  constructor
  · intro h
    cases h with
    | answered h =>
      obtain ⟨rfl, hends⟩ := reaches_done_iff.1 h
      obtain ⟨rfl, rfl⟩ := Prod.mk.inj hends
      exact ⟨rfl, rfl⟩
  · rintro ⟨rfl, rfl⟩
    exact .answered (.here _)

theorem ends_lift_bind_iff {q : Result α} : Ends (Stage.lift q >>= f) s since r t ↔
    (∃ e, q = .error e ∧ since = [] ∧ r = .error e ∧ t = s) ∨ ∃ a, q = .ok a ∧ Ends (f a) s since r t := by
  simp only [ends_bind_iff, ends_lift_iff]
  constructor
  · rintro (⟨e, ⟨rfl, hq, rfl⟩, rfl⟩ | ⟨_, more, a, _, rfl, ⟨rfl, hq, rfl⟩, hf⟩)
    · exact .inl ⟨e, hq.symm, rfl, rfl, rfl⟩
    · exact .inr ⟨a, hq.symm, hf⟩
  · rintro (⟨e, hq, rfl, rfl, rfl⟩ | ⟨a, hq, hf⟩)
    · exact .inl ⟨e, ⟨rfl, hq.symm, rfl⟩, rfl⟩
    · exact .inr ⟨[], since, a, s, rfl, ⟨rfl, hq.symm, rfl⟩, hf⟩

theorem ends_call_bind_iff {what : String} {node : NodeSpec} {c : Call} {f : c.Answer → Stage σ β} :
    Ends (Stage.call what node c >>= f) s since r t ↔
      (∃ e, since = [⟨.call what node c, .error e⟩] ∧ r = .error e ∧ t = s) ∨
      ∃ a more, since = ⟨.call what node c, .ok a⟩ :: more ∧ Ends (f a) s more r t := by
  simp only [ends_bind_iff, ends_call_iff]
  constructor
  · rintro (⟨e, ⟨rfl, rfl⟩, rfl⟩ | ⟨_, more, a, _, rfl, ⟨rfl, rfl⟩, hf⟩)
    · exact .inl ⟨e, rfl, rfl, rfl⟩
    · exact .inr ⟨a, more, rfl, hf⟩
  · rintro (⟨e, rfl, rfl, rfl⟩ | ⟨a, more, rfl, hf⟩)
    · exact .inl ⟨e, ⟨rfl, rfl⟩, rfl⟩
    · exact .inr ⟨[_], more, a, s, rfl, ⟨rfl, rfl⟩, hf⟩

theorem ends_modify_bind_iff {g : σ → σ} {f : PUnit → Stage σ β} :
    Ends (modify g >>= f) s since r t ↔ Ends (f ()) (g s) since r t := Iff.rfl

theorem ends_ofPlan_bind_iff {p : Plan α} : Ends (Stage.ofPlan p >>= f) s since r t ↔
    ∃ first more a, since = first ++ more ∧ p.Reaches first (.done a) ∧ Ends (f a) s more r t := by
  rw [Ends, ofPlan_bind, reaches_bind_iff]
  rfl

inductive Through (R : τ → List Reply → τ → Prop) : List τ → List Reply → List τ → Prop
  | nil : Through R [] [] []
  | cons {a u : τ} {as us : List τ} {since more : List Reply} (hfirst : R a since u)
      (hrest : Through R as more us) : Through R (a :: as) (since ++ more) (u :: us)

theorem Through.map_eq {R : τ → List Reply → τ → Prop} {g : τ → β} {as us : List τ}
    (h : Through R as since us) (hR : ∀ a since u, R a since u → g u = g a) : us.map g = as.map g := by
  induction h with
  | nil => rfl
  | cons hfirst _ ih => rw [List.map_cons, List.map_cons, ih, hR _ _ _ hfirst]

section

variable {stage : Stage τ Unit} {a : τ} {as us : List τ}

theorem each_nil_reaches_iff {r : Result Unit} :
    (each stage []).Reaches since (.done (r, us)) ↔ since = [] ∧ r = .ok () ∧ us = [] := by
  rw [each, reaches_done_iff, Prod.mk.injEq]

theorem each_cons_reaches_iff {r : Result Unit} : (each stage (a :: as)).Reaches since (.done (r, us)) ↔
    (∃ e u, Ends stage a since (.error e) u ∧ r = .error e ∧ us = u :: as) ∨
      ∃ first more u vs, since = first ++ more ∧ Ends stage a first (.ok ()) u ∧
        (each stage as).Reaches more (.done (r, vs)) ∧ us = u :: vs := by
  rw [each, reaches_bind_iff]
  constructor
  · rintro ⟨first, more, ⟨q, u⟩, rfl, hfirst, hmore⟩
    cases q with
    | error e =>
      obtain ⟨rfl, hends⟩ := reaches_done_iff.1 hmore
      obtain ⟨rfl, rfl⟩ := Prod.mk.inj hends
      rw [List.append_nil]
      exact .inl ⟨e, u, hfirst, rfl, rfl⟩
    | ok v =>
      obtain ⟨mid, last, ⟨q, vs⟩, rfl, hmid, hlast⟩ := reaches_bind_iff.1 hmore
      obtain ⟨rfl, hends⟩ := reaches_done_iff.1 hlast
      obtain ⟨rfl, rfl⟩ := Prod.mk.inj hends
      exact .inr ⟨first, mid, u, vs, by simp, hfirst, hmid, rfl⟩
  · rintro (⟨e, u, hfirst, rfl, rfl⟩ | ⟨first, more, u, vs, rfl, hfirst, hmore, rfl⟩)
    · exact ⟨since, [], (.error e, u), (List.append_nil since).symm, hfirst, .here _⟩
    · have hrest := hmore.bind fun q => done (q.1, u :: q.2)
      exact ⟨first, more, (.ok (), u), rfl, hfirst, hrest⟩

theorem each_ok_iff : (each stage as).Reaches since (.done (.ok (), us)) ↔
    Through (fun a since u => Ends stage a since (.ok ()) u) as since us := by
  induction as generalizing since us with
  | nil =>
    rw [each_nil_reaches_iff]
    constructor
    · rintro ⟨rfl, -, rfl⟩
      exact .nil
    · intro h
      cases h
      exact ⟨rfl, rfl, rfl⟩
  | cons a as ih =>
    rw [each_cons_reaches_iff]
    constructor
    · rintro (⟨_, _, _, hends, _⟩ | ⟨first, more, u, vs, rfl, hfirst, hmore, rfl⟩)
      · cases hends
      · exact .cons hfirst (ih.1 hmore)
    · intro h
      cases h with
      | cons hfirst hrest => exact .inr ⟨_, _, _, _, rfl, hfirst, ih.2 hrest, rfl⟩

theorem each_error_iff {e : Error} : (each stage as).Reaches since (.done (.error e, us)) ↔
    ∃ before a after told failing before' u, as = before ++ a :: after ∧ since = told ++ failing ∧
      us = before' ++ u :: after ∧ Ends stage a failing (.error e) u ∧
      Through (fun a since u => Ends stage a since (.ok ()) u) before told before' := by
  induction as generalizing since us with
  | nil => simp [each_nil_reaches_iff]
  | cons a as ih =>
    rw [each_cons_reaches_iff]
    constructor
    · rintro (⟨e, u, hfails, he, rfl⟩ | ⟨first, more, u, vs, rfl, hfirst, hmore, rfl⟩)
      · cases he
        exact ⟨[], a, as, [], since, [], u, rfl, rfl, rfl, hfails, .nil⟩
      · obtain ⟨before, b, after, told, failing, before', w, rfl, rfl, rfl, hfails, hbefore⟩ := ih.1 hmore
        exact ⟨a :: before, b, after, first ++ told, failing, u :: before', w, rfl, by simp, rfl, hfails,
          .cons hfirst hbefore⟩
    · rintro ⟨before, b, after, told, failing, before', w, hsplit, rfl, rfl, hfails, hbefore⟩
      cases hbefore with
      | nil =>
        obtain ⟨rfl, rfl⟩ := List.cons.inj hsplit
        exact .inl ⟨e, w, hfails, rfl, rfl⟩
      | cons hfirst hrest =>
        obtain ⟨rfl, rfl⟩ := List.cons.inj hsplit
        refine .inr ⟨_, _, _, _, List.append_assoc .., hfirst, ih.2 ?_, rfl⟩
        exact ⟨_, b, after, _, failing, _, w, rfl, rfl, rfl, hfails, hrest⟩

end

/-- A stage in which no number can leave its range ends, whatever it is answered. -/
theorem Asks.ends {P : Question → Prop} {x : Stage σ α} (h : Asks P False x)
    (answers : List Reply → (q : Question) → q.Answer) (s : σ) : ∃ since r t, Ends x s since r t ∧
      (play answers [] (x s)).1 = some (r, t) := by
  obtain ⟨inv, hinv⟩ : ∃ inv : List Reply → Unit → Prop, ∀ replies g, inv replies g :=
    ⟨fun _ _ => True, fun _ _ => trivial⟩
  have hstep (replies : List Reply) (g : Unit) (q : Question) (_ : inv replies g)
      (_ : (Law.limiting P False).may g q) : ∃ g', (Law.limiting P False).step g q (answers replies q) g' ∧
        inv (replies ++ [⟨q, answers replies q⟩]) g' := ⟨(), trivial, hinv _ _⟩
  obtain ⟨_, -, hends⟩ := play_of_keeps hstep (h s) (hinv [] ())
  cases hplay : (play answers [] (x s)).1 with
  | none => simp [hplay, Law.limiting] at hends
  | some ending =>
    obtain ⟨since, hsince⟩ := reaches_of_play hplay
    exact ⟨since, ending.1, ending.2, hsince, rfl⟩

end Stage

end LocalFleet
