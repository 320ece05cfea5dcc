import LocalFleet.Proofs.Transcript

/-! What a plan leaves when it ends well, whatever it is answered: one rule for each way to build a stage. Of
a plan that fails nothing is said. -/

namespace LocalFleet

variable {α β δ σ τ : Type}

namespace Plan

/-- Whatever it is answered, a plan that ends well leaves a state of a kind. -/
def Leaves (Q : σ → Prop) (plan : Plan (Result α × σ)) : Prop :=
  plan.Keeps (Law.asking fun _ => True) (fun _ r => ∀ a, r.1 = .ok a → Q r.2) ()

theorem Leaves.mono {P Q : σ → Prop} {plan : Plan (Result α × σ)} (h : plan.Leaves P)
    (hPQ : ∀ t, P t → Q t) : plan.Leaves Q :=
  h.ends_mono fun _ _ hr a ha => hPQ _ (hr a ha)

theorem Leaves.of_reaches {Q : σ → Prop} {plan : Plan (Result α × σ)} {since : List Reply} {a : α} {t : σ}
    (h : plan.Leaves Q) (hreaches : plan.Reaches since (.done (.ok a, t))) : Q t :=
  (Keeps.of_reaches h hreaches).2 a rfl

end Plan

namespace Stage

open Plan

variable {P : τ → Prop} {Q : σ → Prop} {s : σ}

theorem leaves_bind {P : σ → Prop} {x : Stage σ α} {f : α → Stage σ β} (hx : (x s).Leaves P)
    (hf : ∀ a t, P t → (f a t).Leaves Q) : ((x >>= f) s).Leaves Q := by
  rw [bind_apply]
  refine keeps_bind.2 (hx.ends_mono ?_)
  rintro _ ⟨r, t⟩ hr
  cases r with
  | ok a => exact hf a t (hr a rfl)
  | error e => exact nofun

theorem leaves_pure {a : α} (h : Q s) : ((pure a : Stage σ α) s).Leaves Q := fun _ _ => h

theorem leaves_throw {e : Error} : ((throw e : Stage σ α) s).Leaves Q := nofun

theorem leaves_throw_bind {e : Error} {f : α → Stage σ β} :
    (((throw e : Stage σ α) >>= f) s).Leaves Q := nofun

theorem leaves_modify {f : σ → σ} (h : Q (f s)) : ((modify f : Stage σ PUnit) s).Leaves Q := fun _ _ => h

theorem leaves_get_bind {f : σ → Stage σ β} (h : (f s s).Leaves Q) : ((get >>= f) s).Leaves Q := h

theorem leaves_lift_bind {r : Result α} {f : α → Stage σ β} (h : ∀ a, r = .ok a → (f a s).Leaves Q) :
    ((Stage.lift r >>= f) s).Leaves Q := by
  cases r with
  | ok a => exact h a rfl
  | error e => exact nofun

theorem leaves_ask_bind {q : Question} {f : q.Answer → Stage σ β} (h : ∀ a, (f a s).Leaves Q) :
    ((Stage.ask q >>= f) s).Leaves Q := ⟨trivial, fun a _ _ => h a⟩

theorem leaves_call_bind {what : String} {node : NodeSpec} {c : Call} {f : c.Answer → Stage σ β}
    (h : ∀ a, (f a s).Leaves Q) : ((Stage.call what node c >>= f) s).Leaves Q :=
  ⟨trivial, fun r _ _ => match r with
    | .ok a => h a
    | .error _ => nofun⟩

theorem leaves_await_bind {what : String} {pace : Pace} {node : NodeSpec} {c : Call}
    {enough : c.Answer → Bool} {f : c.Answer → Stage σ β} (h : ∀ a, (f a s).Leaves Q) :
    ((Stage.await what pace node c enough >>= f) s).Leaves Q :=
  ⟨trivial, fun r _ _ => match r with
    | .ok a => h a
    | .error _ => nofun⟩

theorem leaves_forM {body : δ → Stage σ Unit} {xs : List δ} (inv : List δ → σ → Prop)
    (h : ∀ seen x rest s, xs = seen ++ x :: rest → inv seen s → (body x s).Leaves (inv (seen ++ [x])))
    (hs : inv [] s) : (xs.forM body s).Leaves (inv xs) := by
  have hloop : Keeps (Law.asking fun _ => True) (fun _ _ t => inv xs t) (fun _ _ _ => True) () s
      (xs.forM body) := by
    refine keeps_forM (fun seen _ t => inv seen t) (fun seen x rest _ t hxs ht => ?_) hs
    refine (h seen x rest t hxs ht).ends_mono ?_
    rintro _ ⟨r, u⟩ hr
    cases r with
    | ok a => exact hr a rfl
    | error e => trivial
  refine hloop.ends_mono ?_
  rintro _ ⟨r, t⟩ hr a rfl
  exact hr

theorem leaves_ofPlan_bind {q : Plan (Result α × τ)} {f : Result α × τ → Stage σ β} (hq : q.Leaves P)
    (hf : ∀ r, (∀ a, r.1 = .ok a → P r.2) → (f r s).Leaves Q) : ((Stage.ofPlan q >>= f) s).Leaves Q := by
  rw [ofPlan_bind]
  exact keeps_bind.2 (hq.ends_mono fun _ r hr => hf r hr)

theorem leaves_each {stage : Stage τ Unit} {ts : List τ} (h : ∀ t ∈ ts, (stage t).Leaves P) :
    (each stage ts).Leaves fun us => ∀ u ∈ us, P u := by
  induction ts with
  | nil => exact fun _ _ => nofun
  | cons t ts ih =>
    rw [List.forall_mem_cons] at h
    refine keeps_bind.2 (h.1.ends_mono ?_)
    rintro _ ⟨r, u⟩ hu
    cases r with
    | error e => exact nofun
    | ok a =>
      refine keeps_bind.2 ((ih h.2).ends_mono fun _ r hr b hb => ?_)
      exact List.forall_mem_cons.2 ⟨hu a rfl, hr b hb⟩

end Stage

end LocalFleet
