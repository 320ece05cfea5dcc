import LocalFleet.Proofs.Plan

/-! Stages of which only the questions matter: whatever they are answered, they ask questions of one kind
and do nothing else. Such a stage keeps every law under which questions of that kind may always be
asked. -/

namespace LocalFleet

variable {γ α β σ τ : Type}

/-- The law that tells which questions may be asked, and whether a number may leave its range. -/
def Law.limiting (P : Question → Prop) (R : Prop) : Law Unit :=
  ⟨fun _ _ _ _ => True, fun _ q => P q, fun _ => R⟩

theorem Plan.Keeps.of_limiting {P : Question → Prop} {R : Prop} {L : Law γ} {I : γ → Prop}
    {ends : Unit → α → Prop} (hmay : ∀ g q, I g → P q → L.may g q)
    (hstep : ∀ g q a g', I g → P q → L.step g q a g' → I g') (hhalt : ∀ g, I g → R → L.halt g)
    {p : Plan α} (h : p.Keeps (Law.limiting P R) ends ()) {g : γ} (hg : I g) :
    p.Keeps L (fun g _ => I g) g := by
  induction p generalizing g with
  | done a => exact hg
  | overflow => exact hhalt g hg h
  | ask q next ih =>
    exact ⟨hmay g q hg h.1, fun a g' hs => ih a (h.2 a () trivial) (hstep g q a g' hg h.1 hs)⟩

namespace Stage

/-- The stage asks only questions of which `P` holds, and a number leaves its range only if `R` holds. -/
def Asks (P : Question → Prop) (R : Prop) (stage : Stage σ α) : Prop :=
  ∀ s, Keeps (Law.limiting P R) (fun _ _ _ => True) (fun _ _ _ => True) () s stage

variable {P P' : Question → Prop} {R R' : Prop} {x stage : Stage σ α} {f : α → Stage σ β}

/-- What questions of a kind leave as it is, a stage that asks nothing else leaves as it is. -/
theorem Asks.keeps {L : Law γ} {I : γ → Prop} (h : Asks P R stage) (hmay : ∀ g q, I g → P q → L.may g q)
    (hstep : ∀ g q a g', I g → P q → L.step g q a g' → I g') (hhalt : ∀ g, I g → R → L.halt g) {g : γ}
    (hg : I g) (s : σ) : Keeps L (fun g _ _ => I g) (fun g _ _ => I g) g s stage := by
  refine Plan.Keeps.ends_mono (Plan.Keeps.of_limiting hmay hstep hhalt (h s) hg) fun g r hg => ?_
  cases r.1 <;> exact hg

theorem Asks.mono (h : Asks P R stage) (hP : ∀ q, P q → P' q) (hR : R → R') : Asks P' R' stage :=
  fun s => Plan.Keeps.mono (h s) (fun _ _ _ _ h => h) (fun _ q => hP q) (fun _ => hR) fun _ _ h => h

theorem Asks.bind (hx : Asks P R x) (hf : ∀ a, Asks P R (f a)) : Asks P R (x >>= f) :=
  fun s => Keeps.bind (hx s) fun _ a t _ => hf a t

theorem asks_pure (a : α) : Asks P R (pure a : Stage σ α) := fun _ => keeps_pure trivial

theorem asks_throw (e : Error) : Asks P R (throw e : Stage σ α) := fun _ => keeps_throw trivial

theorem asks_lift (r : Result α) : Asks P R (Stage.lift r : Stage σ α) :=
  fun _ => keeps_lift (fun _ _ => trivial) fun _ _ => trivial

theorem asks_get : Asks P R (get : Stage σ σ) := fun _ => keeps_get trivial

theorem asks_modify (f : σ → σ) : Asks P R (modify f : Stage σ PUnit) := fun _ => keeps_modify trivial

theorem asks_overflow (h : R) : Asks P R (Stage.overflow : Stage σ α) := fun _ => keeps_overflow h

theorem asks_ask {q : Question} (hq : P q) : Asks P R (Stage.ask q : Stage σ q.Answer) :=
  fun _ => keeps_ask hq fun _ _ _ => trivial

theorem asks_ofResult {p : Plan (Result α)} (h : p.Keeps (Law.limiting P R) (fun _ _ => True) ()) :
    Asks P R (Stage.ofResult p : Stage σ α) :=
  fun _ => keeps_ofResult (h.ends_mono fun _ r _ => by cases r <;> trivial)

theorem asks_call {what : String} {node : NodeSpec} {c : Call} (hq : P (.call what node c)) :
    Asks P R (Stage.call what node c : Stage σ c.Answer) := asks_ofResult ⟨hq, fun _ _ _ => trivial⟩

theorem asks_await {what : String} {pace : Pace} {node : NodeSpec} {c : Call}
    {enough : c.Answer → Bool} (hq : P (.await what pace node c enough)) :
    Asks P R (Stage.await what pace node c enough : Stage σ c.Answer) :=
  asks_ofResult ⟨hq, fun _ _ _ => trivial⟩

theorem asks_checkpoint {after : String} (hq : P (.checkpoint after)) :
    Asks P R (Stage.checkpoint after : Stage σ Unit) := asks_ofResult ⟨hq, fun _ _ _ => trivial⟩

theorem asks_ite {condition : Prop} [Decidable condition] {y : Stage σ α} (hx : Asks P R x)
    (hy : Asks P R y) : Asks P R (if condition then x else y) := by
  split
  · exact hx
  · exact hy

theorem asks_on {own : τ} {inner : Stage τ α} (h : Asks P R inner) :
    Asks P R (Stage.on own inner : Stage σ _) := fun _ => keeps_on (h own)

theorem asks_forM {body : β → Stage σ Unit} (h : ∀ y, Asks P R (body y)) (ys : List β) :
    Asks P R (ys.forM body) := by
  induction ys with
  | nil => exact asks_pure ()
  | cons y ys ih => exact (h y).bind fun _ => ih

theorem asks_each {inner : Stage τ Unit} (h : Asks P R inner) (ys : List τ) :
    Asks P R (Stage.ofPlan (each inner ys) : Stage σ _) := by
  have heach : Plan.Keeps (Law.limiting P R) (fun _ _ => True) () (each inner ys) := by
    induction ys with
    | nil => trivial
    | cons y ys ih =>
      refine Plan.keeps_bind.2 (Plan.Keeps.ends_mono (h y) ?_)
      rintro _ ⟨r, t⟩ _
      cases r with
      | error e => trivial
      | ok u => exact Plan.keeps_bind.2 ih
  exact fun s => keeps_ofPlan heach

end Stage

end LocalFleet
