import LocalFleet.Run.Plan
import Mathlib

/-! What holds of a plan whatever it is answered. A law says what may be asked and how an answer changes
what is kept in mind; a plan that keeps a law keeps it in every way of being carried out. Stages keep a
law part by part: one rule for every way to build a stage. -/

namespace LocalFleet

structure Reply where
  question : Question
  answer : question.Answer

/-- What is kept in mind, of a type `γ`, while a plan is carried out. -/
structure Law (γ : Type) where
  step : γ → (q : Question) → q.Answer → γ → Prop
  may : γ → Question → Prop
  /-- whether a number may leave its range -/
  halt : γ → Prop

variable {γ α β σ τ : Type}

namespace Plan

/-- Carries a plan out with answers that may depend on all replies so far: how it ended, unless a number
left its range, and all replies. -/
def play (answers : List Reply → (q : Question) → q.Answer) :
    List Reply → Plan α → Option α × List Reply
  | replies, done a => (some a, replies)
  | replies, overflow => (none, replies)
  | replies, ask q next =>
    play answers (replies ++ [⟨q, answers replies q⟩]) (next (answers replies q))

theorem play_bind (answers : List Reply → (q : Question) → q.Answer) (replies : List Reply) (p : Plan α)
    (f : α → Plan β) :
    play answers replies (p.bind f) =
      match play answers replies p with
      | (some a, replies) => play answers replies (f a)
      | (none, replies) => (none, replies) := by
  induction p generalizing replies with
  | done a => rfl
  | overflow => rfl
  | ask q next ih => simp only [ask_bind, play, ih]

/-- Whatever it is answered, the plan asks only what the law allows, and what is kept in mind at its end
fits its value. -/
def Keeps (L : Law γ) (ends : γ → α → Prop) : γ → Plan α → Prop
  | g, done a => ends g a
  | g, overflow => L.halt g
  | g, ask q next => L.may g q ∧ ∀ answer g', L.step g q answer g' → Keeps L ends g' (next answer)

theorem keeps_bind {L : Law γ} {ends : γ → β → Prop} {g : γ} {p : Plan α} {f : α → Plan β} :
    Keeps L ends g (p.bind f) ↔ Keeps L (fun g a => Keeps L ends g (f a)) g p := by
  induction p generalizing g with
  | done a => rfl
  | overflow => rfl
  | ask q next ih => simp only [ask_bind, Keeps, ih]

theorem Keeps.mono {L M : Law γ} {ends ends' : γ → α → Prop} {g : γ} {p : Plan α}
    (h : Keeps L ends g p) (hstep : ∀ g q a g', M.step g q a g' → L.step g q a g')
    (hmay : ∀ g q, L.may g q → M.may g q) (hhalt : ∀ g, L.halt g → M.halt g)
    (hends : ∀ g a, ends g a → ends' g a) : Keeps M ends' g p := by
  induction p generalizing g with
  | done a => exact hends g a h
  | overflow => exact hhalt g h
  | ask q next ih =>
    obtain ⟨hq, hnext⟩ := h
    exact ⟨hmay g q hq, fun a g' hs => ih a (hnext a g' (hstep g q a g' hs))⟩

theorem Keeps.ends_mono {L : Law γ} {ends ends' : γ → α → Prop} {g : γ} {p : Plan α}
    (h : Keeps L ends g p) (hends : ∀ g a, ends g a → ends' g a) : Keeps L ends' g p :=
  h.mono (fun _ _ _ _ h => h) (fun _ _ h => h) (fun _ h => h) hends

/-- What is kept in mind can be kept along any way of answering, and fits the end. -/
theorem play_of_keeps {L : Law γ} {ends : γ → α → Prop} {inv : List Reply → γ → Prop}
    {answers : List Reply → (q : Question) → q.Answer}
    (hstep : ∀ replies g q, inv replies g → L.may g q → ∃ g', L.step g q (answers replies q) g' ∧
      inv (replies ++ [⟨q, answers replies q⟩]) g')
    {g : γ} {p : Plan α} (h : Keeps L ends g p) {replies : List Reply} (hg : inv replies g) :
    ∃ g', inv (play answers replies p).2 g' ∧
      match (play answers replies p).1 with
      | some a => ends g' a
      | none => L.halt g' := by
  induction p generalizing g replies with
  | done a => exact ⟨g, hg, h⟩
  | overflow => exact ⟨g, hg, h⟩
  | ask q next ih =>
    obtain ⟨hq, hnext⟩ := h
    obtain ⟨g', hs, hinv⟩ := hstep replies g q hg hq
    exact ih _ (hnext _ g' hs) hinv

end Plan

def Law.asking (P : Question → Prop) : Law Unit := ⟨fun _ _ _ _ => True, fun _ q => P q, fun _ => True⟩

theorem Plan.of_mem_play {P : Question → Prop} {ends : Unit → α → Prop} {p : Plan α}
    (h : p.Keeps (Law.asking P) ends ()) {answers : List Reply → (q : Question) → q.Answer}
    {replies : List Reply} (hp : ∀ r ∈ replies, P r.question) :
    ∀ r ∈ (p.play answers replies).2, P r.question := by
  have hstep : ∀ (replies : List Reply) (g : Unit) (q : Question), (∀ r ∈ replies, P r.question) →
      P q → ∃ g' : Unit, True ∧ ∀ r ∈ replies ++ [⟨q, answers replies q⟩], P r.question := by
    intro replies _ q hr hq
    refine ⟨(), trivial, fun r hmem => ?_⟩
    rcases List.mem_append.1 hmem with hmem | hmem
    · exact hr r hmem
    · obtain rfl := List.mem_singleton.1 hmem
      exact hq
  obtain ⟨_, hall, _⟩ := play_of_keeps hstep h hp
  exact hall

namespace Stage

/-- A stage that starts in `s` keeps a law, ends well as `Q` says, and fails as `E` says. -/
def Keeps (L : Law γ) (Q : γ → α → σ → Prop) (E : γ → Error → σ → Prop) (g : γ) (s : σ)
    (stage : Stage σ α) : Prop :=
  Plan.Keeps L (fun g r => match r.1 with
    | .ok a => Q g a r.2
    | .error e => E g e r.2) g (stage s)

variable {L : Law γ} {Q : γ → α → σ → Prop} {E : γ → Error → σ → Prop} {g : γ} {s : σ}

theorem bind_apply (x : Stage σ α) (f : α → Stage σ β) (s : σ) :
    (x >>= f) s = (x s).bind fun r => match r.1 with
      | .ok a => f a r.2
      | .error e => .done (.error e, r.2) := by
  show Plan.bind _ _ = _
  congr 1
  funext ⟨r, s⟩
  cases r <;> rfl

section

variable {answers : List Reply → (q : Question) → q.Answer} {replies rs : List Reply} {t : σ}
  {x : Stage σ α} {a : α}

theorem play_bind_ok (f : α → Stage σ β)
    (h : Plan.play answers replies (x s) = (some (.ok a, t), rs)) :
    Plan.play answers replies ((x >>= f) s) = Plan.play answers rs (f a t) := by
  rw [bind_apply, Plan.play_bind, h]

theorem play_bind_error (f : α → Stage σ β) {e : Error}
    (h : Plan.play answers replies (x s) = (some (.error e, t), rs)) :
    Plan.play answers replies ((x >>= f) s) = (some (.error e, t), rs) := by
  rw [bind_apply, Plan.play_bind, h]
  rfl

theorem play_ask (q : Question) : Plan.play answers replies (Stage.ask q s) =
    (some (.ok (answers replies q), s), replies ++ [⟨q, answers replies q⟩]) := rfl

theorem play_call (what : String) (node : NodeSpec) (c : Call) :
    Plan.play answers replies (Stage.call what node c s) =
      (some (answers replies (.call what node c), s),
        replies ++ [⟨.call what node c, answers replies (.call what node c)⟩]) := rfl

theorem play_await (what : String) (pace : Pace) (node : NodeSpec) (c : Call)
    (enough : c.Answer → Bool) :
    Plan.play answers replies (Stage.await what pace node c enough s) =
      (some (answers replies (.await what pace node c enough), s),
        replies ++ [⟨.await what pace node c enough, answers replies (.await what pace node c enough)⟩]) :=
  rfl

theorem play_lift {r : Result α} (hr : r = .ok a) :
    Plan.play answers replies (Stage.lift r s) = (some (.ok a, s), replies) := by
  rw [hr]
  rfl

end

theorem Keeps.bind {Q' : γ → β → σ → Prop} {x : Stage σ α} {f : α → Stage σ β}
    (hx : Keeps L Q E g s x) (hf : ∀ g a s, Q g a s → Keeps L Q' E g s (f a)) :
    Keeps L Q' E g s (x >>= f) := by
  rw [Keeps, bind_apply, Plan.keeps_bind]
  refine Plan.Keeps.ends_mono hx fun g r hr => ?_
  obtain ⟨r, t⟩ := r
  cases r with
  | ok a => exact hf g a t hr
  | error e => exact hr

theorem Keeps.mono {Q' : γ → α → σ → Prop} {E' : γ → Error → σ → Prop} {x : Stage σ α}
    (hx : Keeps L Q E g s x) (hQ : ∀ g a s, Q g a s → Q' g a s) (hE : ∀ g e s, E g e s → E' g e s) :
    Keeps L Q' E' g s x := by
  refine Plan.Keeps.ends_mono hx fun g r hr => ?_
  obtain ⟨r, t⟩ := r
  cases r with
  | ok a => exact hQ g a t hr
  | error e => exact hE g e t hr

theorem keeps_pure {a : α} (h : Q g a s) : Keeps L Q E g s (pure a : Stage σ α) := h

theorem keeps_throw {e : Error} (h : E g e s) : Keeps L Q E g s (throw e : Stage σ α) := h

theorem keeps_lift {r : Result α} (hok : ∀ a, r = .ok a → Q g a s)
    (herror : ∀ e, r = .error e → E g e s) : Keeps L Q E g s (Stage.lift r) := by
  cases r with
  | ok a => exact hok a rfl
  | error e => exact herror e rfl

theorem keeps_get {Q : γ → σ → σ → Prop} (h : Q g s s) : Keeps L Q E g s (get : Stage σ σ) := h

theorem keeps_modify {Q : γ → PUnit → σ → Prop} {f : σ → σ} (h : Q g () (f s)) :
    Keeps L Q E g s (modify f : Stage σ PUnit) := h

theorem keeps_overflow (h : L.halt g) : Keeps L Q E g s (Stage.overflow : Stage σ α) := h

theorem keeps_ofResult {p : Plan (Result α)}
    (h : Plan.Keeps L (fun g r => match r with
      | .ok a => Q g a s
      | .error e => E g e s) g p) : Keeps L Q E g s (Stage.ofResult p) := by
  rw [Keeps, Stage.ofResult, Plan.keeps_bind]
  exact Plan.Keeps.ends_mono h fun g r hr => hr

theorem keeps_ofPlan {p : Plan α} (h : Plan.Keeps L (fun g a => Q g a s) g p) :
    Keeps L Q E g s (Stage.ofPlan p) := by
  rw [Keeps, Stage.ofPlan, Plan.keeps_bind]
  exact h

theorem keeps_ask {q : Question} {Q : γ → q.Answer → σ → Prop} (hq : L.may g q)
    (h : ∀ a g', L.step g q a g' → Q g' a s) : Keeps L Q E g s (Stage.ask q) :=
  keeps_ofPlan ⟨hq, h⟩

theorem keeps_call {what : String} {node : NodeSpec} {c : Call} {Q : γ → c.Answer → σ → Prop}
    (hq : L.may g (.call what node c))
    (hok : ∀ a g', L.step g (.call what node c) (.ok a) g' → Q g' a s)
    (herror : ∀ e g', L.step g (.call what node c) (.error e) g' → E g' e s) :
    Keeps L Q E g s (Stage.call what node c) :=
  keeps_ofResult ⟨hq, fun r g' hs => match r with
    | .ok a => hok a g' hs
    | .error e => herror e g' hs⟩

theorem keeps_await {what : String} {pace : Pace} {node : NodeSpec} {c : Call}
    {enough : c.Answer → Bool} {Q : γ → c.Answer → σ → Prop}
    (hq : L.may g (.await what pace node c enough))
    (hok : ∀ a g', L.step g (.await what pace node c enough) (.ok a) g' → Q g' a s)
    (herror : ∀ e g', L.step g (.await what pace node c enough) (.error e) g' → E g' e s) :
    Keeps L Q E g s (Stage.await what pace node c enough) :=
  keeps_ofResult ⟨hq, fun r g' hs => match r with
    | .ok a => hok a g' hs
    | .error e => herror e g' hs⟩

theorem keeps_checkpoint {after : String} {Q : γ → Unit → σ → Prop}
    (hq : L.may g (.checkpoint after))
    (hok : ∀ g', L.step g (.checkpoint after) (.ok ()) g' → Q g' () s)
    (herror : ∀ e g', L.step g (.checkpoint after) (.error e) g' → E g' e s) :
    Keeps L Q E g s (Stage.checkpoint after) :=
  keeps_ofResult ⟨hq, fun r g' hs => match r with
    | .ok () => hok g' hs
    | .error e => herror e g' hs⟩

theorem keeps_on {stage : Stage τ α} {own : τ} {Q : γ → Result α × τ → σ → Prop}
    (h : Keeps L (fun g a t => Q g (.ok a, t) s) (fun g e t => Q g (.error e, t) s) g own stage) :
    Keeps L Q E g s (Stage.on own stage) := by
  refine keeps_ofPlan (Plan.Keeps.ends_mono h fun g r hr => ?_)
  obtain ⟨r, t⟩ := r
  cases r <;> exact hr

/-- A loop keeps a law if its body does, with an invariant of the members that were gone through. -/
theorem keeps_forM {body : β → Stage σ Unit} {xs : List β} (inv : List β → γ → σ → Prop)
    (h : ∀ seen x rest g s, xs = seen ++ x :: rest → inv seen g s →
      Keeps L (fun g _ s => inv (seen ++ [x]) g s) E g s (body x))
    (hs : inv [] g s) : Keeps L (fun g _ s => inv xs g s) E g s (xs.forM body) := by
  suffices ∀ seen rest g s, xs = seen ++ rest → inv seen g s →
      Keeps L (fun g _ s => inv xs g s) E g s (rest.forM body) from this [] xs g s rfl hs
  intro seen rest
  induction rest generalizing seen with
  | nil =>
    intro g s hxs hi
    obtain rfl : xs = seen := by simpa using hxs
    exact keeps_pure hi
  | cons x rest ih =>
    intro g s hxs hi
    exact (h seen x rest g s hxs hi).bind fun g _ s hi => ih (seen ++ [x]) g s (by simp [hxs]) hi

end Stage

end LocalFleet
