import LocalFleet.Proofs.Plan

/-! Exchanges with nodes, and scripts for them. A script is a list of positions, each a call that is made
once or a call that is repeated until its answer is enough. What happened follows a script if all
positions before the one that is under way are done, and nothing else was asked. -/

namespace LocalFleet

structure Exchange where
  node : NodeSpec
  call : Call
  answer : Result call.Answer

/-- A place in a script. -/
inductive Position where
  /-- a call that is made once, and the answers with which it is done -/
  | call (node : NodeSpec) (call : Call) (accepts : call.Answer → Prop)
  /-- a call that is repeated until its answer is enough -/
  | poll (node : NodeSpec) (call : Call) (enough : call.Answer → Bool) (accepts : call.Answer → Prop)

namespace Exchange

/-- A repetition of a call whose answer is an error or not enough. -/
def Fruitless (node : NodeSpec) (c : Call) (enough : c.Answer → Bool) (e : Exchange) : Prop :=
  ∃ answer : Result c.Answer, e = ⟨node, c, answer⟩ ∧ ∀ a, answer = .ok a → enough a = false

end Exchange

namespace Position

def Done : Position → List Exchange → Prop
  | call node c accepts, es => ∃ a, es = [⟨node, c, .ok a⟩] ∧ accepts a
  | poll node c enough accepts, es => ∃ fruitless a, es = fruitless ++ [⟨node, c, .ok a⟩] ∧
      (∀ e ∈ fruitless, e.Fruitless node c enough) ∧ enough a = true ∧ accepts a

/-- The exchanges are of a position that may not be done: only the last of them may have any answer. -/
def Begun : Position → List Exchange → Prop
  | call node c _, es => es = [] ∨ ∃ answer, es = [⟨node, c, answer⟩]
  | poll node c enough _, es => ∃ fruitless, (∀ e ∈ fruitless, e.Fruitless node c enough) ∧
      (es = fruitless ∨ ∃ answer, es = fruitless ++ [⟨node, c, answer⟩])

theorem begun_nil (pos : Position) : pos.Begun [] := by
  cases pos with
  | call node c accepts => exact .inl rfl
  | poll node c enough accepts => exact ⟨[], by simp, .inl rfl⟩

theorem Done.begun {pos : Position} {es : List Exchange} (h : pos.Done es) : pos.Begun es := by
  cases pos with
  | call node c accepts =>
    obtain ⟨a, rfl, _⟩ := h
    exact .inr ⟨.ok a, rfl⟩
  | poll node c enough accepts =>
    obtain ⟨fruitless, a, rfl, hall, _⟩ := h
    exact ⟨fruitless, hall, .inr ⟨.ok a, rfl⟩⟩

variable {node : NodeSpec} {c : LocalFleet.Call} {enough : c.Answer → Bool} {accepts : c.Answer → Prop}
  {e : Exchange} {es : List Exchange}

theorem Done.fruitless (h : (poll node c enough accepts).Done es) (he : e.Fruitless node c enough) :
    (poll node c enough accepts).Done ([e] ++ es) := by
  obtain ⟨fruitless, a, rfl, hall, henough, ha⟩ := h
  refine ⟨e :: fruitless, a, rfl, fun d hd => ?_, henough, ha⟩
  rcases List.mem_cons.1 hd with rfl | hd
  · exact he
  · exact hall d hd

theorem Begun.fruitless (h : (poll node c enough accepts).Begun es) (he : e.Fruitless node c enough) :
    (poll node c enough accepts).Begun ([e] ++ es) := by
  obtain ⟨fruitless, hall, hes⟩ := h
  refine ⟨e :: fruitless, fun d hd => ?_, ?_⟩
  · rcases List.mem_cons.1 hd with rfl | hd
    · exact he
    · exact hall d hd
  · rcases hes with rfl | ⟨answer, rfl⟩
    · exact .inl rfl
    · exact .inr ⟨answer, rfl⟩

end Position

/-- Every position of a script is done, in order. -/
inductive Performed : List Position → List Exchange → Prop where
  | nil : Performed [] []
  | cons {pos : Position} {script : List Position} {es fs : List Exchange} :
      pos.Done es → Performed script fs → Performed (pos :: script) (es ++ fs)

/-- Some positions of a script are done, in order, and no later one is begun than the one after
them. -/
inductive Follows : List Position → List Exchange → Prop where
  | nothing (script : List Position) : Follows script []
  | begun {pos : Position} {es : List Exchange} (script : List Position) :
      pos.Begun es → Follows (pos :: script) es
  | cons {pos : Position} {script : List Position} {es fs : List Exchange} :
      pos.Done es → Follows script fs → Follows (pos :: script) (es ++ fs)

section

variable {script rest : List Position} {es fs : List Exchange}

theorem Performed.follows (h : Performed script es) : Follows script es := by
  induction h with
  | nil => exact .nothing []
  | cons hdone _ ih => exact .cons hdone ih

theorem Performed.append (h : Performed script es) (hrest : Performed rest fs) :
    Performed (script ++ rest) (es ++ fs) := by
  induction h with
  | nil => exact hrest
  | cons hdone _ ih =>
    rw [List.append_assoc]
    exact .cons hdone ih

theorem Performed.append_follows (h : Performed script es) (hrest : Follows rest fs) :
    Follows (script ++ rest) (es ++ fs) := by
  induction h with
  | nil => exact hrest
  | cons hdone _ ih =>
    rw [List.append_assoc]
    exact .cons hdone ih

theorem Follows.append_right (h : Follows script es) (rest : List Position) :
    Follows (script ++ rest) es := by
  induction h with
  | nothing script => exact .nothing _
  | begun script hbegun => exact .begun _ hbegun
  | cons hdone _ ih => exact .cons hdone ih

theorem performed_singleton {pos : Position} (h : pos.Done es) : Performed [pos] es := by
  have hcons := Performed.cons h .nil
  rwa [List.append_nil] at hcons

end

/-- Which exchanges a question can lead to, and with which answer; no answer if a number left its
range. -/
def Question.Leads : (q : Question) → List Exchange → Option q.Answer → Prop
  | .call _ node c, es, o =>
    (∃ a, o = some (.ok a) ∧ (Position.call node c (· = a)).Done es) ∨
      ∃ e, o = some (.error e) ∧ (Position.call node c fun _ => True).Begun es
  | .await _ _ node c enough, es, o =>
    (∃ a, o = some (.ok a) ∧ (Position.poll node c enough (· = a)).Done es) ∨
      (∀ a, o ≠ some (.ok a)) ∧ (Position.poll node c enough fun _ => True).Begun es
  | .newWallets count _, es, o => es = [] ∧ ∃ wallets, o = some wallets ∧ wallets.length = count
  | _, es, o => es = [] ∧ o.isSome

namespace Plan

variable {α β : Type}

/-- The exchanges that a plan can lead to, and how it ends then; no value if a number left its range. -/
def Traces : Plan α → List Exchange → Option α → Prop
  | done a, es, o => es = [] ∧ o = some a
  | overflow, es, o => es = [] ∧ o = none
  | ask q next, es, o => (q.Leads es none ∧ o = none) ∨
      ∃ begun rest answer, es = begun ++ rest ∧ q.Leads begun (some answer) ∧
        (next answer).Traces rest o

theorem traces_bind {p : Plan α} {f : α → Plan β} {es : List Exchange} {o : Option β}
    (h : (p.bind f).Traces es o) : (p.Traces es none ∧ o = none) ∨
      ∃ begun rest a, es = begun ++ rest ∧ p.Traces begun (some a) ∧ (f a).Traces rest o := by
  induction p generalizing es with
  | done a => exact .inr ⟨[], es, a, rfl, ⟨rfl, rfl⟩, h⟩
  | overflow =>
    obtain ⟨rfl, rfl⟩ := h
    exact .inl ⟨⟨rfl, rfl⟩, rfl⟩
  | ask q next ih =>
    rcases h with ⟨hq, rfl⟩ | ⟨begun, rest, answer, rfl, hq, hnext⟩
    · exact .inl ⟨.inl ⟨hq, rfl⟩, rfl⟩
    · rcases ih answer hnext with ⟨hp, rfl⟩ | ⟨mid, rest, a, rfl, hp, hf⟩
      · exact .inl ⟨.inr ⟨begun, rest, answer, rfl, hq, hp⟩, rfl⟩
      · exact .inr ⟨begun ++ mid, rest, a, by rw [List.append_assoc],
          .inr ⟨begun, mid, answer, rfl, hq, hp⟩, hf⟩

end Plan

end LocalFleet
