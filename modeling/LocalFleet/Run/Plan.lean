import LocalFleet.Files.Fault
import LocalFleet.Node.Fleet
import LocalFleet.Record
import LocalFleet.Run.Phase
import LocalFleet.Run.Poll

/-! Plans: what a run does, as a tree of questions to its surroundings with a continuation for every
answer. A plan says nothing of time or of being stopped; whoever carries it out settles both and
answers accordingly. -/

namespace LocalFleet

inductive Question where
  | launch (spec : LaunchSpec)
  /-- hands the started fleet to whoever will stop it -/
  | install
  /-- whether the run may go on -/
  | checkpoint (after : String)
  | awaitHealth (what : String) (limit : UInt64)
  | listNodes (what : String)
  | call (what : String) (node : NodeSpec) (call : Call)
  /-- repeats a call until its answer is enough -/
  | await (what : String) (pace : Pace) (node : NodeSpec) (call : Call) (enough : call.Answer → Bool)
  | clock
  | readFile (path : String)
  | newWallets (count nameLength : Nat)
  | enter (phase : Phase)
  | announceReady
  /-- writes the record of the cluster and prints it -/
  | publish (path : String) (record : ClusterRecord)
  | report (e : Error)

/-- What a question is answered with. A question that can be refused or abandoned is answered with a
result. -/
abbrev Question.Answer : Question → Type
  | launch _ => Result Unit
  | install => Unit
  | checkpoint _ => Result Unit
  | awaitHealth .. => Result Unit
  | listNodes _ => Result (List NodeSpec)
  | call _ _ c => Result c.Answer
  | await _ _ _ c _ => Result c.Answer
  | clock => UInt64
  | readFile _ => Except IoCause Bytes
  | newWallets .. => List Wallet
  | enter _ => Unit
  | announceReady => Unit
  | publish .. => Result Unit
  | report _ => Unit

inductive Plan (α : Type) where
  | done (a : α)
  /-- a number left its range -/
  | overflow
  | ask (question : Question) (next : question.Answer → Plan α)

namespace Plan

variable {α β γ : Type}

def bind : Plan α → (α → Plan β) → Plan β
  | done a, f => f a
  | overflow, _ => overflow
  | ask q next, f => ask q fun answer => (next answer).bind f

instance : Monad Plan where
  pure := done
  bind := bind

@[simp] theorem pure_eq (a : α) : (pure a : Plan α) = done a := rfl

@[simp] theorem bind_eq (p : Plan α) (f : α → Plan β) : p >>= f = p.bind f := rfl

@[simp] theorem done_bind (a : α) (f : α → Plan β) : (done a).bind f = f a := rfl

@[simp] theorem overflow_bind (f : α → Plan β) : (overflow : Plan α).bind f = overflow := rfl

@[simp] theorem ask_bind (q : Question) (next : q.Answer → Plan α) (f : α → Plan β) :
    (ask q next).bind f = ask q fun answer => (next answer).bind f := rfl

theorem bind_done (p : Plan α) : p.bind done = p := by
  induction p with
  | done a => rfl
  | overflow => rfl
  | ask q next ih => simp [ih]

theorem bind_assoc (p : Plan α) (f : α → Plan β) (g : β → Plan γ) :
    (p.bind f).bind g = p.bind fun a => (f a).bind g := by
  induction p with
  | done a => rfl
  | overflow => rfl
  | ask q next ih => simp [ih]

instance : LawfulMonad Plan := LawfulMonad.mk' Plan
  (fun p => by
    show p.bind (done ∘ id) = p
    exact bind_done p)
  (fun _ _ => rfl)
  (fun p f g => bind_assoc p f g)

def question (q : Question) : Plan q.Answer := ask q done

end Plan

/-- A stage of a run: a plan that changes a state as it goes and may fail. What was changed before a
failure stays changed. -/
abbrev Stage (σ α : Type) := ExceptT Error (StateT σ Plan) α

namespace Stage

variable {σ τ α : Type}

def ofPlan (p : Plan α) : Stage σ α := fun s => p.bind fun a => .done (.ok a, s)

def ofResult (p : Plan (Result α)) : Stage σ α := fun s => p.bind fun r => .done (r, s)

def ask (q : Question) : Stage σ q.Answer := ofPlan (.question q)

def checkpoint (after : String) : Stage σ Unit := ofResult (.question (.checkpoint after))

def call (what : String) (node : NodeSpec) (c : Call) : Stage σ c.Answer :=
  ofResult (.question (.call what node c))

def await (what : String) (pace : Pace) (node : NodeSpec) (c : Call) (enough : c.Answer → Bool) :
    Stage σ c.Answer :=
  ofResult (.question (.await what pace node c enough))

def overflow : Stage σ α := fun _ => .overflow

def lift (r : Result α) : Stage σ α := fun s => .done (r, s)

/-- Carries out a stage on a state of its own, which is what it leaves of it. -/
def on (own : τ) (stage : Stage τ α) : Stage σ (Result α × τ) := ofPlan (stage own)

/-- Carries out a stage for every member of a list, each being the state; the first failure ends it,
and the members after it stay as they were. -/
def each (stage : Stage τ Unit) : List τ → Plan (Result Unit × List τ)
  | [] => .done (.ok (), [])
  | a :: rest =>
    (stage a).bind fun (r, a) =>
      match r with
      | .error e => .done (.error e, a :: rest)
      | .ok () => (each stage rest).bind fun (r, rest) => .done (r, a :: rest)

end Stage

end LocalFleet
