import LocalFleet.Error

/-! Bounded polling: a check is made after every interval until it finds something, a deadline
passes, or the wait is cancelled. Times are milliseconds. -/

namespace LocalFleet

structure Pace where
  interval : Nat
  limit : Nat
  deriving DecidableEq, Repr

/-- A check: how long it takes, and what it finds, if anything. A check that takes no time has its
finding at once. -/
structure Attempt (α : Type) where
  latency : Nat
  found : Option α
  deriving Repr

inductive PollOutcome (α : Type) where
  | ready (a : α)
  | timedOut (attempts waited : Nat)
  | cancelled
  deriving DecidableEq, Repr

namespace PollOutcome

variable {α : Type}

def isReady : PollOutcome α → Bool
  | ready _ => true
  | _ => false

def toResult (what : String) : PollOutcome α → Result α
  | ready a => .ok a
  | timedOut attempts waited => .error (.poll (.timeout what (.ofMilliseconds waited) attempts))
  | cancelled => .error (.abandoned what)

end PollOutcome

def reached (instant : Option Nat) (now : Nat) : Bool := instant.any (· ≤ now)

namespace Poll

variable {σ α : Type}

structure Ending (σ α : Type) where
  outcome : PollOutcome α
  time : Nat
  state : σ

/-- The wait from `now` on, after some attempts, with at most `more` of them to come. A cancellation
counts before anything else at its instant, and a finding before the deadline. None if the attempts
cannot be counted any more. -/
def loop (pace : Pace) (started : Nat) (cancelAt : Option Nat) (check : Nat → σ → Attempt α × σ)
    (more attempts now : Nat) (s : σ) : Option (Ending σ α) :=
  let deadline := started + pace.limit
  let wake := now + pace.interval
  if reached cancelAt now then some ⟨.cancelled, now, s⟩
  else if deadline ≤ now then some ⟨.timedOut attempts (now - started), now, s⟩
  else if reached cancelAt wake then some ⟨.cancelled, cancelAt.getD now, s⟩
  else match more with
    | 0 => none
    | more + 1 =>
      let (a, s) := check wake s
      let ended := wake + a.latency
      let stopped := max wake deadline
      if a.latency ≠ 0 ∧ reached cancelAt (min ended stopped) then
        some ⟨.cancelled, cancelAt.getD now, s⟩
      else if a.latency ≠ 0 ∧ deadline < ended then
        some ⟨.timedOut (attempts + 1) (stopped - started), stopped, s⟩
      else match a.found with
        | some v => some ⟨.ready v, ended, s⟩
        | none => loop pace started cancelAt check more (attempts + 1) ended s

/-- The greatest number of attempts that can be counted. -/
def attemptLimit : Nat := 0xffffffff

def run (pace : Pace) (cancelAt : Option Nat) (check : Nat → σ → Attempt α × σ) (now : Nat) (s : σ) :
    Option (Ending σ α) :=
  loop pace now cancelAt check attemptLimit 0 now s

end Poll

end LocalFleet
