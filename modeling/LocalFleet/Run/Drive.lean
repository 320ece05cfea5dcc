import LocalFleet.Error
import LocalFleet.Run.Shutdown

/-! Driving a run: it goes on until it fails or is interrupted. That it becomes ready, or that all its
work is done, does not end it. A driver looks for one thing after another, and the run, whoever interrupts
it and others who stop it may move in between. -/

namespace LocalFleet.Drive

/-- What a driver can see when it looks. -/
structure Sight where
  /-- the error that the run delivered, if it is still to be had -/
  error : Option Error
  interrupted : Bool
  ready : Bool
  deriving DecidableEq, Repr

inductive Verdict where
  | failed (e : Error)
  | interrupted
  deriving DecidableEq, Repr

def Verdict.result : Verdict → Result Unit
  | failed e => .error e
  | interrupted => .ok ()

/-- Where a driver stands: it waits for the run to become ready, then for its end, and then has seen
why to stop it. -/
inductive Stand where
  | awaitingReady
  | watching
  | ended (verdict : Verdict)
  deriving DecidableEq, Repr

def Stand.verdict? : Stand → Option Verdict
  | ended verdict => some verdict
  | _ => none

/-- Whether there is a reason to stop the run; an error comes before an interruption. -/
def verdict? (s : Sight) : Option Verdict :=
  match s.error with
  | some e => some (.failed e)
  | none => if s.interrupted then some .interrupted else none

def look (s : Sight) : Stand → Stand
  | .ended verdict => .ended verdict
  | .awaitingReady =>
    match verdict? s with
    | some verdict => .ended verdict
    | none => if s.ready then .watching else .awaitingReady
  | .watching =>
    match verdict? s with
    | some verdict => .ended verdict
    | none => .watching

inductive Turn where
  | seekError
  | seekInterrupt (error : Option Error)
  | seekReady (error : Option Error) (interrupted : Bool)
  | stop
  /-- waits for its own call, which is the caller of that number -/
  | awaitStop (caller : Nat)
  | returned
  deriving DecidableEq, Repr

structure System where
  run : Shutdown.System := .start
  /-- the place where the error of the run arrives is the driver's -/
  hears : Bool := true
  ready : Bool := false
  recorded : Option Error := none
  interrupted : Bool := false
  stand : Stand := .awaitingReady
  turn : Turn := .seekError
  /-- how often the driver has begun to stop the run -/
  calls : Nat := 0
  deriving DecidableEq, Repr

namespace System

def start (hears : Bool) : System := { hears }

/-- Records an error, unless it only tells that the run was stopped, the run was told to stop, or another
error came before. -/
def record (s : System) (e : Error) : System :=
  if e.isCancelled ∨ s.run.shared.cancelled ∨ s.recorded.isSome then s else { s with recorded := some e }

def advance (s : System) : Option System :=
  match s.turn with
  | .seekError => some { s with turn := .seekInterrupt (if s.hears then s.recorded else none) }
  | .seekInterrupt error => some { s with turn := .seekReady error s.interrupted }
  | .seekReady error interrupted =>
    let stand := look ⟨error, interrupted, s.ready⟩ s.stand
    some { s with stand, turn := if stand.verdict?.isSome then .stop else .seekError }
  | .stop => do
    let run ← s.run.move .call
    return { s with run, calls := s.calls + 1, turn := .awaitStop s.run.callers.length }
  | .awaitStop caller =>
    if s.run.callers[caller]? = some .returned then some { s with turn := .returned } else none
  | .returned => none

inductive Move where
  | becomeReady
  | record (e : Error)
  | interrupt
  | drive
  | stopping (m : Shutdown.System.Move)
  deriving DecidableEq, Repr

/-- What a move makes of the system, if it is possible. Only a task that has not ended becomes ready or
records an error. -/
def move (s : System) : Move → Option System
  | .becomeReady => if s.run.shared.exited then none else some { s with ready := true }
  | .record e => if s.run.shared.exited then none else some (s.record e)
  | .interrupt => some { s with interrupted := true }
  | .drive => s.advance
  | .stopping m => do
    let run ← s.run.move m
    return { s with run }

def result? (s : System) : Option (Result Unit) :=
  match s.turn with
  | .returned => s.stand.verdict?.map Verdict.result
  | _ => none

end System

end LocalFleet.Drive
