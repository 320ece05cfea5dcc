import LocalFleet.Run.Course
import LocalFleet.Run.Drive
import LocalFleet.Run.Shutdown
import LocalFleet.Run.Timed

/-! A run in the hands of its owner, who sleeps, looks, tells it to stop, stops it and waits for its
end. Owner and run share one clock. What the run does is seen up to an instant, the horizon: the owner
moves first at every instant, and the run as soon as the owner waits. -/

namespace LocalFleet

structure CourseView (σ : Type) where
  history : List Dated
  ended : Nat
  world : World σ

inductive ErrorHolder where
  | nobody
  | owner
  /-- the owner has the error out already -/
  | emptied
  | dropped
  deriving DecidableEq, Repr

structure Session (σ : Type) where
  now : Nat := 0
  /-- what the run did before this instant is visible -/
  horizon : Nat := 0
  /-- when the run was told to stop, unless it had ended then -/
  stopAt : Option Nat := none
  /-- the course as it is before `known`, or as it is for good once the run was told to stop -/
  course : CourseView σ
  known : Nat := 0
  shared : Shutdown.Shared := {}
  stopped : Option (Nat × Phase) := none
  stopEnds : Option Nat := none
  errors : ErrorHolder := .nobody

namespace Session

variable {σ : Type} (env : Surroundings σ) (job : Job) (start : World σ)

def courseOf (stopAt : Option Nat) : CourseView σ :=
  let (_, w) := env.run stopAt job.course start
  ⟨w.history, w.now, w⟩

def begin : Session σ := { course := courseOf env job start (some 0) }

def visible (s : Session σ) : List Event :=
  (s.course.history.filter (·.time < s.horizon)).map Dated.event

def phase (s : Session σ) : Phase :=
  (s.visible.reverse.findSome? fun
    | .entered phase => some phase
    | _ => none).getD .starting

def ready (s : Session σ) : Bool := s.visible.any fun
  | .ready => true
  | _ => false

def failure? (s : Session σ) : Option Error := s.visible.findSome? fun
  | .failed e => some e
  | _ => none

def foresee (s : Session σ) (instant : Nat) : Session σ :=
  if s.stopAt.isSome ∨ instant ≤ s.known ∨ s.course.ended < s.known then s
  else { s with course := courseOf env job start (some instant), known := instant }

def see (s : Session σ) (horizon : Nat) : Session σ :=
  let s := { s.foresee env job start horizon with horizon := max s.horizon horizon }
  let launched := s.visible.any fun
    | .installed => true
    | _ => false
  let arrived := launched && !s.shared.launched
  let shared := { s.shared with
    launched
    fleet := s.shared.fleet || arrived
    exited := decide (s.course.ended < s.horizon) }
  { s with shared }

def sleep (s : Session σ) (span : Nat) : Session σ :=
  if span = 0 then s
  else
    let now := s.now + span
    { s.see env job start now with now }

def cancel (s : Session σ) : Session σ :=
  let s := { s with shared := { s.shared with cancelled := true } }
  if s.shared.exited ∨ s.stopAt.isSome then s
  else { s with stopAt := some s.now, course := courseOf env job start (some s.now) }

def stopFleet (s : Session σ) : Session σ :=
  let r := env.fleet .stop s.course.world.fleet
  { s with stopped := some (s.now, s.phase), stopEnds := some (s.now + r.latency) }

def stepCaller (s : Session σ) (p : Shutdown.Place) : Option (Session σ × Shutdown.Place) :=
  let p := if p.awaitsStop && reached s.stopEnds s.now then p.stopEnded else p
  match Shutdown.advance s.shared p with
  | none => none
  | some (shared, q) =>
    let begun := decide (shared.stops ≠ s.shared.stops)
    let s := { s with shared }
    let s := if p = .called then s.cancel env job start else s
    some (if begun then s.stopFleet env else s, q)

def settleCaller : Nat → Session σ → Shutdown.Place → Session σ × Shutdown.Place
  | 0, s, p => (s, p)
  | fuel + 1, s, p =>
    match s.stepCaller env job start p with
    | none => (s, p)
    | some (s, q) => settleCaller fuel s q

def settle (s : Session σ) : List Shutdown.Place → Session σ × List Shutdown.Place
  | [] => (s, [])
  | p :: ps =>
    let (s, p) := settleCaller env job start p.rank s p
    let (s, ps) := settle s ps
    (s, p :: ps)

def rank (callers : List Shutdown.Place) : Nat := callers.foldr (fun p n => p.rank + n) 0

/-- What the callers wait for next, the fleet to stop or the task to end: when it comes, and whether it is
the task. -/
def awaited (s : Session σ) (callers : List Shutdown.Place) : Option (Nat × Bool) :=
  let stop := if callers.any (·.awaitsStop) then s.stopEnds else none
  let exit := if s.shared.exited then none else some s.course.ended
  match stop, exit with
  | none, none => none
  | some t, none => some (t, false)
  | none, some u => some (u, true)
  | some t, some u => if t ≤ u ∧ s.now < t then some (t, false) else some (u, true)

/-- Whether something comes too late for those who wait until a bound, if they have one. At the bound they
move before the task does. -/
def late (bound : Option Nat) : Nat × Bool → Bool
  | (t, false) => bound.any (· < t)
  | (t, true) => bound.any (· ≤ t)

def wait (bound : Option Nat) (s : Session σ) (callers : List Shutdown.Place) : Option (Session σ) :=
  match s.awaited callers with
  | none => some s
  | some next =>
    if late bound next then none
    else
      let (t, ends) := next
      some { s.see env job start (if ends then t + 1 else t) with now := max s.now t }

def giveUp (bound : Nat) (s : Session σ) (callers : List Shutdown.Place) : Session σ :=
  let s := { s.see env job start bound with now := max s.now bound }
  { s with shared := callers.foldl Shutdown.abandon s.shared }

def carryOn (bound : Option Nat) : Nat → Session σ → List Shutdown.Place → Bool × Session σ
  | 0, s, _ => (true, s)
  | fuel + 1, s, callers =>
    let (s, callers) := s.settle env job start callers
    if rank callers = 0 then (true, s)
    else
      match s.wait env job start bound callers with
      | some s => carryOn bound fuel s callers
      | none => (false, s.giveUp env job start (bound.getD s.now) callers)

/-- Stops the run and waits for its end, until a bound if there is one; `callers` do so at once. Whether
they have returned. -/
def shutdownWithin (bound : Option Nat) (s : Session σ) (callers : Nat := 1) : Bool × Session σ :=
  let places := List.replicate callers Shutdown.Place.called
  s.carryOn env job start bound (rank places) places

def takeErrors (s : Session σ) : Bool × Session σ :=
  if s.errors = .nobody then (true, { s with errors := .owner }) else (false, s)

inductive ErrorState where
  | notHeld
  | arrived (e : Error)
  | empty
  /-- none can arrive any more -/
  | closed
  deriving DecidableEq, Repr

def lookForError (s : Session σ) : ErrorState × Session σ :=
  match s.errors with
  | .nobody | .dropped => (.notHeld, s)
  | .emptied => (.closed, s)
  | .owner =>
    match s.failure? with
    | some e => (.arrived e, { s with errors := .emptied })
    | none => (if s.shared.exited then .closed else .empty, s)

/-- What a driver sees at this instant. It sees errors only if nobody took their place before. -/
def sight (s : Session σ) (seesErrors : Bool) (interruptAt : Option Nat) : Drive.Sight :=
  ⟨if seesErrors then s.failure? else none, reached interruptAt s.now, s.ready⟩

/-- The next instant, before a bound, at which a driver may have something new to see. -/
def nextSight (s : Session σ) (seesErrors : Bool) (bound : Nat) : Option Nat :=
  ((s.course.history.filter fun d => s.horizon ≤ d.time ∧ d.time < bound).find? fun d =>
    match d.event with
    | .failed _ => seesErrors
    | .ready => true
    | _ => false).map Dated.time

/-- Lets a driver look until it has a reason to stop the run or its patience ends. -/
def watch (seesErrors : Bool) (interruptAt : Option Nat) (patience : Nat) :
    Nat → Session σ → Drive.Stand → Option Drive.Verdict × Session σ
  | 0, s, _ => (none, s)
  | fuel + 1, s, stand =>
    match Drive.look (s.sight seesErrors interruptAt) stand with
    | .ended verdict => (some verdict, s)
    | stand =>
      if patience ≤ s.now then (none, s)
      else
        let bound := match interruptAt with
          | some t => min t patience
          | none => patience
        let s := s.foresee env job start bound
        match s.nextSight seesErrors bound with
        | some t =>
          watch seesErrors interruptAt patience fuel
            { s.see env job start (t + 1) with now := t } stand
        | none =>
          watch seesErrors interruptAt patience fuel
            { s.see env job start bound with now := bound } stand

/-- Drives the run until it fails or is interrupted, and then stops it. No result if that is not done
within `patience` milliseconds; a driver that is stopping the run is given up then. -/
def drive (s : Session σ) (interruptAt : Option Nat) (patience : Nat) :
    Option (Result Unit) × Session σ :=
  let (seesErrors, s) := s.takeErrors
  let s := if seesErrors then { s with errors := .dropped } else s
  let bound := s.now + patience
  let (verdict, s) := watch env job start seesErrors interruptAt bound 4 s .awaitingReady
  match verdict with
  | none => (none, s)
  | some verdict =>
    let (returned, s) := s.shutdownWithin env job start (some bound)
    (if returned then some verdict.result else none, s)

end Session

end LocalFleet
