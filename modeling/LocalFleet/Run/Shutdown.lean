/-! Stopping a run: it is told to stop, its fleet is stopped, and its task is waited for. Any number of
callers may do so at once; each moves by steps of its own between which the task and the other callers
move. The fleet may appear after a caller has looked for it, so every caller looks again when the task
has ended. -/

namespace LocalFleet.Shutdown

structure Shared where
  cancelled : Bool := false
  /-- the started fleet waits for someone to stop it -/
  fleet : Bool := false
  /-- nobody has begun to wait for the task -/
  handle : Bool := true
  /-- somebody waits for the task, and whoever else wants to has to wait -/
  locked : Bool := false
  launched : Bool := false
  exited : Bool := false
  stops : Nat := 0
  deriving DecidableEq, Repr

/-- Where a caller stands. A caller that finds the fleet first takes it for itself, then tells it to stop,
and then waits for that; whether it still has to is said beside. -/
inductive Place where
  | called
  | looking
  | holding
  | stopping (ended : Bool)
  | queued
  | joining
  | lookingAgain
  | holdingLate
  | stoppingLate (ended : Bool)
  | returned
  deriving DecidableEq, Repr

namespace Place

def awaitsStop : Place → Bool
  | stopping ended | stoppingLate ended => !ended
  | _ => false

def stopEnded : Place → Place
  | stopping _ => stopping true
  | stoppingLate _ => stoppingLate true
  | other => other

end Place

def advance (s : Shared) : Place → Option (Shared × Place)
  | .called => some ({ s with cancelled := true }, .looking)
  | .looking => if s.fleet then some ({ s with fleet := false }, .holding) else some (s, .queued)
  -- whoever moves between these two steps finds no fleet, and none that was told to stop
  | .holding => some ({ s with stops := s.stops + 1 }, .stopping false)
  | .stopping ended => if ended then some (s, .queued) else none
  | .queued =>
    if s.locked then none
    else if s.handle then some ({ s with handle := false, locked := true }, .joining)
    else some (s, .lookingAgain)
  | .joining => if s.exited then some ({ s with locked := false }, .lookingAgain) else none
  | .lookingAgain =>
    if s.fleet then some ({ s with fleet := false }, .holdingLate) else some (s, .returned)
  | .holdingLate => some ({ s with stops := s.stops + 1 }, .stoppingLate false)
  | .stoppingLate ended => if ended then some (s, .returned) else none
  | .returned => none

/-- What is left of a caller that is given up where it stands: the lock that it may hold is free again,
but the task cannot be waited for any more. -/
def abandon (s : Shared) : Place → Shared
  | .joining => { s with locked := false }
  | _ => s

def Place.rank : Place → Nat
  | called => 9
  | looking => 8
  | holding => 7
  | stopping _ => 6
  | queued => 5
  | joining => 4
  | lookingAgain => 3
  | holdingLate => 2
  | stoppingLate _ => 1
  | returned => 0

structure System where
  shared : Shared
  callers : List Place
  deriving DecidableEq, Repr

namespace System

def start : System := ⟨{}, []⟩

inductive Move where
  | call
  | step (caller : Nat)
  /-- the fleet that a caller stops has stopped -/
  | stopEnds (caller : Nat)
  | install
  | exit
  deriving DecidableEq, Repr

def move (s : System) : Move → Option System
  | .call => some { s with callers := s.callers ++ [.called] }
  | .step i => do
    let place ← s.callers[i]?
    let (shared, place) ← advance s.shared place
    return ⟨shared, s.callers.set i place⟩
  | .stopEnds i => do
    let place ← s.callers[i]?
    if place.awaitsStop then some { s with callers := s.callers.set i place.stopEnded } else none
  | .install =>
    if s.shared.exited ∨ s.shared.launched then none
    else some { s with shared := { s.shared with fleet := true, launched := true } }
  | .exit => if s.shared.exited then none else some { s with shared := { s.shared with exited := true } }

end System

end LocalFleet.Shutdown
