/-! How far a run has come. -/

namespace LocalFleet

inductive Phase where
  | starting
  | waitingHealthy
  | provisioning
  | writingOutput
  | done
  | aborting
  deriving DecidableEq, Repr

namespace Phase

def all : List Phase := [starting, waitingHealthy, provisioning, writingOutput, done, aborting]

def text : Phase → String
  | starting => "starting"
  | waitingHealthy => "waiting-healthy"
  | provisioning => "provisioning"
  | writingOutput => "writing-output"
  | done => "done"
  | aborting => "aborting"

def isTerminal : Phase → Bool
  | done | aborting => true
  | _ => false

/-- The phases of a run that is not aborted, in order. -/
def path : List Phase := [starting, waitingHealthy, provisioning, writingOutput, done]

end Phase

end LocalFleet
