/-! The three chains that every node serves, and the statuses that transactions and blockchains
report. -/

namespace LocalFleet

inductive Chain where
  | x
  | p
  | c
  deriving DecidableEq, Repr

inductive TxStatus where
  | processing
  | accepted
  | committed
  | rejected
  | dropped
  | unknown (text : String)
  deriving DecidableEq, Repr

namespace TxStatus

def ofText : String → TxStatus
  | "Processing" => processing
  | "Accepted" => accepted
  | "Committed" => committed
  | "Rejected" => rejected
  | "Dropped" => dropped
  | text => unknown text

/-- The name of a status; the text of an unknown one is kept beside it. -/
def name : TxStatus → String × Option String
  | processing => ("Processing", none)
  | accepted => ("Accepted", none)
  | committed => ("Committed", none)
  | rejected => ("Rejected", none)
  | dropped => ("Dropped", none)
  | unknown text => ("Unknown", some text)

end TxStatus

inductive BlockchainStatus where
  | validating
  | created
  | preferred
  | syncing
  | unknown (text : String)
  deriving DecidableEq, Repr

namespace BlockchainStatus

def ofText : String → BlockchainStatus
  | "Validating" => validating
  | "Created" => created
  | "Preferred" => preferred
  | "Syncing" => syncing
  | text => unknown text

def name : BlockchainStatus → String × Option String
  | validating => ("Validating", none)
  | created => ("Created", none)
  | preferred => ("Preferred", none)
  | syncing => ("Syncing", none)
  | unknown text => ("Unknown", some text)

end BlockchainStatus

namespace Chain

/-- The chains in the order in which keys are imported and balances read. -/
def all : List Chain := [x, p, c]

def letter : Chain → String
  | x => "X"
  | p => "P"
  | c => "C"

instance : ToString Chain := ⟨letter⟩

/-- The status of a transaction of this chain that will not change any more. -/
def finalStatus : Chain → TxStatus
  | p => .committed
  | x | c => .accepted

end Chain

end LocalFleet
