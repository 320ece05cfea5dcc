import LocalFleet.Node.Call

/-! A fleet of nodes as its user sees it: what starts it, what it can be asked, and the table of its
nodes once it is healthy. -/

namespace LocalFleet

structure LaunchSpec where
  nodeCount : UInt64
  binary : String
  logsDir : String
  portBase : UInt16
  networkId : String
  logLevel : String
  subnets : List String
  rpcTimeoutMs : UInt64
  deriving DecidableEq, Repr

structure NodeSpec where
  name : String
  nodeId : String
  uri : String
  deriving DecidableEq, Repr

def NodeSpec.shown (n : NodeSpec) : String :=
  "NodeHandle \x7b name: " ++ Quoted.text n.name ++ ", node_id: " ++ Quoted.text n.nodeId
    ++ ", uri: " ++ Quoted.text n.uri ++ " \x7d"

/-- What is asked of a fleet or of one of its nodes. -/
inductive Inquiry where
  | launch (spec : LaunchSpec)
  /-- answered when every node is healthy -/
  | waitHealthy
  | listNodes
  | stop
  | call (node : NodeSpec) (call : Call)
  deriving DecidableEq, Repr

abbrev Inquiry.Answer : Inquiry → Type
  | launch _ => Unit
  | waitHealthy => Unit
  | listNodes => List NodeSpec
  | stop => Unit
  | call _ c => c.Answer

/-- An answer, how long it takes, and what becomes of the fleet. -/
structure Response (σ α : Type) where
  latency : Nat
  answer : Result α
  state : σ

/-- How a fleet with states in `σ` behaves: the answer to an inquiry that starts at an instant. -/
abbrev Fleet (σ : Type) := (inquiry : Inquiry) → σ → Response σ inquiry.Answer

structure ChainIds where
  asset : String
  exchange : String
  contract : String
  deriving DecidableEq, Repr

/-- The nodes of a healthy fleet, in the order of their names. -/
structure ClusterView where
  nodes : List NodeSpec
  ids : ChainIds
  nonempty : nodes ≠ []

namespace ClusterView

/-- Nodes in the order of their names; nodes of one name keep their places. -/
def ordered (nodes : List NodeSpec) : List NodeSpec :=
  nodes.mergeSort fun a b => Text.le a.name b.name

theorem ordered_ne_nil {nodes : List NodeSpec} (h : nodes ≠ []) : ordered nodes ≠ [] := by
  intro hh
  have := List.Perm.length_eq (List.mergeSort_perm nodes fun a b => Text.le a.name b.name)
  rw [show nodes.mergeSort _ = [] from hh] at this
  exact h (List.length_eq_zero_iff.1 this.symm)

def ofNodes (nodes : List NodeSpec) (ids : ChainIds) : Result ClusterView :=
  if h : nodes = [] then .error (.cluster .noNodes)
  else .ok ⟨ordered nodes, ids, ordered_ne_nil h⟩

/-- The node that is asked for what is done once. -/
def first (v : ClusterView) : NodeSpec := v.nodes.head v.nonempty

def uris (v : ClusterView) : List String := Text.sorted (v.nodes.map NodeSpec.uri)

end ClusterView

/-- The first of the nodes whose names come first. -/
def leastNamed : List NodeSpec → Option NodeSpec
  | [] => none
  | n :: ns =>
    match leastNamed ns with
    | none => some n
    | some m => if Text.le n.name m.name then some n else some m

end LocalFleet
