import LocalFleet.Run.Plan

/-! Waiting for a started fleet: it has to become healthy in time, list its nodes, and tell the ids on
which they agree. Only then is it announced as ready. -/

namespace LocalFleet.Health

variable {σ : Type}

def assetSymbol : String := "AVAX"

def askIds (node : NodeSpec) : Stage σ ChainIds := do
  let asset ← Stage.call (assetSymbol ++ " asset id") node (.getAssetId assetSymbol)
  let exchange ← Stage.call "X-chain id" node (.getBlockchainId "X")
  let contract ← Stage.call "C-chain id" node (.getBlockchainId "C")
  return ⟨asset, exchange, contract⟩

/-- Waits for the fleet, so many milliseconds at most, and gives the table of its nodes. The node that
tells the ids is the one that comes first in the table. -/
def wait (limit : UInt64) : Stage σ ClusterView := do
  Stage.ofResult (.question (.awaitHealth "cluster health" limit))
  let nodes ← Stage.ofResult (.question (.listNodes "node list"))
  match leastNamed nodes with
  | none => throw (.cluster .noNodes)
  | some node =>
    let ids ← askIds node
    let view ← Stage.lift (ClusterView.ofNodes nodes ids)
    Stage.ask .announceReady
    return view

end LocalFleet.Health
