import FerroEdge.Common.Types
import FerroEdge.Machine.HashMap

/-!
# The connection pool

`services/control-plane/src/connection_pool.rs`.  The pool keeps one channel per node id.  A
channel is lazily connected: it records its endpoint when it is created and every RPC over it
goes there.
-/

namespace FerroEdge.ControlPlane

open Machine

/-- `tonic::transport::Channel`, of which only the endpoint matters. -/
structure Channel where
  endpoint : String
deriving DecidableEq, Repr

/-- `NodeConnectionPool`. -/
structure NodeConnectionPool where
  connections : HashMap String Channel

namespace NodeConnectionPool

def new : NodeConnectionPool := ⟨∅⟩

/-- `get_or_create`: the channel pooled for the node, or a new one to `addr`. -/
def getOrCreate (X : Externals) (nodeId addr : String) (pool : NodeConnectionPool) :
    Except Status Channel × NodeConnectionPool :=
  match pool.connections.lookup nodeId with
  | some ch => (.ok ch, pool)
  | none =>
      match X.fromShared addr with
      | .error e => (.error ⟨.internal, s!"invalid address '{addr}': {e}"⟩, pool)
      | .ok () => (.ok ⟨addr⟩, ⟨pool.connections.insert nodeId ⟨addr⟩⟩)

/-- `evict`. -/
def evict (nodeId : String) (pool : NodeConnectionPool) : NodeConnectionPool :=
  ⟨pool.connections.erase nodeId⟩

/-- What `get_or_create` answers and leaves behind: a pooled channel and the pool as it was,
an error and the pool as it was, or a new channel to `addr` that is pooled now. -/
theorem getOrCreate_cases (X : Externals) (nodeId addr : String) (pool : NodeConnectionPool) :
    (∃ ch, pool.connections.lookup nodeId = some ch ∧
      pool.getOrCreate X nodeId addr = (.ok ch, pool)) ∨
    (∃ status, pool.connections.lookup nodeId = none ∧ status.code = .internal ∧
      pool.getOrCreate X nodeId addr = (.error status, pool)) ∨
    (pool.connections.lookup nodeId = none ∧
      pool.getOrCreate X nodeId addr =
        (.ok ⟨addr⟩, ⟨pool.connections.insert nodeId ⟨addr⟩⟩)) := by
  unfold getOrCreate
  cases h : pool.connections.lookup nodeId with
  | some ch => exact Or.inl ⟨ch, rfl, rfl⟩
  | none =>
      cases hx : X.fromShared addr with
      | error e => exact Or.inr (Or.inl ⟨_, rfl, rfl, rfl⟩)
      | ok u => exact Or.inr (Or.inr ⟨rfl, rfl⟩)

end NodeConnectionPool

end FerroEdge.ControlPlane
