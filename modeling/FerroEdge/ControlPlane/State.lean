import FerroEdge.ControlPlane.CircuitBreaker
import FerroEdge.ControlPlane.ConnectionPool
import FerroEdge.ControlPlane.Registry

/-!
# The state of the control plane

`AppState` of `services/control-plane/src/state.rs`, which every handler reaches through one
`RwLock`.  The connection pool sits behind a mutex of its own and is cloned out of the state,
so it is kept beside `AppState` and not in it.
-/

namespace FerroEdge.ControlPlane

open Machine

structure AppState where
  /-- Registered nodes, keyed by node id. -/
  nodes : HashMap String NodeInfo
  /-- Results of finished tasks, keyed by task id. -/
  tasks : HashMap String TaskResult
  /-- Cursor of the round-robin scheduler, a `usize`. -/
  schedulerIndex : Nat
  moduleRegistry : ModuleRegistry
  selfUrl : String
  circuitBreakers : HashMap String CircuitBreaker
  schedulingStrategy : String
  totalSubmitted : Nat
  totalSuccess : Nat
  totalFailed : Nat
  totalRetried : Nat
  queued : Nat

/-- `AppState::default` with the two fields that `main` takes from the configuration. -/
def AppState.init (selfUrl schedulingStrategy : String) : AppState where
  nodes := ∅
  tasks := ∅
  schedulerIndex := 0
  moduleRegistry := .new
  selfUrl := selfUrl
  circuitBreakers := ∅
  schedulingStrategy := schedulingStrategy
  totalSubmitted := 0
  totalSuccess := 0
  totalFailed := 0
  totalRetried := 0
  queued := 0

/-- The nodes are kept under their ids. -/
def KeyedById (nodes : HashMap String NodeInfo) : Prop :=
  ∀ id n, nodes.lookup id = some n → n.id = id

theorem KeyedById.insert {nodes : HashMap String NodeInfo} (h : KeyedById nodes) (n : NodeInfo) :
    KeyedById (nodes.insert n.id n) := by
  intro id m hm
  rw [HashMap.lookup_insert_if] at hm
  split at hm
  case isTrue hid =>
    cases hm
    exact hid.symm
  case isFalse => exact h id m hm

/-- The ids of the nodes are the keys of the map. -/
theorem KeyedById.map_id_values {nodes : HashMap String NodeInfo} (h : KeyedById nodes) :
    nodes.values.map NodeInfo.id = nodes.keys := by
  have hkeys : nodes.keys = nodes.entries.map Sigma.fst := rfl
  rw [HashMap.values, List.map_map, hkeys]
  exact List.map_congr_left fun e he => h e.1 e.2 (AList.mem_lookup_iff.mpr he)

/-- What the processes of the control plane share: the state, the pool and the gauge that a
health round sets. -/
structure Shared where
  app : AppState
  pool : NodeConnectionPool
  healthyNodesGauge : Nat

def Shared.init (selfUrl schedulingStrategy : String) : Shared :=
  ⟨.init selfUrl schedulingStrategy, .new, 0⟩

/-- What the world outside answers at one step.  A step reads the answers it needs. -/
structure Env where
  /-- The sub-second nanoseconds of the wall clock. -/
  seed : Nat := 0
  /-- How the RPC in flight ended. -/
  rpc : Except Status ExecuteTaskResponse := .error ⟨.unavailable, ""⟩
  /-- How the probe in flight ended, `none` for an error or a timeout. -/
  probe : Option HealthResponse := none
  /-- `Uuid::new_v4`. -/
  uuid : String := ""
  /-- The time a new registry entry records. -/
  createdAt : Nat := 0

end FerroEdge.ControlPlane
