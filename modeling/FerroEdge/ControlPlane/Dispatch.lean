import FerroEdge.ControlPlane.Scheduler

/-!
# Dispatching a task

`dispatch_task` of `api/handlers.rs`, with `grpc_execute` inlined.  A run is cut where other
tasks can run in between: at every `await`.  What lies between two of them is one step, so
each acquisition of the state lock, the lock of the pool, the RPC and every sleep is a value
of `DispatchPc`.  The two guards of

  `state.write().await.queued = state.read().await.queued.saturating_sub(1)`

are taken one after the other, the right operand first.  `dequeueRead` and `dequeueWrite` are
its two halves, and the second writes back what the first has read.

Times are in nanoseconds.  A sleep is over when the clock has reached its end.
-/

namespace FerroEdge.ControlPlane

open Machine

/-- The arguments of `dispatch_task`. -/
structure TaskSpec where
  taskId : String
  traceId : String
  input : Bytes
  wasmSource : WasmSource
  functionName : String
  timeoutMs : UInt64
  memoryLimitMb : UInt64
deriving DecidableEq, Repr

/-- The request sent for a task. -/
def TaskSpec.request (spec : TaskSpec) : ExecuteTaskRequest where
  taskId := spec.taskId
  functionName := spec.functionName
  input := spec.input
  timeoutMs := spec.timeoutMs
  memoryLimitMb := spec.memoryLimitMb
  traceId := spec.traceId
  wasmSource := some spec.wasmSource

/-- `RetryConfig::default().max_attempts`. -/
def maxAttempts : Nat := 3

/-- `RetryConfig::default().backoff_ms`, in nanoseconds. -/
def backoff : Nat := 500 * 10 ^ 6

/-- `MAX_CAPACITY_WAITS`. -/
def maxCapacityWaits : Nat := 30

/-- Where a run of `dispatch_task` is: the step it takes next. -/
inductive DispatchPc where
  | submit
  | select
  | giveUp
  | enqueue
  | queueSleep (wake : Nat)
  | dequeueRead
  | dequeueWrite (queued : Nat)
  | countRetry (node : NodeInfo)
  | clonePool (node : NodeInfo)
  | lockPool (node : NodeInfo)
  /-- The RPC is on its way to `node`, over the channel `client`. -/
  | inFlight (node : NodeInfo) (client : Channel)
  | recordSuccess (node : NodeInfo) (resp : ExecuteTaskResponse)
  | storeSuccess (node : NodeInfo) (resp : ExecuteTaskResponse)
  | recordFailure (node : NodeInfo)
  | backoff (wake : Nat)
  | capacitySleep (wake : Nat)
  | exhausted
  /-- The run has returned its task id. -/
  | done
deriving DecidableEq, Repr

/-- A run of `dispatch_task`: its arguments and its local variables. -/
structure DispatchRun where
  spec : TaskSpec
  triedNodes : List String
  lastError : String
  noNodeCount : Nat
  capacityWaits : Nat
  errorRetries : Nat
  pc : DispatchPc
deriving DecidableEq, Repr

namespace DispatchRun

def new (spec : TaskSpec) : DispatchRun where
  spec := spec
  triedNodes := []
  lastError := ""
  noNodeCount := 0
  capacityWaits := 0
  errorRetries := 0
  pc := .submit

/-- The answer of the scheduler. -/
def onSelect (r : DispatchRun) : Option NodeInfo → DispatchRun
  | some node =>
      if 0 < r.errorRetries then { r with pc := .countRetry node }
      else { r with pc := .clonePool node }
  | none =>
      let r := { r with noNodeCount := r.noNodeCount + 1 }
      if 3 < r.noNodeCount then { r with lastError := "no nodes available", pc := .giveUp }
      else { r with pc := .enqueue }

/-- The node has failed the task: the common part of the two failure arms. -/
def onFailure (node : NodeInfo) (error : String) (r : DispatchRun) : DispatchRun :=
  { r with
    lastError := error
    triedNodes := node.id :: r.triedNodes
    pc := .recordFailure node }

/-- `match result`: what the run does with the answer of `grpc_execute`. -/
def onResult (X : Externals) (now : Nat) (node : NodeInfo)
    (result : Except Status ExecuteTaskResponse) (r : DispatchRun) : DispatchRun :=
  match result with
  | .ok resp =>
      if resp.success then { r with pc := .recordSuccess node resp }
      else r.onFailure node resp.error
  | .error status =>
      if status.code = .resourceExhausted then
        let r := { r with capacityWaits := r.capacityWaits + 1 }
        if maxCapacityWaits < r.capacityWaits then
          { r with lastError := "all nodes persistently at capacity", pc := .exhausted }
        else { r with pc := .capacitySleep (now + 100 * 10 ^ 6) }
      else r.onFailure node (X.statusText status)

/-- After `record_failure`: another attempt, or none is left. -/
def afterFailure (now : Nat) (r : DispatchRun) : DispatchRun :=
  let r := { r with errorRetries := r.errorRetries + 1 }
  if maxAttempts ≤ r.errorRetries then { r with pc := .exhausted }
  else { r with pc := .backoff (now + ControlPlane.backoff) }

/-- The result stored when the task has failed. -/
def failedResult (error : String) (r : DispatchRun) : TaskResult where
  taskId := r.spec.taskId
  nodeId := "none"
  success := false
  output := []
  executionTimeMs := 0
  error := some error

/-- The result stored when `node` has answered `resp`. -/
def successResult (node : NodeInfo) (resp : ExecuteTaskResponse) (r : DispatchRun) :
    TaskResult where
  taskId := r.spec.taskId
  nodeId := node.id
  success := true
  output := resp.output
  executionTimeMs := resp.executionTimeMs
  error := none

/-- One step of `dispatch_task` at time `now`, `none` while the run sleeps or has returned. -/
def step (X : Externals) (now : Nat) (env : Env) (sh : Shared) (r : DispatchRun) :
    Option (Shared × DispatchRun) :=
  match r.pc with
  | .submit =>
      some ({ sh with app.totalSubmitted := sh.app.totalSubmitted + 1 }, { r with pc := .select })
  | .select =>
      let selected := selectNodeForTask now env.seed r.triedNodes sh.app
      some ({ sh with app := selected.1 }, r.onSelect selected.2)
  | .giveUp =>
      let app := { sh.app with
        totalFailed := sh.app.totalFailed + 1
        tasks := sh.app.tasks.insert r.spec.taskId (r.failedResult r.lastError) }
      some ({ sh with app := app }, { r with pc := .done })
  | .enqueue =>
      some ({ sh with app.queued := sh.app.queued + 1 },
        { r with pc := .queueSleep (now + 10 ^ 9) })
  | .queueSleep wake => if wake ≤ now then some (sh, { r with pc := .dequeueRead }) else none
  | .dequeueRead => some (sh, { r with pc := .dequeueWrite (sh.app.queued - 1) })
  | .dequeueWrite queued => some ({ sh with app.queued := queued }, { r with pc := .select })
  | .countRetry node =>
      some ({ sh with app.totalRetried := sh.app.totalRetried + 1 },
        { r with pc := .clonePool node })
  | .clonePool node => some (sh, { r with pc := .lockPool node })
  | .lockPool node =>
      match sh.pool.getOrCreate X node.id node.address with
      | (.ok client, pool) =>
          some ({ sh with pool := pool }, { r with pc := .inFlight node client })
      | (.error status, pool) =>
          some ({ sh with pool := pool }, r.onResult X now node (.error status))
  | .inFlight node _ => some (sh, r.onResult X now node env.rpc)
  | .recordSuccess node resp =>
      some ({ sh with app.circuitBreakers :=
        sh.app.circuitBreakers.upsert node.id .default .recordSuccess },
        { r with pc := .storeSuccess node resp })
  | .storeSuccess node resp =>
      let app := { sh.app with
        tasks := sh.app.tasks.insert r.spec.taskId (r.successResult node resp)
        totalSuccess := sh.app.totalSuccess + 1 }
      some ({ sh with app := app }, { r with pc := .done })
  | .recordFailure node =>
      some ({ sh with app.circuitBreakers :=
        sh.app.circuitBreakers.upsert node.id .default (.recordFailure now) }, r.afterFailure now)
  | .backoff wake => if wake ≤ now then some (sh, { r with pc := .select }) else none
  | .capacitySleep wake => if wake ≤ now then some (sh, { r with pc := .select }) else none
  | .exhausted =>
      let app := { sh.app with
        tasks := sh.app.tasks.insert r.spec.taskId
          (r.failedResult s!"All nodes failed: {r.lastError}")
        totalFailed := sh.app.totalFailed + 1 }
      some ({ sh with app := app }, { r with pc := .done })
  | .done => none

/-! ## What a step can be -/

/-- The steps of a run by what they do. -/
inductive Step (X : Externals) (now : Nat) (env : Env) (sh : Shared) (r : DispatchRun) :
    Shared → DispatchRun → Prop where
  | submit :
      r.pc = .submit →
      Step X now env sh r { sh with app.totalSubmitted := sh.app.totalSubmitted + 1 }
        { r with pc := .select }
  | select :
      r.pc = .select →
      Step X now env sh r
        { sh with app := (selectNodeForTask now env.seed r.triedNodes sh.app).1 }
        (r.onSelect (selectNodeForTask now env.seed r.triedNodes sh.app).2)
  | enqueue :
      r.pc = .enqueue →
      Step X now env sh r { sh with app.queued := sh.app.queued + 1 }
        { r with pc := .queueSleep (now + 10 ^ 9) }
  | endQueueSleep {wake : Nat} :
      r.pc = .queueSleep wake → wake ≤ now → Step X now env sh r sh { r with pc := .dequeueRead }
  | dequeueRead :
      r.pc = .dequeueRead →
      Step X now env sh r sh { r with pc := .dequeueWrite (sh.app.queued - 1) }
  | dequeueWrite {queued : Nat} :
      r.pc = .dequeueWrite queued →
      Step X now env sh r { sh with app.queued := queued } { r with pc := .select }
  | countRetry {node : NodeInfo} :
      r.pc = .countRetry node →
      Step X now env sh r { sh with app.totalRetried := sh.app.totalRetried + 1 }
        { r with pc := .clonePool node }
  | clonePool {node : NodeInfo} :
      r.pc = .clonePool node → Step X now env sh r sh { r with pc := .lockPool node }
  | channel {node : NodeInfo} {client : Channel} {pool : NodeConnectionPool} :
      r.pc = .lockPool node → sh.pool.getOrCreate X node.id node.address = (.ok client, pool) →
      Step X now env sh r { sh with pool := pool } { r with pc := .inFlight node client }
  | noChannel {node : NodeInfo} {status : Status} {pool : NodeConnectionPool} :
      r.pc = .lockPool node → sh.pool.getOrCreate X node.id node.address = (.error status, pool) →
      Step X now env sh r { sh with pool := pool } (r.onResult X now node (.error status))
  | answer {node : NodeInfo} {client : Channel} :
      r.pc = .inFlight node client → Step X now env sh r sh (r.onResult X now node env.rpc)
  | recordSuccess {node : NodeInfo} {resp : ExecuteTaskResponse} :
      r.pc = .recordSuccess node resp →
      Step X now env sh r { sh with app.circuitBreakers :=
        sh.app.circuitBreakers.upsert node.id .default .recordSuccess }
        { r with pc := .storeSuccess node resp }
  | recordFailure {node : NodeInfo} :
      r.pc = .recordFailure node →
      Step X now env sh r { sh with app.circuitBreakers :=
        sh.app.circuitBreakers.upsert node.id .default (.recordFailure now) } (r.afterFailure now)
  | endSleep {wake : Nat} :
      (r.pc = .backoff wake ∨ r.pc = .capacitySleep wake) → wake ≤ now →
      Step X now env sh r sh { r with pc := .select }
  | storeSuccess {node : NodeInfo} {resp : ExecuteTaskResponse} :
      r.pc = .storeSuccess node resp →
      Step X now env sh r { sh with
          app.tasks := sh.app.tasks.insert r.spec.taskId (r.successResult node resp)
          app.totalSuccess := sh.app.totalSuccess + 1 }
        { r with pc := .done }
  | storeFailure {error : String} :
      (r.pc = .giveUp ∧ error = r.lastError ∨
        r.pc = .exhausted ∧ error = s!"All nodes failed: {r.lastError}") →
      Step X now env sh r { sh with
          app.tasks := sh.app.tasks.insert r.spec.taskId (r.failedResult error)
          app.totalFailed := sh.app.totalFailed + 1 }
        { r with pc := .done }

variable {X : Externals} {now : Nat} {env : Env} {sh sh' : Shared} {r r' : DispatchRun}

theorem step_inv (h : r.step X now env sh = some (sh', r')) : Step X now env sh r sh' r' := by
  unfold step at h
  split at h
  case h_1 hpc => cases h; exact .submit hpc
  case h_2 hpc => cases h; exact .select hpc
  case h_3 hpc => cases h; exact .storeFailure (.inl ⟨hpc, rfl⟩)
  case h_4 hpc => cases h; exact .enqueue hpc
  case h_5 wake hpc =>
    split at h <;> cases h
    case isTrue hw => exact .endQueueSleep hpc hw
  case h_6 hpc => cases h; exact .dequeueRead hpc
  case h_7 hpc => cases h; exact .dequeueWrite hpc
  case h_8 hpc => cases h; exact .countRetry hpc
  case h_9 hpc => cases h; exact .clonePool hpc
  case h_10 node hpc =>
    split at h <;> cases h
    case h_1 hget => exact .channel hpc hget
    case h_2 hget => exact .noChannel hpc hget
  case h_11 hpc => cases h; exact .answer hpc
  case h_12 hpc => cases h; exact .recordSuccess hpc
  case h_13 hpc => cases h; exact .storeSuccess hpc
  case h_14 hpc => cases h; exact .recordFailure hpc
  case h_15 hpc =>
    split at h <;> cases h
    case isTrue hw => exact .endSleep (.inl hpc) hw
  case h_16 hpc =>
    split at h <;> cases h
    case isTrue hw => exact .endSleep (.inr hpc) hw
  case h_17 hpc => cases h; exact .storeFailure (.inr ⟨hpc, rfl⟩)
  case h_18 => cases h

/-! ## Where a run goes on -/

theorem onSelect_some (r : DispatchRun) (node : NodeInfo) :
    r.onSelect (some node) = { r with pc := .countRetry node } ∨
    r.onSelect (some node) = { r with pc := .clonePool node } := by
  rw [onSelect]
  split
  · exact Or.inl rfl
  · exact Or.inr rfl

theorem onSelect_none (r : DispatchRun) :
    (∃ count error, r.onSelect none =
      { r with noNodeCount := count, lastError := error, pc := .giveUp }) ∨
    (∃ count, r.onSelect none = { r with noNodeCount := count, pc := .enqueue }) := by
  rw [onSelect]
  dsimp only
  split
  · exact Or.inl ⟨_, _, rfl⟩
  · exact Or.inr ⟨_, rfl⟩

/-- A run goes on with the node it was given, or gives up or waits for one. -/
theorem onSelect_pc (r : DispatchRun) (selected : Option NodeInfo) :
    (∃ node, selected = some node ∧
      ((r.onSelect selected).pc = .countRetry node ∨ (r.onSelect selected).pc = .clonePool node)) ∨
    (r.onSelect selected).pc = .giveUp ∨ (r.onSelect selected).pc = .enqueue := by
  cases selected with
  | some node =>
      obtain h | h := onSelect_some r node <;> rw [h]
      · exact Or.inl ⟨node, rfl, Or.inl rfl⟩
      · exact Or.inl ⟨node, rfl, Or.inr rfl⟩
  | none =>
      obtain ⟨_, _, h⟩ | ⟨_, h⟩ := onSelect_none r <;> rw [h]
      · exact Or.inr (Or.inl rfl)
      · exact Or.inr (Or.inr rfl)

theorem onResult_cases (X : Externals) (now : Nat) (node : NodeInfo)
    (result : Except Status ExecuteTaskResponse) (r : DispatchRun) :
    (∃ resp, result = .ok resp ∧ resp.success = true ∧
      r.onResult X now node result = { r with pc := .recordSuccess node resp }) ∨
    (∃ error, r.onResult X now node result = r.onFailure node error) ∨
    (∃ waits error, r.onResult X now node result =
      { r with capacityWaits := waits, lastError := error, pc := .exhausted }) ∨
    (∃ waits wake, r.onResult X now node result =
      { r with capacityWaits := waits, pc := .capacitySleep wake }) := by
  unfold onResult
  split
  case h_1 resp =>
    split
    case isTrue hs => exact Or.inl ⟨resp, rfl, hs, rfl⟩
    case isFalse => exact Or.inr (Or.inl ⟨resp.error, rfl⟩)
  case h_2 status =>
    split
    · dsimp only
      split
      · exact Or.inr (Or.inr (Or.inl ⟨_, _, rfl⟩))
      · exact Or.inr (Or.inr (Or.inr ⟨_, _, rfl⟩))
    · exact Or.inr (Or.inl ⟨_, rfl⟩)

theorem afterFailure_cases (now : Nat) (r : DispatchRun) :
    (∃ retries, r.afterFailure now = { r with errorRetries := retries, pc := .exhausted }) ∨
    (∃ retries wake,
      r.afterFailure now = { r with errorRetries := retries, pc := .backoff wake }) := by
  unfold afterFailure
  dsimp only
  split
  · exact Or.inl ⟨_, rfl⟩
  · exact Or.inr ⟨_, _, rfl⟩

/-! ## What a step leaves alone -/

theorem onSelect_spec (r : DispatchRun) (selected : Option NodeInfo) :
    (r.onSelect selected).spec = r.spec := by
  cases selected with
  | some node =>
      obtain h | h := onSelect_some r node <;> rw [h]
  | none =>
      obtain ⟨_, _, h⟩ | ⟨_, h⟩ := onSelect_none r <;> rw [h]

theorem onResult_spec (X : Externals) (now : Nat) (node : NodeInfo)
    (result : Except Status ExecuteTaskResponse) (r : DispatchRun) :
    (r.onResult X now node result).spec = r.spec := by
  obtain ⟨_, _, _, h⟩ | ⟨_, h⟩ | ⟨_, _, h⟩ | ⟨_, _, h⟩ := onResult_cases X now node result r
  all_goals
    rw [h]
    try rfl

theorem afterFailure_spec (now : Nat) (r : DispatchRun) : (r.afterFailure now).spec = r.spec := by
  obtain ⟨_, h⟩ | ⟨_, _, h⟩ := afterFailure_cases now r <;> rw [h]

/-- A run keeps its arguments. -/
theorem step_spec (h : r.step X now env sh = some (sh', r')) : r'.spec = r.spec := by
  cases step_inv h with
  | select => exact onSelect_spec ..
  | noChannel => exact onResult_spec ..
  | answer => exact onResult_spec ..
  | recordFailure => exact afterFailure_spec ..
  | _ => rfl

/-- A run leaves the registered nodes and the modules alone. -/
theorem step_frame (h : r.step X now env sh = some (sh', r')) :
    sh'.app.nodes = sh.app.nodes ∧ sh'.app.moduleRegistry = sh.app.moduleRegistry := by
  cases step_inv h with
  | select =>
      obtain ⟨k, hk⟩ := selectNodeForTask_fst now env.seed r.triedNodes sh.app
      dsimp only
      rw [hk]
      exact ⟨rfl, rfl⟩
  | _ => exact ⟨rfl, rfl⟩

theorem step_nodes (h : r.step X now env sh = some (sh', r')) :
    sh'.app.nodes = sh.app.nodes := (step_frame h).1

theorem step_moduleRegistry (h : r.step X now env sh = some (sh', r')) :
    sh'.app.moduleRegistry = sh.app.moduleRegistry := (step_frame h).2

theorem step_healthyNodesGauge (h : r.step X now env sh = some (sh', r')) :
    sh'.healthyNodesGauge = sh.healthyNodesGauge := by
  cases step_inv h <;> rfl

end DispatchRun

end FerroEdge.ControlPlane
