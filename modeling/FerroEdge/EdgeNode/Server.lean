import FerroEdge.WasmRuntime.Cache

/-!
# The requests of an edge node

`services/edge-node`: `execute_task` of `server/grpc.rs` and `warm_cache_handler` of
`metrics.rs`, each as a process that takes one step from one `await` to the next.  Between
two `await`s nothing else runs on the data of a guard, so what is done there is one step.
`health` reads the state under one guard.

`execute_task` leaves in six ways.  Without a permit it returns at once.  With one it counts
itself as active and then either reaches the end, fails a check and undoes the count, or
leaves through one of two `?` operators, after the download and after the compilation.
-/

namespace FerroEdge.EdgeNode

open WasmRuntime

/-! ## The node -/

/-- The counters are `u64` in the source.  Here they do not wrap, which they would after 2^64 tasks
or as many milliseconds of execution. -/
structure NodeState where
  nodeId : String
  /-- Number of tasks currently executing. -/
  activeTasks : Nat := 0
  totalExecuted : Nat := 0
  totalFailed : Nat := 0
  /-- Sum of execution times for completed tasks. -/
  totalExecutionTimeMs : Nat := 0

/-- What the requests of one node share. -/
structure Node where
  state : NodeState
  /-- `ACTIVE_TASKS_GAUGE` of the node. -/
  activeTasksGauge : Int := 0
  /-- The permits left in the semaphore. -/
  permits : Nat
  moduleCache : CacheInner
  /-- The time after which an entry of the cache has expired. -/
  cacheTtl : Nat
  /-- `CACHE_SIZE_GAUGE`. -/
  cacheSizeGauge : Nat := 0

namespace Node

/-- The node as `main` sets it up. -/
def init (nodeId : String) (maxConcurrentTasks cacheMaxSize cacheTtl : Nat) : Node where
  state := { nodeId }
  permits := maxConcurrentTasks
  moduleCache := .new cacheMaxSize
  cacheTtl := cacheTtl

/-- The permit is dropped when the handler returns. -/
def release (node : Node) : Node := { node with permits := node.permits + 1 }

def countActive (node : Node) : Node :=
  { node with
    state.activeTasks := node.state.activeTasks + 1
    activeTasksGauge := node.activeTasksGauge + 1 }

def countExecuted (node : Node) (r : ExecutionResult) : Node :=
  { node with
    state.activeTasks := node.state.activeTasks - 1
    state.totalExecuted := node.state.totalExecuted + 1
    state.totalExecutionTimeMs := node.state.totalExecutionTimeMs + r.executionTimeMs.toNat
    activeTasksGauge := node.activeTasksGauge - 1 }

def countFailed (node : Node) : Node :=
  { node with
    state.activeTasks := node.state.activeTasks - 1
    state.totalFailed := node.state.totalFailed + 1
    activeTasksGauge := node.activeTasksGauge - 1 }

/-- The update of the cache-size gauge from `stats`. -/
def syncCacheSize (node : Node) : Node :=
  { node with cacheSizeGauge := node.moduleCache.statsSnapshot.size }

/-- The answer to a health check. -/
def health (node : Node) : HealthResponse where
  nodeId := node.state.nodeId
  activeTasks := .ofNat node.state.activeTasks
  ready := true

end Node

/-- The cache key of a module, `"{name}:{version}"`. -/
def cacheKey (name version : String) : String := s!"{name}:{version}"

/-- `ModuleDownloader::verify_hash`. -/
def verifyHash (X : Externals) (bytes : Bytes) (expectedHash : String) : Bool :=
  X.hexSha256 bytes == expectedHash

/-- What the outside answers in one step: the control plane to a download, and the sandbox to
an execution. -/
structure Env where
  download : String → String → Except String Bytes := fun _ _ => .ok []
  execute : Bytes → ExecutionConfig → Bytes → Except WasmError ExecutionResult :=
    fun _ _ _ => .ok ⟨[], 0, 0⟩
  executeCompiled : Module → ExecutionConfig → Bytes → Except WasmError ExecutionResult :=
    fun _ _ _ => .ok ⟨[], 0, 0⟩

/-! ## `execute_task` -/

/-- The limits that `execute_task` passes to the sandbox. -/
def executionConfig (req : ExecuteTaskRequest) : ExecutionConfig where
  memoryLimitBytes := max req.memoryLimitMb 1 * 1024 * 1024
  timeoutMs := if req.timeoutMs = 0 then 5000 else req.timeoutMs
  functionName := req.functionName

/-- The answer to a request whose execution has ended. -/
def taskResponse (taskId : String) : Except WasmError ExecutionResult → ExecuteTaskResponse
  | .ok exec => ⟨taskId, true, exec.output, exec.executionTimeMs, ""⟩
  | .error e => ⟨taskId, false, [], 0, e.display⟩

inductive TaskPc where
  | acquire
  | increment
  | execute (bytes : Bytes)
  | getCached (ref : ModuleRef)
  | download (ref : ModuleRef)
  | getOrCompile (ref : ModuleRef) (wasm : Bytes) (g : GetOrCompile)
  | stats (ref : ModuleRef) (module : Module)
  | executeCompiled (ref : ModuleRef) (module : Module)
  /-- Before the lock under which an early return is counted as a failure. -/
  | fail (status : Status)
  /-- Before the lock under which the result is counted. -/
  | finish (result : Except WasmError ExecutionResult)
  /-- Returned without a permit. -/
  | refused (status : Status)
  /-- Returned after it had a permit. -/
  | returned (result : Except Status ExecuteTaskResponse)
deriving DecidableEq

/-- A run of `execute_task`. -/
structure TaskRun where
  req : ExecuteTaskRequest
  pc : TaskPc
deriving DecidableEq

namespace TaskPc

/-- Where a request goes after it has been counted. -/
def resolve (req : ExecuteTaskRequest) : TaskPc :=
  match req.wasmSource with
  | some (.wasmBytes bytes) => .execute bytes
  | some (.moduleRef ref) => .getCached ref
  | none => .fail ⟨.invalidArgument, "wasm_source must be set (wasm_bytes or module_ref)"⟩

/-- Where a request goes with the bytes it has downloaded. -/
def downloaded (X : Externals) (ref : ModuleRef) (wasm : Bytes) : TaskPc :=
  if !ref.hash.isEmpty && !verifyHash X wasm ref.hash then
    .fail ⟨.dataLoss, "module hash mismatch — possible tampering"⟩
  else .getOrCompile ref wasm .lookup

end TaskPc

namespace TaskRun

def atPc (r : TaskRun) (pc : TaskPc) : TaskRun := { r with pc := pc }

/-- The next step of a run. -/
def step (X : Externals) (now : Nat) (env : Env) (node : Node) (r : TaskRun) :
    Option (Node × TaskRun) :=
  match r.pc with
  | .acquire =>
      if node.permits = 0 then
        some (node, r.atPc (.refused
          ⟨.resourceExhausted, "node is at maximum concurrent task capacity"⟩))
      else some ({ node with permits := node.permits - 1 }, r.atPc .increment)
  | .increment => some (node.countActive, r.atPc (.resolve r.req))
  | .execute bytes =>
      some (node, r.atPc (.finish (env.execute bytes (executionConfig r.req) r.req.input)))
  | .getCached ref =>
      let (found, cache) :=
        node.moduleCache.getCached node.cacheTtl now (cacheKey ref.name ref.version)
      some ({ node with moduleCache := cache }, r.atPc (match found with
        | some module => .executeCompiled ref module
        | none => .download ref))
  | .download ref =>
      match env.download ref.name ref.version with
      -- The `?` returns without undoing the count.
      | .error e =>
          some (node.release, r.atPc (.returned
            (.error ⟨.internal, s!"module download failed: {e}"⟩)))
      | .ok wasm => some (node, r.atPc (.downloaded X ref wasm))
  | .getOrCompile ref wasm g =>
      let (cache, next) := g.step X node.cacheTtl now (cacheKey ref.name ref.version) wasm
        node.moduleCache
      let node := { node with moduleCache := cache }
      match next with
      | .inl g' => some (node, r.atPc (.getOrCompile ref wasm g'))
      -- Likewise.
      | .inr (.error e) =>
          some (node.release, r.atPc (.returned
            (.error ⟨.internal, s!"compilation failed: {e.display}"⟩)))
      | .inr (.ok module) => some (node, r.atPc (.stats ref module))
  | .stats ref module => some (node.syncCacheSize, r.atPc (.executeCompiled ref module))
  | .executeCompiled _ module =>
      some (node, r.atPc (.finish
        (env.executeCompiled module (executionConfig r.req) r.req.input)))
  | .fail status => some (node.countFailed.release, r.atPc (.returned (.error status)))
  | .finish result =>
      let node := match result with
        | .ok exec => node.countExecuted exec
        | .error _ => node.countFailed
      some (node.release, r.atPc (.returned (.ok (taskResponse r.req.taskId result))))
  | .refused _ | .returned _ => none

end TaskRun

/-! ## `warm_cache_handler` -/

structure WarmCacheRequest where
  name : String
  version : String
  wasmBytesBase64 : String

/-- The answers of the handler by their HTTP status. -/
inductive WarmReply where
  | ok (key : String)
  | badRequest (error : String)
  | internalServerError (error : String)

/-- A run of `warm_cache_handler`. -/
inductive WarmRun where
  | decode (body : WarmCacheRequest)
  | getOrCompile (key : String) (wasm : Bytes) (g : GetOrCompile)
  | stats (key : String)
  | returned (reply : WarmReply)

def WarmRun.step (X : Externals) (now : Nat) (node : Node) : WarmRun → Option (Node × WarmRun)
  | .decode body =>
      match X.b64Decode body.wasmBytesBase64 with
      | .error e => some (node, .returned (.badRequest s!"invalid base64: {e}"))
      | .ok wasm => some (node, .getOrCompile (cacheKey body.name body.version) wasm .lookup)
  | .getOrCompile key wasm g =>
      let (cache, next) := g.step X node.cacheTtl now key wasm node.moduleCache
      some ({ node with moduleCache := cache }, match next with
        | .inl g' => .getOrCompile key wasm g'
        | .inr (.error e) => .returned (.internalServerError e.display)
        | .inr (.ok _) => .stats key)
  | .stats key => some (node.syncCacheSize, .returned (.ok key))
  | .returned _ => none

end FerroEdge.EdgeNode
