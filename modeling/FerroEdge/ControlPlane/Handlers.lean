import FerroEdge.ControlPlane.Dispatch

/-!
# The HTTP handlers and the health check

The other code that works on the shared state: `resolve_task_inputs`, `submit_tasks_batch`,
`register_node`, `upload_module` and `get_module_bytes` of `api/handlers.rs`, and
`check_all_nodes` of `health.rs`.  They are cut at their `await`s as `dispatch_task` is.

A batch only reads the state.  It resolves an item and starts its dispatch before it looks at
the next one, and returns at the first item that does not resolve.
-/

namespace FerroEdge.ControlPlane

open Machine

/-! ## Submitting a task -/

/-- `SubmitTaskRequest`, and the items of a batch, which have the same fields. -/
structure SubmitTaskRequest where
  wasmBase64 : Option String
  moduleName : Option String
  moduleVersion : Option String
  functionName : String
  inputBase64 : String
  timeoutMs : Option UInt64
  memoryLimitMb : Option UInt64
deriving DecidableEq, Repr

/-- A task with the empty module and no input, for concrete runs. -/
def SubmitTaskRequest.sample : SubmitTaskRequest :=
  ⟨some "", none, none, "process", "", none, none⟩

/-- `resolve_task_inputs`. -/
def resolveTaskInputs (X : Externals) (st : AppState) (body : SubmitTaskRequest) :
    Except EdgeError (Bytes × WasmSource) :=
  match X.b64Decode body.inputBase64 with
  | .error e => .error (.invalidWasm e)
  | .ok input =>
      match body.moduleName, body.moduleVersion with
      | some name, some version =>
          match st.moduleRegistry.get name version with
          | none => .error (.taskNotFound s!"{name}:{version}")
          | some (entry, _) =>
              .ok (input, .moduleRef
                ⟨name, version, entry.hash, s!"{st.selfUrl}/modules/{name}/{version}"⟩)
      | _, _ =>
          match body.wasmBase64 with
          | none => .error (.invalidWasm "provide wasm_base64 or module_name+module_version")
          | some wasm =>
              match X.b64Decode wasm with
              | .error e => .error (.invalidWasm e)
              | .ok bytes => .ok (input, .wasmBytes bytes)

/-- What a request names as its source: a module of the registry if it gives a name and a version,
and the bytes that it carries otherwise. -/
inductive SubmitTaskRequest.Names (X : Externals) (st : AppState) (body : SubmitTaskRequest) :
    WasmSource → Prop where
  | module {name version : String} {entry : ModuleMetadata} {bytes : Bytes} :
      body.moduleName = some name → body.moduleVersion = some version →
      st.moduleRegistry.get name version = some (entry, bytes) →
      Names X st body (.moduleRef
        ⟨name, version, entry.hash, s!"{st.selfUrl}/modules/{name}/{version}"⟩)
  | bytes {wasm : String} {bytes : Bytes} :
      body.moduleName = none ∨ body.moduleVersion = none →
      body.wasmBase64 = some wasm → X.b64Decode wasm = .ok bytes →
      Names X st body (.wasmBytes bytes)

/-- A request resolves to its decoded input and the source that it names. -/
theorem resolveTaskInputs_ok {X : Externals} {st : AppState} {body : SubmitTaskRequest}
    {input : Bytes} {wasmSource : WasmSource}
    (h : resolveTaskInputs X st body = .ok (input, wasmSource)) :
    X.b64Decode body.inputBase64 = .ok input ∧ body.Names X st wasmSource := by
  unfold resolveTaskInputs at h
  split at h
  case h_1 => cases h
  case h_2 hinput =>
    split at h
    case h_1 hname hversion =>
      split at h
      case h_1 => cases h
      case h_2 hget =>
        cases h
        exact ⟨hinput, .module hname hversion hget⟩
    case h_2 hnot =>
      have hnone : body.moduleName = none ∨ body.moduleVersion = none := by
        cases hname : body.moduleName with
        | none => exact Or.inl rfl
        | some name =>
            cases hversion : body.moduleVersion with
            | none => exact Or.inr rfl
            | some version => exact absurd hversion (hnot name version hname)
      split at h
      case h_1 => cases h
      case h_2 hwasm =>
        split at h
        case h_1 => cases h
        case h_2 hbytes =>
          cases h
          exact ⟨hinput, .bytes hnone hwasm hbytes⟩

/-- A module that is named is in the registry, with the hash that the reference carries. -/
theorem SubmitTaskRequest.Names.get {X : Externals} {st : AppState} {body : SubmitTaskRequest}
    {ref : ModuleRef} (h : body.Names X st (.moduleRef ref)) :
    ∃ info bytes, st.moduleRegistry.get ref.name ref.version = some (info, bytes) ∧
      ref.hash = info.hash := by
  cases h with
  | module _ _ hget => exact ⟨_, _, hget, rfl⟩

/-- The module that a resolved task refers to is in the registry, with the hash it carries, and is
fetched from the control plane. -/
theorem resolveTaskInputs_moduleRef {X : Externals} {st : AppState} {body : SubmitTaskRequest}
    {input : Bytes} {ref : ModuleRef}
    (h : resolveTaskInputs X st body = .ok (input, .moduleRef ref)) :
    ∃ info bytes, st.moduleRegistry.get ref.name ref.version = some (info, bytes) ∧
      ref.hash = info.hash ∧
      ref.fetchUrl = s!"{st.selfUrl}/modules/{ref.name}/{ref.version}" := by
  cases (resolveTaskInputs_ok h).2 with
  | module _ _ hget => exact ⟨_, _, hget, rfl, rfl⟩

/-- `resolve_task_inputs` reads the registry, and takes the lock for it. -/
def SubmitTaskRequest.readsRegistry (X : Externals) (body : SubmitTaskRequest) : Bool :=
  (X.b64Decode body.inputBase64).isOk && body.moduleName.isSome && body.moduleVersion.isSome

/-- The arguments the handlers pass to `dispatch_task`. -/
def SubmitTaskRequest.spec (body : SubmitTaskRequest) (taskId traceId : String) (input : Bytes)
    (wasmSource : WasmSource) : TaskSpec where
  taskId := taskId
  traceId := traceId
  input := input
  wasmSource := wasmSource
  functionName := body.functionName
  timeoutMs := body.timeoutMs.getD 5000
  memoryLimitMb := body.memoryLimitMb.getD 64

/-- The task is what the request asks for, with the registry as it is in `st`. -/
structure TaskOf (X : Externals) (st : AppState) (traceId : String) (body : SubmitTaskRequest)
    (spec : TaskSpec) : Prop where
  input : X.b64Decode body.inputBase64 = .ok spec.input
  source : body.Names X st spec.wasmSource
  functionName : spec.functionName = body.functionName
  timeoutMs : spec.timeoutMs = body.timeoutMs.getD 5000
  memoryLimitMb : spec.memoryLimitMb = body.memoryLimitMb.getD 64
  traceId : spec.traceId = traceId

/-- The task of a request that resolves. -/
theorem TaskOf.of_resolve {X : Externals} {st : AppState} {body : SubmitTaskRequest}
    {taskId traceId : String} {input : Bytes} {wasmSource : WasmSource}
    (h : resolveTaskInputs X st body = .ok (input, wasmSource)) :
    TaskOf X st traceId body (body.spec taskId traceId input wasmSource) := by
  obtain ⟨hinput, hsource⟩ := resolveTaskInputs_ok h
  exact ⟨hinput, hsource, rfl, rfl, rfl, rfl⟩

theorem TaskOf.eq_spec {X : Externals} {st : AppState} {body : SubmitTaskRequest} {traceId : String}
    {spec : TaskSpec} (h : TaskOf X st traceId body spec) :
    spec = body.spec spec.taskId traceId spec.input spec.wasmSource := by
  obtain ⟨-, -, hfunction, htimeout, hmemory, htrace⟩ := h
  cases spec
  cases hfunction
  cases htimeout
  cases hmemory
  cases htrace
  rfl

/-! ## Batches -/

inductive BatchPc where
  | start
  /-- The `for` loop, with the items left. -/
  | resolving (items : List SubmitTaskRequest)
  | returned (result : Except EdgeError (List String))
deriving DecidableEq

/-- A run of `submit_tasks_batch`.  `taskFutures` names the dispatches it has spawned. -/
structure BatchRun where
  traceId : String
  tasks : List SubmitTaskRequest
  taskFutures : List Nat
  pc : BatchPc
deriving DecidableEq

def BatchRun.new (traceId : String) (tasks : List SubmitTaskRequest) : BatchRun :=
  ⟨traceId, tasks, [], .start⟩

/-- One step of a batch, with the dispatch it spawns.  `result j` is what the process `j` has
returned, `slot` the name of the next process, and `fresh` says that an id is unused. -/
def BatchRun.step (X : Externals) (env : Env) (st : AppState) (result : Nat → Option String)
    (slot : Nat) (fresh : String → Bool) (b : BatchRun) : Option (BatchRun × Option DispatchRun) :=
  match b.pc with
  | .start =>
      if b.tasks.isEmpty then some ({ b with pc := .returned (.ok []) }, none)
      else if 100 < b.tasks.length then
        some ({ b with
          pc := .returned (.error (.invalidWasm "batch limit is 100 tasks per request")) }, none)
      else some ({ b with pc := .resolving b.tasks }, none)
  | .resolving (item :: items) =>
      match resolveTaskInputs X st item with
      | .error e => some ({ b with pc := .returned (.error e) }, none)
      | .ok (input, wasmSource) =>
          if fresh env.uuid then
            some ({ b with taskFutures := b.taskFutures ++ [slot], pc := .resolving items },
              some (.new (item.spec env.uuid b.traceId input wasmSource)))
          else none
  | .resolving [] =>
      -- `join_all`: enabled when every dispatch has returned.
      (b.taskFutures.mapM result).map fun ids => ({ b with pc := .returned (.ok ids) }, none)
  | .returned _ => none

/-! ## Registration and upload -/

structure RegisterNodeRequest where
  nodeId : String
  address : String
  httpAddress : Option String
  maxConcurrentTasks : Option Nat
deriving DecidableEq, Repr

/-- A registration with the defaults, for concrete runs. -/
def RegisterNodeRequest.sample (nodeId address : String) : RegisterNodeRequest :=
  ⟨nodeId, address, none, none⟩

/-- The `NodeInfo` that `register_node` inserts. -/
def RegisterNodeRequest.node (body : RegisterNodeRequest) : NodeInfo where
  id := body.nodeId
  address := body.address
  httpAddress := body.httpAddress.getD ""
  activeTasks := 0
  healthy := true
  maxConcurrentTasks := body.maxConcurrentTasks.getD 10

structure UploadModuleRequest where
  name : String
  version : String
  wasmBase64 : String
deriving DecidableEq, Repr

/-- A run of `upload_module`.  It returns the id of the module and the addresses of the nodes
that are told about it, which no state of the control plane depends on. -/
inductive UploadRun where
  | start (body : UploadModuleRequest)
  | store (body : UploadModuleRequest) (bytes : Bytes)
  | collect (moduleId : String)
  | returned (result : Except EdgeError (String × List String))

/-- The HTTP addresses of the healthy nodes that have one. -/
def warmAddresses (st : AppState) : List String :=
  (st.nodes.values.filter fun n => n.healthy && !n.httpAddress.isEmpty).map NodeInfo.httpAddress

def UploadRun.step (X : Externals) (env : Env) (st : AppState) :
    UploadRun → Option (AppState × UploadRun)
  | .start body =>
      match X.b64Decode body.wasmBase64 with
      | .error e => some (st, .returned (.error (.invalidWasm e)))
      | .ok bytes => some (st, .store body bytes)
  | .store body bytes =>
      match st.moduleRegistry.store X env.uuid env.createdAt body.name body.version bytes with
      | (.error e, reg) =>
          some ({ st with moduleRegistry := reg }, .returned (.error (.invalidWasm e.display)))
      | (.ok entry, reg) => some ({ st with moduleRegistry := reg }, .collect entry.id)
  | .collect moduleId => some (st, .returned (.ok (moduleId, warmAddresses st)))
  | .returned _ => none

/-- `get_module_bytes`: the body it answers with. -/
def getModuleBytes (st : AppState) (name version : String) : Except EdgeError Bytes :=
  match st.moduleRegistry.get name version with
  | none => .error (.taskNotFound s!"{name}:{version}")
  | some (_, bytes) => .ok bytes

/-! ## Health rounds -/

/-- A run of `check_all_nodes`. -/
inductive HealthRound where
  | snapshot
  /-- The `for` loop: the `(id, address)` pairs left and the healthy nodes so far. -/
  | probe (nodes : List (String × String)) (healthyCount : Nat)
  | write (nodeId address : String) (outcome : Option HealthResponse)
      (nodes : List (String × String)) (healthyCount : Nat)
  | done
deriving DecidableEq, Repr

/-- What a probe writes into the entry of its node. -/
def NodeInfo.probed (outcome : Option HealthResponse) (n : NodeInfo) : NodeInfo :=
  match outcome with
  | some resp => { n with healthy := true, activeTasks := resp.activeTasks.toNat }
  | none => { n with healthy := false }

def HealthRound.step (env : Env) (sh : Shared) : HealthRound → Option (Shared × HealthRound)
  | .snapshot => some (sh, .probe (sh.app.nodes.values.map fun n => (n.id, n.address)) 0)
  | .probe ((nodeId, address) :: nodes) count =>
      some (sh, .write nodeId address env.probe nodes count)
  | .write nodeId _ outcome nodes count =>
      some ({ sh with app.nodes := sh.app.nodes.modify nodeId (NodeInfo.probed outcome) },
        .probe nodes (if outcome.isSome then count + 1 else count))
  | .probe [] count => some ({ sh with healthyNodesGauge := count }, .done)
  | .done => none

end FerroEdge.ControlPlane
