import FerroEdge.Machine.Base64
import FerroEdge.WasmRuntime.Types

/-!
# Types shared by the services

The types of `crates/common` and the messages of `crates/proto`.  A `tonic::Status` is its
code and message.  What third-party code computes from such values is collected in
`Externals`, a parameter of everything that uses it.
-/

namespace FerroEdge

/-! ## Domain types -/

/-- `NodeInfo`: a node registered in the control plane. -/
structure NodeInfo where
  id : String
  /-- gRPC address. -/
  address : String
  /-- HTTP admin address, used for cache pre-warming. -/
  httpAddress : String
  activeTasks : Nat
  healthy : Bool
  maxConcurrentTasks : Nat
deriving DecidableEq, Repr

/-- `TaskResult`: what the control plane stores for a finished task. -/
structure TaskResult where
  taskId : String
  nodeId : String
  success : Bool
  output : Bytes
  executionTimeMs : UInt64
  error : Option String
deriving DecidableEq, Repr

/-- `ModuleMetadata`. -/
structure ModuleMetadata where
  id : String
  name : String
  version : String
  sizeBytes : Nat
  createdAt : Nat
  /-- SHA-256 hex digest of the bytes. -/
  hash : String
deriving DecidableEq, Repr

/-- `RegistryError`, the one variant that `store` returns. -/
inductive RegistryError where
  | alreadyExists (name version : String)
deriving DecidableEq, Repr

def RegistryError.display : RegistryError → String
  | .alreadyExists name version => s!"module '{name}' version '{version}' already exists"

/-- `EdgeError`, the variants that the handlers return. -/
inductive EdgeError where
  | taskNotFound (msg : String)
  | invalidWasm (msg : String)
deriving DecidableEq, Repr

/-! ## Messages -/

/-- `ModuleRef`: a reference to a module of the registry. -/
structure ModuleRef where
  name : String
  version : String
  /-- SHA-256 hex of the bytes. -/
  hash : String
  fetchUrl : String
deriving DecidableEq, Repr

/-- The `wasm_source` of a request. -/
inductive WasmSource where
  | wasmBytes (bytes : Bytes)
  | moduleRef (ref : ModuleRef)
deriving DecidableEq, Repr

/-- `ExecuteTaskRequest`.  The source is optional on the wire. -/
structure ExecuteTaskRequest where
  taskId : String
  functionName : String
  input : Bytes
  timeoutMs : UInt64
  memoryLimitMb : UInt64
  traceId : String
  wasmSource : Option WasmSource
deriving DecidableEq, Repr

/-- A request for concrete runs. -/
def ExecuteTaskRequest.sample (source : WasmSource) : ExecuteTaskRequest :=
  ⟨"t", "process", [], 0, 0, "", some source⟩

/-- `ExecuteTaskResponse`. -/
structure ExecuteTaskResponse where
  taskId : String
  success : Bool
  output : Bytes
  executionTimeMs : UInt64
  error : String
deriving DecidableEq, Repr

/-- `HealthResponse`. -/
structure HealthResponse where
  nodeId : String
  activeTasks : UInt32
  ready : Bool
deriving DecidableEq, Repr

/-- The codes of a `tonic::Status`. -/
inductive Code where
  | ok | cancelled | unknown | invalidArgument | deadlineExceeded | notFound | alreadyExists
  | permissionDenied | resourceExhausted | failedPrecondition | aborted | outOfRange
  | unimplemented | internal | unavailable | dataLoss | unauthenticated
deriving DecidableEq, Repr

/-- `tonic::Status`. -/
structure Status where
  code : Code
  message : String
deriving DecidableEq, Repr

/-! ## Third-party code -/

/-- The functions of third-party crates whose results the services use. -/
structure Externals where
  /-- Base64 decoding, with the text of the error. -/
  b64Decode : String → Except String Bytes
  /-- `hex::encode(Sha256::digest(bytes))`. -/
  hexSha256 : Bytes → String
  /-- `Channel::from_shared`: the text of the error when the address is not a URI. -/
  fromShared : String → Except String Unit
  /-- `Status::to_string`. -/
  statusText : Status → String
  /-- `wasmtime::Module::new`: the text of the error when the bytes do not compile. -/
  compile : Bytes → Except String Unit
  /-- `wasmtime::Module::validate`, which does not take the text format that `Module::new`
  compiles with the default features of the crate. -/
  validate : Bytes → Except String Unit

/-- Third-party code for concrete runs: only the empty text decodes, every address is a URI, and
every module compiles but the one-byte ones.  Of these, what starts with a bracket is text. -/
def Externals.sample : Externals where
  b64Decode text := if text.isEmpty then .ok [] else .error "invalid base64"
  hexSha256 bytes := if bytes.isEmpty then "e3b0" else "ffff"
  fromShared _ := .ok ()
  statusText status := status.message
  compile bytes := if bytes.length = 1 then .error "unexpected end" else .ok ()
  validate bytes :=
    if bytes.length = 1 then .error "unexpected end"
    else if bytes.head? = some 40 then .error "magic header not detected"
    else .ok ()

/-- The same with Base64. -/
def Externals.base64 : Externals :=
  { Externals.sample with
    b64Decode := fun text =>
      match Machine.Base64.decode text with
      | some bytes => .ok bytes
      | none => .error "invalid base64" }

end FerroEdge
