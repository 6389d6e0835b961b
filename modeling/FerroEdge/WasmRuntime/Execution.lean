import FerroEdge.Common.Types
import FerroEdge.WasmRuntime.Sandbox

/-!
# The two entries of the sandbox

`WasmSandbox::execute` takes the bytes of a module, which `execute_sync` validates and compiles
before it goes on as `execute_sync_compiled` does.  `WasmSandbox::execute_compiled` takes a module
that the cache has compiled before.  Both run on a blocking thread, and a thread that panics is
reported as an `Io` error.

What the cache rests on is `execute_of_valid`: for bytes that are valid and compile the two entries
return the same.  `execute_of_invalid` is the other case.  With its default features wasmtime also
compiles the text format, which `Module::validate` refuses, so that a module can be in the cache
although `execute` refuses its bytes.
-/

namespace FerroEdge.WasmRuntime

/-- What a blocking thread meets: the guest behind the bytes, the time it takes, and the text of
the `JoinError` if it panics. -/
structure Blocking where
  guest : Bytes → Guest GuestInstance
  elapsedMs : UInt64
  joinError : Option String

/-- `execute_sync`. -/
def executeSync (X : Externals) (guest : Bytes → Guest GuestInstance) (wasmBytes : Bytes)
    (config : ExecutionConfig) (input : Bytes) (elapsedMs : UInt64) :
    List GuestCall × Except WasmError ExecutionResult :=
  match X.validate wasmBytes with
  | .error e => ([], .error (.invalidWasm e))
  | .ok () =>
      match X.compile wasmBytes with
      | .error e => ([], .error (.compilationFailed e))
      | .ok () => executeSyncCompiled (guest wasmBytes) config input elapsedMs

/-- `WasmSandbox::execute`. -/
def execute (X : Externals) (b : Blocking) (wasmBytes : Bytes) (config : ExecutionConfig)
    (input : Bytes) : Except WasmError ExecutionResult :=
  match b.joinError with
  | some text => .error (.io text)
  | none => (executeSync X b.guest wasmBytes config input b.elapsedMs).2

/-- `WasmSandbox::execute_compiled`, for a module that was compiled from `source`. -/
def executeCompiled (b : Blocking) (source : Bytes) (config : ExecutionConfig) (input : Bytes) :
    Except WasmError ExecutionResult :=
  match b.joinError with
  | some text => .error (.io text)
  | none => (executeSyncCompiled (b.guest source) config input b.elapsedMs).2

variable {X : Externals} {b : Blocking} {code : Bytes} {config : ExecutionConfig} {input : Bytes}

/-- Valid bytes that compile are executed as their compiled module is. -/
theorem execute_of_valid (hvalid : X.validate code = .ok ()) (hcompile : X.compile code = .ok ()) :
    execute X b code config input = executeCompiled b code config input := by
  simp only [execute, executeCompiled, executeSync, hvalid, hcompile]

/-- Bytes that are not valid are not executed, unless as a compiled module. -/
theorem execute_of_invalid {text : String} (hvalid : X.validate code = .error text)
    (hjoin : b.joinError = none) :
    execute X b code config input = .error (.invalidWasm text) := by
  simp only [execute, executeSync, hvalid, hjoin]

end FerroEdge.WasmRuntime
