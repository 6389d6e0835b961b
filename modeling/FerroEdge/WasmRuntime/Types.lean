import Mathlib.Data.List.Basic
import Mathlib.Algebra.Group.Nat.Defs

/-!
# Types of the WASM runtime

The public types of `crates/wasm-runtime`: the error of an execution with the text it is
displayed as, the configuration of an execution and its result.
-/

namespace FerroEdge

/-- Raw bytes, `Vec<u8>` and `&[u8]` in the source. -/
abbrev Bytes := List UInt8

namespace WasmRuntime

/-- `WasmError`. -/
inductive WasmError where
  | invalidWasm (msg : String)
  | compilationFailed (msg : String)
  | missingExport (name : String)
  | timeout (timeoutMs : UInt64)
  | memoryLimitExceeded
  | trap (msg : String)
  | io (msg : String)
deriving DecidableEq, Repr

/-- The `Display` text of an error, as `thiserror` derives it. -/
def WasmError.display : WasmError → String
  | .invalidWasm msg => s!"Invalid WASM binary: {msg}"
  | .compilationFailed msg => s!"Compilation failed: {msg}"
  | .missingExport name => s!"Missing export: {name}"
  | .timeout timeoutMs => s!"Execution timeout after {timeoutMs}ms"
  | .memoryLimitExceeded => "Memory limit exceeded"
  | .trap msg => s!"Runtime trap: {msg}"
  | .io msg => s!"IO error: {msg}"

/-- `ExecutionConfig`. -/
structure ExecutionConfig where
  /-- Maximum linear memory the module may use, in bytes. -/
  memoryLimitBytes : UInt64
  /-- Wall-clock budget, in milliseconds. -/
  timeoutMs : UInt64
  /-- The export to call. -/
  functionName : String
deriving DecidableEq, Repr

/-- `ExecutionResult`. -/
structure ExecutionResult where
  output : Bytes
  executionTimeMs : UInt64
  memoryUsedBytes : UInt64
deriving DecidableEq, Repr

end WasmRuntime

end FerroEdge
