import FerroEdge.Machine.Memory
import FerroEdge.WasmRuntime.Types
import Mathlib.Algebra.Group.Int.Defs
import Mathlib.Data.List.Infix
import Mathlib.Data.UInt

/-!
# One execution in the sandbox

`execute_sync_compiled` of `sandbox.rs`, with the limiter of its store and `map_trap_error`.  It
calls into the guest three times: to instantiate the module, to get a buffer for the input from
`alloc`, and to run the requested function.

A guest call is a tree: the guest asks the limiter for more memory, goes on with the answer, and
at last returns or fails.  So a guest may do anything with a denied request, as real ones do.
What ends a call is an `anyhow::Error` in the source: a trap of wasmtime, or anything else with a
message.  `executeSyncCompiled` also lists the guest calls it has made, which is what the results
about it speak of.
-/

namespace FerroEdge.WasmRuntime

open Machine

/-! ## The limiter -/

/-- `LimitState`. -/
structure LimitState where
  maxBytes : Nat
  /-- A request was denied. -/
  denied : Bool
deriving DecidableEq, Repr

/-- `LimitState::memory_growing`. -/
def LimitState.memoryGrowing (desired : Nat) (limits : LimitState) : Bool × LimitState :=
  if limits.maxBytes < desired then (false, { limits with denied := true }) else (true, limits)

/-! ## Errors of guest calls -/

/-- `wasmtime::Trap`, with its `Debug` text where it is not the epoch trap. -/
inductive Trap where
  | interrupt
  | other (debug : String)
deriving DecidableEq, Repr

/-- The error of a guest call: a trap, or any other error with its `Display` text. -/
inductive HostError where
  | trap (trap : Trap)
  | message (text : String)
deriving DecidableEq, Repr

/-- `str::contains`. -/
def mentions (needle text : String) : Bool := decide (needle.toList <:+: text.toList)

/-- `map_trap_error`. -/
def mapTrapError (timeoutMs : UInt64) : HostError → WasmError
  | .trap .interrupt => .timeout timeoutMs
  | .trap (.other debug) => .trap debug
  | .message text =>
      if mentions "interrupt" text || mentions "Interrupt" text then .timeout timeoutMs
      else .trap text

/-- The closure after each of the three guest calls. -/
def callError (limits : LimitState) (timeoutMs : UInt64) (e : HostError) : WasmError :=
  if limits.denied then .memoryLimitExceeded else mapTrapError timeoutMs e

/-! ## Guests -/

/-- A call into the guest. -/
inductive Guest (α : Type) where
  | done (result : Except HostError α)
  | grow (desired : Nat) (resume : Bool → Guest α)

/-- Run a guest call in a store: the sizes it has asked for, the limiter after it and how it
ended. -/
def Guest.run {α : Type} : Guest α → LimitState → List Nat × LimitState × Except HostError α
  | .done result, limits => ([], limits, result)
  | .grow desired resume, limits =>
      let answer := limits.memoryGrowing desired
      let rest := (resume answer.1).run answer.2
      (desired :: rest.1, rest.2)

/-- An instance: its exports of the types that are asked for.  A function takes the linear memory
to one it has grown into. -/
structure GuestInstance where
  alloc : Option (Int32 → (m : Memory) → Guest (m.Grown × Int32))
  function : String → Option (Int32 → Int32 → (m : Memory) → Guest (m.Grown × Int32))
  memory : Option Memory

/-- The call of the guest that is made. -/
inductive GuestEntry where
  | instantiate
  | alloc (len : Int32) (memory : Memory)
  | process (ptr len : Int32) (memory : Memory)

/-- A guest call that has ended. -/
structure GuestCall where
  entry : GuestEntry
  /-- The memory sizes that it asked for. -/
  requests : List Nat
  failure : Option HostError

/-! ## The execution -/

/-- The cast of an `i32` to `usize` on a 64-bit host, which extends the sign. -/
def asUsize (v : Int32) : Nat := (v.toInt % 2 ^ 64).toNat

/-- The text of wasmtime's `MemoryAccessError`. -/
def memoryAccessError : String := "out of bounds memory access"

/-- The store when `alloc` has returned `ptr`. -/
structure Prepared where
  limits : LimitState
  process : Int32 → Int32 → (m : Memory) → Guest (m.Grown × Int32)
  memory : Memory
  ptr : Int32

/-- The limiter of a new store. -/
def ExecutionConfig.limits (config : ExecutionConfig) : LimitState :=
  ⟨config.memoryLimitBytes.toNat, false⟩

/-- The first part of `execute_sync_compiled`: the store, the instance and its exports, and the
call of `alloc`. -/
def prepare (module : Guest GuestInstance) (config : ExecutionConfig) (input : Bytes) :
    List GuestCall × Except WasmError Prepared :=
  match module.run config.limits with
  | (requests, limits, .error e) =>
      ([⟨.instantiate, requests, some e⟩], .error (callError limits config.timeoutMs e))
  | (requests, limits, .ok inst) =>
      let calls := [⟨.instantiate, requests, none⟩]
      match inst.alloc with
      | none => (calls, .error (.missingExport "alloc"))
      | some alloc =>
          match inst.function config.functionName with
          | none => (calls, .error (.missingExport config.functionName))
          | some process =>
              match inst.memory with
              | none => (calls, .error (.missingExport "memory"))
              | some memory =>
                  let inputLen := Int32.ofNat input.length
                  match (alloc inputLen memory).run limits with
                  | (requests, limits, .error e) =>
                      (calls ++ [⟨.alloc inputLen memory, requests, some e⟩],
                        .error (callError limits config.timeoutMs e))
                  | (requests, limits, .ok (grown, ptr)) =>
                      (calls ++ [⟨.alloc inputLen memory, requests, none⟩],
                        .ok ⟨limits, process, grown.memory, ptr⟩)

/-- The end of `execute_sync_compiled`: read the output that the guest has announced. -/
def readOutput (memory : Memory) (ptr outputLenRaw : Int32) (elapsedMs : UInt64) :
    Except WasmError ExecutionResult :=
  if outputLenRaw < 0 then
    .error (.io s!"process returned negative length: {outputLenRaw}")
  else
    let outputLen := asUsize outputLenRaw
    let memoryUsedBytes := UInt64.ofNat memory.size
    if 0 < outputLen then
      match memory.read (asUsize ptr) outputLen with
      | none => .error (.io memoryAccessError)
      | some output => .ok ⟨output, elapsedMs, memoryUsedBytes⟩
    else .ok ⟨[], elapsedMs, memoryUsedBytes⟩

/-- The second part of `execute_sync_compiled`: write the input, and call the function. -/
def finish (config : ExecutionConfig) (input : Bytes) (elapsedMs : UInt64) (p : Prepared) :
    List GuestCall × Except WasmError ExecutionResult :=
  match p.memory.write (asUsize p.ptr) input with
  | none => ([], .error (.io memoryAccessError))
  | some memory =>
      let inputLen := Int32.ofNat input.length
      match (p.process p.ptr inputLen memory).run p.limits with
      | (requests, limits, .error e) =>
          ([⟨.process p.ptr inputLen memory, requests, some e⟩],
            .error (callError limits config.timeoutMs e))
      | (requests, _, .ok (grown, outputLenRaw)) =>
          ([⟨.process p.ptr inputLen memory, requests, none⟩],
            readOutput grown.memory p.ptr outputLenRaw elapsedMs)

/-- `execute_sync_compiled`: the guest calls it makes and what it returns. -/
def executeSyncCompiled (module : Guest GuestInstance) (config : ExecutionConfig) (input : Bytes)
    (elapsedMs : UInt64) : List GuestCall × Except WasmError ExecutionResult :=
  match prepare module config input with
  | (calls, .error e) => (calls, .error e)
  | (calls, .ok p) =>
      let rest := finish config input elapsedMs p
      (calls ++ rest.1, rest.2)

/-! ## The calls of the guest -/

/-- The guest was instantiated with all the exports that are asked for, and its `alloc` has
returned. -/
inductive Allocates (module : Guest GuestInstance) (config : ExecutionConfig) (input : Bytes) :
    Prepared → Prop where
  | intro {requests requests' : List Nat} {limits limits' : LimitState} {inst : GuestInstance}
      {alloc : Int32 → (m : Memory) → Guest (m.Grown × Int32)}
      {process : Int32 → Int32 → (m : Memory) → Guest (m.Grown × Int32)} {memory : Memory}
      {grown : memory.Grown} {ptr : Int32} :
      module.run config.limits = (requests, limits, .ok inst) → inst.alloc = some alloc →
      inst.function config.functionName = some process → inst.memory = some memory →
      (alloc (Int32.ofNat input.length) memory).run limits =
        (requests', limits', .ok (grown, ptr)) →
      Allocates module config input ⟨limits', process, grown.memory, ptr⟩

theorem prepare_eq_ok {module : Guest GuestInstance} {config : ExecutionConfig} {input : Bytes}
    {p : Prepared} :
    (prepare module config input).2 = .ok p ↔ Allocates module config input p := by
  constructor
  · intro h
    unfold prepare at h
    split at h
    case h_1 => cases h
    case h_2 hrun =>
      dsimp only at h
      split at h
      case h_1 => cases h
      case h_2 halloc =>
        split at h
        case h_1 => cases h
        case h_2 hprocess =>
          split at h
          case h_1 => cases h
          case h_2 hmemory =>
            split at h
            case h_1 => cases h
            case h_2 hreturn =>
              cases h
              exact .intro hrun halloc hprocess hmemory hreturn
  · rintro ⟨hrun, halloc, hprocess, hmemory, hreturn⟩
    simp only [prepare, hrun, halloc, hprocess, hmemory, hreturn]

/-! ## The limiter over guest calls -/

variable {α : Type} {limits : LimitState}

theorem LimitState.memoryGrowing_snd (desired : Nat) (limits : LimitState) :
    (limits.memoryGrowing desired).2 =
      { limits with denied := limits.denied || decide (limits.maxBytes < desired) } := by
  unfold LimitState.memoryGrowing
  split
  case isTrue h => simp [h]
  case isFalse h => simp [h]

/-- The flag stays set once a request was over the limit. -/
theorem Guest.run_limits (guest : Guest α) (limits : LimitState) :
    (guest.run limits).2.1 =
      { limits with
        denied := limits.denied || (guest.run limits).1.any (fun d => limits.maxBytes < d) } := by
  induction guest generalizing limits with
  | done result => simp [Guest.run]
  | grow desired resume ih =>
      rw [Guest.run]
      dsimp only
      rw [ih, LimitState.memoryGrowing_snd]
      simp [Bool.or_assoc]

end FerroEdge.WasmRuntime
