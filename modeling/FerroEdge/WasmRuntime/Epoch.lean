import FerroEdge.Machine.Run
import FerroEdge.WasmRuntime.Types

/-!
# Timeouts over one epoch counter

`WasmSandbox::execute` and `WasmSandbox::execute_compiled` enforce their timeout with
wasmtime's epoch interruption.  The engine has one epoch counter, shared by every run on it.
A run

1. spawns a timer task that sleeps for `timeout_ms` and then increments the epoch once,
2. hands a closure to `spawn_blocking`, which starts some time later,
3. validates and compiles the module there (`execute_sync` only),
4. creates its store and sets the store's deadline to the current epoch plus one,
5. runs the guest, which traps with `Interrupt` when it finds the epoch at its deadline,
6. joins the closure and aborts the timer.

The machine below interleaves any number of such runs.  A step of a run is a stretch of its
code that no other run observes in the middle.  Real time is left out: a timer that is
pending may fire at any moment, so every order of timers is a run of the machine.
-/

namespace FerroEdge.WasmRuntime

open Machine

/-! ## One run -/

/-- The entry point a run was started through. -/
inductive Entry where
  /-- `execute`, which validates and compiles the bytes in the closure. -/
  | execute
  /-- `execute_compiled`, which is given a module. -/
  | executeCompiled
deriving DecidableEq, Repr

/-- The timer task of a run. -/
inductive Timer where
  | pending
  | fired
  | aborted
deriving DecidableEq, Repr

/-- What an execution returns. -/
abbrev Outcome := Except WasmError ExecutionResult

/-- Where a run stands. -/
inductive Phase where
  /-- The closure is queued by `spawn_blocking`. -/
  | scheduled
  /-- `Module::validate` in `execute_sync`. -/
  | validating
  /-- `Module::new` in `execute_sync`. -/
  | compiling
  /-- `execute_sync_compiled` before `set_epoch_deadline`. -/
  | storing
  /-- The store has its deadline and the guest has not been entered. -/
  | armed (deadline : Nat)
  /-- Guest code runs: instantiation, `alloc` or the called function. -/
  | guest (deadline : Nat)
  /-- The closure has returned.  `interrupted` says that its last guest call ended with the
  epoch trap. -/
  | returned (interrupted : Bool) (outcome : Outcome)
  /-- The async function has returned. -/
  | joined (interrupted : Bool) (outcome : Outcome)

/-- A call of `execute` or `execute_compiled`. -/
structure SandboxRun where
  entry : Entry
  timeoutMs : UInt64
  timer : Timer
  phase : Phase

/-- The deadline of the store of a run, from `set_epoch_deadline` until the closure returns. -/
def SandboxRun.deadline? (r : SandboxRun) : Option Nat :=
  match r.phase with
  | .armed d => some d
  | .guest d => some d
  | _ => none

/-- The last guest call of the run ended with the epoch trap. -/
def SandboxRun.interrupted (r : SandboxRun) : Bool :=
  match r.phase with
  | .returned b _ => b
  | .joined b _ => b
  | _ => false

/-- The steps a run takes by itself, with the answers of wasmtime. -/
inductive Action where
  /-- The blocking pool starts the closure. -/
  | start
  /-- `Module::validate` answers, with an error text when it fails. -/
  | validate (error : Option String)
  /-- `Module::new` answers. -/
  | compile (error : Option String)
  /-- `store.set_epoch_deadline(1)`. -/
  | setEpochDeadline
  /-- `linker.instantiate` is called. -/
  | enterGuest
  /-- The guest finds the epoch at its deadline and traps with `Interrupt`.  `denied` is the
  flag of the memory limiter, which the closure looks at before the trap. -/
  | interrupt (denied : Bool)
  /-- The closure ends in any other way. -/
  | finish (outcome : Outcome)
  /-- The join handle answers and the timer is aborted. -/
  | join
  /-- The closure panics.  The join error leaves through `?`, before the abort. -/
  | panic (msg : String)

/-- One step of a run at the current epoch. -/
def SandboxRun.advance (epoch : Nat) (r : SandboxRun) : Action → Option SandboxRun
  | .start =>
      match r.phase, r.entry with
      | .scheduled, .execute => some { r with phase := .validating }
      | .scheduled, .executeCompiled => some { r with phase := .storing }
      | _, _ => none
  | .validate error =>
      match r.phase, error with
      | .validating, none => some { r with phase := .compiling }
      | .validating, some e => some { r with phase := .returned false (.error (.invalidWasm e)) }
      | _, _ => none
  | .compile error =>
      match r.phase, error with
      | .compiling, none => some { r with phase := .storing }
      | .compiling, some e =>
          some { r with phase := .returned false (.error (.compilationFailed e)) }
      | _, _ => none
  | .setEpochDeadline =>
      match r.phase with
      | .storing => some { r with phase := .armed (epoch + 1) }
      | _ => none
  | .enterGuest =>
      match r.phase with
      | .armed d => some { r with phase := .guest d }
      | _ => none
  | .interrupt denied =>
      match r.phase with
      | .guest d =>
          if d ≤ epoch then
            some { r with
              phase := .returned true
                (.error (if denied then .memoryLimitExceeded else .timeout r.timeoutMs)) }
          else none
      | _ => none
  | .finish outcome =>
      match r.phase with
      | .guest _ => some { r with phase := .returned false outcome }
      | _ => none
  | .join =>
      match r.phase with
      | .returned b outcome =>
          some { r with
            phase := .joined b outcome
            -- `abort` has no effect on a timer task that has already run
            timer := if r.timer = .pending then .aborted else r.timer }
      | _ => none
  | .panic msg =>
      match r.phase with
      | .validating | .compiling | .storing | .armed _ | .guest _ =>
          some { r with phase := .joined false (.error (.io msg)) }
      | _ => none

/-! ## The engine and its runs -/

/-- The shared engine: its epoch counter and every run started on it. -/
structure Engine where
  epoch : Nat := 0
  runs : List SandboxRun := []

/-- The events of the engine. -/
inductive EngineEvent where
  /-- A client calls the sandbox.  The timer task is spawned first. -/
  | call (entry : Entry) (timeoutMs : UInt64)
  /-- The timer task of run `i` wakes up and increments the epoch. -/
  | fire (i : Nat)
  /-- Run `i` takes a step. -/
  | act (i : Nat) (a : Action)

def Engine.step (s : Engine) : EngineEvent → Option Engine
  | .call entry timeoutMs =>
      some { s with runs := s.runs ++ [⟨entry, timeoutMs, .pending, .scheduled⟩] }
  | .fire i =>
      match s.runs[i]? with
      | some r =>
          if r.timer = .pending then
            some { epoch := s.epoch + 1, runs := s.runs.set i { r with timer := .fired } }
          else none
      | none => none
  | .act i a =>
      match s.runs[i]? with
      | some r => (r.advance s.epoch a).map fun r' => { s with runs := s.runs.set i r' }
      | none => none

/-- `WasmEngine::new`: the counter starts at zero and nothing runs. -/
def Engine.new : Engine := {}

end FerroEdge.WasmRuntime
