import Mathlib.Data.List.Basic
import Mathlib.Algebra.Group.Nat.Defs

/-!
# The circuit breaker

`services/control-plane/src/circuit_breaker.rs`.  A breaker is a three-state machine with a
count of consecutive failures and the time of the latest one.  Times and durations are
counted in nanoseconds and the clock is an argument, so that `Instant::now` and `elapsed`
read the same clock.
-/

namespace FerroEdge.ControlPlane

/-- `CircuitState`. -/
inductive CircuitState where
  | closed
  | «open»
  | halfOpen
deriving DecidableEq, Repr

/-- `CircuitBreaker`. -/
structure CircuitBreaker where
  state : CircuitState
  /-- Consecutive failures, a `u32`. -/
  failureCount : Nat
  failureThreshold : Nat
  /-- The time of the most recent failure. -/
  lastFailure : Option Nat
  /-- How long the breaker stays open before a probe. -/
  cooldown : Nat
deriving DecidableEq, Repr

namespace CircuitBreaker

/-- `Default`: closed, five failures to open, a cooldown of 30 s. -/
def default : CircuitBreaker where
  state := .closed
  failureCount := 0
  failureThreshold := 5
  lastFailure := none
  cooldown := 30 * 10 ^ 9

/-- `t.elapsed()` of the latest failure, zero when there was none. -/
def elapsed (now : Nat) (cb : CircuitBreaker) : Nat :=
  match cb.lastFailure with
  | some t => now - t
  | none => 0

/-- `allow_request`: the answer and the breaker after it.  An open breaker whose cooldown has
elapsed moves to half-open. -/
def allowRequest (now : Nat) (cb : CircuitBreaker) : Bool × CircuitBreaker :=
  match cb.state with
  | .closed => (true, cb)
  | .open =>
      if cb.cooldown ≤ cb.elapsed now then (true, { cb with state := .halfOpen })
      else (false, cb)
  | .halfOpen => (true, cb)

/-- `record_success`. -/
def recordSuccess (cb : CircuitBreaker) : CircuitBreaker :=
  { cb with failureCount := 0, state := .closed }

/-- `record_failure`.  The count is a `u32` and wraps. -/
def recordFailure (now : Nat) (cb : CircuitBreaker) : CircuitBreaker :=
  let cb := { cb with failureCount := (cb.failureCount + 1) % 2 ^ 32, lastFailure := some now }
  match cb.state with
  | .closed => if cb.failureThreshold ≤ cb.failureCount then { cb with state := .open } else cb
  | .halfOpen => { cb with state := .open }
  | .open => cb

/-- `state_name`. -/
def stateName (cb : CircuitBreaker) : String :=
  match cb.state with
  | .closed => "closed"
  | .open => "open"
  | .halfOpen => "half_open"

/-! ## What the operations do -/

/-- The breaker lets a request through at time `now`. -/
def Allows (now : Nat) (cb : CircuitBreaker) : Prop :=
  cb.state = .open → cb.cooldown ≤ cb.elapsed now

instance (now : Nat) (cb : CircuitBreaker) : Decidable (cb.Allows now) :=
  inferInstanceAs (Decidable (_ → _))

theorem allowRequest_fst {now : Nat} {cb : CircuitBreaker} :
    (cb.allowRequest now).1 = true ↔ cb.Allows now := by
  obtain ⟨st, n, k, l, c⟩ := cb
  cases st with
  | closed => simp [allowRequest, Allows]
  | «open» =>
      simp only [allowRequest, Allows, forall_const]
      split <;> simp_all
  | halfOpen => simp [allowRequest, Allows]

/-- `allow_request` changes an open breaker whose cooldown has elapsed, and no other. -/
theorem allowRequest_snd {now : Nat} {cb : CircuitBreaker} :
    (cb.allowRequest now).2 =
      if cb.state = .open ∧ cb.cooldown ≤ cb.elapsed now then { cb with state := .halfOpen }
      else cb := by
  obtain ⟨st, n, k, l, c⟩ := cb
  cases st with
  | closed => simp [allowRequest]
  | «open» =>
      simp only [allowRequest, true_and]
      split <;> rfl
  | halfOpen => simp [allowRequest]

/-- A breaker is closed after a failure only if it was closed and the count is still below
the threshold.  Otherwise it is open. -/
theorem recordFailure_eq (now : Nat) (cb : CircuitBreaker) :
    cb.recordFailure now = { cb with
      state := if cb.state = .closed ∧ (cb.failureCount + 1) % 2 ^ 32 < cb.failureThreshold
        then .closed else .open
      failureCount := (cb.failureCount + 1) % 2 ^ 32
      lastFailure := some now } := by
  obtain ⟨st, n, k, l, c⟩ := cb
  cases st with
  | closed =>
      simp only [recordFailure, true_and]
      split
      case isTrue hle => rw [if_neg (Nat.not_lt.mpr hle)]
      case isFalse hlt => rw [if_pos (Nat.lt_of_not_le hlt)]
  | «open» => rfl
  | halfOpen => rfl

@[simp] theorem recordFailure_cooldown (now : Nat) (cb : CircuitBreaker) :
    (cb.recordFailure now).cooldown = cb.cooldown := by
  rw [recordFailure_eq]

@[simp] theorem recordFailure_lastFailure (now : Nat) (cb : CircuitBreaker) :
    (cb.recordFailure now).lastFailure = some now := by
  rw [recordFailure_eq]

/-- A failure never closes a breaker. -/
theorem recordFailure_open {now : Nat} {cb : CircuitBreaker} (h : cb.state = .open) :
    (cb.recordFailure now).state = .open := by
  simp [recordFailure, h]

end CircuitBreaker

end FerroEdge.ControlPlane
