import FerroEdge.Machine.Run
import FerroEdge.Machine.Sort
import FerroEdge.Machine.Table
import Mathlib.Algebra.Group.Nat.Defs
import Mathlib.Data.List.Sort

/-!
# The load tester

`services/load-tester`: `main` submits tasks to the control plane, each in a task of its own that
holds a permit of a semaphore, and ends with a report.  A reporter prints a line from time to
time.  They share the semaphore, two atomic counters and the latencies under a mutex, and run on
several threads, so each access to one of these is a step of its own.

Time is in nanoseconds since `main` has started.  The reporter wakes up at any time: when its
interval ticks is left open.  What a request is answered with, and when, is up to the outside.
The index of a percentile is computed in floating point in the source, which is exact as long as
there are fewer than `2 ^ 46` tasks.
-/

namespace FerroEdge.LoadTester

open Machine

/-- `Args`, but for the URL.  The numbers are small enough for `main` to get to its loop.  It panics
at the start if `concurrency` is above `Semaphore::MAX_PERMITS`, if there is no room for `tasks`
latencies, and if `duration` takes the clock past the last `Instant`. -/
structure Args where
  tasks : Nat := 1000
  concurrency : Nat := 50
  /-- In seconds, with 0 for no limit. -/
  duration : Nat := 60

/-- `percentile`. -/
def percentile (sorted : List Nat) (p : Nat) : Nat :=
  if h : sorted = [] then 0
  else
    sorted.get ⟨min (sorted.length * p / 100) (sorted.length - 1), by
      have hpos := List.length_pos_iff.mpr h
      omega⟩

/-- `elapsed().as_millis() as u64`. -/
def elapsedMillis (now start : Nat) : Nat := (now - start) / 1000000 % 2 ^ 64

/-- `sort_unstable` on the latencies. -/
def sortLatencies (latencies : List Nat) : List Nat := latencies.insertionSort (· ≤ ·)

/-! ## The requests -/

/-- What the tasks share. -/
structure Shared where
  permits : Nat
  completed : Nat := 0
  errors : Nat := 0
  latencies : List Nat := []

/-- What `send` returns: a response with a status, or an error. -/
inductive Reply where
  | response (success : Bool)
  | error
deriving DecidableEq, Repr

/-- The task of one request. -/
inductive Request where
  | spawned
  | sending (start : Nat)
  /-- The latency is taken, and the status is to be counted as an error. -/
  | countStatus (latencyMs : Nat)
  /-- The error is to be counted, and the latency is taken after that. -/
  | countFailure (start : Nat)
  | pushLatency (latencyMs : Nat)
  | countCompleted
  | dropPermit
  | ended
deriving DecidableEq, Repr

def Request.onReply (now start : Nat) : Reply → Request
  | .response true => .pushLatency (elapsedMillis now start)
  | .response false => .countStatus (elapsedMillis now start)
  | .error => .countFailure start

/-- The next step of a request that does not wait for its answer. -/
def Request.step (now : Nat) (sh : Shared) : Request → Option (Shared × Request)
  | .spawned => some (sh, .sending now)
  | .countStatus latencyMs => some ({ sh with errors := sh.errors + 1 }, .pushLatency latencyMs)
  | .countFailure start =>
      some ({ sh with errors := sh.errors + 1 }, .pushLatency (elapsedMillis now start))
  | .pushLatency latencyMs =>
      some ({ sh with latencies := sh.latencies ++ [latencyMs] }, .countCompleted)
  | .countCompleted => some ({ sh with completed := sh.completed + 1 }, .dropPermit)
  | .dropPermit => some ({ sh with permits := sh.permits + 1 }, .ended)
  | .sending _ | .ended => none

/-! ## The reporter -/

/-- A line of the reporter.  `newlyCompleted` is what the rate is computed from. -/
structure Line where
  completed : Nat
  total : Nat
  newlyCompleted : Nat
  p50 : Nat
  p95 : Nat
  errors : Nat
deriving DecidableEq, Repr

inductive ReporterPc where
  | tick
  | loadErrors (nowDone : Nat)
  | lockLatencies (nowDone errs newlyCompleted : Nat)
  | stopped
  /-- The subtraction has overflowed. -/
  | panicked
deriving DecidableEq, Repr

structure Reporter where
  lastCompleted : Nat := 0
  pc : ReporterPc := .tick
  lines : List Line := []

def Reporter.step (total : Nat) (sh : Shared) (r : Reporter) : Option Reporter :=
  match r.pc with
  | .tick => some { r with pc := .loadErrors sh.completed }
  | .loadErrors nowDone =>
      if nowDone < r.lastCompleted then some { r with pc := .panicked }
      else
        some { r with
          lastCompleted := nowDone
          pc := .lockLatencies nowDone sh.errors (nowDone - r.lastCompleted) }
  | .lockLatencies nowDone errs newlyCompleted =>
      let sorted := sortLatencies sh.latencies
      some { r with
        pc := if total ≤ nowDone then .stopped else .tick
        lines := r.lines ++
          [⟨nowDone, total, newlyCompleted, percentile sorted 50, percentile sorted 95, errs⟩] }
  | .stopped | .panicked => none

/-! ## `main` -/

/-- The final report, but for the throughput. -/
structure Report where
  totalDone : Nat
  totalErrs : Nat
  totalSuccess : Nat
  p50 : Nat
  p95 : Nat
  p99 : Nat
  maxLat : Nat
deriving DecidableEq, Repr

def Shared.report (sh : Shared) : Report :=
  let allLats := sortLatencies sh.latencies
  { totalDone := sh.completed
    totalErrs := sh.errors
    totalSuccess := sh.completed - sh.errors
    p50 := percentile allLats 50
    p95 := percentile allLats 95
    p99 := percentile allLats 99
    maxLat := allLats.getLast?.getD 0 }

inductive MainPc where
  /-- At the head of the loop, with the number of tasks submitted so far. -/
  | submit (i : Nat)
  | acquire (i : Nat)
  /-- Awaiting the handle of a request. -/
  | join (k : Nat)
  | report
  | done (report : Report)
deriving DecidableEq, Repr

structure Tester where
  now : Nat
  shared : Shared
  requests : List Request
  reporter : Reporter
  main : MainPc

inductive Event where
  | tick (d : Nat)
  | main
  | request (k : Nat)
  | respond (k : Nat) (reply : Reply)
  | reporter

/-- The time limit has been reached. -/
def Args.late (args : Args) (now : Nat) : Bool :=
  0 < args.duration && args.duration * 1000000000 < now

namespace Tester

def init (args : Args) : Tester where
  now := 0
  shared := { permits := args.concurrency }
  requests := []
  reporter := {}
  main := .submit 0

def mainStep (args : Args) (s : Tester) : Option Tester :=
  match s.main with
  | .submit i =>
      if i < args.tasks ∧ args.late s.now = false then some { s with main := .acquire i }
      else some { s with main := .join 0 }
  | .acquire i =>
      if s.shared.permits = 0 then none
      else
        some { s with
          shared.permits := s.shared.permits - 1
          requests := s.requests ++ [.spawned]
          main := .submit (i + 1) }
  | .join k =>
      match s.requests[k]? with
      | some .ended => some { s with main := .join (k + 1) }
      | some _ => none
      | none => some { s with main := .report }
  -- Every request has ended, so nobody changes what is read here.
  | .report => some { s with main := .done s.shared.report }
  | .done _ => none

def step (args : Args) (s : Tester) : Event → Option Tester
  | .tick d => some { s with now := s.now + d }
  | .main => s.mainStep args
  | .request k =>
      match s.requests[k]? with
      | some r =>
          (r.step s.now s.shared).map fun (sh, r') =>
            { s with shared := sh, requests := s.requests.set k r' }
      | none => none
  | .respond k reply =>
      match s.requests[k]? with
      | some (.sending start) =>
          some { s with requests := s.requests.set k (.onReply s.now start reply) }
      | _ => none
  | .reporter =>
      (s.reporter.step args.tasks s.shared).map fun r => { s with reporter := r }

end Tester

/-! ## What a step can be -/

inductive Tester.Step (args : Args) (s : Tester) : Event → Tester → Prop where
  | tick (d : Nat) : Step args s (.tick d) { s with now := s.now + d }
  | next {i : Nat} :
      s.main = .submit i → i < args.tasks → Step args s .main { s with main := .acquire i }
  | stop {i : Nat} :
      s.main = .submit i → args.tasks ≤ i ∨ args.late s.now = true →
      Step args s .main { s with main := .join 0 }
  | spawn {i : Nat} :
      s.main = .acquire i → 0 < s.shared.permits →
      Step args s .main { s with
        shared.permits := s.shared.permits - 1
        requests := s.requests ++ [.spawned]
        main := .submit (i + 1) }
  | joined {k : Nat} :
      s.main = .join k → s.requests[k]? = some .ended →
      Step args s .main { s with main := .join (k + 1) }
  | allJoined {k : Nat} :
      s.main = .join k → s.requests[k]? = none → Step args s .main { s with main := .report }
  | report : s.main = .report → Step args s .main { s with main := .done s.shared.report }
  | request {k : Nat} {r r' : Request} {sh : Shared} :
      s.requests[k]? = some r → r.step s.now s.shared = some (sh, r') →
      Step args s (.request k) { s with shared := sh, requests := s.requests.set k r' }
  | respond {k start : Nat} {reply : Reply} :
      s.requests[k]? = some (.sending start) →
      Step args s (.respond k reply)
        { s with requests := s.requests.set k (.onReply s.now start reply) }
  | reporter {r : Reporter} :
      s.reporter.step args.tasks s.shared = some r → Step args s .reporter { s with reporter := r }

variable {args : Args} {s t : Tester} {e : Event}

theorem Tester.mainStep_inv (h : s.mainStep args = some t) : Tester.Step args s .main t := by
  unfold mainStep at h
  split at h
  case h_1 i hmain =>
    split at h
    case isTrue hcond =>
      cases h
      exact .next hmain hcond.1
    case isFalse hcond =>
      cases h
      refine .stop hmain ?_
      by_cases hi : i < args.tasks
      · exact Or.inr (by simpa [hi] using hcond)
      · exact Or.inl (Nat.le_of_not_lt hi)
  case h_2 hmain =>
    split at h
    case isTrue => cases h
    case isFalse hpermits =>
      cases h
      exact .spawn hmain (Nat.pos_of_ne_zero hpermits)
  case h_3 hmain =>
    split at h
    case h_1 hk =>
      cases h
      exact .joined hmain hk
    case h_2 => cases h
    case h_3 hk =>
      cases h
      exact .allJoined hmain hk
  case h_4 hmain =>
    cases h
    exact .report hmain
  case h_5 => cases h

theorem Tester.step_inv (h : s.step args e = some t) : Tester.Step args s e t := by
  cases e with
  | tick d =>
      cases h
      exact .tick d
  | main => exact mainStep_inv h
  | request k =>
      simp only [step] at h
      split at h
      case h_1 r hk =>
        obtain ⟨⟨sh, r'⟩, hr, rfl⟩ := Option.map_eq_some_iff.mp h
        exact .request hk hr
      case h_2 => cases h
  | respond k reply =>
      simp only [step] at h
      split at h
      case h_1 hk =>
        cases h
        exact .respond hk
      case h_2 => cases h
  | reporter =>
      obtain ⟨r, hr, rfl⟩ := Option.map_eq_some_iff.mp h
      exact .reporter hr

end FerroEdge.LoadTester
