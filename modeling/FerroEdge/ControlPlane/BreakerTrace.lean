import Mathlib.Data.List.Induction
import FerroEdge.ControlPlane.CircuitBreaker

/-!
# What a circuit breaker remembers

The state of a breaker is a function of the calls it has seen.  Counting back from the end of
the trace, let `k` be the number of failures up to the latest success, and `t` the time of the
latest failure.  The breaker is closed while `k` is below the threshold.  From then on it is
open, and half-open once `allow_request` was called after the latest failure when the cooldown
was over.

`replay_agrees` is the induction over the trace.  The count of failures is a `u32` and wraps,
but it is only looked at while the breaker is closed, and then it is below the threshold.
-/

namespace FerroEdge.ControlPlane.CircuitBreaker

/-- A call on a breaker, with the time at which it runs. -/
inductive Call where
  | allowRequest (now : Nat)
  | recordSuccess (now : Nat)
  | recordFailure (now : Nat)
deriving DecidableEq, Repr

namespace Call

def time : Call → Nat
  | .allowRequest now | .recordSuccess now | .recordFailure now => now

def isSuccess : Call → Bool
  | .recordSuccess _ => true
  | _ => false

def isFailure : Call → Bool
  | .recordFailure _ => true
  | _ => false

@[simp] theorem isSuccess_allowRequest (now : Nat) : (allowRequest now).isSuccess = false := rfl
@[simp] theorem isSuccess_recordSuccess (now : Nat) : (recordSuccess now).isSuccess = true := rfl
@[simp] theorem isSuccess_recordFailure (now : Nat) : (recordFailure now).isSuccess = false := rfl
@[simp] theorem isFailure_allowRequest (now : Nat) : (allowRequest now).isFailure = false := rfl
@[simp] theorem isFailure_recordSuccess (now : Nat) : (recordSuccess now).isFailure = false := rfl
@[simp] theorem isFailure_recordFailure (now : Nat) : (recordFailure now).isFailure = true := rfl

end Call

/-- The breaker after a call. -/
def apply (cb : CircuitBreaker) : Call → CircuitBreaker
  | .allowRequest now => (cb.allowRequest now).2
  | .recordSuccess _ => cb.recordSuccess
  | .recordFailure now => cb.recordFailure now

/-- The breaker after a trace of calls, the latest one last. -/
def replay (trace : List Call) : CircuitBreaker := trace.foldl apply .default

/-! ## The specification -/

/-- The number of failures since the latest success. -/
def failures (trace : List Call) : Nat :=
  (trace.reverse.takeWhile fun c => !c.isSuccess).countP Call.isFailure

/-- The time of the latest failure. -/
def latestFailure (trace : List Call) : Option Nat :=
  (trace.reverse.find? Call.isFailure).map Call.time

/-- Some `allow_request` after the latest failure ran when the cooldown was over. -/
def Probed (cooldown : Nat) (trace : List Call) : Prop :=
  ∃ t ∈ latestFailure trace, ∃ now, t + cooldown ≤ now ∧
    .allowRequest now ∈ trace.reverse.takeWhile fun c => !c.isFailure

section Snoc

variable {trace : List Call} {cooldown now : Nat}

@[simp] theorem failures_allowRequest :
    failures (trace ++ [.allowRequest now]) = failures trace := by
  simp [failures]

@[simp] theorem failures_recordSuccess : failures (trace ++ [.recordSuccess now]) = 0 := by
  simp [failures]

@[simp] theorem failures_recordFailure :
    failures (trace ++ [.recordFailure now]) = failures trace + 1 := by
  simp [failures, List.countP_cons]

@[simp] theorem latestFailure_allowRequest :
    latestFailure (trace ++ [.allowRequest now]) = latestFailure trace := by
  simp [latestFailure]

@[simp] theorem latestFailure_recordSuccess :
    latestFailure (trace ++ [.recordSuccess now]) = latestFailure trace := by
  simp [latestFailure]

@[simp] theorem latestFailure_recordFailure :
    latestFailure (trace ++ [.recordFailure now]) = some now := by
  simp [latestFailure, Call.time]

theorem probed_allowRequest :
    Probed cooldown (trace ++ [.allowRequest now]) ↔
      Probed cooldown trace ∨ ∃ t ∈ latestFailure trace, t + cooldown ≤ now := by
  simp only [Probed, latestFailure_allowRequest, List.reverse_append, List.reverse_singleton,
    List.singleton_append]
  constructor
  · rintro ⟨t, ht, now', hle, hmem⟩
    simp only [Call.isFailure_allowRequest, Bool.not_false, List.takeWhile_cons_of_pos,
      List.mem_cons] at hmem
    obtain heq | hmem := hmem
    · cases heq
      exact Or.inr ⟨t, ht, hle⟩
    · exact Or.inl ⟨t, ht, now', hle, hmem⟩
  · rintro (⟨t, ht, now', hle, hmem⟩ | ⟨t, ht, hle⟩)
    · exact ⟨t, ht, now', hle, by simp [hmem]⟩
    · exact ⟨t, ht, now, hle, by simp⟩

theorem not_probed_recordFailure : ¬ Probed cooldown (trace ++ [.recordFailure now]) := by
  rintro ⟨t, -, now', -, hmem⟩
  simp at hmem

end Snoc

/-! ## The induction over the trace -/

/-- The breaker is what the trace says. -/
structure Agrees (trace : List Call) (cb : CircuitBreaker) : Prop where
  failureThreshold : cb.failureThreshold = default.failureThreshold
  cooldown : cb.cooldown = default.cooldown
  lastFailure : cb.lastFailure = latestFailure trace
  closed : cb.state = .closed →
    cb.failureCount = failures trace ∧ failures trace < default.failureThreshold
  tripped : cb.state ≠ .closed → default.failureThreshold ≤ failures trace
  halfOpen : cb.state ≠ .closed → (cb.state = .halfOpen ↔ Probed default.cooldown trace)

variable {trace : List Call} {cb : CircuitBreaker}

theorem Agrees.recordSuccess (h : Agrees trace cb) (now : Nat) :
    Agrees (trace ++ [.recordSuccess now]) cb.recordSuccess where
  failureThreshold := h.failureThreshold
  cooldown := h.cooldown
  lastFailure := by rw [latestFailure_recordSuccess, ← h.lastFailure]; rfl
  closed _ := by rw [failures_recordSuccess]; exact ⟨rfl, by decide⟩
  tripped hne := absurd rfl hne
  halfOpen hne := absurd rfl hne

/-- The cooldown is over exactly if it is over since the latest failure. -/
theorem Agrees.cooldown_le (h : Agrees trace cb) (now : Nat) :
    cb.cooldown ≤ cb.elapsed now ↔ ∃ t ∈ latestFailure trace, t + default.cooldown ≤ now := by
  have hpos : 0 < default.cooldown := by decide
  rw [h.cooldown, elapsed, h.lastFailure]
  cases latestFailure trace with
  | none => simp [Nat.ne_of_gt hpos]
  | some t =>
      simp only [Option.mem_some_iff, exists_eq_left']
      omega

theorem Agrees.allowRequest (h : Agrees trace cb) (now : Nat) :
    Agrees (trace ++ [.allowRequest now]) (cb.allowRequest now).2 := by
  rw [allowRequest_snd]
  split
  case isTrue hcond =>
    obtain ⟨hopen, hover⟩ := hcond
    have hprobed : Probed default.cooldown (trace ++ [.allowRequest now]) :=
      probed_allowRequest.mpr (Or.inr ((h.cooldown_le now).mp hover))
    refine ⟨h.failureThreshold, h.cooldown, ?_, nofun, fun _ => ?_, fun _ => ?_⟩
    · rw [latestFailure_allowRequest, ← h.lastFailure]
    · rw [failures_allowRequest]
      exact h.tripped (by rw [hopen]; nofun)
    · simp [hprobed]
  case isFalse hcond =>
    refine ⟨h.failureThreshold, h.cooldown, ?_, ?_, ?_, fun hne => ?_⟩
    · rw [latestFailure_allowRequest, ← h.lastFailure]
    · rw [failures_allowRequest]
      exact h.closed
    · rw [failures_allowRequest]
      exact h.tripped
    · rw [probed_allowRequest, ← h.cooldown_le now, ← h.halfOpen hne]
      refine ⟨Or.inl, fun hor => hor.elim id fun hover => ?_⟩
      -- The cooldown is over and the breaker has not moved, so it was not open.
      cases hst : cb.state with
      | closed => exact absurd hst hne
      | «open» => exact absurd ⟨hst, hover⟩ hcond
      | halfOpen => rfl

theorem Agrees.recordFailure (h : Agrees trace cb) (now : Nat) :
    Agrees (trace ++ [.recordFailure now]) (cb.recordFailure now) := by
  rw [recordFailure_eq, h.failureThreshold]
  have hthreshold : default.failureThreshold = 5 := rfl
  split
  case isTrue hcond =>
    obtain ⟨hcount, hbelow⟩ := h.closed hcond.1
    have hlt := hcond.2
    refine ⟨rfl, h.cooldown, latestFailure_recordFailure.symm, fun _ => ?_,
      fun hne => absurd rfl hne, fun hne => absurd rfl hne⟩
    rw [failures_recordFailure]
    dsimp only
    omega
  case isFalse hcond =>
    refine ⟨rfl, h.cooldown, latestFailure_recordFailure.symm, nofun, fun _ => ?_, fun _ => ?_⟩
    · rw [failures_recordFailure]
      by_cases hst : cb.state = .closed
      · -- The count has reached the threshold.
        obtain ⟨hcount, hlt⟩ := h.closed hst
        have hge : ¬ (cb.failureCount + 1) % 2 ^ 32 < default.failureThreshold :=
          fun hlt => hcond ⟨hst, hlt⟩
        omega
      · exact Nat.le_succ_of_le (h.tripped hst)
    · simp [not_probed_recordFailure]

/-- A breaker is what its trace says. -/
theorem replay_agrees (trace : List Call) : Agrees trace (replay trace) := by
  induction trace using List.reverseRecOn with
  | nil => exact ⟨rfl, rfl, rfl, fun _ => ⟨rfl, by decide⟩, fun hne => absurd rfl hne,
      fun hne => absurd rfl hne⟩
  | append_singleton trace c ih =>
      rw [replay, List.foldl_append, List.foldl_cons, List.foldl_nil]
      cases c with
      | allowRequest now => exact ih.allowRequest now
      | recordSuccess now => exact ih.recordSuccess now
      | recordFailure now => exact ih.recordFailure now

theorem Agrees.closed_iff (h : Agrees trace cb) :
    cb.state = .closed ↔ failures trace < default.failureThreshold := by
  refine ⟨fun hst => (h.closed hst).2, fun hlt => ?_⟩
  by_contra hne
  exact absurd (h.tripped hne) (Nat.not_le.mpr hlt)

theorem Agrees.halfOpen_iff (h : Agrees trace cb) :
    cb.state = .halfOpen ↔
      default.failureThreshold ≤ failures trace ∧ Probed default.cooldown trace := by
  constructor
  · intro hst
    have hne : cb.state ≠ .closed := by rw [hst]; nofun
    exact ⟨h.tripped hne, (h.halfOpen hne).mp hst⟩
  · rintro ⟨hle, hprobed⟩
    have hne : cb.state ≠ .closed := fun hst => absurd (h.closed_iff.mp hst) (Nat.not_lt.mpr hle)
    exact (h.halfOpen hne).mpr hprobed

theorem Agrees.open_iff (h : Agrees trace cb) :
    cb.state = .open ↔
      default.failureThreshold ≤ failures trace ∧ ¬ Probed default.cooldown trace := by
  have hclosed := h.closed_iff
  have hhalf := h.halfOpen_iff
  cases hst : cb.state with
  | closed =>
      have hlt := hclosed.mp hst
      exact ⟨nofun, fun hand => absurd hand.1 (Nat.not_le.mpr hlt)⟩
  | «open» =>
      rw [hst] at hclosed hhalf
      have hle := Nat.not_lt.mp fun hlt => CircuitState.noConfusion (hclosed.mpr hlt)
      exact ⟨fun _ => ⟨hle, fun hp => CircuitState.noConfusion (hhalf.mpr ⟨hle, hp⟩)⟩, fun _ => rfl⟩
  | halfOpen => exact ⟨nofun, fun hand => absurd (hhalf.mp hst).2 hand.2⟩

theorem latestFailure_of_failures (h : 0 < failures trace) : ∃ t, t ∈ latestFailure trace := by
  obtain ⟨c, hmem, hfail⟩ := List.countP_pos_iff.mp h
  have hsome : (trace.reverse.find? Call.isFailure).isSome :=
    List.find?_isSome.mpr ⟨c, (List.takeWhile_sublist _).subset hmem, hfail⟩
  obtain ⟨c', hc'⟩ := Option.isSome_iff_exists.mp hsome
  exact ⟨c'.time, by simp [latestFailure, hc']⟩

/-- After every trace the breaker is closed, half-open or open as the specification says, and
a later `allow_request` refuses exactly while the breaker has tripped and the cooldown since the
latest failure is not over. -/
theorem replay_state (trace : List Call) :
    ((replay trace).state = .closed ↔ failures trace < default.failureThreshold) ∧
    ((replay trace).state = .halfOpen ↔
      default.failureThreshold ≤ failures trace ∧ Probed default.cooldown trace) ∧
    ((replay trace).state = .open ↔
      default.failureThreshold ≤ failures trace ∧ ¬ Probed default.cooldown trace) ∧
    ∀ now, (trace.map Call.time ++ [now]).Pairwise (· ≤ ·) →
      (((replay trace).allowRequest now).1 = false ↔
        default.failureThreshold ≤ failures trace ∧
          ∃ t ∈ latestFailure trace, now - t < default.cooldown) := by
  have h := replay_agrees trace
  refine ⟨h.closed_iff, h.halfOpen_iff, h.open_iff, fun now hmono => ?_⟩
  have hlate : ∀ c ∈ trace, c.time ≤ now := fun c hc =>
    (List.pairwise_append.mp hmono).2.2 c.time (List.mem_map_of_mem hc) now (by simp)
  have hpos : 0 < default.cooldown := by decide
  rw [← Bool.not_eq_true, allowRequest_fst, Allows, Classical.not_imp, h.open_iff,
    h.cooldown_le now]
  constructor
  · rintro ⟨⟨hle, -⟩, hnot⟩
    obtain ⟨t, ht⟩ := latestFailure_of_failures (Nat.lt_of_lt_of_le (by decide) hle)
    have hlt : ¬ t + default.cooldown ≤ now := fun hover => hnot ⟨t, ht, hover⟩
    exact ⟨hle, t, ht, by omega⟩
  · rintro ⟨hle, t, ht, hlt⟩
    refine ⟨⟨hle, ?_⟩, ?_⟩
    · -- A probe after the cooldown would have run later than `now`.
      rintro ⟨t', ht', now', hover, hmem⟩
      obtain rfl := Option.mem_unique ht ht'
      have hnow' := hlate _ (List.mem_reverse.mp ((List.takeWhile_sublist _).subset hmem))
      simp only [Call.time] at hnow'
      omega
    · rintro ⟨t', ht', hover⟩
      obtain rfl := Option.mem_unique ht ht'
      omega

/-- Five failures, a second apart. -/
def fiveFailures : List Call := (List.range 5).map fun i => .recordFailure (i * 10 ^ 9)

theorem fiveFailures_state :
    (replay fiveFailures).state = .open ∧
    ((replay fiveFailures).allowRequest (33 * 10 ^ 9)).1 = false ∧
    ((replay fiveFailures).allowRequest (34 * 10 ^ 9)).1 = true := by
  obtain ⟨-, -, hopen, hallow⟩ := replay_state fiveFailures
  refine ⟨hopen.mpr ⟨by decide, ?_⟩, (hallow _ (by decide)).mpr ⟨by decide, _, rfl, by decide⟩, ?_⟩
  · rintro ⟨t, -, now, -, hmem⟩
    cases hmem
  · rw [← Bool.not_eq_false, hallow _ (by decide)]
    rintro ⟨-, t, ht, hlt⟩
    cases ht
    exact absurd hlt (by decide)

end FerroEdge.ControlPlane.CircuitBreaker
