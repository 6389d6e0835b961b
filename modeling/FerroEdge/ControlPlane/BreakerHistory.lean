import FerroEdge.ControlPlane.BreakerTrace
import FerroEdge.ControlPlane.Breakers

/-!
# When a node is left out

The breaker of a node is created by the first result that is recorded for the node, is asked by
every scheduling decision of every dispatch, and is told the results in the order in which the
dispatches get to it.

`breaker_replays` says that after any run it is the breaker of a trace: the calls that the steps
of the run have made on it.  With what a breaker remembers of its trace, `eligible_iff_history`
says which nodes the scheduler may choose from in terms of the run alone: a node is left out by
its breaker while five failures have been recorded for it since its latest success, the latest
failure less than 30 s ago, and at no other time.
-/

namespace FerroEdge.ControlPlane

open Machine

/-- The call that a move makes on the breaker of a node.  A scheduling decision asks all of
them. -/
def breakerCall (id : String) (m : Move Sys Event) : Option CircuitBreaker.Call :=
  match (m.pre.stepping m.ev).map DispatchRun.pc with
  | some .select => some (.allowRequest m.pre.now)
  | some (.recordSuccess node _) => if id = node.id then some (.recordSuccess m.pre.now) else none
  | some (.recordFailure node) => if id = node.id then some (.recordFailure m.pre.now) else none
  | _ => none

/-- The calls of a run on the breaker of a node. -/
def history (id : String) (ms : List (Move Sys Event)) : List CircuitBreaker.Call :=
  ms.filterMap (breakerCall id)

variable {X : Externals} {s t : Sys} {e : Event} {ms : List (Move Sys Event)} {id : String}
  {url strategy : String}

theorem history_snoc (id : String) (ms : List (Move Sys Event)) (m : Move Sys Event) :
    history id (ms ++ [m]) = history id ms ++ (breakerCall id m).toList := by
  rw [history, history, List.filterMap_append]
  cases h : breakerCall id m <;> simp [h]

/-! ## The breaker of a run -/

/-- A step does to the breaker of a node what the call of the step does. -/
theorem breakerAfter_call (s t : Sys) (e : Event) (id : String) :
    (s.breakerAfter e id).getD .default =
      (breakerCall id ⟨s, e, t⟩).elim ((s.breaker id).getD .default)
        ((s.breaker id).getD .default).apply := by
  unfold Sys.breakerAfter breakerCall
  dsimp only
  generalize (s.stepping e).map DispatchRun.pc = pc?
  cases pc? with
  | none => rfl
  | some pc =>
      cases pc with
      | select => cases s.breaker id <;> rfl
      | recordSuccess node resp =>
          dsimp only
          split
          case isTrue hid =>
            subst hid
            rfl
          case isFalse => rfl
      | recordFailure node =>
          dsimp only
          split
          case isTrue hid =>
            subst hid
            rfl
          case isFalse => rfl
      | _ => rfl

theorem breaker_replays (h : Run (Sys.step X) (Sys.init url strategy) ms s) (id : String) :
    (s.breaker id).getD .default = CircuitBreaker.replay (history id ms) := by
  induction h with
  | nil => rfl
  | @snoc ms s t e _ hs ih =>
      rw [(Sys.step_inv hs).breaker id, breakerAfter_call s t e id, ih, history_snoc,
        CircuitBreaker.replay, CircuitBreaker.replay, List.foldl_append]
      cases breakerCall id ⟨s, e, t⟩ <;> rfl

/-- The calls of a run were made before its end. -/
theorem history_le (h : Run (Sys.step X) (Sys.init url strategy) ms s) :
    ∀ c ∈ history id ms, c.time ≤ s.now := by
  induction h with
  | nil => exact fun c hc => by cases hc
  | @snoc ms s t e _ hs ih =>
      intro c hc
      have hle := (Sys.step_inv hs).now_le
      rw [history_snoc, List.mem_append, Option.mem_toList] at hc
      obtain hold | hnew := hc
      · exact Nat.le_trans (ih c hold) hle
      · have htime : c.time = s.now := by
          unfold breakerCall at hnew
          split at hnew
          case h_1 =>
            cases hnew
            rfl
          case h_2 =>
            split at hnew <;> cases hnew
            rfl
          case h_3 =>
            split at hnew <;> cases hnew
            rfl
          case h_4 => cases hnew
        rw [htime]
        exact hle

/-! ## The nodes to choose from -/

/-- The breaker has tripped, and the cooldown since the latest failure is not over. -/
def CircuitBreaker.Refusing (trace : List CircuitBreaker.Call) (now : Nat) : Prop :=
  CircuitBreaker.default.failureThreshold ≤ CircuitBreaker.failures trace ∧
  ∃ t ∈ CircuitBreaker.latestFailure trace, now < t + CircuitBreaker.default.cooldown

/-- After calls up to `now`, a breaker refuses a request exactly while it cools down. -/
theorem CircuitBreaker.Agrees.refuses_iff {trace : List CircuitBreaker.Call} {now : Nat}
    {cb : CircuitBreaker} (h : CircuitBreaker.Agrees trace cb)
    (hlate : ∀ c ∈ trace, c.time ≤ now) :
    ¬ cb.Allows now ↔ CircuitBreaker.Refusing trace now := by
  rw [CircuitBreaker.Allows, Classical.not_imp, h.open_iff, h.cooldown_le now]
  constructor
  · rintro ⟨⟨hle, -⟩, hnot⟩
    obtain ⟨t, ht⟩ :=
      CircuitBreaker.latestFailure_of_failures (Nat.lt_of_lt_of_le (by decide) hle)
    exact ⟨hle, t, ht, Nat.lt_of_not_le fun hover => hnot ⟨t, ht, hover⟩⟩
  · rintro ⟨hle, t, ht, hlt⟩
    have hnot : ∀ now', now' ≤ now → ¬ t + CircuitBreaker.default.cooldown ≤ now' :=
      fun now' hnow' hover => absurd (Nat.le_trans hover hnow') (Nat.not_le.mpr hlt)
    refine ⟨⟨hle, ?_⟩, ?_⟩
    · rintro ⟨t', ht', now', hover, hmem⟩
      obtain rfl := Option.mem_unique ht ht'
      have hmem' := List.mem_reverse.mp ((List.takeWhile_sublist _).subset hmem)
      exact hnot now' (hlate _ hmem') hover
    · rintro ⟨t', ht', hover⟩
      obtain rfl := Option.mem_unique ht ht'
      exact hnot now (Nat.le_refl now) hover

/-- A node without a breaker has the default one, which lets requests through. -/
theorem allowed_iff (s : Sys) (id : String) :
    (∀ cb, s.shared.app.circuitBreakers.lookup id = some cb → cb.Allows s.now) ↔
      ((s.breaker id).getD .default).Allows s.now := by
  rw [Sys.breaker]
  cases s.shared.app.circuitBreakers.lookup id with
  | none => simp [CircuitBreaker.Allows, CircuitBreaker.default]
  | some cb => simp

/-- After every run of the control plane, the nodes that the node of a dispatch is chosen from are
the registered healthy ones that it has not tried, with room where the strategy asks for it, except
those for which five failures have been recorded since their latest success, the latest less than
30 s ago. -/
theorem eligible_iff_history (h : Run (Sys.step X) (Sys.init url strategy) ms s)
    (tried : List String) (n : NodeInfo) :
    Eligible s.now tried s.shared.app n ↔
      n ∈ s.shared.app.nodes.values ∧ n.healthy = true ∧ n.id ∉ tried ∧
      (s.shared.app.schedulingStrategy = "least_loaded" →
        n.activeTasks < n.maxConcurrentTasks) ∧
      ¬ (5 ≤ CircuitBreaker.failures (history n.id ms) ∧
        ∃ t ∈ CircuitBreaker.latestFailure (history n.id ms), s.now < t + 30 * 10 ^ 9) := by
  have hagrees := CircuitBreaker.replay_agrees (history n.id ms)
  rw [← breaker_replays h n.id] at hagrees
  have hrefuses := hagrees.refuses_iff (history_le h)
  have hallowed : (∀ cb, s.shared.app.circuitBreakers.lookup n.id = some cb → cb.Allows s.now) ↔
      ¬ CircuitBreaker.Refusing (history n.id ms) s.now := by
    rw [allowed_iff, ← hrefuses, Classical.not_not]
  constructor
  · rintro ⟨hreg, hhealthy, htried, hallow, hroom⟩
    exact ⟨hreg, hhealthy, htried, hroom, hallowed.mp hallow⟩
  · rintro ⟨hreg, hhealthy, htried, hroom, hnot⟩
    exact ⟨hreg, hhealthy, htried, hallowed.mpr hnot, hroom⟩

/-- Five tasks have failed on a node, and it is left out. -/
theorem fiveFail_leftOut :
    ∃ s ms n, Run (Sys.step .sample) (Sys.init "" "round_robin") ms s ∧
      n ∈ s.shared.app.nodes.values ∧ n.healthy = true ∧ ¬ Eligible s.now [] s.shared.app n ∧
      5 ≤ CircuitBreaker.failures (history n.id ms) := by
  have htest : (exec (Sys.step .sample) (Sys.init "" "round_robin") fiveFail).any (fun s =>
      s.shared.app.schedulingStrategy ≠ "least_loaded" && s.shared.app.nodes.values.any fun n =>
        n.healthy && !decide (Eligible s.now [] s.shared.app n)) = true := by decide
  obtain ⟨s, h, hs⟩ := exec_any_run htest
  obtain ⟨hstrategy, hn⟩ := Bool.and_eq_true_iff.mp hs
  obtain ⟨n, hmem, hn⟩ := List.any_eq_true.mp hn
  obtain ⟨hhealthy, hnot⟩ := Bool.and_eq_true_iff.mp hn
  replace hnot : ¬ Eligible s.now [] s.shared.app n := by simpa using hnot
  refine ⟨s, _, n, h, hmem, hhealthy, hnot, ?_⟩
  by_contra hfew
  exact hnot ((eligible_iff_history h [] n).mpr ⟨hmem, hhealthy, List.not_mem_nil,
    fun hleast => absurd hleast (of_decide_eq_true hstrategy), fun hrefusing => hfew hrefusing.1⟩)

end FerroEdge.ControlPlane
