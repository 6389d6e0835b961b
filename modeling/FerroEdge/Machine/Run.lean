import Mathlib.Data.List.Basic

/-!
# Runs of a machine

A machine is a partial step function `step : S → E → Option S`.  `step s e = none` says that
the event `e` is not enabled in `s`.  A *run* is the list of its moves, each with the state
before and after it, so that a property of runs can speak of any two moves and of what lies
between them.

These rules are used throughout.

* `Run.invariant`: what holds at the start and is kept by every move that meets a condition
  holds at the end of every run whose moves all meet it.
* `Run.invariant_iff`: where a move keeps a property exactly if it meets the condition, so do
  runs.
* `Run.at_move`: a run splits at each of its moves.
* `Run.run_project`: a run of a machine is one of each of its parts.
* `exec_any_run`: a schedule of events that evaluates to a state is a run to that state.
  Concrete runs are given as schedules.
* `exec_ends`: a machine with a measure that every step lowers comes to an end, whatever its
  events are.
-/

namespace Machine

variable {S E : Type*}

/-- One move of a run: the state before it, its event, and the state after it. -/
structure Move (S E : Type*) where
  /-- The state before. -/
  pre : S
  /-- The event. -/
  ev : E
  /-- The state after. -/
  post : S

/-- The runs of a machine from `s₀`, with their moves in order. -/
inductive Run (step : S → E → Option S) (s₀ : S) : List (Move S E) → S → Prop where
  | nil : Run step s₀ [] s₀
  | snoc {ms : List (Move S E)} {s t : S} {e : E} :
      Run step s₀ ms s → step s e = some t → Run step s₀ (ms ++ [⟨s, e, t⟩]) t

variable {step : S → E → Option S} {s₀ s t : S}

namespace Run

/-- What every move of a run keeps holds at its end.  `C` is what the moves of the run are
known to meet. -/
theorem invariant {I : S → Prop} {C : Move S E → Prop} {ms : List (Move S E)}
    (h : Run step s₀ ms s) (h0 : I s₀)
    (hstep : ∀ s e t, I s → C ⟨s, e, t⟩ → step s e = some t → I t)
    (hC : ∀ m ∈ ms, C m) : I s := by
  induction h with
  | nil => exact h0
  | snoc _ hs ih =>
      have hpre := ih fun m hm => hC m (List.mem_append_left _ hm)
      exact hstep _ _ _ hpre (hC _ (by simp)) hs

/-- The unconditional form of `invariant`. -/
theorem always {I : S → Prop} {ms : List (Move S E)} (h : Run step s₀ ms s) (h0 : I s₀)
    (hstep : ∀ s e t, I s → step s e = some t → I t) : I s :=
  h.invariant (C := fun _ => True) h0 (fun s e t hi _ hs => hstep s e t hi hs) (fun _ _ => trivial)

theorem append {ms ns : List (Move S E)} (h : Run step s₀ ms s) (h' : Run step s ns t) :
    Run step s₀ (ms ++ ns) t := by
  induction h' with
  | nil => simpa using h
  | snoc _ hs ih =>
      rw [← List.append_assoc]
      exact ih.snoc hs

/-- A run splits where its moves split. -/
theorem split {ms ns : List (Move S E)} (h : Run step s₀ (ms ++ ns) t) :
    ∃ s, Run step s₀ ms s ∧ Run step s ns t := by
  generalize hl : ms ++ ns = l at h
  induction h generalizing ns with
  | nil =>
      obtain ⟨rfl, rfl⟩ := List.append_eq_nil_iff.mp hl
      exact ⟨s₀, .nil, .nil⟩
  | @snoc l' u v e hr hs ih =>
      rcases List.eq_nil_or_concat ns with rfl | ⟨ns', m, rfl⟩
      · rw [List.append_nil] at hl
        subst hl
        exact ⟨v, hr.snoc hs, .nil⟩
      · rw [List.concat_eq_append, ← List.append_assoc] at hl
        obtain ⟨hl', hm⟩ := List.append_inj' hl rfl
        obtain ⟨w, hw, hw'⟩ := ih hl'
        rw [List.concat_eq_append, hm]
        exact ⟨w, hw, hw'.snoc hs⟩

theorem nil_inv (h : Run step s₀ [] t) : t = s₀ := by
  generalize hl : ([] : List (Move S E)) = l at h
  cases h with
  | nil => rfl
  | snoc => simp at hl

/-- The first move of a run starts where the run starts. -/
theorem cons_inv {m : Move S E} {ms : List (Move S E)} (h : Run step s₀ (m :: ms) t) :
    m.pre = s₀ ∧ step s₀ m.ev = some m.post ∧ Run step m.post ms t := by
  generalize hl : m :: ms = l at h
  induction h generalizing ms with
  | nil => cases hl
  | @snoc l' u v e hr hs ih =>
      cases l' with
      | nil =>
          obtain rfl := hr.nil_inv
          cases hl
          exact ⟨rfl, hs, .nil⟩
      | cons m' l'' =>
          rw [List.cons_append, List.cons.injEq] at hl
          obtain ⟨rfl, rfl⟩ := hl
          obtain ⟨hpre, hstep, hrest⟩ := ih rfl
          exact ⟨hpre, hstep, hrest.snoc hs⟩

/-- A run splits at each of its moves. -/
theorem at_move {ms ns : List (Move S E)} {m : Move S E} (h : Run step s₀ (ms ++ m :: ns) t) :
    Run step s₀ ms m.pre ∧ step m.pre m.ev = some m.post ∧ Run step m.post ns t := by
  obtain ⟨u, hu, hrest⟩ := h.split
  obtain ⟨hpre, hs, hns⟩ := hrest.cons_inv
  subst hpre
  exact ⟨hu, hs, hns⟩

/-- Every move of a run is a step of the machine. -/
theorem step_of_mem {ms : List (Move S E)} {m : Move S E} (h : Run step s₀ ms t) (hm : m ∈ ms) :
    step m.pre m.ev = some m.post := by
  obtain ⟨as, bs, rfl⟩ := List.append_of_mem hm
  exact h.at_move.2.1

/-- What every move keeps also holds before and after each move of the run. -/
theorem invariant_mem {I : S → Prop} {C : Move S E → Prop} {ms : List (Move S E)}
    (h : Run step s₀ ms s) (h0 : I s₀)
    (hstep : ∀ s e t, I s → C ⟨s, e, t⟩ → step s e = some t → I t)
    (hC : ∀ m ∈ ms, C m) : ∀ m ∈ ms, I m.pre ∧ I m.post := by
  intro m hm
  obtain ⟨as, bs, rfl⟩ := List.append_of_mem hm
  obtain ⟨hpre, hs, -⟩ := h.at_move
  have hI : I m.pre := hpre.invariant h0 hstep fun m' hm' => hC m' (List.mem_append_left _ hm')
  exact ⟨hI, hstep _ _ _ hI (hC m (by simp)) hs⟩

/-- Where a move keeps a property exactly if it meets a condition, all states of a run have the
property exactly if all its moves meet the condition. -/
theorem invariant_iff {I : S → Prop} {C : Move S E → Prop} {ms : List (Move S E)}
    (h : Run step s₀ ms s) (h0 : I s₀)
    (hstep : ∀ s e t, I s → step s e = some t → (I t ↔ C ⟨s, e, t⟩)) :
    (∀ m ∈ ms, I m.post) ↔ ∀ m ∈ ms, C m := by
  constructor
  · intro hI
    have hboth : I s ∧ ∀ m ∈ ms, C m := by
      induction h with
      | nil => exact ⟨h0, fun m hm => by cases hm⟩
      | @snoc ms s t e _ hs ih =>
          obtain ⟨hpre, hC⟩ := ih fun m hm => hI m (List.mem_append_left _ hm)
          have hpost : I t := hI ⟨s, e, t⟩ (by simp)
          refine ⟨hpost, fun m hm => ?_⟩
          obtain hm | hm := List.mem_append.mp hm
          · exact hC m hm
          · rw [List.mem_singleton.mp hm]
            exact (hstep s e t hpre hs).mp hpost
    exact hboth.2
  · intro hC m hm
    have hkeep : ∀ s e t, I s → C ⟨s, e, t⟩ → step s e = some t → I t :=
      fun s e t hI hC hs => (hstep s e t hI hs).mpr hC
    exact (h.invariant_mem h0 hkeep hC m hm).2

/-- A machine that takes the same steps under other events has the same runs. -/
theorem relabel {E' : Type*} {step' : S → E' → Option S} (g : S → E → E')
    (hg : ∀ s e t, step s e = some t → step' s (g s e) = some t) {ms : List (Move S E)}
    (h : Run step s₀ ms s) :
    Run step' s₀ (ms.map fun m => ⟨m.pre, g m.pre m.ev, m.post⟩) s := by
  induction h with
  | nil => exact .nil
  | snoc _ hs ih =>
      rw [List.map_append]
      exact ih.snoc (hg _ _ _ hs)

/-- The moves of a part of the machine.  The part takes no step where `ε` is `none`. -/
def project {S' E' : Type*} (π : S → S') (ε : S → E → Option E') (ms : List (Move S E)) :
    List (Move S' E') :=
  ms.filterMap fun m => (ε m.pre m.ev).map fun e => ⟨π m.pre, e, π m.post⟩

theorem mem_project {S' E' : Type*} {π : S → S'} {ε : S → E → Option E'} {ms : List (Move S E)}
    {m' : Move S' E'} (h : m' ∈ project π ε ms) :
    ∃ m ∈ ms, ε m.pre m.ev = some m'.ev ∧ m'.pre = π m.pre ∧ m'.post = π m.post := by
  obtain ⟨m, hm, hm'⟩ := List.mem_filterMap.mp h
  obtain ⟨e, he, rfl⟩ := Option.map_eq_some_iff.mp hm'
  exact ⟨m, hm, he, rfl, rfl⟩

/-- A machine of which every step is a step of its part, or leaves the part alone, runs the part
in each of its runs. -/
theorem run_project {S' E' : Type*} {step' : S' → E' → Option S'} (π : S → S')
    (ε : S → E → Option E')
    (hpart : ∀ s e t, step s e = some t →
      (∀ e', ε s e = some e' → step' (π s) e' = some (π t)) ∧ (ε s e = none → π t = π s))
    {ms : List (Move S E)} (h : Run step s₀ ms s) :
    Run step' (π s₀) (project π ε ms) (π s) := by
  induction h with
  | nil => exact .nil
  | @snoc ms s t e _ hs ih =>
      obtain ⟨hsome, hnone⟩ := hpart s e t hs
      rw [project, List.filterMap_append]
      cases he : ε s e with
      | none =>
          rw [hnone he]
          simpa [he, project] using ih
      | some e' => simpa [he, project] using ih.snoc (hsome e' he)

end Run

/-! ## Schedules -/

/-- The state a schedule of events leads to, if every event is enabled in turn. -/
def exec (step : S → E → Option S) : S → List E → Option S
  | s, [] => some s
  | s, e :: es =>
      match step s e with
      | some t => exec step t es
      | none => none

/-- The moves of a schedule, as far as it is enabled. -/
def moves (step : S → E → Option S) : S → List E → List (Move S E)
  | _, [] => []
  | s, e :: es =>
      match step s e with
      | some t => ⟨s, e, t⟩ :: moves step t es
      | none => []

theorem ev_mem_of_moves {es : List E} {m : Move S E} (h : m ∈ moves step s es) : m.ev ∈ es := by
  induction es generalizing s with
  | nil => cases h
  | cons e es ih =>
      unfold moves at h
      split at h
      case h_1 t _ =>
        obtain rfl | hrest := List.mem_cons.mp h
        · exact List.mem_cons_self
        · exact List.mem_cons_of_mem _ (ih hrest)
      case h_2 => cases h

theorem Run.cons {ms : List (Move S E)} {e : E} (hs : step s₀ e = some s)
    (h : Run step s ms t) : Run step s₀ (⟨s₀, e, s⟩ :: ms) t :=
  Run.append (Run.nil.snoc hs) h

/-- A schedule that is enabled throughout is a run. -/
theorem exec_run {es : List E} (h : exec step s es = some t) : Run step s (moves step s es) t := by
  induction es generalizing s with
  | nil =>
      rw [exec, Option.some.injEq] at h
      subst h
      exact .nil
  | cons e es ih =>
      rw [exec] at h
      cases hs : step s e with
      | none => rw [hs] at h; cases h
      | some u =>
          rw [hs] at h
          simp only [moves, hs]
          exact Run.cons hs (ih h)

/-- A test that succeeds on the state a schedule evaluates to gives a run to such a state. -/
theorem exec_any_run {p : S → Bool} {es : List E} (h : (exec step s es).any p = true) :
    ∃ t, Run step s (moves step s es) t ∧ p t = true := by
  cases he : exec step s es with
  | none => rw [he] at h; cases h
  | some t =>
      rw [he] at h
      exact ⟨t, exec_run he, h⟩

/-- When every step from a state that is not final lowers a measure, every sequence of events
leads to a final state. -/
theorem exec_ends {I final : S → Prop} {μ : S → Nat}
    (hstep : ∀ s e, I s → ¬ final s → ∃ t, step s e = some t ∧ I t ∧ μ t < μ s)
    (events : Nat → E) (hs : I s) :
    ∃ n ≤ μ s, ∃ t, exec step s ((List.range n).map events) = some t ∧ final t := by
  induction hm : μ s using Nat.strongRecOn generalizing s events with
  | ind m ih =>
      by_cases hfinal : final s
      · exact ⟨0, Nat.zero_le _, s, rfl, hfinal⟩
      · obtain ⟨t, ht, hI, hlt⟩ := hstep s (events 0) hs hfinal
        obtain ⟨n, hn, u, hu, hend⟩ := ih (μ t) (hm ▸ hlt) (fun k => events (k + 1)) hI rfl
        refine ⟨n + 1, by omega, u, ?_, hend⟩
        rw [List.range_succ_eq_map, List.map_cons, List.map_map, exec, ht]
        exact hu

/-- When from every state that is not final some step lowers a measure, a final state can be
reached. -/
theorem exists_run_final {I final : S → Prop} {μ : S → Nat}
    (hstep : ∀ s, I s → ¬ final s → ∃ e t, step s e = some t ∧ I t ∧ μ t < μ s) (hs : I s) :
    ∃ ms t, Run step s ms t ∧ final t := by
  induction hm : μ s using Nat.strongRecOn generalizing s with
  | ind m ih =>
      by_cases hfinal : final s
      · exact ⟨[], s, .nil, hfinal⟩
      · obtain ⟨e, t, ht, hI, hlt⟩ := hstep s hs hfinal
        obtain ⟨ms, u, hrun, hend⟩ := ih (μ t) (hm ▸ hlt) hI rfl
        exact ⟨_, u, Run.cons ht hrun, hend⟩

end Machine
