import FerroEdge.Machine.Table
import FerroEdge.WasmRuntime.Epoch

/-!
# Isolation and enforcement of timeouts

Two questions about the runs that share one engine.

*Isolation.*  A run should be interrupted only by its own timer.  The counter is shared, so a
timer of another run that fires while a store is armed reaches that store's deadline as well.
`isolated_iff_undisturbed` says that this is the only way isolation breaks: along a run of
the engine every state is isolated if and only if no timer fires while another run has an
armed store and its own timer has not fired.

*Enforcement.*  A guest should not run past its timeout.  The timer is armed before the
closure is queued and the deadline is taken relative to the epoch at which the store is
created, so a timer that fires in between is lost.  `enforced_of_prompt` says that
enforcement holds as long as no store is armed after its own timer has fired, and that every
store armed later than that can run its guest past the timeout.
-/

namespace FerroEdge.WasmRuntime

open Machine

variable {s t : Engine} {e : EngineEvent}

/-! ## What a step does -/

/-- The events of the engine, with everything they change. -/
theorem Engine.step_cases (hs : s.step e = some t) :
    (∃ entry timeoutMs, e = .call entry timeoutMs ∧
      t = { s with runs := s.runs ++ [⟨entry, timeoutMs, .pending, .scheduled⟩] }) ∨
    (∃ i r, e = .fire i ∧ s.runs[i]? = some r ∧ r.timer = .pending ∧
      t = { epoch := s.epoch + 1, runs := s.runs.set i { r with timer := .fired } }) ∨
    (∃ i a r r', e = .act i a ∧ s.runs[i]? = some r ∧ r.advance s.epoch a = some r' ∧
      t = { s with runs := s.runs.set i r' }) := by
  cases e with
  | call entry timeoutMs =>
      rw [Engine.step, Option.some.injEq] at hs
      exact Or.inl ⟨entry, timeoutMs, rfl, hs.symm⟩
  | fire i =>
      simp only [Engine.step] at hs
      split at hs
      · rename_i r hr
        split at hs
        · rename_i hp
          exact Or.inr (Or.inl ⟨i, r, rfl, hr, hp, (Option.some.inj hs).symm⟩)
        · cases hs
      · cases hs
  | act i a =>
      simp only [Engine.step] at hs
      split at hs
      · rename_i r hr
        obtain ⟨r', hr', ht⟩ := Option.map_eq_some_iff.mp hs
        exact Or.inr (Or.inr ⟨i, a, r, r', rfl, hr, hr', ht.symm⟩)
      · cases hs

/-- What a step of a run does to its timer, its deadline and its interruption. -/
structure Advances (epoch : Nat) (a : Action) (r r' : SandboxRun) : Prop where
  /-- Only `join` touches the timer, and it never brings one back. -/
  timer : r'.timer = r.timer ∨ (r.timer = .pending ∧ r'.timer = .aborted ∧ r'.deadline? = none)
  /-- A deadline is set once, to the epoch after the current one. -/
  deadline : r'.deadline? = none ∨ r'.deadline? = r.deadline? ∨
    (a = .setEpochDeadline ∧ r'.deadline? = some (epoch + 1))
  /-- The epoch trap needs a deadline that has been reached. -/
  interrupted : r'.interrupted = true →
    r.interrupted = true ∨ ∃ d, r.deadline? = some d ∧ d ≤ epoch

theorem SandboxRun.advances {epoch : Nat} {a : Action} {r r' : SandboxRun}
    (h : r.advance epoch a = some r') : Advances epoch a r r' := by
  obtain ⟨entry, timeoutMs, timer, phase⟩ := r
  cases a with
  | start =>
      cases phase <;> cases entry <;> simp only [SandboxRun.advance] at h <;> cases h <;>
        exact ⟨Or.inl rfl, Or.inl rfl, by simp [SandboxRun.interrupted]⟩
  | validate error =>
      cases phase <;> cases error <;> simp only [SandboxRun.advance] at h <;> cases h <;>
        exact ⟨Or.inl rfl, Or.inl rfl, by simp [SandboxRun.interrupted]⟩
  | compile error =>
      cases phase <;> cases error <;> simp only [SandboxRun.advance] at h <;> cases h <;>
        exact ⟨Or.inl rfl, Or.inl rfl, by simp [SandboxRun.interrupted]⟩
  | setEpochDeadline =>
      cases phase <;> simp only [SandboxRun.advance] at h <;> cases h
      exact ⟨Or.inl rfl, Or.inr (Or.inr ⟨rfl, rfl⟩), by simp [SandboxRun.interrupted]⟩
  | enterGuest =>
      cases phase <;> simp only [SandboxRun.advance] at h <;> cases h
      exact ⟨Or.inl rfl, Or.inr (Or.inl rfl), by simp [SandboxRun.interrupted]⟩
  | interrupt denied =>
      cases phase <;> simp only [SandboxRun.advance] at h <;> try cases h
      rename_i d
      split at h
      · rename_i hd
        cases h
        exact ⟨Or.inl rfl, Or.inl rfl, fun _ => Or.inr ⟨d, rfl, hd⟩⟩
      · cases h
  | finish outcome =>
      cases phase <;> simp only [SandboxRun.advance] at h <;> cases h
      exact ⟨Or.inl rfl, Or.inl rfl, by simp [SandboxRun.interrupted]⟩
  | join =>
      cases phase <;> simp only [SandboxRun.advance] at h <;> cases h
      refine ⟨?_, Or.inl rfl, fun hi => Or.inl hi⟩
      by_cases hp : timer = .pending
      · exact Or.inr ⟨hp, by simp [hp], rfl⟩
      · exact Or.inl (by simp [hp])
  | panic msg =>
      cases phase <;> simp only [SandboxRun.advance] at h <;> cases h <;>
        exact ⟨Or.inl rfl, Or.inl rfl, by simp [SandboxRun.interrupted]⟩

theorem SandboxRun.deadline?_of_guest {r : SandboxRun} {d : Nat} (h : r.phase = .guest d) :
    r.deadline? = some d := by
  simp [SandboxRun.deadline?, h]

/-! ## Deadlines are near

Every armed store has its deadline at most one above the epoch.  So one more increment, from
whatever timer, reaches it. -/

/-- No deadline lies further ahead than the next epoch. -/
def DeadlinesNear (s : Engine) : Prop :=
  ∀ (i : Nat) (r : SandboxRun) (d : Nat), s.runs[i]? = some r → r.deadline? = some d →
    d ≤ s.epoch + 1

theorem deadlinesNear_new : DeadlinesNear Engine.new := by
  intro i r d hr
  simp [Engine.new] at hr

theorem deadlinesNear_step (h : DeadlinesNear s) (hs : s.step e = some t) : DeadlinesNear t := by
  intro j r d hr hd
  rcases Engine.step_cases hs with ⟨entry, ms, -, rfl⟩ | ⟨i, r₀, -, hr₀, -, rfl⟩ |
    ⟨i, a, r₀, r₁, -, hr₀, ha, rfl⟩
  · rcases getElem?_snoc_inv hr with ⟨-, rfl⟩ | ⟨-, hr'⟩
    · cases hd
    · exact h j r d hr' hd
  · have hle : d ≤ s.epoch + 1 := by
      rcases getElem?_set_inv hr with ⟨-, rfl⟩ | ⟨-, hr'⟩
      · exact h i r₀ d hr₀ hd
      · exact h j r d hr' hd
    exact Nat.le_succ_of_le hle
  · rcases getElem?_set_inv hr with ⟨-, rfl⟩ | ⟨-, hr'⟩
    · rcases (SandboxRun.advances ha).deadline with hn | hk | ⟨-, hn⟩
      · rw [hn] at hd; cases hd
      · exact h i r₀ d hr₀ (hk ▸ hd)
      · rw [hn] at hd
        cases hd
        exact Nat.le_refl _
    · exact h j r d hr' hd

/-! ## Isolation -/

/-- A run whose store deadline has been reached, and a run that was interrupted, have seen
their own timer fire. -/
def Isolated (s : Engine) : Prop :=
  ∀ (i : Nat) (r : SandboxRun), s.runs[i]? = some r →
    (∀ d, r.deadline? = some d → d ≤ s.epoch → r.timer = .fired) ∧
    (r.interrupted = true → r.timer = .fired)

/-- No timer fires while another run has an armed store and its own timer has not fired. -/
def Undisturbed (s : Engine) : EngineEvent → Prop
  | .fire i => ∀ (j : Nat) (r : SandboxRun), s.runs[j]? = some r → j ≠ i →
      r.deadline?.isSome = true → r.timer = .fired
  | _ => True

instance (s : Engine) : (e : EngineEvent) → Decidable (Undisturbed s e)
  | .fire i => decidableForallProcess s.runs fun j r =>
      j ≠ i → r.deadline?.isSome = true → r.timer = .fired
  | .call _ _ => instDecidableTrue
  | .act _ _ => instDecidableTrue

theorem isolated_step (h : Isolated s) (hu : Undisturbed s e) (hs : s.step e = some t) :
    Isolated t := by
  intro j r hr
  rcases Engine.step_cases hs with ⟨entry, ms, -, rfl⟩ | ⟨i, r₀, rfl, hr₀, -, rfl⟩ |
    ⟨i, a, r₀, r₁, -, hr₀, ha, rfl⟩
  · rcases getElem?_snoc_inv hr with ⟨-, rfl⟩ | ⟨-, hr'⟩
    · exact ⟨fun d hd => by simp [SandboxRun.deadline?] at hd,
        fun hi => by simp [SandboxRun.interrupted] at hi⟩
    · exact h j r hr'
  · -- the timer of `i` fires: `i` is excused and every other armed run is by assumption
    rcases getElem?_set_inv hr with ⟨-, rfl⟩ | ⟨hj, hr'⟩
    · exact ⟨fun _ _ _ => rfl, fun _ => rfl⟩
    · exact ⟨fun d hd _ => hu j r hr' hj (by rw [hd]; rfl), (h j r hr').2⟩
  · rcases getElem?_set_inv hr with ⟨-, rfl⟩ | ⟨-, hr'⟩
    · have hadv := SandboxRun.advances ha
      obtain ⟨hdl, hint⟩ := h i r₀ hr₀
      refine ⟨fun d hd hle => ?_, fun hi => ?_⟩
      · rcases hadv.timer with ht | ⟨-, -, hnone⟩
        · rcases hadv.deadline with hn | hk | ⟨-, hn⟩
          · rw [hn] at hd; cases hd
          · rw [ht]
            exact hdl d (hk ▸ hd) hle
          · rw [hn] at hd
            cases hd
            exact absurd hle (Nat.not_succ_le_self _)
        · rw [hnone] at hd; cases hd
      · have hfired : r₀.timer = .fired := by
          rcases hadv.interrupted hi with hi' | ⟨d, hd, hle⟩
          · exact hint hi'
          · exact hdl d hd hle
        rcases hadv.timer with ht | ⟨hp, -, -⟩
        · rw [ht, hfired]
        · rw [hfired] at hp; cases hp
    · exact h j r hr'

/-- A timer that fires while another run is armed and has not timed out breaks isolation. -/
theorem undisturbed_of_isolated (hn : DeadlinesNear s) (hs : s.step e = some t)
    (ht : Isolated t) : Undisturbed s e := by
  rcases Engine.step_cases hs with ⟨_, _, rfl, -⟩ | ⟨i, r₀, rfl, hr₀, -, rfl⟩ |
    ⟨_, _, _, _, rfl, -⟩
  · trivial
  · intro j r hr hj hsome
    obtain ⟨d, hd⟩ := Option.isSome_iff_exists.mp hsome
    have hr' : (s.runs.set i { r₀ with timer := .fired })[j]? = some r := by
      rw [List.getElem?_set_ne (fun h => hj h.symm)]
      exact hr
    exact (ht j r hr').1 d hd (hn j r d hr hd)
  · trivial

/-- Along every run of the engine, each state is isolated if and only if each step is
undisturbed. -/
theorem isolated_iff_undisturbed {ms : List (Move Engine EngineEvent)}
    (h : Run Engine.step Engine.new ms s) :
    (∀ m ∈ ms, Isolated m.post) ↔ ∀ m ∈ ms, Undisturbed m.pre m.ev := by
  constructor
  · intro hiso m hm
    have hnear : DeadlinesNear m.pre :=
      (h.invariant_mem (C := fun _ => True) deadlinesNear_new
        (fun _ _ _ hn _ hs => deadlinesNear_step hn hs) (fun _ _ => trivial) m hm).1
    exact undisturbed_of_isolated hnear (h.step_of_mem hm) (hiso m hm)
  · intro hu m hm
    have hnew : Isolated Engine.new := by
      intro i r hr
      simp [Engine.new] at hr
    exact (h.invariant_mem (C := fun m => Undisturbed m.pre m.ev) hnew
      (fun _ _ _ hi hc hs => isolated_step hi hc hs) hu m hm).2

/-- Two calls of `execute_compiled`.  The timer of the first fires while its guest runs.  The store
of the second is armed only then, and its timer fires while both guests run. -/
def ownTimeout : List EngineEvent :=
  [.call .executeCompiled 100, .call .executeCompiled 5000,
   .act 0 .start, .act 0 .setEpochDeadline, .act 0 .enterGuest, .fire 0,
   .act 1 .start, .act 1 .setEpochDeadline, .act 1 .enterGuest, .fire 1,
   .act 0 (.interrupt false), .act 1 (.interrupt false)]

/-- Both timers of `ownTimeout` have fired and both runs have returned `Timeout`. -/
def ownTimeoutEnd : Engine :=
  ⟨2, [⟨.executeCompiled, 100, .fired, .returned true (.error (.timeout 100))⟩,
    ⟨.executeCompiled, 5000, .fired, .returned true (.error (.timeout 5000))⟩]⟩

theorem ownTimeout_isolated :
    Run Engine.step Engine.new (moves Engine.step Engine.new ownTimeout) ownTimeoutEnd ∧
      ∀ m ∈ moves Engine.step Engine.new ownTimeout, Isolated m.post := by
  have hrun := exec_run
    (show exec Engine.step Engine.new ownTimeout = some ownTimeoutEnd from rfl)
  exact ⟨hrun, (isolated_iff_undisturbed hrun).mpr (by decide)⟩

/-- Two calls of `execute_compiled`, the first with a timeout of 100 ms and the second with
one of 5 s.  Both guests run when the first timer fires, and the second run is interrupted. -/
def foreignTimeout : List EngineEvent :=
  [.call .executeCompiled 100, .call .executeCompiled 5000,
   .act 0 .start, .act 0 .setEpochDeadline, .act 0 .enterGuest,
   .act 1 .start, .act 1 .setEpochDeadline, .act 1 .enterGuest,
   .fire 0, .act 1 (.interrupt false)]

/-- The second run of `foreignTimeout` returns `Timeout` with its own timer still pending. -/
theorem foreignTimeout_not_isolated :
    ∃ ms s, Run Engine.step Engine.new ms s ∧ ¬ Isolated s := by
  have htest : (exec Engine.step Engine.new foreignTimeout).any (fun s =>
      s.runs[1]?.any fun r => r.interrupted && decide (r.timer = .pending)) = true := by decide
  obtain ⟨s, hrun, hs⟩ := exec_any_run htest
  refine ⟨_, s, hrun, fun hiso => ?_⟩
  obtain ⟨r, hr, hr'⟩ := (Option.any_eq_true _ _).mp hs
  rw [Bool.and_eq_true, decide_eq_true_eq] at hr'
  have hfired := (hiso 1 r hr).2 hr'.1
  rw [hr'.2] at hfired
  cases hfired

/-! ## Enforcement -/

/-- A run that executes guest code after its own timer fired has its deadline reached. -/
def Enforced (s : Engine) : Prop :=
  ∀ (i : Nat) (r : SandboxRun) (d : Nat), s.runs[i]? = some r → r.timer = .fired →
    r.phase = .guest d → d ≤ s.epoch

/-- No store is armed after its own timer has fired. -/
def Prompt (s : Engine) : EngineEvent → Prop
  | .act i .setEpochDeadline => s.runs[i]?.map SandboxRun.timer ≠ some .fired
  | _ => True

instance (s : Engine) (e : EngineEvent) : Decidable (Prompt s e) := by
  unfold Prompt
  split <;> infer_instance

theorem Engine.late_of_not_prompt (h : ¬ Prompt s e) :
    ∃ i r, e = .act i .setEpochDeadline ∧ s.runs[i]? = some r ∧ r.timer = .fired := by
  unfold Prompt at h
  split at h
  · rename_i i
    obtain ⟨r, hr, hf⟩ := Option.map_eq_some_iff.mp (not_not.mp h)
    exact ⟨i, r, rfl, hr, hf⟩
  · exact absurd trivial h

/-- The inductive form of `Enforced`: it also speaks of armed stores whose guest has not been
entered. -/
def DeadlinesReached (s : Engine) : Prop :=
  ∀ (i : Nat) (r : SandboxRun) (d : Nat), s.runs[i]? = some r → r.timer = .fired →
    r.deadline? = some d → d ≤ s.epoch

theorem DeadlinesReached.enforced (h : DeadlinesReached s) : Enforced s :=
  fun i r d hr hf hg => h i r d hr hf (SandboxRun.deadline?_of_guest hg)

theorem deadlinesReached_step (h : DeadlinesReached s) (hn : DeadlinesNear s) (hp : Prompt s e)
    (hs : s.step e = some t) : DeadlinesReached t := by
  intro j r d hr hf hd
  rcases Engine.step_cases hs with ⟨entry, ms, -, rfl⟩ | ⟨i, r₀, -, hr₀, -, rfl⟩ |
    ⟨i, a, r₀, r₁, rfl, hr₀, ha, rfl⟩
  · rcases getElem?_snoc_inv hr with ⟨-, rfl⟩ | ⟨-, hr'⟩
    · cases hd
    · exact h j r d hr' hf hd
  · -- the increment itself brings the epoch to the deadline of the run that fired
    rcases getElem?_set_inv hr with ⟨-, rfl⟩ | ⟨-, hr'⟩
    · exact hn i r₀ d hr₀ hd
    · exact Nat.le_succ_of_le (h j r d hr' hf hd)
  · rcases getElem?_set_inv hr with ⟨-, rfl⟩ | ⟨-, hr'⟩
    · have hadv := SandboxRun.advances ha
      have hf₀ : r₀.timer = .fired := by
        rcases hadv.timer with ht | ⟨-, hab, -⟩
        · rw [← ht, hf]
        · rw [hab] at hf; cases hf
      rcases hadv.deadline with hnone | hk | ⟨rfl, -⟩
      · rw [hnone] at hd; cases hd
      · exact h i r₀ d hr₀ hf₀ (hk ▸ hd)
      · exact absurd (by rw [hr₀, Option.map_some, hf₀]) hp
    · exact h j r d hr' hf hd

/-- The event is the wake-up of the timer task of run `i`. -/
def EngineEvent.isFire (i : Nat) : EngineEvent → Bool
  | .fire j => decide (j = i)
  | _ => false

/-- A timer that has fired stays so. -/
theorem Engine.fired_step {i : Nat} {r : SandboxRun} (hr : s.runs[i]? = some r)
    (hf : r.timer = .fired) (hs : s.step e = some t) :
    ∃ r', t.runs[i]? = some r' ∧ r'.timer = .fired := by
  rcases Engine.step_cases hs with ⟨_, _, -, rfl⟩ | ⟨k, r₀, -, hr₀, hp, rfl⟩ |
    ⟨k, a, r₀, r₁, -, hr₀, ha, rfl⟩
  · obtain ⟨hi, -⟩ := List.getElem?_eq_some_iff.mp hr
    exact ⟨r, by rw [List.getElem?_append_left hi]; exact hr, hf⟩
  · by_cases hki : k = i
    · subst hki
      exact ⟨_, getElem?_set_self hr₀, rfl⟩
    · exact ⟨r, by rw [List.getElem?_set_ne hki]; exact hr, hf⟩
  · by_cases hki : k = i
    · subst hki
      rw [hr₀, Option.some.injEq] at hr
      subst hr
      refine ⟨r₁, getElem?_set_self hr₀, ?_⟩
      rcases (SandboxRun.advances ha).timer with ht | ⟨hp, -, -⟩
      · rw [ht, hf]
      · rw [hf] at hp; cases hp
    · exact ⟨r, by rw [List.getElem?_set_ne hki]; exact hr, hf⟩

/-- Only a pending timer fires, and it has fired then. -/
theorem Engine.fire_inv {i : Nat} (hs : s.step e = some t) (he : e.isFire i = true) :
    (∃ r, s.runs[i]? = some r ∧ r.timer = .pending) ∧
    (∃ r, t.runs[i]? = some r ∧ r.timer = .fired) := by
  rcases Engine.step_cases hs with ⟨_, _, rfl, -⟩ | ⟨k, r, rfl, hr, hp, rfl⟩ |
    ⟨_, _, _, _, rfl, -⟩
  · cases he
  · obtain rfl : k = i := of_decide_eq_true he
    exact ⟨⟨r, hr, hp⟩, ⟨_, getElem?_set_self hr, rfl⟩⟩
  · cases he

/-- A timer fires at most once, and a timer whose task woke up has fired. -/
theorem countP_fire_le_one {ms : List (Move Engine EngineEvent)}
    (h : Run Engine.step Engine.new ms s) (i : Nat) :
    ms.countP (fun m => m.ev.isFire i) ≤ 1 ∧
    (ms.countP (fun m => m.ev.isFire i) = 1 → ∃ r, s.runs[i]? = some r ∧ r.timer = .fired) := by
  induction h with
  | nil => simp
  | @snoc ms s t e _ hs ih =>
      obtain ⟨hle, hfired⟩ := ih
      rw [List.countP_append, List.countP_singleton]
      by_cases hfi : e.isFire i = true
      · obtain ⟨⟨r, hr, hp⟩, hpost⟩ := Engine.fire_inv hs hfi
        have hzero : ms.countP (fun m => m.ev.isFire i) = 0 := by
          by_contra hne
          obtain ⟨r', hr', hf⟩ := hfired (by omega)
          rw [hr, Option.some.injEq] at hr'
          rw [← hr', hp] at hf
          cases hf
        rw [hzero, if_pos hfi]
        exact ⟨Nat.le_refl _, fun _ => hpost⟩
      · rw [if_neg hfi, Nat.add_zero]
        refine ⟨hle, fun h1 => ?_⟩
        obtain ⟨r, hr, hf⟩ := hfired h1
        exact Engine.fired_step hr hf hs

/-- In every run of the engine whose stores are all armed before their own timer fires, the
guests are interrupted in time in every state, and no timer fires twice.  Conversely, a store
armed after its own timer fired lets its guest run past the timeout. -/
theorem enforced_of_prompt {ms : List (Move Engine EngineEvent)}
    (h : Run Engine.step Engine.new ms s) :
    ((∀ m ∈ ms, Prompt m.pre m.ev) →
      Enforced s ∧ ∀ i, ms.countP (fun m => m.ev.isFire i) ≤ 1) ∧
    (∀ e t, s.step e = some t → ¬ Prompt s e →
      ∃ i u, t.step (.act i .enterGuest) = some u ∧ ¬ Enforced u) := by
  constructor
  · intro hp
    have hinv : DeadlinesReached s ∧ DeadlinesNear s := by
      refine h.invariant (I := fun s => DeadlinesReached s ∧ DeadlinesNear s)
        (C := fun m => Prompt m.pre m.ev) ⟨?_, deadlinesNear_new⟩ ?_ hp
      · intro i r d hr
        simp [Engine.new] at hr
      · intro s e t hi hc hs
        exact ⟨deadlinesReached_step hi.1 hi.2 hc hs, deadlinesNear_step hi.2 hs⟩
    exact ⟨hinv.1.enforced, fun i => (countP_fire_le_one h i).1⟩
  · intro e t hs hnp
    obtain ⟨i, r, rfl, hr, hf⟩ := Engine.late_of_not_prompt hnp
    rcases Engine.step_cases hs with ⟨_, _, he, -⟩ | ⟨_, _, he, -⟩ |
      ⟨i', a, r₀, r₁, he, hr₀, ha, rfl⟩
    · cases he
    · cases he
    · cases he
      rw [hr₀, Option.some.injEq] at hr
      subst hr
      cases hph : r₀.phase <;> simp only [SandboxRun.advance, hph] at ha <;> cases ha
      -- the store is armed one above the epoch and entering the guest increments nothing
      refine ⟨i, { s with
        runs := (s.runs.set i { r₀ with phase := .armed (s.epoch + 1) }).set i
          { r₀ with phase := .guest (s.epoch + 1) } }, ?_, fun hen => ?_⟩
      · simp only [Engine.step, getElem?_set_self hr₀, SandboxRun.advance, Option.map_some]
      · have hle := hen i _ (s.epoch + 1) (getElem?_set_self (getElem?_set_self hr₀)) hf rfl
        exact absurd hle (Nat.not_succ_le_self _)

/-- When the first timer of `ownTimeout` has fired, its guest runs with its deadline reached. -/
def ownTimeoutFired : Engine :=
  ⟨1, [⟨.executeCompiled, 100, .fired, .guest 1⟩, ⟨.executeCompiled, 5000, .pending, .scheduled⟩]⟩

theorem ownTimeout_enforced :
    Run Engine.step Engine.new (moves Engine.step Engine.new (ownTimeout.take 6)) ownTimeoutFired ∧
      Enforced ownTimeoutFired := by
  have hrun := exec_run
    (show exec Engine.step Engine.new (ownTimeout.take 6) = some ownTimeoutFired from rfl)
  exact ⟨hrun, ((enforced_of_prompt hrun).1 (by decide)).1⟩

/-- One call of `execute` whose timer fires while the closure is still queued. -/
def lostTimeout : List EngineEvent :=
  [.call .execute 1, .fire 0, .act 0 .start, .act 0 (.validate none), .act 0 (.compile none),
   .act 0 .setEpochDeadline, .act 0 .enterGuest]

/-- The guest of `lostTimeout` runs at epoch 1 with deadline 2, and no timer is left. -/
def lostTimeoutEnd : Engine := ⟨1, [⟨.execute, 1, .fired, .guest 2⟩]⟩

theorem lostTimeout_not_enforced :
    ∃ ms s, Run Engine.step Engine.new ms s ∧ ¬ Enforced s := by
  have hrun := exec_run
    (show exec Engine.step Engine.new lostTimeout = some lostTimeoutEnd from rfl)
  refine ⟨_, lostTimeoutEnd, hrun, fun hen => ?_⟩
  have hle : 2 ≤ 1 := hen 0 _ 2 rfl rfl rfl
  exact absurd hle (by decide)

end FerroEdge.WasmRuntime
