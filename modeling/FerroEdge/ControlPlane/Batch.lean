import FerroEdge.ControlPlane.System

/-!
# Rejected batches

`submit_tasks_batch` resolves and spawns item by item, and returns at the first item that does
not resolve.  The dispatches it has spawned by then are detached and go on.

`batch_atomic_iff` says that a batch that is rejected has started no dispatch exactly when it
was rejected for its size or at its first item.  The steps of the batch itself never change
the shared state.  `partialBatch_started` is a batch whose second item is bad.
-/

namespace FerroEdge.ControlPlane

open Machine

/-- The move is a step of the process `i` that starts another process. -/
def Starts (i : Nat) (m : Move Sys Event) : Prop :=
  m.ev.actor = some i ∧ m.pre.procs.length < m.post.procs.length

instance (i : Nat) (m : Move Sys Event) : Decidable (Starts i m) :=
  inferInstanceAs (Decidable (_ ∧ _))

/-- The process `i` has started no process in the run. -/
def Unstarted (i : Nat) (ms : List (Move Sys Event)) : Prop := ∀ m ∈ ms, ¬ Starts i m

instance (i : Nat) (ms : List (Move Sys Event)) : Decidable (Unstarted i ms) :=
  inferInstanceAs (Decidable (∀ m ∈ ms, _))

/-- The move is the step of a batch that rejects it for its size, or because its first item
does not resolve. -/
def RejectsFirst (X : Externals) (i : Nat) (m : Move Sys Event) : Prop :=
  m.ev.actor = some i ∧ ∃ b, m.pre.procs[i]? = some (.batch b) ∧
    (b.pc = .start ∧ 100 < b.tasks.length ∨
      ∃ item items e, b.tasks = item :: items ∧ b.pc = .resolving (item :: items) ∧
        resolveTaskInputs X m.pre.shared.app item = .error e)

def RejectedFirst (X : Externals) (i : Nat) (ms : List (Move Sys Event)) : Prop :=
  ∃ m ∈ ms, RejectsFirst X i m

variable {X : Externals} {env : Env} {s t : Sys} {e : Event} {i : Nat}
  {ms : List (Move Sys Event)} {m : Move Sys Event}

/-! ## Steps of a batch -/

/-- What a batch was before a step: the same, not yet there, or a batch that took the step. -/
theorem Sys.Step.batch_inv {b' : BatchRun} (h : Sys.Step X s e t)
    (hb : t.procs[i]? = some (.batch b')) :
    e.actor ≠ some i ∧ s.procs[i]? = some (.batch b') ∨
    e.actor ≠ some i ∧ s.procs[i]? = none ∧ (∃ traceId tasks, b' = .new traceId tasks) ∨
    ∃ env b new, e = .run i env ∧ s.procs[i]? = some (.batch b) ∧
      BatchRun.Step X env s.shared.app s.result s.procs.length s.fresh b b' new ∧
      t = { s with procs := s.procs.set i (.batch b') ++ (new.map Proc.dispatch).toList } := by
  by_cases hi : e.actor = some i
  · right
    right
    cases h with
    | @dispatch j env r r' sh hj hrun =>
        cases hi
        rw [getElem?_set_self hj] at hb
        cases hb
    | @other j env p p' sh new hj hp hrun =>
        cases hi
        rw [getElem?_set_append_self hj] at hb
        cases hb
        cases Proc.step_inv hrun with
        | @batch b _ _ hb => exact ⟨env, b, new, rfl, hj, BatchRun.step_inv hb, rfl⟩
    | start he => rw [Event.actor_of_starts he] at hi; cases hi
    | tick => cases hi
    | rehash => cases hi
  · obtain hold | ⟨hnone, he | ⟨spec, heq⟩⟩ := h.getElem?_inv hi hb
    · exact Or.inl ⟨hi, hold⟩
    · refine Or.inr (Or.inl ⟨hi, hnone, ?_⟩)
      cases e <;> cases he
      exact ⟨_, _, rfl⟩
    · cases heq

/-! ## The history of a batch -/

/-- What the run so far says about a batch. -/
def BatchHistory (X : Externals) (i : Nat) (b : BatchRun) (ms : List (Move Sys Event)) : Prop :=
  match b.pc with
  | .start => Unstarted i ms ∧ ¬ RejectedFirst X i ms
  | .resolving items =>
      items <:+ b.tasks ∧ (Unstarted i ms ↔ items = b.tasks) ∧ ¬ RejectedFirst X i ms
  | .returned (.error _) => Unstarted i ms ↔ RejectedFirst X i ms
  | .returned (.ok _) => True

theorem unstarted_snoc : Unstarted i (ms ++ [m]) ↔ Unstarted i ms ∧ ¬ Starts i m := by
  simp only [Unstarted, List.forall_mem_append, List.forall_mem_singleton]

theorem rejectedFirst_snoc :
    RejectedFirst X i (ms ++ [m]) ↔ RejectedFirst X i ms ∨ RejectsFirst X i m := by
  simp only [RejectedFirst, List.mem_append, List.mem_singleton, or_and_right, exists_or,
    exists_eq_left]

/-- A move of another process does not count. -/
theorem BatchHistory.snoc_other {b : BatchRun} (h : BatchHistory X i b ms)
    (hm : m.ev.actor ≠ some i) : BatchHistory X i b (ms ++ [m]) := by
  have hs : ¬ Starts i m := fun hst => hm hst.1
  have hr : ¬ RejectsFirst X i m := fun hre => hm hre.1
  unfold BatchHistory at h ⊢
  simp only [unstarted_snoc, rejectedFirst_snoc, hs, hr, not_false_eq_true, and_true, or_false]
  exact h

/-- A step of the batch extends its history. -/
theorem BatchHistory.snoc_self {b b' : BatchRun} {new : Option DispatchRun}
    (h : BatchHistory X i b ms) (hact : m.ev.actor = some i)
    (hb : m.pre.procs[i]? = some (.batch b))
    (hstep : BatchRun.Step X env m.pre.shared.app m.pre.result m.pre.procs.length m.pre.fresh
      b b' new)
    (hnew : m.pre.procs.length < m.post.procs.length ↔ new.isSome = true) :
    BatchHistory X i b' (ms ++ [m]) := by
  have hstarts : Starts i m ↔ new.isSome = true := by simp [Starts, hact, hnew]
  -- At the step of a batch, `RejectsFirst` speaks about this batch.
  have hrejects : RejectsFirst X i m ↔ (b.pc = .start ∧ 100 < b.tasks.length ∨
      ∃ item items e, b.tasks = item :: items ∧ b.pc = .resolving (item :: items) ∧
        resolveTaskInputs X m.pre.shared.app item = .error e) := by
    simp [RejectsFirst, hact, hb]
  cases hstep with
  | empty => trivial
  | join => trivial
  | tooMany hpc hlen =>
      simp only [BatchHistory, hpc] at h
      simp only [BatchHistory, unstarted_snoc, rejectedFirst_snoc, hstarts, hrejects, hpc, hlen]
      simp [h.1]
  | begin hpc hlen =>
      simp only [BatchHistory, hpc] at h
      simp only [BatchHistory, unstarted_snoc, rejectedFirst_snoc, hstarts, hrejects, hpc, hlen]
      simp [h]
  | @reject item items err hpc herr =>
      simp only [BatchHistory, hpc] at h
      obtain ⟨-, hiff, hno⟩ := h
      simp only [BatchHistory, unstarted_snoc, rejectedFirst_snoc, hstarts, hrejects, hpc, hiff]
      constructor
      · rintro ⟨htasks, -⟩
        exact Or.inr (Or.inr ⟨item, items, err, htasks.symm, rfl, herr⟩)
      · rintro (hrej | ⟨hfalse, -⟩ | ⟨item', items', err', htasks, heq, -⟩)
        · exact absurd hrej hno
        · cases hfalse
        · cases heq
          exact ⟨htasks.symm, by simp⟩
  | @spawn item items input wasmSource hpc hok =>
      simp only [BatchHistory, hpc] at h
      obtain ⟨hsuf, hiff, hno⟩ := h
      simp only [BatchHistory, unstarted_snoc, rejectedFirst_snoc, hstarts, hrejects, hpc]
      have hne : items ≠ b.tasks := by
        intro heq
        have hlen := hsuf.length_le
        rw [heq, List.length_cons] at hlen
        omega
      refine ⟨(List.suffix_cons item items).trans hsuf, by simp [hne], ?_⟩
      rintro (hrej | ⟨hfalse, -⟩ | ⟨item', items', err', -, heq, herr⟩)
      · exact hno hrej
      · cases hfalse
      · cases heq
        rw [hok] at herr
        cases herr

/-- Only processes that are there have taken steps. -/
theorem actor_lt {s₀ : Sys} (h : Run (Sys.step X) s₀ ms s) :
    ∀ m ∈ ms, ∀ j, m.ev.actor = some j → j < s.procs.length := by
  induction h with
  | nil => simp
  | @snoc ms s t e _ hs ih =>
      have hstep := Sys.step_inv hs
      have hkeep : ∀ j, j < s.procs.length → j < t.procs.length := by
        intro j hj
        cases hstep <;> simp <;> omega
      intro m hm j hj
      rw [List.mem_append, List.mem_singleton] at hm
      cases hm with
      | inl hm => exact hkeep j (ih m hm j hj)
      | inr hm =>
          subst hm
          apply hkeep
          cases hstep with
          | start he => rw [Event.actor_of_starts he] at hj; cases hj
          | tick => cases hj
          | rehash => cases hj
          | dispatch hi =>
              cases hj
              exact (List.getElem?_eq_some_iff.mp hi).1
          | other hi =>
              cases hj
              exact (List.getElem?_eq_some_iff.mp hi).1

theorem batchHistory {s₀ : Sys} {b : BatchRun} (h0 : s₀.procs = [])
    (h : Run (Sys.step X) s₀ ms s) (hb : s.procs[i]? = some (.batch b)) :
    BatchHistory X i b ms ∧ ∀ m ∈ ms, m.ev.actor = some i → m.post.shared = m.pre.shared := by
  induction h generalizing b with
  | nil =>
      rw [h0] at hb
      cases hb
  | @snoc ms s t e hrun hs ih =>
      have hshared : ∀ {m : Move Sys Event},
          (∀ m ∈ ms, m.ev.actor = some i → m.post.shared = m.pre.shared) →
          (m.ev.actor = some i → m.post.shared = m.pre.shared) →
          ∀ m' ∈ ms ++ [m], m'.ev.actor = some i → m'.post.shared = m'.pre.shared := by
        intro m hms hm
        exact List.forall_mem_append.mpr ⟨hms, List.forall_mem_singleton.mpr hm⟩
      obtain ⟨hact, hold⟩ | ⟨hact, hnone, traceId, tasks, rfl⟩ |
        ⟨env, b₀, new, rfl, hb₀, hstep, rfl⟩ := (Sys.step_inv hs).batch_inv hb
      · obtain ⟨hhist, hms⟩ := ih hold
        exact ⟨hhist.snoc_other hact, hshared hms fun h => absurd h hact⟩
      · -- The batch is new, so none of the moves is its own.
        have hnot : ∀ m ∈ ms, m.ev.actor ≠ some i := by
          intro m hm hi
          have hlt := actor_lt hrun m hm i hi
          rw [List.getElem?_eq_none_iff] at hnone
          omega
        have hhist : BatchHistory X i (.new traceId tasks) ms :=
          ⟨fun m hm hst => hnot m hm hst.1, fun ⟨m, hm, hre⟩ => hnot m hm hre.1⟩
        exact ⟨hhist.snoc_other hact,
          hshared (fun m hm hi => absurd hi (hnot m hm)) fun h => absurd h hact⟩
      · obtain ⟨hhist, hms⟩ := ih hb₀
        refine ⟨hhist.snoc_self rfl hb₀ hstep ?_, hshared hms fun _ => rfl⟩
        cases new <;> simp

/-- A rejected batch leaves the shared state alone in its own steps, and it has started no
dispatch exactly when it was rejected for its size or at its first item. -/
theorem batch_atomic_iff {url strategy : String} {b : BatchRun} {err : EdgeError}
    (h : Run (Sys.step X) (Sys.init url strategy) ms s) (hi : s.procs[i]? = some (.batch b))
    (hb : b.pc = .returned (.error err)) :
    (∀ m ∈ ms, m.ev.actor = some i → m.post.shared = m.pre.shared) ∧
    (Unstarted i ms ↔ RejectedFirst X i ms) := by
  obtain ⟨hhist, hshared⟩ := batchHistory rfl h hi
  simp only [BatchHistory, hb] at hhist
  exact ⟨hshared, hhist⟩

/-! ## Concrete runs -/

/-- An item without a source. -/
def sourceless : SubmitTaskRequest := { SubmitTaskRequest.sample with wasmBase64 := none }

/-- The error that a batch has returned. -/
def Proc.batchError? : Proc → Option EdgeError
  | .batch ⟨_, _, _, .returned (.error e)⟩ => some e
  | _ => none

theorem Proc.batchError_inv {p : Proc} {err : EdgeError} (h : p.batchError? = some err) :
    ∃ b, p = .batch b ∧ b.pc = .returned (.error err) := by
  unfold Proc.batchError? at h
  split at h
  · cases h
    exact ⟨_, rfl, rfl⟩
  · cases h

/-- The first item of a batch has no source. -/
def badFirst : List Event :=
  .submitTasksBatch "" [sourceless, .sample] :: List.replicate 2 (.run 0 {})

theorem badFirst_rejected :
    RejectedFirst .sample 0 (moves (Sys.step .sample) (Sys.init "" "round_robin") badFirst) := by
  have htest : (exec (Sys.step .sample) (Sys.init "" "round_robin") badFirst).any (fun s =>
      (s.procs[0]?.bind Proc.batchError?).isSome) = true := by decide
  obtain ⟨s, h, hs⟩ := exec_any_run htest
  obtain ⟨err, herr⟩ := Option.isSome_iff_exists.mp hs
  obtain ⟨p, hp, hperr⟩ := Option.bind_eq_some_iff.mp herr
  obtain ⟨b, rfl, hpc⟩ := Proc.batchError_inv hperr
  exact (batch_atomic_iff h hp hpc).2.mp (by decide)

/-- The second item of a batch has no source.  The dispatch of the first goes on. -/
def partialBatch : List Event :=
  [.registerNode (.sample "n" "http://n:50051"), .run 0 {},
   .submitTasksBatch "" [.sample, sourceless], .run 1 {}, .run 1 { uuid := "t" }, .run 1 {}] ++
  List.replicate 4 (.run 2 {})

/-- The batch is rejected, its first task is counted as submitted and its RPC is on its way. -/
theorem partialBatch_started :
    ∃ ms s b err p, Run (Sys.step .sample) (Sys.init "" "round_robin") ms s ∧
      s.procs[1]? = some (.batch b) ∧ b.pc = .returned (.error err) ∧ ¬ Unstarted 1 ms ∧
      s.shared.app.totalSubmitted = 1 ∧ s.procs[2]? = some p ∧ p.inFlight?.isSome = true := by
  have htest : (exec (Sys.step .sample) (Sys.init "" "round_robin") partialBatch).any (fun s =>
      (s.procs[1]?.bind Proc.batchError?).isSome && (s.shared.app.totalSubmitted == 1 &&
        (s.procs[2]?.bind Proc.inFlight?).isSome)) = true := by decide
  obtain ⟨s, h, hs⟩ := exec_any_run htest
  rw [Bool.and_eq_true, Bool.and_eq_true, beq_iff_eq] at hs
  obtain ⟨herr, htotal, hfl⟩ := hs
  obtain ⟨err, herr⟩ := Option.isSome_iff_exists.mp herr
  obtain ⟨q, hq, hqerr⟩ := Option.bind_eq_some_iff.mp herr
  obtain ⟨b, rfl, hpc⟩ := Proc.batchError_inv hqerr
  obtain ⟨rpc, hfl⟩ := Option.isSome_iff_exists.mp hfl
  obtain ⟨p, hp, hpfl⟩ := Option.bind_eq_some_iff.mp hfl
  exact ⟨_, s, b, err, p, h, hq, hpc, by decide, htotal, hp, by rw [hpfl]; rfl⟩

end FerroEdge.ControlPlane
