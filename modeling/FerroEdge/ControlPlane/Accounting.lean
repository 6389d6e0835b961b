import FerroEdge.ControlPlane.System

/-!
# Task accounting

A dispatch counts its task when it starts, and stores one result and counts it again when it
ends, on one of three paths.  `tasks_conserved` says that in every reachable state the
counters and the results add up, that a stored result is never changed, and that a result
that reports success is the answer that the dispatch received.

The steps of a dispatch fall into three kinds (`DispatchRun.Books`): the first one, the one
that stores the result, and those that leave the books alone.
-/

namespace FerroEdge.ControlPlane

open Machine

/-- The task has been counted as submitted and its result has not been stored. -/
def DispatchPc.pending : DispatchPc → Bool
  | .submit | .done => false
  | _ => true

def Proc.pending (p : Proc) : Bool := p.run?.any fun r => r.pc.pending

variable {X : Externals} {env : Env} {s t : Sys} {e : Event} {i : Nat} {r r' : DispatchRun}
  {id : String}

/-! ## The books of a dispatch -/

/-- What a step of a dispatch does to the counters and the results: it keeps them, except that
the first step counts the task, or it stores the result. -/
inductive DispatchRun.Books (app : AppState) (r : DispatchRun) (app' : AppState)
    (r' : DispatchRun) : Prop where
  | keep :
      r.pc ≠ .done → r'.pc.pending = true → app'.tasks = app.tasks →
      app'.totalSubmitted = app.totalSubmitted + (if r.pc.pending then 0 else 1) →
      app'.totalSuccess = app.totalSuccess → app'.totalFailed = app.totalFailed →
      Books app r app' r'
  | store (v : TaskResult) :
      r.pc.pending = true → r'.pc = .done → app'.tasks = app.tasks.insert r.spec.taskId v →
      app'.totalSubmitted = app.totalSubmitted →
      app'.totalSuccess = app.totalSuccess + (if v.success then 1 else 0) →
      app'.totalFailed = app.totalFailed + (if !v.success then 1 else 0) →
      (v.success = true →
        ∃ node resp, r.pc = .storeSuccess node resp ∧ v = r.successResult node resp) →
      Books app r app' r'

theorem DispatchPc.ne_done_of_pending {pc : DispatchPc} (h : pc.pending = true) : pc ≠ .done := by
  rintro rfl
  cases h

/-- A step from one pending state to another. -/
theorem DispatchRun.Books.quiet {app app' : AppState} (hpc : r.pc.pending = true)
    (hpc' : r'.pc.pending = true) (htasks : app'.tasks = app.tasks)
    (hsub : app'.totalSubmitted = app.totalSubmitted)
    (hsucc : app'.totalSuccess = app.totalSuccess) (hfail : app'.totalFailed = app.totalFailed) :
    Books app r app' r' :=
  .keep (DispatchPc.ne_done_of_pending hpc) hpc' htasks (by rw [hpc, hsub]; rfl) hsucc hfail

theorem DispatchRun.onSelect_pending (r : DispatchRun) (selected : Option NodeInfo) :
    (r.onSelect selected).pc.pending = true := by
  obtain ⟨node, -, h | h⟩ | h | h := onSelect_pc r selected <;> rw [h] <;> rfl

theorem DispatchRun.onResult_pending (X : Externals) (now : Nat) (node : NodeInfo)
    (result : Except Status ExecuteTaskResponse) (r : DispatchRun) :
    (r.onResult X now node result).pc.pending = true := by
  obtain ⟨_, _, _, h⟩ | ⟨_, h⟩ | ⟨_, _, h⟩ | ⟨_, _, h⟩ := onResult_cases X now node result r
  all_goals
    rw [h]
    rfl

theorem DispatchRun.afterFailure_pending (now : Nat) (r : DispatchRun) :
    (r.afterFailure now).pc.pending = true := by
  obtain ⟨_, h⟩ | ⟨_, _, h⟩ := afterFailure_cases now r <;> rw [h] <;> rfl

theorem DispatchRun.books {now : Nat} {sh sh' : Shared}
    (h : r.step X now env sh = some (sh', r')) : Books sh.app r sh'.app r' := by
  cases step_inv h with
  | submit hpc => exact .keep (by rw [hpc]; nofun) rfl rfl (by rw [hpc]; rfl) rfl rfl
  | storeSuccess hpc =>
      exact .store _ (by rw [hpc]; rfl) rfl rfl rfl rfl rfl fun _ => ⟨_, _, hpc, rfl⟩
  | storeFailure hpc =>
      have hpend : r.pc.pending = true := by
        cases hpc with
        | inl hpc => rw [hpc.1]; rfl
        | inr hpc => rw [hpc.1]; rfl
      exact .store _ hpend rfl rfl rfl rfl rfl fun hv => by cases hv
  | select hpc =>
      obtain ⟨k, hk⟩ := selectNodeForTask_fst now env.seed r.triedNodes sh.app
      have hpend : r.pc.pending = true := by rw [hpc]; rfl
      refine .quiet hpend (onSelect_pending ..) ?_ ?_ ?_ ?_ <;> dsimp only <;> rw [hk] <;> rfl
  | endSleep hpc =>
      have hpend : r.pc.pending = true := by
        cases hpc with
        | inl hpc => rw [hpc]; rfl
        | inr hpc => rw [hpc]; rfl
      exact .quiet hpend rfl rfl rfl rfl rfl
  | noChannel hpc => exact .quiet (by rw [hpc]; rfl) (onResult_pending ..) rfl rfl rfl rfl
  | answer hpc => exact .quiet (by rw [hpc]; rfl) (onResult_pending ..) rfl rfl rfl rfl
  | recordFailure hpc => exact .quiet (by rw [hpc]; rfl) (afterFailure_pending ..) rfl rfl rfl rfl
  | enqueue hpc => exact .quiet (by rw [hpc]; rfl) rfl rfl rfl rfl rfl
  | endQueueSleep hpc => exact .quiet (by rw [hpc]; rfl) rfl rfl rfl rfl rfl
  | dequeueRead hpc => exact .quiet (by rw [hpc]; rfl) rfl rfl rfl rfl rfl
  | dequeueWrite hpc => exact .quiet (by rw [hpc]; rfl) rfl rfl rfl rfl rfl
  | countRetry hpc => exact .quiet (by rw [hpc]; rfl) rfl rfl rfl rfl rfl
  | clonePool hpc => exact .quiet (by rw [hpc]; rfl) rfl rfl rfl rfl rfl
  | channel hpc => exact .quiet (by rw [hpc]; rfl) rfl rfl rfl rfl rfl
  | recordSuccess hpc => exact .quiet (by rw [hpc]; rfl) rfl rfl rfl rfl rfl

/-! ## The books of the control plane -/

/-- A step that is no step of a dispatch leaves the books and the dispatches alone. -/
theorem Sys.Step.books_quiet (h : Sys.Step X s e t) (hq : s.stepping e = none) :
    t.shared.app.tasks = s.shared.app.tasks ∧
    t.shared.app.totalSubmitted = s.shared.app.totalSubmitted ∧
    t.shared.app.totalSuccess = s.shared.app.totalSuccess ∧
    t.shared.app.totalFailed = s.shared.app.totalFailed := by
  rw [h.app_quiet hq]
  exact ⟨rfl, rfl, rfl, rfl⟩

/-- It also leaves the number of dispatches with a property alone, when no new one has it. -/
theorem Sys.Step.countP_quiet (h : Sys.Step X s e t) (hq : s.stepping e = none)
    (f : DispatchRun → Bool) (hnew : ∀ spec, f (.new spec) = false) :
    t.procs.countP (fun p => p.run?.any f) = s.procs.countP (fun p => p.run?.any f) := by
  have hnone : ∀ p : Proc, p.run? = none → p.run?.any f = false := fun p hp => by rw [hp]; rfl
  cases h with
  | @start e p he _ =>
      have hp := hnone p (by cases e <;> cases he <;> rfl)
      simp [hp]
  | tick => rfl
  | rehash => rfl
  | dispatch hi =>
      rw [Sys.stepping_run hi] at hq
      cases hq
  | @other i env p p' sh new hi hp hrun =>
      have hother := Proc.step_other hp hrun
      have hp' : p'.run?.any f = false := by
        obtain hp' | ⟨spec, rfl, -⟩ := hother.next
        · exact hnone p' hp'
        · exact hnew spec
      have hspawn : ((new.map Proc.dispatch).toList).countP (fun p => p.run?.any f) = 0 := by
        cases new with
        | none => rfl
        | some r =>
            obtain ⟨⟨spec, rfl⟩, -⟩ := hother.spawned r rfl
            simp [Proc.run?, hnew spec]
      have hset := countP_set_add (fun p : Proc => p.run?.any f) (b := p') hi
      rw [hnone p hp, hp'] at hset
      rw [List.countP_append, hspawn]
      exact hset

/-- A task id that a process uses was used by it before, or it is new and fresh. -/
theorem Sys.Step.taskId_inv {p : Proc} (h : Sys.Step X s e t) (hp : t.procs[i]? = some p)
    (hid : p.taskId? = some id) :
    (∃ q, s.procs[i]? = some q ∧ q.taskId? = some id) ∨
    i = s.procs.length ∧ s.fresh id = true := by
  cases h with
  | start he hfresh =>
      obtain ⟨hi, rfl⟩ | ⟨-, hold⟩ := getElem?_snoc_inv hp
      · rw [hid] at hfresh
        exact Or.inr ⟨hi, hfresh⟩
      · exact Or.inl ⟨p, hold, hid⟩
  | tick => exact Or.inl ⟨p, hp, hid⟩
  | rehash => exact Or.inl ⟨p, hp, hid⟩
  | dispatch hi hrun =>
      obtain ⟨rfl, rfl⟩ | ⟨-, hold⟩ := getElem?_set_inv hp
      · refine Or.inl ⟨_, hi, ?_⟩
        rw [← hid]
        simp only [Proc.taskId?, DispatchRun.step_spec hrun]
      · exact Or.inl ⟨p, hold, hid⟩
  | @other j env q q' sh new hj hq hrun =>
      have hother := Proc.step_other hq hrun
      have hset : (s.procs.set j q')[i]? = some p →
          ∃ q, s.procs[i]? = some q ∧ q.taskId? = some id := by
        intro hset
        obtain ⟨rfl, rfl⟩ | ⟨-, hold⟩ := getElem?_set_inv hset
        · obtain hnone | hsame := hother.taskId
          · rw [hid] at hnone
            cases hnone
          · exact ⟨q, hj, hsame.symm.trans hid⟩
        · exact ⟨p, hold, hid⟩
      cases new with
      | none => exact Or.inl (hset (by simpa using hp))
      | some r =>
          obtain ⟨hi, rfl⟩ | ⟨-, hold⟩ := getElem?_snoc_inv hp
          · rw [List.length_set] at hi
            cases hid
            exact Or.inr ⟨hi, (hother.spawned r rfl).2⟩
          · exact Or.inl (hset hold)

/-! ## The invariant -/

/-- A dispatch of the table has stored its result under `id`. -/
def StoredIn (procs : List Proc) (id : String) : Prop :=
  ∃ (i : Nat) (r : DispatchRun),
    procs[i]? = some (.dispatch r) ∧ r.pc = .done ∧ r.spec.taskId = id

/-- The counters and the results add up. -/
structure Conserved (s : Sys) : Prop where
  submitted : s.shared.app.totalSubmitted =
    s.shared.app.totalSuccess + s.shared.app.totalFailed + s.procs.countP Proc.pending
  /-- There is an entry for each dispatch that has stored its result, and no other. -/
  entries : ∀ id, id ∈ s.shared.app.tasks ↔ StoredIn s.procs id
  success : s.shared.app.tasks.values.countP (fun v => v.success) = s.shared.app.totalSuccess
  failed : s.shared.app.tasks.values.countP (fun v => !v.success) = s.shared.app.totalFailed
  /-- No two processes use one task id. -/
  distinct : ∀ (i j : Nat) (p q : Proc) (id : String), s.procs[i]? = some p →
    s.procs[j]? = some q → p.taskId? = some id → q.taskId? = some id → i = j

theorem Conserved.init (url strategy : String) : Conserved (Sys.init url strategy) where
  submitted := rfl
  entries id := by simp [StoredIn, Sys.init, Shared.init, AppState.init]
  success := rfl
  failed := rfl
  distinct i j p q id hp := by cases hp

/-- Where a dispatch that has not stored its result is replaced, the new one may have. -/
theorem storedIn_set {procs : List Proc} (hi : procs[i]? = some (.dispatch r))
    (hr : r.pc ≠ .done) :
    StoredIn (procs.set i (.dispatch r')) id ↔
      (r'.pc = .done ∧ r'.spec.taskId = id) ∨ StoredIn procs id := by
  constructor
  · rintro ⟨j, q, hj, hdone, hid⟩
    obtain ⟨-, heq⟩ | ⟨-, hold⟩ := getElem?_set_inv hj
    · cases heq
      exact Or.inl ⟨hdone, hid⟩
    · exact Or.inr ⟨j, q, hold, hdone, hid⟩
  · rintro (⟨hdone, hid⟩ | ⟨j, q, hj, hdone, hid⟩)
    · exact ⟨i, r', getElem?_set_self hi, hdone, hid⟩
    · refine ⟨j, q, ?_, hdone, hid⟩
      rwa [List.getElem?_set_ne]
      rintro rfl
      rw [hi] at hj
      cases hj
      exact hr hdone

/-- The task of a dispatch that has not stored its result has no entry. -/
theorem Conserved.notMem (hI : Conserved s) (hi : s.procs[i]? = some (.dispatch r))
    (hr : r.pc ≠ .done) : r.spec.taskId ∉ s.shared.app.tasks := by
  intro hmem
  obtain ⟨j, q, hj, hdone, hid⟩ := (hI.entries _).mp hmem
  have hji : j = i := hI.distinct j i _ _ r.spec.taskId hj hi (congrArg some hid) rfl
  subst hji
  rw [hi] at hj
  cases hj
  exact hr hdone

theorem Conserved.distinct_step (hI : Conserved s) (h : Sys.Step X s e t) :
    ∀ (i j : Nat) (p q : Proc) (id : String), t.procs[i]? = some p →
      t.procs[j]? = some q → p.taskId? = some id → q.taskId? = some id → i = j := by
  have hfresh : ∀ (k : Nat) (p : Proc) (id : String), s.procs[k]? = some p →
      p.taskId? = some id → s.fresh id = true → False := by
    intro k p id hp hid hf
    have := List.all_eq_true.mp hf p (List.mem_of_getElem? hp)
    rw [hid, bne_self_eq_false] at this
    cases this
  intro i j p q id hp hq hpid hqid
  obtain ⟨p₀, hp₀, hpid₀⟩ | ⟨hi, hfi⟩ := h.taskId_inv hp hpid
  · obtain ⟨q₀, hq₀, hqid₀⟩ | ⟨-, hfj⟩ := h.taskId_inv hq hqid
    · exact hI.distinct i j p₀ q₀ id hp₀ hq₀ hpid₀ hqid₀
    · exact (hfresh i p₀ id hp₀ hpid₀ hfj).elim
  · obtain ⟨q₀, hq₀, hqid₀⟩ | ⟨hj, -⟩ := h.taskId_inv hq hqid
    · exact (hfresh j q₀ id hq₀ hqid₀ hfi).elim
    · rw [hi, hj]

theorem Conserved.step_quiet (hI : Conserved s) (h : Sys.Step X s e t)
    (hq : s.stepping e = none) : Conserved t := by
  obtain ⟨htasks, hsub, hsucc, hfail⟩ := h.books_quiet hq
  have hpend : t.procs.countP Proc.pending = s.procs.countP Proc.pending :=
    h.countP_quiet hq (fun r => r.pc.pending) fun _ => rfl
  have hstored : ∀ id, StoredIn t.procs id ↔ StoredIn s.procs id := by
    intro id
    constructor
    · rintro ⟨i, r, hr, hdone, hid⟩
      obtain hold | ⟨spec, rfl, -⟩ | ⟨env, r₀, rfl, hr₀, -⟩ := h.dispatch_inv hr
      · exact ⟨i, r, hold, hdone, hid⟩
      · cases hdone
      · rw [Sys.stepping_run hr₀] at hq
        cases hq
    · rintro ⟨i, r, hr, hdone, hid⟩
      exact ⟨i, r, h.dispatch_quiet hq hr, hdone, hid⟩
  refine ⟨?_, ?_, ?_, ?_, hI.distinct_step h⟩
  · rw [hsub, hsucc, hfail, hpend]
    exact hI.submitted
  · intro id
    rw [htasks, hstored id]
    exact hI.entries id
  · rw [htasks, hsucc]
    exact hI.success
  · rw [htasks, hfail]
    exact hI.failed

theorem Conserved.step (hI : Conserved s) (h : s.step X e = some t) : Conserved t := by
  have hstep := Sys.step_inv h
  have hdistinct := hI.distinct_step hstep
  obtain hq | ⟨i, env, r, r', sh, rfl, hi, hrun, rfl⟩ := hstep.quiet_or_dispatch
  · exact hI.step_quiet hstep hq
  · have hpend : (s.procs.set i (.dispatch r')).countP Proc.pending +
        (if r.pc.pending then 1 else 0) =
        s.procs.countP Proc.pending + if r'.pc.pending then 1 else 0 :=
      countP_set_add Proc.pending hi
    have hsub₀ := hI.submitted
    cases DispatchRun.books hrun with
    | keep hpc hpc' htasks hsub hsucc hfail =>
        refine ⟨?_, fun id => ?_, ?_, ?_, hdistinct⟩
        · dsimp only
          rw [hsub, hsucc, hfail]
          rw [hpc'] at hpend
          cases hp : r.pc.pending <;>
            simp only [hp, if_true, if_false, Bool.false_eq_true] at hpend ⊢
          · omega
          · omega
        · dsimp only
          rw [htasks, storedIn_set hi hpc, hI.entries id]
          simp [DispatchPc.ne_done_of_pending hpc']
        · dsimp only
          rw [htasks, hsucc]
          exact hI.success
        · dsimp only
          rw [htasks, hfail]
          exact hI.failed
    | store v hpc hpc' htasks hsub hsucc hfail _ =>
        have hnd := DispatchPc.ne_done_of_pending hpc
        have hnew := hI.notMem hi hnd
        refine ⟨?_, fun id => ?_, ?_, ?_, hdistinct⟩
        · dsimp only
          rw [hsub, hsucc, hfail]
          rw [hpc, hpc'] at hpend
          cases hv : v.success <;>
            simp only [DispatchPc.pending, if_true, if_false, Bool.false_eq_true, Bool.not_true,
              Bool.not_false] at hpend ⊢
          · omega
          · omega
        · dsimp only
          rw [htasks, storedIn_set hi hnd, AList.mem_insert, hI.entries id, hpc',
            DispatchRun.step_spec hrun]
          simp [eq_comm]
        · dsimp only
          rw [htasks, hsucc, HashMap.countP_values_insert _ hnew, hI.success]
        · dsimp only
          rw [htasks, hfail, HashMap.countP_values_insert _ hnew, hI.failed]

theorem Conserved.of_run {url strategy : String} {ms : List (Move Sys Event)}
    (h : Run (Sys.step X) (Sys.init url strategy) ms s) : Conserved s :=
  h.always (Conserved.init url strategy) fun _ _ _ hI hs => hI.step hs

/-! ## Results -/

/-- The dispatch of the process `i` with the task `id` received the answer `resp`, which
reports success, to the RPC it had sent to `node`. -/
def Received (ms : List (Move Sys Event)) (i : Nat) (id : String) (node : NodeInfo)
    (resp : ExecuteTaskResponse) : Prop :=
  ∃ m ∈ ms, ∃ env r client, m.ev = .run i env ∧ m.pre.procs[i]? = some (.dispatch r) ∧
    r.spec.taskId = id ∧ r.pc = .inFlight node client ∧ env.rpc = .ok resp ∧ resp.success = true

theorem Received.mono {ms ns : List (Move Sys Event)} {node : NodeInfo}
    {resp : ExecuteTaskResponse} (h : Received ms i id node resp) :
    Received (ms ++ ns) i id node resp := by
  obtain ⟨m, hm, hrest⟩ := h
  exact ⟨m, List.mem_append_left _ hm, hrest⟩

/-- The answer that a dispatch is about to store. -/
def DispatchPc.answer : DispatchPc → Option (NodeInfo × ExecuteTaskResponse)
  | .recordSuccess node resp | .storeSuccess node resp => some (node, resp)
  | _ => none

/-- A dispatch gets the answer it is about to store from its RPC. -/
theorem DispatchRun.step_answer {now : Nat} {sh sh' : Shared} {node : NodeInfo}
    {resp : ExecuteTaskResponse} (h : r.step X now env sh = some (sh', r'))
    (ha : r'.pc.answer = some (node, resp)) :
    r.pc.answer = some (node, resp) ∨
    ∃ client, r.pc = .inFlight node client ∧ env.rpc = .ok resp ∧ resp.success = true := by
  have hresult : ∀ n result, (r.onResult X now n result).pc.answer = some (node, resp) →
      n = node ∧ result = .ok resp ∧ resp.success = true := by
    intro n result ha
    obtain ⟨resp', hok, hsucc, h⟩ | ⟨_, h⟩ | ⟨_, _, h⟩ | ⟨_, _, h⟩ :=
      onResult_cases X now n result r
    · rw [h] at ha
      cases ha
      exact ⟨rfl, hok, hsucc⟩
    all_goals
      rw [h] at ha
      cases ha
  cases step_inv h with
  | answer hpc =>
      obtain ⟨rfl, hrpc, hsucc⟩ := hresult _ _ ha
      exact Or.inr ⟨_, hpc, hrpc, hsucc⟩
  | noChannel =>
      obtain ⟨-, hres, -⟩ := hresult _ _ ha
      cases hres
  | recordSuccess hpc =>
      rw [hpc]
      exact Or.inl ha
  | select => obtain ⟨n, -, h | h⟩ | h | h := onSelect_pc r _ <;> rw [h] at ha <;> cases ha
  | recordFailure =>
      obtain ⟨_, h⟩ | ⟨_, _, h⟩ := afterFailure_cases now r <;> rw [h] at ha <;> cases ha
  | _ => cases ha

/-- An answer that a dispatch is about to store is one that it received. -/
theorem answer_received {s₀ : Sys} {ms : List (Move Sys Event)} (h0 : s₀.procs = [])
    (h : Run (Sys.step X) s₀ ms s) {node : NodeInfo} {resp : ExecuteTaskResponse}
    (hi : s.procs[i]? = some (.dispatch r)) (ha : r.pc.answer = some (node, resp)) :
    Received ms i r.spec.taskId node resp := by
  induction h generalizing r with
  | nil =>
      rw [h0] at hi
      cases hi
  | @snoc ms s t e _ hs ih =>
      obtain hold | ⟨spec, rfl, -⟩ | ⟨env, r₀, rfl, hr₀, hrun⟩ :=
        (Sys.step_inv hs).dispatch_inv hi
      · exact (ih hold ha).mono
      · cases ha
      · rw [DispatchRun.step_spec hrun]
        obtain hold | ⟨client, hpc, hrpc, hsucc⟩ := DispatchRun.step_answer hrun ha
        · exact (ih hr₀ hold).mono
        · exact ⟨_, List.mem_concat_self, env, r₀, client, rfl,
            hr₀, rfl, hpc, hrpc, hsucc⟩

/-- A result was there before, or a dispatch has just stored it. -/
theorem Sys.Step.tasks_inv {v : TaskResult} (h : Sys.Step X s e t)
    (hv : t.shared.app.tasks.lookup id = some v) :
    s.shared.app.tasks.lookup id = some v ∨
    ∃ (i : Nat) (r : DispatchRun), s.procs[i]? = some (.dispatch r) ∧ r.spec.taskId = id ∧
      (v.success = true →
        ∃ node resp, r.pc = .storeSuccess node resp ∧ v = r.successResult node resp) := by
  obtain hq | ⟨i, env, r, r', sh, rfl, hi, hrun, rfl⟩ := h.quiet_or_dispatch
  · rw [(h.books_quiet hq).1] at hv
    exact Or.inl hv
  · dsimp only at hv
    cases DispatchRun.books hrun with
    | keep _ _ htasks =>
        rw [htasks] at hv
        exact Or.inl hv
    | store v' _ _ htasks _ _ _ hsucc =>
        rw [htasks, HashMap.lookup_insert_if] at hv
        split at hv
        case isTrue hid =>
          cases hv
          exact Or.inr ⟨i, r, hi, hid.symm, hsucc⟩
        case isFalse => exact Or.inl hv

/-- Every result that reports success is an answer its dispatch received. -/
def Answered (ms : List (Move Sys Event)) (s : Sys) : Prop :=
  ∀ id v, s.shared.app.tasks.lookup id = some v → v.success = true →
    ∃ i node resp, Received ms i id node resp ∧
      v = ⟨id, node.id, true, resp.output, resp.executionTimeMs, none⟩

theorem answered {s₀ : Sys} {ms : List (Move Sys Event)} (h0 : s₀.procs = [])
    (ht : s₀.shared.app.tasks = ∅) (h : Run (Sys.step X) s₀ ms s) : Answered ms s := by
  induction h with
  | nil =>
      intro id v hv
      rw [ht] at hv
      cases hv
  | @snoc ms s t e hrun hs ih =>
      intro id v hv hsucc
      obtain hold | ⟨i, r, hi, rfl, hres⟩ := (Sys.step_inv hs).tasks_inv hv
      · obtain ⟨i, node, resp, hrec, hv⟩ := ih id v hold hsucc
        exact ⟨i, node, resp, hrec.mono, hv⟩
      · obtain ⟨node, resp, hpc, rfl⟩ := hres hsucc
        exact ⟨i, node, resp, (answer_received h0 hrun hi (by rw [hpc]; rfl)).mono, rfl⟩

/-- A stored result is never changed or removed. -/
theorem Conserved.lookup_step {v : TaskResult} (hI : Conserved s) (h : s.step X e = some t)
    (hv : s.shared.app.tasks.lookup id = some v) : t.shared.app.tasks.lookup id = some v := by
  have hstep := Sys.step_inv h
  obtain hq | ⟨i, env, r, r', sh, rfl, hi, hrun, rfl⟩ := hstep.quiet_or_dispatch
  · rw [(hstep.books_quiet hq).1]
    exact hv
  · dsimp only
    cases DispatchRun.books hrun with
    | keep _ _ htasks =>
        rw [htasks]
        exact hv
    | store v' hpc _ htasks =>
        have hnew := hI.notMem hi (DispatchPc.ne_done_of_pending hpc)
        rw [htasks, HashMap.lookup_insert_if, if_neg]
        · exact hv
        · rintro rfl
          exact hnew (AList.lookup_isSome.mp (by rw [hv]; rfl))

/-- In every run: the counters and the results add up in the state it reaches, the results of
every state on the way are still there, and those that report success were received. -/
theorem tasks_conserved {url strategy : String} {ms : List (Move Sys Event)}
    (h : Run (Sys.step X) (Sys.init url strategy) ms s) :
    Conserved s ∧
    (∀ m ∈ ms, ∀ id v, m.pre.shared.app.tasks.lookup id = some v →
      s.shared.app.tasks.lookup id = some v) ∧
    Answered ms s := by
  refine ⟨.of_run h, fun m hm id v hv => ?_, answered rfl rfl h⟩
  obtain ⟨as, bs, rfl⟩ := List.append_of_mem hm
  obtain ⟨hpre, hs, hrest⟩ := h.at_move
  have hI := Conserved.of_run hpre
  have hstart : Conserved m.post ∧ m.post.shared.app.tasks.lookup id = some v :=
    ⟨hI.step hs, hI.lookup_step hs hv⟩
  exact (hrest.always (I := fun u => Conserved u ∧ u.shared.app.tasks.lookup id = some v) hstart
    fun _ _ _ hI hs => ⟨hI.1.step hs, hI.1.lookup_step hs hI.2⟩).2

/-- One task succeeds, and a second fails on the only node and waits to try another. -/
def twoTasks : List Event :=
  [.registerNode (.sample "n" "http://n:50051"), .run 0 {}] ++
  .submitTask "a" "" .sample :: sending 1 ++ .submitTask "b" "" .sample :: sending 2 ++
  answering 1 true ++ [.run 1 {}] ++ answering 2 false

theorem twoTasks_conserved :
    ∃ s, Run (Sys.step .sample) (Sys.init "" "round_robin")
      (moves (Sys.step .sample) (Sys.init "" "round_robin") twoTasks) s ∧
      Conserved s ∧ (s.shared.app.totalSubmitted = 2 ∧ s.shared.app.totalSuccess = 1) := by
  have htest : (exec (Sys.step .sample) (Sys.init "" "round_robin") twoTasks).any (fun s =>
      s.shared.app.totalSubmitted == 2 && s.shared.app.totalSuccess == 1) = true := by decide
  obtain ⟨s, h, hs⟩ := exec_any_run htest
  exact ⟨s, h, (tasks_conserved h).1, by simpa using hs⟩

end FerroEdge.ControlPlane
